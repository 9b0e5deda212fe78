import Mathlib.Algebra.Order.Group.Nat
import Mathlib.Data.List.OfFn
import Mathlib.Tactic.Ring

/-! Byte layouts of records. A C compiler places each field at the next multiple of its alignment
and rounds the size of the whole up to the largest alignment; a packed reader slices the same
bytes one field after another. Where the two tables of offsets coincide, the reader recovers
exactly the fields that were laid out, whatever the padding holds. -/
namespace Tracewulf.Base

abbrev Bytes := List UInt8

namespace LittleEndian

/-- The `w` low-order bytes of a number, least significant first. -/
def encode : ℕ → ℕ → Bytes
  | 0, _ => []
  | w+1, n => UInt8.ofNat n :: encode w (n/256)

def decode : Bytes → ℕ
  | [] => 0
  | b::bs => b.toNat + 256*decode bs

@[simp] lemma length_encode (w n : ℕ) : (encode w n).length = w := by
  induction w generalizing n with
  | zero => rfl
  | succ w ih => simp [encode, ih]

lemma decode_encode (w n : ℕ) : decode (encode w n) = n % 256^w := by
  induction w generalizing n with
  | zero => simp [encode, decode, Nat.mod_one]
  | succ w ih =>
    have hb : (UInt8.ofNat n).toNat = n % 256 := by simp
    rw [encode, decode, ih, hb, pow_succ', Nat.mod_mul]

lemma decode_lt (bs : Bytes) : decode bs < 256^bs.length := by
  induction bs with
  | nil => simp [decode]
  | cons b bs ih =>
    have hb : b.toNat < 256 := b.toNat_lt
    rw [decode, List.length_cons, pow_succ]
    omega

lemma encode_decode (bs : Bytes) : encode bs.length (decode bs) = bs := by
  induction bs with
  | nil => rfl
  | cons b bs ih =>
    have hb : b.toNat < 256 := b.toNat_lt
    have hdiv : (b.toNat + 256*decode bs)/256 = decode bs := by omega
    have hlow : UInt8.ofNat (b.toNat + 256*decode bs) = b := by
      apply UInt8.toNat_inj.mp
      rw [UInt8.toNat_ofNat']
      omega
    rw [List.length_cons, encode, decode, hdiv, hlow, ih]

lemma decode_encode_of_lt {w n : ℕ} (h : n < 256^w) : decode (encode w n) = n := by
  rw [decode_encode, Nat.mod_eq_of_lt h]

/-! The fixed-width integers, each through as many bytes as it has. -/

@[simp] lemma decode_uint8 (x : UInt8) : UInt8.ofNat (decode (encode 1 x.toNat)) = x := by
  rw [decode_encode_of_lt (by simpa using x.toNat_lt), UInt8.ofNat_toNat]

@[simp] lemma decode_uint16 (x : UInt16) : UInt16.ofNat (decode (encode 2 x.toNat)) = x := by
  rw [decode_encode_of_lt (by simpa using x.toNat_lt), UInt16.ofNat_toNat]

@[simp] lemma decode_uint32 (x : UInt32) : UInt32.ofNat (decode (encode 4 x.toNat)) = x := by
  rw [decode_encode_of_lt (by simpa using x.toNat_lt), UInt32.ofNat_toNat]

@[simp] lemma decode_uint64 (x : UInt64) : UInt64.ofNat (decode (encode 8 x.toNat)) = x := by
  rw [decode_encode_of_lt (by simpa using x.toNat_lt), UInt64.ofNat_toNat]

lemma encode_uint8 {bs : Bytes} (h : bs.length = 1) :
    encode 1 (UInt8.ofNat (decode bs)).toNat = bs := by
  have hlt := decode_lt bs
  rw [UInt8.toNat_ofNat_of_lt' (by simpa [h] using hlt), ← h, encode_decode]

lemma encode_uint16 {bs : Bytes} (h : bs.length = 2) :
    encode 2 (UInt16.ofNat (decode bs)).toNat = bs := by
  have hlt := decode_lt bs
  rw [UInt16.toNat_ofNat_of_lt' (by simpa [h] using hlt), ← h, encode_decode]

lemma encode_uint32 {bs : Bytes} (h : bs.length = 4) :
    encode 4 (UInt32.ofNat (decode bs)).toNat = bs := by
  have hlt := decode_lt bs
  rw [UInt32.toNat_ofNat_of_lt' (by simpa [h] using hlt), ← h, encode_decode]

lemma encode_uint64 {bs : Bytes} (h : bs.length = 8) :
    encode 8 (UInt64.ofNat (decode bs)).toNat = bs := by
  have hlt := decode_lt bs
  rw [UInt64.toNat_ofNat_of_lt' (by simpa [h] using hlt), ← h, encode_decode]

/-! Byte arrays of a fixed length, as functions of the index. -/

lemma getD_ofFn {n : ℕ} (f : Fin n → UInt8) : (fun i : Fin n => (List.ofFn f).getD i 0) = f := by
  funext i
  simp

lemma ofFn_getD {n : ℕ} {bs : Bytes} (h : bs.length = n) :
    List.ofFn (fun i : Fin n => bs.getD i 0) = bs := by
  subst h
  apply List.ext_getElem
  · simp
  · intro i hi hb
    simp

end LittleEndian

namespace Layout

/-- Size and alignment of a field's type. -/
structure CType where
  size : ℕ
  align : ℕ
  deriving DecidableEq, Repr

/-- An integer of `n` bytes is aligned to its own size. -/
def CType.int (n : ℕ) : CType := ⟨n,n⟩

/-- An array of `n` bytes needs no alignment. -/
def CType.bytes (n : ℕ) : CType := ⟨n,1⟩

def alignUp (n a : ℕ) : ℕ := (n+a-1)/a*a

/-- Field offsets from a given position on, each rounded up to the field's alignment. -/
def offsets : ℕ → List CType → List ℕ
  | _, [] => []
  | pos, t::ts => alignUp pos t.align :: offsets (alignUp pos t.align + t.size) ts

/-- The first position past the last field. -/
def extent : ℕ → List CType → ℕ
  | pos, [] => pos
  | pos, t::ts => extent (alignUp pos t.align + t.size) ts

/-- `sizeof` of a structure: its extent, rounded up to its strictest field's alignment. -/
def sizeof (ts : List CType) : ℕ := alignUp (extent 0 ts) ((ts.map CType.align).foldr max 1)

/-- Offsets of the fields read one straight after another. -/
def packed : ℕ → List ℕ → List ℕ
  | _, [] => []
  | pos, n::ns => pos :: packed (pos+n) ns

/-- The bytes of memory at given offsets, of given sizes. -/
def fieldsAt (mem : Bytes) (offs sizes : List ℕ) : List Bytes :=
  List.zipWith (fun off n => (mem.drop off).take n) offs sizes

/-- Memory holding a structure whose fields have the given representations; the bytes between
and after the fields are arbitrary. -/
structure Represents (ts : List CType) (fields : List Bytes) (mem : Bytes) : Prop where
  length_eq : mem.length = sizeof ts
  fields_eq : fieldsAt mem (offsets 0 ts) (ts.map CType.size) = fields

/-- Cut a byte string into consecutive pieces of the given sizes. -/
def slices : List ℕ → Bytes → List Bytes
  | [], _ => []
  | n::ns, bs => bs.take n :: slices ns (bs.drop n)

lemma slices_drop (ns : List ℕ) (bs : Bytes) (pos : ℕ) :
    slices ns (bs.drop pos) = fieldsAt bs (packed pos ns) ns := by
  induction ns generalizing pos with
  | nil => rfl
  | cons n ns ih =>
    rw [slices, List.drop_drop, ih]
    rfl

/-- The packed reader sees the slices at the packed offsets. -/
theorem slices_eq (ns : List ℕ) (bs : Bytes) : slices ns bs = fieldsAt bs (packed 0 ns) ns :=
  slices_drop ns bs 0

lemma slices_append_sizes (ns ms : List ℕ) (bs : Bytes) :
    slices (ns ++ ms) bs = slices ns bs ++ slices ms (bs.drop ns.sum) := by
  induction ns generalizing bs with
  | nil => rfl
  | cons n ns ih =>
    simp only [List.cons_append, slices, ih, List.drop_drop, List.sum_cons]

/-- Cutting pieces back apart by their own lengths. -/
lemma slices_flatten (fields : List Bytes) (rest : Bytes) :
    slices (fields.map List.length) (fields.flatten ++ rest) = fields := by
  induction fields with
  | nil => rfl
  | cons f fields ih => simp [slices, ih]

/-- Where C's offsets are the packed ones, reading the sizes in sequence gives the fields back. -/
theorem Represents.slices_eq {ts : List CType} {fields : List Bytes} {mem : Bytes}
    (h : Represents ts fields mem) (ho : offsets 0 ts = packed 0 (ts.map CType.size)) :
    slices (ts.map CType.size) mem = fields := by
  rw [Layout.slices_eq, ← ho]
  exact h.fields_eq

/-- Conversely every byte string of the right size is the layout of what is read from it. -/
theorem represents_slices {ts : List CType} {mem : Bytes} (hl : mem.length = sizeof ts)
    (ho : offsets 0 ts = packed 0 (ts.map CType.size)) :
    Represents ts (slices (ts.map CType.size) mem) mem := by
  refine ⟨hl,?_⟩
  rw [Layout.slices_eq, ho]

/-- The fields in sequence, with any padding behind them, are a layout of the structure. -/
theorem represents_flatten {ts : List CType} {fields : List Bytes} {pad : Bytes}
    (hf : fields.map List.length = ts.map CType.size)
    (hl : (fields.flatten ++ pad).length = sizeof ts)
    (ho : offsets 0 ts = packed 0 (ts.map CType.size)) :
    Represents ts fields (fields.flatten ++ pad) := by
  have h := represents_slices hl ho
  rwa [← hf, slices_flatten] at h

end Layout
end Tracewulf.Base
