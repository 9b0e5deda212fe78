import Tracewulf.Json.Framing
import Tracewulf.Json.Numbers
import Tracewulf.Json.Strings

/-! `json.Unmarshal` into a struct of strings and numbers. The members of the object are stored in
order into the fields whose names they have, up to the case of letters. A member without a field
is passed over, and so is a null; a value that does not fit its field is an error. -/
namespace Tracewulf.Json
open Tracewulf.Base

/-- The value of a member, of which nothing is kept when it is an object or an array. -/
inductive Value
  | literal (text : Bytes)
  | composite
  deriving DecidableEq

/-- The members of the object the tokens are the inside of, names with their quotes. Values are
read at depth zero only, and a name comes before its value. -/
def members : ℕ → Option Bytes → List Token → List (Bytes × Value)
  | _, _, [] => []
  | 0, none, .literal name::toks => members 0 (some name) toks
  | 0, some name, .literal text::toks => (name,.literal text)::members 0 none toks
  | 0, _, .mark .endObject::_ => []
  | 0, some name, .mark .beginObject::toks => (name,.composite)::members 1 none toks
  | 0, some name, .mark .beginArray::toks => (name,.composite)::members 1 none toks
  | 0, name, .mark _::toks => members 0 name toks
  | depth + 1, name, .mark .beginObject::toks => members (depth + 2) name toks
  | depth + 1, name, .mark .beginArray::toks => members (depth + 2) name toks
  | depth + 1, name, .mark .endObject::toks => members depth name toks
  | depth + 1, name, .mark .endArray::toks => members depth name toks
  | depth + 1, name, _::toks => members (depth + 1) name toks

/-- `foldRune`, as far as names of Latin letters can tell: beside the small letters, the long s
and the Kelvin sign stand for a capital. -/
def foldRune (c : Char) : Char :=
  if 97 ≤ c.toNat && c.toNat ≤ 122 then Char.ofNat (c.toNat - 32)
  else if c.toNat = 383 then 'S'
  else if c.toNat = 8490 then 'K'
  else c

def foldName (name : String) : List Char := name.toList.map foldRune

section Fields

variable {σ ν : Type}

/-- A field of a struct, and how a value is stored into it; an error is `none`. -/
structure StructField (σ : Type) where
  name : String
  store : Value → σ → Option σ

def isNull (text : Bytes) : Bool := text.head? = some 110

/-- `literalStore` at a field of kind string. -/
def storeString (set : String → σ → σ) : Value → σ → Option σ
  | .composite, _ => none
  | .literal text, s =>
    if isNull text then some s
    else if text.head? = some 34 then (unquote text).map (set · s)
    else none

/-- `literalStore` at a field of a numeric kind. -/
def storeNumber (parse : Bytes → Option ν) (set : ν → σ → σ) : Value → σ → Option σ
  | .composite, _ => none
  | .literal text, s =>
    if isNull text then some s
    else if text.head?.any fun c => c = 45 || isDigit c then (parse text).map (set · s)
    else none

/-- One member of the loop of `object`. -/
def store (fields : List (StructField σ)) (s : σ) (m : Bytes × Value) : Option σ :=
  match unquote m.1 with
  | none => none
  | some key =>
    match fields.find? fun f => foldName f.name = foldName key with
    | none => some s
    | some f => f.store m.2 s

/-- The decoder at a struct: an object, or a null, which leaves it as it is. -/
def decode (fields : List (StructField σ)) (s : σ) : List Token → Option σ
  | .mark .beginObject::toks => (members 0 none toks).foldlM (store fields) s
  | [.literal text] => if isNull text then some s else none
  | _ => none

def unmarshal (fields : List (StructField σ)) (s : σ) (text : Bytes) : Option σ :=
  (checkValid text).bind (decode fields s)

end Fields

section Members

variable {σ ν : Type} {m : Bytes × Bytes} {ms : List (Bytes × Bytes)}
  {fields : List (StructField σ)}
  {s t : σ}

lemma members_memberTokens (m : Bytes × Bytes) (toks : List Token) :
    members 0 none (memberTokens m ++ toks) =
      (quoted m.1,.literal m.2)::members 0 none toks := rfl

/-- The members of a struct that was written are read in order. -/
theorem members_objectTokens (ms : List (Bytes × Bytes)) :
    members 0 none (objectTokens ms) = ms.map fun m => (quoted m.1,.literal m.2) := by
  have hrest : ∀ ms : List (Bytes × Bytes), members 0 none
      (ms.flatMap (fun m => .mark .objectValue::memberTokens m) ++ [.mark .endObject]) =
        ms.map fun m => (quoted m.1,.literal m.2) := by
    intro ms
    induction ms with
    | nil => rfl
    | cons m ms ih =>
      rw [List.flatMap_cons, List.append_assoc, List.map_cons, ← ih]
      rfl
  cases ms with
  | nil => rfl
  | cons m ms =>
    rw [objectTokens, objectTokensBy, List.append_assoc]
    exact (members_memberTokens m _).trans (congrArg _ (hrest ms))

/-- What is read of a struct that was written, after any blanks. -/
theorem unmarshal_structEncoder (h : ∀ x ∈ m::ms, Plain x) : unmarshal fields s
    (structEncoder (m::ms)) =
      ((m::ms).map fun m => (quoted m.1,Value.literal m.2)).foldlM (store fields) s := by
  rw [unmarshal, checkValid_structEncoder h, Option.bind_some, decode, members_objectTokens]

/-- A member that was written under the name of a field is stored into that field, where the
fields differ in more than the case of letters. -/
theorem store_own (hfields : (fields.map fun f => foldName f.name).Nodup) {f : StructField σ}
    (hf : f ∈ fields) (v : Value) (s : σ) :
    store fields s (quoted (escaped f.name),v) = f.store v s := by
  have hname : unquote (quoted (escaped f.name)) = some f.name := unquote_appendString f.name
  have hfind : fields.find? (fun g => foldName g.name = foldName f.name) = some f := by
    induction fields with
    | nil => cases hf
    | cons g fields ih =>
      rw [List.map_cons, List.nodup_cons] at hfields
      rcases List.mem_cons.mp hf with rfl | hf
      · exact List.find?_cons_of_pos (by simp)
      · have hother : ¬ foldName g.name = foldName f.name := fun heq =>
          hfields.1 (heq ▸ List.mem_map_of_mem hf)
        rw [List.find?_cons_of_neg (by simpa using hother)]
        exact ih hfields.2 hf
  simp only [store, hname, hfind]

lemma storeString_appendString (set : String → σ → σ) (text : String) (s : σ) :
    storeString set (.literal (appendString text)) s = some (set text s) := by
  have hread := unquote_appendString text
  rw [storeString, hread]
  rfl

/-- A number is stored as what it is read as. -/
lemma storeNumber_isNumber {parse : Bytes → Option ν} {set : ν → σ → σ} {text : Bytes} {n : ν}
    (h : IsNumber text) (hparse : parse text = some n) (s : σ) :
    storeNumber parse set (.literal text) s = some (set n s) := by
  have hhead : text.head?.any (fun c => c = 45 || isDigit c) = true := by
    cases h with
    | positive int frac exp hint hfrac hexp =>
      rcases hint with rfl | ⟨c,ds,rfl,hc,-,-⟩
      · rfl
      · simp [hc]
    | negative int frac exp hint hfrac hexp => rfl
  have hnull : isNull text = false := by
    refine decide_eq_false fun hn => ?_
    rw [hn] at hhead
    cases hhead
  simp [storeNumber, hhead, hnull, hparse]

end Members
end Tracewulf.Json
