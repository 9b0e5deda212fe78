import Tracewulf.Bpf.Event

/-! The userspace side of the ring-buffer record. `binary.Read` knows nothing of C alignment: it
takes the fields one after another and skips the explicit pad. It agrees with the kernel's layout
because every C offset is already the packed one and the pad is exactly C's trailing padding. -/
namespace Tracewulf.Ebpf
open Tracewulf.Base Tracewulf.Base.Layout Tracewulf.Bpf

def eventExec : UInt8 := 0
def eventConnect : UInt8 := 1
def eventSend : UInt8 := 2
def eventRecv : UInt8 := 3

/-- `ringbufEvent`; the blank pad field holds nothing a reader can see. -/
structure RingbufEvent where
  pid : UInt32
  comm : Fin 16 → UInt8
  srcIP : UInt32
  dstIP : UInt32
  srcPort : UInt16
  dstPort : UInt16
  bytes : UInt64
  type : UInt8
  deriving DecidableEq

/-- Sizes of the fields of `ringbufEvent` in order, the last one the `[7]byte` pad. -/
def ringbufEventSizes : List ℕ := [4,16,4,4,2,2,8,1,7]

/-- `io.ReadFull` into a buffer of `n` bytes. -/
def readFull (n : ℕ) (raw : Bytes) : Option Bytes :=
  if raw.length < n then none else some (raw.take n)

/-- The little-endian decoder run over a full buffer, field by field. -/
def decodeFields (buf : Bytes) : RingbufEvent :=
  let field (i : ℕ) : Bytes := (slices ringbufEventSizes buf).getD i []
  { pid := .ofNat (LittleEndian.decode (field 0))
    comm := fun i => (field 1).getD i 0
    srcIP := .ofNat (LittleEndian.decode (field 2))
    dstIP := .ofNat (LittleEndian.decode (field 3))
    srcPort := .ofNat (LittleEndian.decode (field 4))
    dstPort := .ofNat (LittleEndian.decode (field 5))
    bytes := .ofNat (LittleEndian.decode (field 6))
    type := .ofNat (LittleEndian.decode (field 7)) }

/-- `binary.Read(bytes.NewReader(raw), binary.LittleEndian, &e)`; `none` stands for its error. -/
def binaryRead (raw : Bytes) : Option RingbufEvent :=
  (readFull ringbufEventSizes.sum raw).map decodeFields

/-- The kernel's event as userspace names its fields. -/
def ringbufEvent (e : Event) : RingbufEvent where
  pid := e.pid
  comm := e.comm
  srcIP := e.srcIp
  dstIP := e.dstIp
  srcPort := e.srcPort
  dstPort := e.dstPort
  bytes := e.bytes
  type := e.type

/-- C leaves no gap before any field. -/
lemma event_offsets_packed :
    offsets 0 eventTypes = packed 0 (eventTypes.map CType.size) := by decide

/-- The fields read are C's fields, with the pad standing where C pads the structure's end. -/
lemma ringbufEventSizes_eq : ringbufEventSizes = eventTypes.map CType.size ++ [7] := by decide

lemma ringbufEventSizes_sum : ringbufEventSizes.sum = sizeof eventTypes := by decide

lemma sizeof_event : sizeof eventTypes = 48 := by decide

/-- Decoding an event's own field bytes gives its field values, whatever follows them. -/
lemma decodeFields_of_slices (e : Event) (pad buf : Bytes)
    (h : slices ringbufEventSizes buf = e.fields ++ [pad]) : decodeFields buf = ringbufEvent e := by
  obtain ⟨pid,comm,srcIp,dstIp,srcPort,dstPort,bytes,type⟩ := e
  simp only [decodeFields, h, Event.fields, ringbufEvent, List.cons_append, List.getD_cons_zero,
    List.getD_cons_succ, LittleEndian.decode_uint8, LittleEndian.decode_uint16,
    LittleEndian.decode_uint32, LittleEndian.decode_uint64, LittleEndian.getD_ofFn]

/-- Cutting a full record for the packed reader gives C's fields and the trailing padding. -/
lemma slices_ringbufEvent (buf : Bytes) : ∃ pad, slices ringbufEventSizes buf =
    slices (eventTypes.map CType.size) buf ++ [pad] := by
  rw [ringbufEventSizes_eq, slices_append_sizes]
  exact ⟨_,rfl⟩

/-- Every event has a layout, one for each filling of the padding. -/
theorem laidOut_flatten (e : Event) {pad : Bytes} (h : pad.length = 7) :
    e.LaidOut (e.fields.flatten ++ pad) := by
  apply represents_flatten
  · simp [Event.fields, eventTypes, CType.int, CType.bytes]
  · rw [sizeof_event]
    simp [Event.fields, h]
  · exact event_offsets_packed

theorem binaryRead_laidOut (e : Event) (mem extra : Bytes) (h : e.LaidOut mem) :
    binaryRead (mem ++ extra) = some (ringbufEvent e) := by
  have hlen : mem.length = ringbufEventSizes.sum := by rw [h.length_eq, ringbufEventSizes_sum]
  have hfull : readFull ringbufEventSizes.sum (mem ++ extra) = some mem := by
    simp [readFull, ← hlen]
  obtain ⟨pad,hpad⟩ := slices_ringbufEvent mem
  rw [h.slices_eq event_offsets_packed] at hpad
  rw [binaryRead, hfull, Option.map_some, decodeFields_of_slices e pad mem hpad]

theorem binaryRead_short (raw : Bytes) (h : raw.length < sizeof eventTypes) :
    binaryRead raw = none := by
  rw [← ringbufEventSizes_sum] at h
  simp [binaryRead, readFull, h]

/-- The event whose field bytes a full record holds. -/
def eventAt (buf : Bytes) : Event :=
  let r := decodeFields buf
  ⟨r.pid,r.comm,r.srcIP,r.dstIP,r.srcPort,r.dstPort,r.bytes,r.type⟩

lemma eventAt_fields (buf : Bytes) (h : buf.length = sizeof eventTypes) :
    (eventAt buf).fields = slices (eventTypes.map CType.size) buf := by
  rw [sizeof_event] at h
  simp only [Event.fields, eventAt, decodeFields, ringbufEventSizes, eventTypes, CType.int,
    CType.bytes, slices, List.map_cons, List.map_nil, List.getD_cons_zero, List.getD_cons_succ,
    List.drop_drop]
  rw [LittleEndian.encode_uint32 (by simp [h]), LittleEndian.ofFn_getD (by simp [h]),
    LittleEndian.encode_uint32 (by simp [h]), LittleEndian.encode_uint32 (by simp [h]),
    LittleEndian.encode_uint16 (by simp [h]), LittleEndian.encode_uint16 (by simp [h]),
    LittleEndian.encode_uint64 (by simp [h]), LittleEndian.encode_uint8 (by simp [h])]

/-- A record of exactly C's size decodes to the event it is the layout of. -/
theorem binaryRead_full (raw : Bytes) (h : raw.length = sizeof eventTypes) :
    ∃ e : Event, binaryRead raw = some (ringbufEvent e) ∧ e.LaidOut raw := by
  have hl : (eventAt raw).LaidOut raw := by
    unfold Event.LaidOut
    rw [eventAt_fields raw h]
    exact represents_slices h event_offsets_packed
  refine ⟨eventAt raw,?_,hl⟩
  simpa using binaryRead_laidOut (eventAt raw) raw [] hl

/-- Kernel and userspace agree on the record: whatever event the kernel lays out is read back,
nothing shorter than C's structure is accepted, and every byte string of its size is some event's
layout and reads as that event. -/
theorem wire_format_agreement :
    (∀ (e : Event) (mem extra : Bytes), e.LaidOut mem →
      binaryRead (mem ++ extra) = some (ringbufEvent e)) ∧
    (∀ raw : Bytes, raw.length < sizeof eventTypes → binaryRead raw = none) ∧
    (∀ raw : Bytes, raw.length = sizeof eventTypes →
      ∃ e : Event, binaryRead raw = some (ringbufEvent e) ∧ e.LaidOut raw) :=
  ⟨binaryRead_laidOut,binaryRead_short,binaryRead_full⟩

end Tracewulf.Ebpf
