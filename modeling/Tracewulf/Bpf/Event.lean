import Mathlib.Data.Fintype.Basic
import Mathlib.Data.List.OfFn
import Tracewulf.Base.Layout

/-! The record the kernel programs put in the ring buffer, as the header shared with userspace
declares it, and its memory layout under the C ABI of the target. -/
namespace Tracewulf.Bpf
open Tracewulf.Base Tracewulf.Base.Layout

/-! `enum event_type` -/

def EventType.exec : UInt8 := 0
def EventType.connect : UInt8 := 1
def EventType.send : UInt8 := 2
def EventType.recv : UInt8 := 3

/-- `struct event` -/
structure Event where
  pid : UInt32
  comm : Fin 16 → UInt8
  srcIp : UInt32
  dstIp : UInt32
  srcPort : UInt16
  dstPort : UInt16
  bytes : UInt64
  type : UInt8
  deriving DecidableEq

/-- The declared types, in order: `__u32`, `char[16]`, `__u32`, `__u32`, `__u16`, `__u16`,
`__u64`, `__u8`. -/
def eventTypes : List CType :=
  [.int 4,.bytes 16,.int 4,.int 4,.int 2,.int 2,.int 8,.int 1]

/-- The fields' own bytes on a little-endian machine. -/
def Event.fields (e : Event) : List Bytes :=
  [LittleEndian.encode 4 e.pid.toNat,List.ofFn e.comm,LittleEndian.encode 4 e.srcIp.toNat,
   LittleEndian.encode 4 e.dstIp.toNat,LittleEndian.encode 2 e.srcPort.toNat,
   LittleEndian.encode 2 e.dstPort.toNat,LittleEndian.encode 8 e.bytes.toNat,
   LittleEndian.encode 1 e.type.toNat]

/-- `mem` holds the event, with anything at all in its padding. -/
def Event.LaidOut (e : Event) (mem : Bytes) : Prop := Represents eventTypes e.fields mem

example : offsets 0 eventTypes = [0,4,20,24,28,30,32,40] := by decide

example : sizeof eventTypes = 48 := by decide

end Tracewulf.Bpf
