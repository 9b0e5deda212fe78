import Tracewulf.Base.Resumption
import Tracewulf.Ebpf.Aggregation
import Tracewulf.Ebpf.Net
import Tracewulf.Ebpf.Wire
import Tracewulf.K8s.Cache

/-! The body of the event loop: one ring-buffer record, from its bytes to at most one call on the
aggregator. Each lookup takes the cache lock by itself, so the cache may change between two of
them; the body is a program of lookups. -/
namespace Tracewulf.Ebpf
open Tracewulf.Base Tracewulf.K8s

/-- The lookups the reader makes, each under the cache lock. -/
inductive CacheQuery
  | lookupPod (ip : String)
  | lookupService (ip : String)
  | lookupNode (name : String)

abbrev CacheQuery.Answer : CacheQuery → Type
  | lookupPod _ => Option PodInfo
  | lookupService _ => Option ServiceInfo
  | lookupNode _ => Option NodeInfo

def CacheQuery.answer (cache : Cache) : (q : CacheQuery) → q.Answer
  | lookupPod ip => cache.lookupPod ip
  | lookupService ip => cache.lookupService ip
  | lookupNode name => cache.lookupNode name

abbrev Lookups := Resumption CacheQuery CacheQuery.Answer

def lookupPod (ip : String) : Lookups (Option PodInfo) := .ask (.lookupPod ip) .done
def lookupService (ip : String) : Lookups (Option ServiceInfo) := .ask (.lookupService ip) .done
def lookupNode (name : String) : Lookups (Option NodeInfo) := .ask (.lookupNode name) .done

def swapUint16 (v : UInt16) : UInt16 := (v >>> 8) ||| (v <<< 8)

/-- The address in a word read little-endian from network byte order. -/
def ipOfWord (w : UInt32) : IPv4 :=
  ⟨w.toUInt8,(w >>> 8).toUInt8,(w >>> 16).toUInt8,(w >>> 24).toUInt8⟩

def resolveName (ip : String) : Lookups String := do
  match ← lookupPod ip with
  | some info => return "pod:" ++ info.ns ++ "/" ++ info.name
  | none =>
    match ← lookupService ip with
    | some info => return "svc:" ++ info.ns ++ "/" ++ info.name
    | none => return ip

def resolveZone (ip : String) : Lookups String := do
  match ← lookupPod ip with
  | none => return ""
  | some info =>
    if info.node = "" then return ""
    else
      match ← lookupNode info.node with
      | none => return ""
      | some node => if node.zone = "unknown" then return "" else return node.zone

/-- One turn of the loop of `ReadEvents`. The result is the call on the aggregator, still to be
given the clock reading it takes, or `none` where the record is passed over. -/
def handleRecord (raw : Bytes) : Lookups (Option (Time → Call)) :=
  match binaryRead raw with
  | none => return none
  | some e =>
    if e.type = eventExec then return some fun _ => .recordExec
    else if e.type = eventRecv then return none
    else do
      let srcIP := (ipOfWord e.srcIP).toText
      let dstIP := (ipOfWord e.dstIP).toText
      let srcName ← resolveName srcIP
      let dstName ← resolveName dstIP
      let srcZone ← resolveZone srcIP
      let dstZone ← resolveZone dstIP
      let cls := classify dstIP
      let dstPort := swapUint16 e.dstPort
      let args (now : Time) : FlowArgs := ⟨srcName,dstName,dstPort,cls,srcZone,dstZone,now⟩
      if e.type = eventConnect then return some fun now => .recordTCP (args now)
      else if e.type = eventSend then return some fun now => .recordBytes (args now) e.bytes
      else return none

section Record

variable {raw : Bytes}

/-- The record decodes to an event of type `t`. -/
def OfType (t : UInt8) (raw : Bytes) : Prop := ∃ e, binaryRead raw = some e ∧ e.type = t

instance (t : UInt8) (raw : Bytes) : Decidable (OfType t raw) :=
  match h : binaryRead raw with
  | none => isFalse (by rintro ⟨e,he,-⟩; rw [h] at he; cases he)
  | some e => decidable_of_iff (e.type = t) (by simp [OfType, h])

/-- The bytes of a well-formed SEND record, zero for any other record. -/
def sendBytes (raw : Bytes) : UInt64 :=
  match binaryRead raw with
  | some e => if e.type = eventSend then e.bytes else 0
  | none => 0

/-- Records the loop passes over: too short to decode, RECV, or of a type it does not know. -/
def PassedOver (raw : Bytes) : Prop :=
  ¬ OfType eventExec raw ∧ ¬ OfType eventConnect raw ∧ ¬ OfType eventSend raw

/-- What the handling of a record may come to, and at which clock reading. -/
structure Performs (raw : Bytes) (c : Option (Time → Call)) : Prop where
  sent : ∀ now, (c.elim 0 fun mk => (mk now).sent) = sendBytes raw
  isExec : ∀ now, (c.elim false fun mk => (mk now).isExec) = decide (OfType eventExec raw)
  isTCP : ∀ now, (c.elim false fun mk => (mk now).isTCP) = decide (OfType eventConnect raw)
  passed : PassedOver raw → c = none

/-- Whatever the cache answers, a record is counted as what it is. -/
theorem handleRecord_performs (raw : Bytes) : (handleRecord raw).Ends (Performs raw) := by
  have hdistinct : eventExec ≠ eventConnect ∧ eventExec ≠ eventSend ∧ eventConnect ≠ eventSend ∧
      eventRecv ≠ eventExec ∧ eventRecv ≠ eventConnect ∧ eventRecv ≠ eventSend := by decide
  obtain ⟨hec,hes,hcs,hre,hrc,hrs⟩ := hdistinct
  unfold handleRecord
  cases h : binaryRead raw with
  | none =>
    rw [Resumption.ends_pure]
    constructor <;> simp [sendBytes, OfType, h]
  | some e =>
    simp only
    by_cases hx : e.type = eventExec
    · rw [if_pos hx, Resumption.ends_pure]
      constructor <;>
        simp [sendBytes, OfType, PassedOver, h, hx, hec, hes, Call.sent, Call.isExec, Call.isTCP]
    by_cases hr : e.type = eventRecv
    · rw [if_neg hx, if_pos hr, Resumption.ends_pure]
      constructor <;> simp [sendBytes, OfType, h, hr, hre, hrc, hrs]
    rw [if_neg hx, if_neg hr]
    refine Resumption.ends_bind fun srcName => Resumption.ends_bind fun dstName =>
      Resumption.ends_bind fun srcZone => Resumption.ends_bind fun dstZone => ?_
    by_cases hc : e.type = eventConnect
    · rw [if_pos hc, Resumption.ends_pure]
      constructor <;>
        simp [sendBytes, OfType, PassedOver, h, hc, hcs, hec.symm, Call.sent, Call.isExec,
          Call.isTCP]
    by_cases hs : e.type = eventSend
    · rw [if_neg hc, if_pos hs, Resumption.ends_pure]
      constructor <;>
        simp [sendBytes, OfType, PassedOver, h, hs, hes.symm, hcs.symm, Call.sent, Call.isExec,
          Call.isTCP]
    · rw [if_neg hc, if_neg hs, Resumption.ends_pure]
      constructor <;> simp [sendBytes, OfType, h, hx, hc, hs]

end Record
end Tracewulf.Ebpf
