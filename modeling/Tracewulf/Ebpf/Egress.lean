import Mathlib.Algebra.Order.BigOperators.Group.List
import Tracewulf.Bpf.Pairing
import Tracewulf.Ebpf.Reader

/-! Egress as it is counted against egress as it happened. The probe on `tcp_sendmsg` sees a call
when it begins, with the size it asks for; what the kernel took is the value the call returns, and
no probe is there to see it. -/
namespace Tracewulf.Ebpf
open Tracewulf.Base Tracewulf.Bpf

/-- One call of `tcp_sendmsg`: what the probe finds at its entry, and the value it returns. -/
structure SendCall where
  ctx : Ctx
  sk : Sock
  size : UInt64
  ret : Int32
  /-- the kernel takes no more than it is offered -/
  ret_le : ret.toInt ≤ size.toNat

namespace SendCall

/-- The bytes the kernel took; an error is no bytes. -/
def accepted (c : SendCall) : ℕ := c.ret.toInt.toNat

/-- The bytes asked for and not taken. -/
def refused (c : SendCall) : ℕ := c.size.toNat - c.accepted

lemma accepted_add_refused (c : SendCall) : c.accepted + c.refused = c.size.toNat := by
  have h := c.ret_le
  unfold refused accepted
  omega

end SendCall

/-- What the probes see go by: calls of `tcp_sendmsg`, and hits of the other probes. -/
inductive Activity
  | send (c : SendCall)
  | other (h : Hit) (notSend : ∀ sk size, h.probe ≠ .tcpSendmsg sk size)

namespace Activity

def hit : Activity → Hit
  | send c => ⟨c.ctx,.tcpSendmsg c.sk c.size⟩
  | other h _ => h

def call : Activity → Option SendCall
  | send c => some c
  | other _ _ => none

/-- The bytes of the SEND event the activity leaves in the ring buffer, if there is room. -/
def reported : Activity → ℕ
  | send c => if c.ctx.reserved then c.size.toNat else 0
  | other _ _ => 0

end Activity

/-- The bytes fields of the SEND events, added up. -/
def sentBytes (es : List Event) : ℕ :=
  ((es.filter fun e => e.type = EventType.send).map fun e => e.bytes.toNat).sum

@[simp] lemma sentBytes_append (es fs : List Event) :
    sentBytes (es ++ fs) = sentBytes es + sentBytes fs := by
  simp [sentBytes]

lemma sentBytes_eq_zero {es : List Event} (h : ∀ e ∈ es, e.type ≠ EventType.send) :
    sentBytes es = 0 := by
  have hnone : es.filter (fun e => e.type = EventType.send) = [] := by
    simpa [List.filter_eq_nil_iff] using h
  rw [sentBytes, hnone]
  rfl

/-- One activity adds events to the ring buffer, and the bytes of its own SEND event only. -/
lemma fire_adds (k : Kernel) (a : Activity) :
    ∃ out, (fire k a.hit).events = k.events ++ out ∧ sentBytes out = a.reported := by
  have hexit : ∀ {h : Hit} {fn : Watched} {ret : Int32}, h.probe.exit? = some (fn,ret) →
      ∃ out, (fire k h).events = k.events ++ out ∧ sentBytes out = 0 := by
    intro h fn ret hx
    rw [fire_exit hx, handleExit_events]
    refine ⟨_,rfl,sentBytes_eq_zero fun e he => ?_⟩
    have htype : e.type = fn.eventType := by
      cases hl : (k.map fn).lookup h.ctx.pidTgid with
      | none => simp [hl] at he
      | some sk =>
        simp only [hl, Option.elim_some] at he
        split_ifs at he <;> simp_all [sockEvent]
    rw [htype]
    cases fn <;> decide
  have hentry : ∀ {h : Hit} {fn : Watched} {sk : Sock}, h.probe.entry? = some (fn,sk) →
      ∃ out, (fire k h).events = k.events ++ out ∧ sentBytes out = 0 := by
    intro h fn sk he
    exact ⟨[],by rw [fire_entry he, handleEntry, Kernel.events_setMap, List.append_nil],rfl⟩
  cases a with
  | send c =>
    refine ⟨_,Kernel.events_submit k c.ctx _,?_⟩
    cases hr : c.ctx.reserved <;> simp [hr, sentBytes, sockEvent, Activity.reported]
  | other h notSend =>
    obtain ⟨ctx,probe⟩ := h
    cases probe with
    | execve =>
      refine ⟨_,Kernel.events_submit k ctx _,sentBytes_eq_zero fun e he => ?_⟩
      split_ifs at he
      · obtain rfl := List.mem_singleton.mp he
        exact (by decide : EventType.exec ≠ EventType.send)
      · exact absurd he List.not_mem_nil
    | tcpConnectEntry sk => exact hentry rfl
    | tcpConnectExit ret => exact hexit rfl
    | tcpSendmsg sk size => exact absurd rfl (notSend sk size)
    | tcpRecvmsgEntry sk => exact hentry rfl
    | tcpRecvmsgExit ret => exact hexit rfl

/-- The events a sequence of activities adds to those in the ring buffer of `k₀`. -/
def emitted (k₀ : Kernel) (as : List Activity) : List Event :=
  (trace k₀ (as.map Activity.hit)).events.drop k₀.events.length

lemma emitted_append (k₀ : Kernel) (as : List Activity) :
    (trace k₀ (as.map Activity.hit)).events = k₀.events ++ emitted k₀ as ∧
      sentBytes (emitted k₀ as) = (as.map Activity.reported).sum := by
  suffices ∃ out, (trace k₀ (as.map Activity.hit)).events = k₀.events ++ out ∧
      sentBytes out = (as.map Activity.reported).sum by
    obtain ⟨out,hout,hsum⟩ := this
    have hdrop : emitted k₀ as = out := by rw [emitted, hout, List.drop_left]
    exact ⟨by rw [hdrop, hout],by rw [hdrop, hsum]⟩
  induction as generalizing k₀ with
  | nil => exact ⟨[],by simp [trace],rfl⟩
  | cons a as ih =>
    obtain ⟨out,hout,hsum⟩ := fire_adds k₀ a
    obtain ⟨later,hlater,hrest⟩ := ih (fire k₀ a.hit)
    refine ⟨out ++ later,?_,?_⟩
    · rw [← List.append_assoc, ← hout, ← hlater]
      rfl
    · rw [sentBytes_append, hsum, hrest, List.map_cons, List.sum_cons]

/-- The calls among the activities. -/
def calls (as : List Activity) : List SendCall := as.filterMap Activity.call

/-- The calls the ring buffer had room to report, and those it had none for. -/
def reportedCalls (as : List Activity) : List SendCall := (calls as).filter fun c => c.ctx.reserved
def droppedCalls (as : List Activity) : List SendCall := (calls as).filter fun c => !c.ctx.reserved

lemma sum_reported (as : List Activity) :
    (as.map Activity.reported).sum = ((reportedCalls as).map fun c => c.size.toNat).sum := by
  induction as with
  | nil => rfl
  | cons a as ih =>
    rw [List.map_cons, List.sum_cons, ih]
    cases a with
    | send c =>
      cases hr : c.ctx.reserved <;>
        simp [reportedCalls, calls, Activity.call, Activity.reported, hr]
    | other h notSend =>
      have hcalls : calls (.other h notSend::as) = calls as := List.filterMap_cons_none rfl
      rw [reportedCalls, reportedCalls, hcalls]
      exact Nat.zero_add _

/-- What was reported and what was taken unseen make up what was taken and what was refused. -/
lemma size_add_dropped (cs : List SendCall) :
    ((cs.filter fun c => c.ctx.reserved).map fun c => c.size.toNat).sum +
        ((cs.filter fun c => !c.ctx.reserved).map SendCall.accepted).sum =
      (cs.map SendCall.accepted).sum +
        ((cs.filter fun c => c.ctx.reserved).map SendCall.refused).sum := by
  induction cs with
  | nil => rfl
  | cons c cs ih =>
    have hc := c.accepted_add_refused
    cases hr : c.ctx.reserved
    · simp only [List.filter_cons, hr, List.map_cons, List.sum_cons, Bool.false_eq_true, if_false,
        Bool.not_false, if_true]
      omega
    · simp only [List.filter_cons, hr, List.map_cons, List.sum_cons, Bool.false_eq_true, if_false,
        Bool.not_true, if_true]
      omega

/-- The bytes of the SEND events are at most the bytes the kernel took. -/
def WithinAccepted (k₀ : Kernel) (as : List Activity) : Prop :=
  sentBytes (emitted k₀ as) ≤ ((calls as).map SendCall.accepted).sum

/-- The call is taken in full. -/
def SendCall.Complete (c : SendCall) : Prop := c.accepted = c.size.toNat

lemma SendCall.complete_iff (c : SendCall) : c.Complete ↔ c.refused = 0 := by
  have h := c.accepted_add_refused
  unfold SendCall.Complete
  omega

/-- Whatever calls and other probes come in whatever order: no more bytes are reported than taken
exactly when what the reported calls were refused is no more than what was taken unseen. With room
for every event that means that every call is taken in full. -/
theorem billed_within_accepted_iff (k₀ : Kernel) (as : List Activity) :
    (WithinAccepted k₀ as ↔ ((reportedCalls as).map SendCall.refused).sum ≤
      ((droppedCalls as).map SendCall.accepted).sum) ∧
    (droppedCalls as = [] → (WithinAccepted k₀ as ↔ ∀ c ∈ calls as, c.Complete)) := by
  have hiff : WithinAccepted k₀ as ↔ ((reportedCalls as).map SendCall.refused).sum ≤
      ((droppedCalls as).map SendCall.accepted).sum := by
    have hbalance := size_add_dropped (calls as)
    unfold WithinAccepted
    rw [(emitted_append k₀ as).2, sum_reported]
    unfold reportedCalls droppedCalls
    omega
  refine ⟨hiff,fun hdropped => ?_⟩
  have hall : reportedCalls as = calls as := by
    have hroom : ∀ c ∈ calls as, c.ctx.reserved := by
      simpa [droppedCalls, List.filter_eq_nil_iff] using hdropped
    exact List.filter_eq_self.mpr hroom
  rw [hiff, hdropped, hall]
  simp [SendCall.complete_iff, List.sum_eq_zero_iff]

/-- A nonblocking call of a hundred bytes on a socket whose buffer is full returns `-EAGAIN`. -/
def blockedSend : SendCall where
  ctx := plainCtx 1
  sk := 100
  size := 100
  ret := -11
  ret_le := by decide

/-- Nothing was sent, and a hundred bytes are reported. -/
theorem blockedSend_billed :
    sentBytes (emitted ⟨.empty,.empty,[]⟩ [.send blockedSend]) = 100 ∧
      ¬ WithinAccepted ⟨.empty,.empty,[]⟩ [.send blockedSend] := by
  unfold WithinAccepted
  decide

theorem billed_within_accepted_iff_blockedSend :
    WithinAccepted ⟨.empty,.empty,[]⟩ [.send blockedSend] ↔
      ∀ c ∈ calls [.send blockedSend], c.Complete :=
  (billed_within_accepted_iff ⟨.empty,.empty,[]⟩ [.send blockedSend]).2 (by decide)

/-- The reader makes of a SEND event's record exactly its bytes, and of another event's none. -/
theorem sendBytes_laidOut {e : Event} {mem : Bytes} (h : e.LaidOut mem) :
    sendBytes mem = if e.type = EventType.send then e.bytes else 0 := by
  have hread := binaryRead_laidOut e mem [] h
  rw [List.append_nil] at hread
  rw [sendBytes, hread]
  rfl

end Tracewulf.Ebpf
