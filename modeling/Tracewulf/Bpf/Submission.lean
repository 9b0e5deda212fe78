import Mathlib.Data.UInt
import Tracewulf.Bpf.Pairing

/-! What the probes submit, hit by hit. Each hit appends what it submits to the ring buffer, so
the events of a trace are those of its hits one after another. -/
namespace Tracewulf.Bpf
open Tracewulf.Base

/-- The events a hit adds to the ring buffer. -/
def submittedBy (k : Kernel) (h : Hit) : List Event := (fire k h).events.drop k.events.length

lemma Adds.submittedBy_eq {k : Kernel} {h : Hit} {out : List Event} (ha : Adds k h out) :
    submittedBy k h = out := by
  rw [submittedBy, ha.events, List.drop_left]

lemma events_fire (k : Kernel) (h : Hit) :
    (fire k h).events = k.events ++ submittedBy k h := by
  obtain ⟨out,ha⟩ := exists_adds k h
  rw [ha.events, ha.submittedBy_eq]

/-- The four types there are. -/
def KernelType (t : UInt8) : Prop :=
  t = EventType.exec ∨ t = EventType.connect ∨ t = EventType.send ∨ t = EventType.recv

/-- The bytes of a SEND event, zero for any other event. -/
def Event.sent (e : Event) : UInt64 := if e.type = EventType.send then e.bytes else 0

def Event.isExec (e : Event) : Bool := e.type = EventType.exec

/-- The size a call of `tcp_sendmsg` asks for, where there is room to report it. -/
def Hit.sent (h : Hit) : UInt64 :=
  match h.probe with
  | .tcpSendmsg _ size => if h.ctx.reserved then size else 0
  | _ => 0

/-- A command is started, and there is room to report it. -/
def Hit.isExec (h : Hit) : Bool := h.probe = .execve ∧ h.ctx.reserved

/-- What a hit submits: an event of a type that userspace knows, and as much as the hit says. -/
structure Submits (h : Hit) (out : List Event) : Prop where
  type : ∀ e ∈ out, KernelType e.type
  sent : (out.map Event.sent).sum = h.sent
  execs : out.countP Event.isExec = if h.isExec then 1 else 0

lemma submits_nil {h : Hit} (hsent : h.sent = 0) (hexec : h.isExec = false) : Submits h [] where
  type := by simp
  sent := hsent.symm
  execs := by rw [hexec]; rfl

lemma submits_submit {k : Kernel} {h : Hit} {e : Event} (hf : fire k h = k.submit h.ctx e)
    (htype : KernelType e.type) (hsent : h.sent = if h.ctx.reserved then e.sent else 0)
    (hexec : h.isExec = (h.ctx.reserved && e.isExec)) : Submits h (submittedBy k h) := by
  have hout : submittedBy k h = if h.ctx.reserved then [e] else [] := by
    rw [submittedBy, hf, Kernel.events_submit, List.drop_left]
  rw [hout]
  cases hr : h.ctx.reserved with
  | false => exact submits_nil (by rw [hsent, hr]; rfl) (by rw [hexec, hr]; rfl)
  | true =>
    rw [hr] at hsent hexec
    refine ⟨?_,?_,?_⟩
    · simpa using htype
    · simpa using hsent.symm
    · rw [hexec]
      simp [List.countP_cons]

lemma submits_exit {k : Kernel} {h : Hit} {fn : Watched} {ret : Int32}
    (hx : h.probe.exit? = some (fn,ret)) : Submits h (submittedBy k h) := by
  have hsent : h.sent = 0 := by
    obtain ⟨ctx,probe⟩ := h
    cases probe <;> cases hx <;> rfl
  have hexec : h.isExec = false := by
    obtain ⟨ctx,probe⟩ := h
    cases probe <;> cases hx <;> simp [Hit.isExec]
  have hev := handleExit_events fn fn.failed fn.bytes fn.eventType h.ctx ret k
  rw [← fire_exit hx] at hev
  rw [submittedBy, hev, List.drop_left]
  cases (k.map fn).lookup h.ctx.pidTgid with
  | none => exact submits_nil hsent hexec
  | some sk =>
    rw [Option.elim_some]
    split_ifs
    · refine ⟨?_,?_,?_⟩
      · intro e he
        obtain rfl := List.mem_singleton.mp he
        cases fn
        · exact .inr (.inl rfl)
        · exact .inr (.inr (.inr rfl))
      · rw [hsent]
        cases fn <;> rfl
      · rw [hexec]
        cases fn <;> rfl
    · exact submits_nil hsent hexec

lemma submits_entry {k : Kernel} {h : Hit} {fn : Watched} {sk : Sock}
    (he : h.probe.entry? = some (fn,sk)) : Submits h (submittedBy k h) := by
  rw [(adds_entry k he).submittedBy_eq]
  obtain ⟨ctx,probe⟩ := h
  cases probe <;> cases he <;> exact submits_nil rfl (by simp [Hit.isExec])

theorem submits_submittedBy (k : Kernel) (h : Hit) : Submits h (submittedBy k h) := by
  obtain ⟨ctx,probe⟩ := h
  cases probe with
  | execve =>
    refine submits_submit rfl (.inl rfl) ?_ ?_
    · cases ctx.reserved <;> rfl
    · cases hr : ctx.reserved <;> simp [Hit.isExec, Event.isExec, hr]
  | tcpConnectEntry sk => exact submits_entry rfl
  | tcpConnectExit ret => exact submits_exit rfl
  | tcpSendmsg sk size =>
    refine submits_submit rfl (.inr (.inr (.inl rfl))) ?_ ?_
    · cases hr : ctx.reserved <;> simp [Hit.sent, Event.sent, sockEvent, hr]
    · cases ctx.reserved <;> simp [Hit.isExec, Event.isExec, sockEvent, EventType.send,
        EventType.exec]
  | tcpRecvmsgEntry sk => exact submits_entry rfl
  | tcpRecvmsgExit ret => exact submits_exit rfl

end Tracewulf.Bpf
