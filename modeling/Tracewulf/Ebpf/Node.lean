import Tracewulf.Bpf.Submission
import Tracewulf.Ebpf.Addressing
import Tracewulf.Ebpf.Batches
import Tracewulf.Ebpf.Draining
import Tracewulf.Ebpf.Egress

/-! One node from end to end. Probes of all threads submit records to the ring buffer, the event
loop takes them out in the same order, and the daemon counts, reports and files what they tell.
Whatever the order of all these steps, an event that was submitted is counted once, as what it is,
or is still in the ring buffer or in hand. -/
namespace Tracewulf.Ebpf
open Tracewulf.Base Tracewulf.Bpf
open Tracewulf.K8s (Cache)

section Counts

/-- The name a flow has an address under: a pod's, a service's, or the address itself. -/
def Names (ip name : String) : Prop :=
  name = ip ∨ (∃ ns pod, name = "pod:" ++ ns ++ "/" ++ pod) ∨
    ∃ ns svc, name = "svc:" ++ ns ++ "/" ++ svc

/-- The arguments of a call are those of the event's flow. -/
structure OfFlow (e : Event) (a : FlowArgs) : Prop where
  srcName : Names (ipOfWord e.srcIp).toText a.srcName
  dstName : Names (ipOfWord e.dstIp).toText a.dstName
  dstPort : a.dstPort = swapUint16 e.dstPort
  cls : a.cls = classify (ipOfWord e.dstIp).toText

/-- The call the event is counted with; what is received is passed over. -/
def CountedAs (e : Event) : Option Call → Prop
  | some .recordExec => e.type = EventType.exec
  | some (.recordTCP a) => e.type = EventType.connect ∧ OfFlow e a
  | some (.recordBytes a n) => e.type = EventType.send ∧ OfFlow e a ∧ n = e.bytes
  | none => e.type = EventType.recv

lemma resolveName_names (ip : String) : (resolveName ip).Ends (Names ip) := by
  rintro (_ | pod)
  · rintro (_ | svc)
    · exact .inl rfl
    · exact .inr (.inr ⟨_,_,rfl⟩)
  · exact .inr (.inl ⟨_,_,rfl⟩)

variable {e : Event} {raw : Bytes}

lemma resolveFlow_names (src dst : String) (port : UInt16) (cls : String)
    (call : FlowArgs → Call) : (resolveFlow src dst port cls call).Ends fun r =>
      ∃ srcName dstName srcZone dstZone, Names src srcName ∧ Names dst dstName ∧
        r = some fun now => call ⟨srcName,dstName,port,cls,srcZone,dstZone,now⟩ := by
  refine Resumption.ends_bind_of (resolveName_names src) fun srcName hsrc => ?_
  refine Resumption.ends_bind_of (resolveName_names dst) fun dstName hdst => ?_
  refine Resumption.ends_bind fun srcZone => Resumption.ends_bind fun dstZone => ?_
  exact ⟨srcName,dstName,srcZone,dstZone,hsrc,hdst,rfl⟩

/-- The call, once it is given the clock reading it takes, counts the event. -/
def WillCount (e : Event) (r : Option (Time → Call)) : Prop :=
  ∀ now, CountedAs e (r.map fun mk => mk now)

lemma ofFlow_resolved {srcName dstName : String} (hsrc : Names (ipOfWord e.srcIp).toText srcName)
    (hdst : Names (ipOfWord e.dstIp).toText dstName) (srcZone dstZone : String) (now : Time) :
    OfFlow e ⟨srcName,dstName,swapUint16 e.dstPort,classify (ipOfWord e.dstIp).toText,srcZone,
      dstZone,now⟩ := by
  -- unfolding `classify` here would run the parser on the text of an unknown address
  refine ⟨hsrc,hdst,?_,?_⟩ <;> dsimp only

lemma willCount_call {call : FlowArgs → Call}
    (hcall : ∀ a, OfFlow e a → CountedAs e (some (call a)))
    (mk : Time → FlowArgs) (h : ∀ now, OfFlow e (mk now)) :
    WillCount e (some fun now => call (mk now)) := by
  intro now
  rw [Option.map_some]
  exact hcall _ (h now)

lemma resolveFlow_counts {call : FlowArgs → Call}
    (hcall : ∀ a, OfFlow e a → CountedAs e (some (call a))) :
    (resolveFlow (ipOfWord e.srcIp).toText (ipOfWord e.dstIp).toText (swapUint16 e.dstPort)
      (classify (ipOfWord e.dstIp).toText) call).Ends (WillCount e) := by
  refine (resolveFlow_names _ _ _ _ call).imp ?_
  rintro r ⟨srcName,dstName,srcZone,dstZone,hsrc,hdst,rfl⟩
  exact willCount_call hcall _ (ofFlow_resolved hsrc hdst srcZone dstZone)

/-- Whatever the cache answers, the record of an event is counted as that event. -/
theorem handleRecord_counts (h : e.LaidOut raw) (ht : KernelType e.type) :
    (handleRecord raw).Ends (WillCount e) := by
  have hread := binaryRead_mem h
  rcases ht with ht | ht | ht | ht
  · have htype : (ringbufEvent e).type = eventExec := ht
    simp only [handleRecord, hread, htype, if_true]
    exact fun _ => ht
  · rw [handleRecord_connect h ht]
    exact resolveFlow_counts fun a ha => ⟨ht,ha⟩
  · rw [handleRecord_send h ht]
    exact resolveFlow_counts fun a ha => ⟨ht,ha,rfl⟩
  · have htype : (ringbufEvent e).type = eventRecv := ht
    have hne : eventRecv ≠ eventExec := by decide
    simp only [handleRecord, hread, htype, if_neg hne, if_true]
    exact fun _ => ht

end Counts

section Machine

/-- The kernel side, the records in the ring buffer with the oldest first, and the daemon. -/
structure Node (κ : Type) where
  kernel : Kernel
  ringbuf : List Bytes
  daemon : Daemon κ

namespace Node

/-- A probe hits, and what it submits is padded somehow; the event loop reads a record; the daemon
takes any other step. -/
inductive Turn
  | probe (h : Hit) (pad : Fin 7 → UInt8)
  | read
  | daemon (a : Action)

inductive Shown (κ : Type)
  | submitted (e : Event)
  | daemon (x : Seen κ)

def Shown.submitted? {κ : Type} : Shown κ → Option Event
  | submitted e => some e
  | daemon _ => none

def Shown.daemon? {κ : Type} : Shown κ → Option (Seen κ)
  | daemon x => some x
  | submitted _ => none

/-- The record of an event, with this padding. -/
def record (pad : Fin 7 → UInt8) (e : Event) : Bytes := e.fields.flatten ++ List.ofFn pad

lemma laidOut_record (pad : Fin 7 → UInt8) (e : Event) : e.LaidOut (record pad e) :=
  laidOut_flatten e List.length_ofFn

def isRead : Action → Bool
  | .readRecord _ => true
  | _ => false

variable {κ : Type}

/-- A node whose ring buffer is empty when the daemon starts. -/
def start (k : Kernel) (d : Daemon κ) : Node κ := ⟨k,[],d⟩

variable [CostNum κ] (codec : Codec κ) (cfg : Config κ)

def step (n : Node κ) : Turn → Option (Node κ × List (Shown κ))
  | .probe h pad =>
    let out := submittedBy n.kernel h
    some ({ n with kernel := fire n.kernel h, ringbuf := n.ringbuf ++ out.map (record pad) },
      out.map .submitted)
  | .read =>
    match n.ringbuf with
    | [] => none
    | raw::rest => (n.daemon.step codec cfg (.readRecord raw)).map fun r =>
      ({ n with ringbuf := rest, daemon := r.1 },r.2.map .daemon)
  | .daemon a =>
    if isRead a then none
    else (n.daemon.step codec cfg a).map fun r => ({ n with daemon := r.1 },r.2.map .daemon)

/-- How a node moves, and what is shown of it. -/
inductive Moves (codec : Codec κ) (cfg : Config κ) (n : Node κ) :
    Turn → Node κ → List (Shown κ) → Prop
  | probe (h : Hit) (pad : Fin 7 → UInt8) : Moves codec cfg n (.probe h pad)
      { n with
        kernel := fire n.kernel h
        ringbuf := n.ringbuf ++ (submittedBy n.kernel h).map (record pad) }
      ((submittedBy n.kernel h).map .submitted)
  | read (raw : Bytes) (rest : List Bytes) (hbuf : n.ringbuf = raw::rest)
      (hloop : n.daemon.loop = .waiting) (hopen : ¬ n.daemon.rdClosed) : Moves codec cfg n .read
        { n with
          ringbuf := rest
          daemon := { n.daemon with loop := .handling raw (handleRecord raw) } } []
  | daemon (a : Action) (d' : Daemon κ) (seen : List (Seen κ)) (hown : isRead a = false)
      (hstep : n.daemon.step codec cfg a = some (d',seen)) :
      Moves codec cfg n (.daemon a) { n with daemon := d' } (seen.map .daemon)

variable {codec} {cfg} {n n' : Node κ} {t : Turn} {out : List (Shown κ)}

theorem moves_of_step (h : n.step codec cfg t = some (n',out)) : Moves codec cfg n t n' out := by
  cases t with
  | probe h pad =>
    cases h
    exact .probe _ pad
  | read =>
    simp only [step] at h
    split at h
    · cases h
    · rename_i raw rest hbuf
      obtain ⟨⟨d₁,seen⟩,hstep,heq⟩ := Option.map_eq_some_iff.mp h
      cases heq
      cases takes_of_step hstep with
      | readRecord _ hloop hopen => exact .read raw rest hbuf hloop hopen
  | daemon a =>
    simp only [step] at h
    split_ifs at h with hown
    obtain ⟨⟨d₁,seen⟩,hstep,heq⟩ := Option.map_eq_some_iff.mp h
    cases heq
    exact .daemon a d₁ seen (by simpa using hown) hstep

/-- Apart from the probes, the node is the daemon. -/
theorem node_simulates_daemon : Simulates (step codec cfg) (Daemon.step codec cfg)
    (fun n d => n.daemon = d) Shown.daemon? := by
  rintro n _ t n' out rfl hstep
  have hall : ∀ seen : List (Seen κ), (seen.map Shown.daemon).filterMap Shown.daemon? = seen := by
    intro seen
    rw [List.filterMap_map]
    exact List.filterMap_some
  cases moves_of_step hstep with
  | probe h pad =>
    refine ⟨[],n.daemon,?_,rfl⟩
    have hnone : ((submittedBy n.kernel h).map Shown.submitted).filterMap
        (Shown.daemon? (κ := κ)) = [] := by
      rw [List.filterMap_map]
      exact List.filterMap_eq_nil_iff.mpr fun _ _ => rfl
    rw [hnone]
    rfl
  | read raw rest hbuf hloop hopen =>
    have hread : n.daemon.step codec cfg (.readRecord raw) =
        some ({ n.daemon with loop := .handling raw (handleRecord raw) },[]) := by
      simp [Daemon.step, hloop, hopen]
    exact ⟨[.readRecord raw],_,run_singleton hread,rfl⟩
  | daemon a d' seen hown hown' =>
    rw [hall]
    exact ⟨[a],d',run_singleton hown',rfl⟩

/-- The hit of a turn, if it is one. -/
def Turn.hit? : Turn → Option Hit
  | probe h _ => some h
  | read | daemon _ => none

end Node
end Machine

section Places

/-- A record that has been dealt with, and the call it came to. -/
def Seen.dealt? {κ : Type} : Seen κ → Option (Bytes × Option Call)
  | handled raw call => some (raw,call)
  | snapshot _ | recorded _ _ => none

/-- The event the loop has in hand, on its way to being counted. -/
inductive Holds : EventLoop → List Event → Prop
  | waiting : Holds .waiting []
  | returned (err : Option String) : Holds (.returned err) []
  | handling (e : Event) (raw : Bytes) (rest : Lookups (Option (Time → Call)))
      (hmem : e.LaidOut raw) (hrest : rest.Ends (WillCount e)) : Holds (.handling raw rest) [e]

/-- Every event is in one of three places: counted, in hand, or in the ring buffer, in the order
in which they were submitted. -/
structure Places (submitted : List Event) (dealt : List (Bytes × Option Call)) (loop : EventLoop)
    (ringbuf : List Bytes) (counted inHand queued : List Event) : Prop where
  submitted : submitted = counted ++ (inHand ++ queued)
  counted : List.Forall₂ (fun e r => e.LaidOut r.1 ∧ CountedAs e r.2) counted dealt
  inHand : Holds loop inHand
  queued : List.Forall₂ Event.LaidOut queued ringbuf

variable {es : List Event} {dealt : List (Bytes × Option Call)} {loop : EventLoop}
  {ringbuf : List Bytes} {counted inHand queued : List Event}

lemma Places.submit (h : Places es dealt loop ringbuf counted inHand queued) (out : List Event)
    (pad : Fin 7 → UInt8) : Places (es ++ out) dealt loop
      (ringbuf ++ out.map (Node.record pad)) counted inHand (queued ++ out) where
  submitted := by rw [h.submitted, List.append_assoc, List.append_assoc]
  counted := h.counted
  inHand := h.inHand
  queued := by
    refine List.rel_append h.queued ?_
    rw [List.forall₂_map_right_iff, List.forall₂_same]
    exact fun e _ => Node.laidOut_record pad e

lemma Places.read {raw : Bytes} {rest : List Bytes}
    (h : Places es dealt .waiting (raw::rest) counted inHand queued)
    (htype : ∀ e ∈ es, KernelType e.type) :
    ∃ e queued', Places es dealt (.handling raw (handleRecord raw)) rest counted [e] queued' := by
  obtain ⟨hes,hcounted,hhand,hqueued⟩ := h
  cases hhand
  obtain ⟨e,queued',hmem,hrest,rfl⟩ := List.forall₂_cons_right_iff.mp hqueued
  have he : e ∈ es := by
    rw [hes]
    simp
  exact ⟨e,queued',hes,hcounted,.handling e raw _ hmem (handleRecord_counts hmem (htype e he)),
    hrest⟩

lemma Places.lookup {raw : Bytes} {q : CacheQuery}
    {resume : q.Answer → Lookups (Option (Time → Call))}
    (h : Places es dealt (.handling raw (.ask q resume)) ringbuf counted inHand queued)
    (x : q.Answer) : Places es dealt (.handling raw (resume x)) ringbuf counted inHand queued := by
  obtain ⟨hes,hcounted,hhand,hqueued⟩ := h
  cases hhand with
  | handling e _ _ hmem hrest => exact ⟨hes,hcounted,.handling e raw _ hmem (hrest x),hqueued⟩

lemma Places.finish {raw : Bytes} {call : Option (Time → Call)}
    (h : Places es dealt (.handling raw (.done call)) ringbuf counted inHand queued) (now : Time) :
    Places es (dealt ++ [(raw,call.map fun mk => mk now)]) .waiting ringbuf (counted ++ inHand) []
      queued := by
  obtain ⟨hes,hcounted,hhand,hqueued⟩ := h
  cases hhand with
  | handling e _ _ hmem hrest =>
    refine ⟨?_,?_,.waiting,hqueued⟩
    · rw [hes, List.nil_append, List.append_assoc]
    · exact List.rel_append hcounted (.cons ⟨hmem,hrest now⟩ .nil)

lemma Places.leave (h : Places es dealt .waiting ringbuf counted inHand queued)
    (err : Option String) : Places es dealt (.returned err) ringbuf counted inHand queued := by
  obtain ⟨hes,hcounted,hhand,hqueued⟩ := h
  cases hhand
  exact ⟨hes,hcounted,.returned err,hqueued⟩

end Places

namespace Node

section Run

variable {κ : Type} [CostNum κ] {codec : Codec κ} {cfg : Config κ} {n n' : Node κ}
  {tr out : List (Shown κ)} {turns : List Turn} {k₀ : Kernel}

/-- The events submitted. -/
def submitted (tr : List (Shown κ)) : List Event := tr.filterMap Shown.submitted?

/-- What the daemon shows. -/
def ofDaemon (tr : List (Shown κ)) : List (Seen κ) := tr.filterMap Shown.daemon?

omit [CostNum κ] in
lemma submitted_append_submitted (tr : List (Shown κ)) (es : List Event) :
    submitted (tr ++ es.map .submitted) = submitted tr ++ es := by
  have hall : (es.map (Shown.submitted (κ := κ))).filterMap Shown.submitted? = es := by
    rw [List.filterMap_map]
    exact List.filterMap_some
  rw [submitted, List.filterMap_append, hall, submitted]

omit [CostNum κ] in
lemma submitted_append_daemon (tr : List (Shown κ)) (seen : List (Seen κ)) :
    submitted (tr ++ seen.map .daemon) = submitted tr := by
  have hnone : (seen.map Shown.daemon).filterMap Shown.submitted? = [] := by
    rw [List.filterMap_map]
    exact List.filterMap_eq_nil_iff.mpr fun _ _ => rfl
  rw [submitted, List.filterMap_append, hnone, List.append_nil, submitted]

omit [CostNum κ] in
lemma ofDaemon_append_submitted (tr : List (Shown κ)) (es : List Event) :
    ofDaemon (tr ++ es.map .submitted) = ofDaemon tr := by
  have hnone : (es.map Shown.submitted).filterMap (Shown.daemon? (κ := κ)) = [] := by
    rw [List.filterMap_map]
    exact List.filterMap_eq_nil_iff.mpr fun _ _ => rfl
  rw [ofDaemon, List.filterMap_append, hnone, List.append_nil, ofDaemon]

omit [CostNum κ] in
lemma ofDaemon_append_daemon (tr : List (Shown κ)) (seen : List (Seen κ)) :
    ofDaemon (tr ++ seen.map .daemon) = ofDaemon tr ++ seen := by
  have hall : (seen.map Shown.daemon).filterMap Shown.daemon? = seen := by
    rw [List.filterMap_map]
    exact List.filterMap_some
  rw [ofDaemon, List.filterMap_append, hall, ofDaemon]

/-- The ring buffer holds what has been submitted and not been read, and every event is in one
place. -/
structure Accounts (tr : List (Shown κ)) (n : Node κ) : Prop where
  type : ∀ e ∈ submitted tr, KernelType e.type
  places : ∃ counted inHand queued, Places (submitted tr)
    ((ofDaemon tr).filterMap Seen.dealt?) n.daemon.loop n.ringbuf counted inHand queued

lemma Accounts.daemon (h : Accounts tr n) {a : Action} {d' : Daemon κ} {seen : List (Seen κ)}
    (hown : isRead a = false) (hstep : n.daemon.step codec cfg a = some (d',seen)) :
    Accounts (tr ++ seen.map .daemon) { n with daemon := d' } := by
  obtain ⟨htype,counted,inHand,queued,hplaces⟩ := h
  refine ⟨by rwa [submitted_append_daemon],?_⟩
  rw [submitted_append_daemon, ofDaemon_append_daemon, List.filterMap_append]
  rw [← List.append_nil ((ofDaemon tr).filterMap Seen.dealt?)] at hplaces
  cases takes_of_step hstep with
  | readRecord raw hloop hopen => cases hown
  | lookup raw q resume hloop =>
    rw [hloop] at hplaces
    exact ⟨_,_,_,hplaces.lookup _⟩
  | finish raw call now hloop =>
    rw [hloop, List.append_nil] at hplaces
    exact ⟨_,_,_,hplaces.finish now⟩
  | readClosed hloop hclosed =>
    rw [hloop] at hplaces
    exact ⟨_,_,_,hplaces.leave none⟩
  | readError err hloop =>
    rw [hloop] at hplaces
    exact ⟨_,_,_,hplaces.leave _⟩
  | _ => exact ⟨counted,inHand,queued,hplaces⟩

lemma Accounts.step {t : Turn} (h : Accounts tr n) (hstep : n.step codec cfg t = some (n',out)) :
    Accounts (tr ++ out) n' := by
  cases moves_of_step hstep with
  | probe hit pad =>
    obtain ⟨htype,counted,inHand,queued,hplaces⟩ := h
    refine ⟨?_,counted,inHand,queued ++ submittedBy n.kernel hit,?_⟩
    · rw [submitted_append_submitted]
      intro e he
      rcases List.mem_append.mp he with he | he
      · exact htype e he
      · exact (submits_submittedBy n.kernel hit).type e he
    · rw [submitted_append_submitted, ofDaemon_append_submitted]
      exact hplaces.submit _ pad
  | read raw rest hbuf hloop hopen =>
    obtain ⟨htype,counted,inHand,queued,hplaces⟩ := h
    rw [hbuf, hloop] at hplaces
    obtain ⟨e,queued',hread⟩ := hplaces.read htype
    rw [List.append_nil]
    exact ⟨htype,counted,[e],queued',hread⟩
  | daemon a d' seen hown hown' => exact h.daemon hown hown'

variable {cache : Cache} {history : HistoryStore κ} {disk : Bytes}

lemma accounts_of_run
    (hrun : run (step codec cfg) (start k₀ (Daemon.start cache history disk)) turns =
      some (n,tr)) : Accounts tr n := by
  have hstart : Accounts [] (start k₀ (Daemon.start cache history disk)) :=
    ⟨fun _ he => absurd he List.not_mem_nil,[],[],[],rfl,.nil,.waiting,.nil⟩
  exact run_invariant (P := Accounts) (fun _ _ _ _ _ h hstep => h.step hstep) hstart hrun

/-- The kernel side of a run is the trace of its hits, and they submit what is shown. -/
lemma kernel_of_run (hrun : run (step codec cfg) n turns = some (n',tr)) :
    n'.kernel = trace n.kernel (turns.filterMap Turn.hit?) ∧
      n'.kernel.events = n.kernel.events ++ submitted tr ∧
      ((submitted tr).map Event.sent).sum =
        ((turns.filterMap Turn.hit?).map Hit.sent).sum ∧
      (submitted tr).countP Event.isExec =
        (turns.filterMap Turn.hit?).countP Hit.isExec := by
  induction turns generalizing n tr with
  | nil =>
    simp only [run, Option.some.injEq, Prod.mk.injEq] at hrun
    obtain ⟨rfl,rfl⟩ := hrun
    exact ⟨rfl,(List.append_nil _).symm,rfl,rfl⟩
  | cons t turns ih =>
    obtain ⟨m,out,later,hstep,hrest,rfl⟩ := run_cons_eq_some hrun
    obtain ⟨hkernel,hevents,hsent,hexecs⟩ := ih hrest
    have hsplit : submitted (out ++ later) = submitted out ++ submitted later :=
      List.filterMap_append
    rw [hsplit]
    cases moves_of_step hstep with
    | probe h pad =>
      have hout : submitted ((submittedBy n.kernel h).map (Shown.submitted (κ := κ))) =
          submittedBy n.kernel h := submitted_append_submitted [] _
      have hhits : (Turn.probe h pad::turns).filterMap Turn.hit? =
          h::turns.filterMap Turn.hit? := rfl
      have hsubmits := submits_submittedBy n.kernel h
      rw [hout, hhits]
      refine ⟨hkernel,?_,?_,?_⟩
      · rw [hevents, events_fire, List.append_assoc]
      · rw [List.map_append, List.sum_append, hsubmits.sent, hsent, List.map_cons, List.sum_cons]
      · rw [List.countP_append, hsubmits.execs, hexecs, List.countP_cons, Nat.add_comm]
    | read raw rest hbuf hloop hopen => exact ⟨hkernel,hevents,hsent,hexecs⟩
    | daemon a d' seen hown hown' =>
      have hout : submitted (seen.map Shown.daemon) = [] := submitted_append_daemon [] seen
      rw [hout]
      exact ⟨hkernel,hevents,hsent,hexecs⟩

end Run

end Node

section Batches

/-- The events are counted with these calls, one by one, apart from those passed over. -/
def ComesTo (es : List Event) (calls : List Call) : Prop :=
  ∃ rs, List.Forall₂ CountedAs es rs ∧ rs.reduceOption = calls

variable {κ : Type} {es : List Event} {calls live : List Call}

lemma ComesTo.split {more : List Call} (h : ComesTo es (calls ++ more)) :
    ∃ es₁ es₂, es = es₁ ++ es₂ ∧ ComesTo es₁ calls ∧ ComesTo es₂ more := by
  obtain ⟨rs,hcounts,hrs⟩ := h
  obtain ⟨rs₁,rs₂,rfl,h₁,h₂⟩ := List.filterMap_eq_append_iff.mp hrs
  refine ⟨es.take rs₁.length,es.drop rs₁.length,(List.take_append_drop _ _).symm,?_,?_⟩
  · exact ⟨rs₁,List.forall₂_take_append es rs₁ rs₂ hcounts,h₁⟩
  · exact ⟨rs₂,List.forall₂_drop_append es rs₁ rs₂ hcounts,h₂⟩

/-- Batches of calls are batches of events. -/
lemma ComesTo.batches {batches : List (List Call × Snapshot κ)}
    (h : ComesTo es (batches.flatMap Prod.fst ++ live)) :
    ∃ (eventBatches : List (List Event × Snapshot κ)) (liveEvents : List Event),
      es = eventBatches.flatMap Prod.fst ++ liveEvents ∧
      eventBatches.map Prod.snd = batches.map Prod.snd ∧
      (∀ eb ∈ eventBatches, ∃ b ∈ batches, ComesTo eb.1 b.1 ∧ eb.2 = b.2) ∧
      ComesTo liveEvents live := by
  induction batches generalizing es with
  | nil => exact ⟨[],es,rfl,rfl,fun _ hb => absurd hb List.not_mem_nil,h⟩
  | cons b batches ih =>
    rw [List.flatMap_cons, List.append_assoc] at h
    obtain ⟨es₁,es₂,rfl,h₁,h₂⟩ := h.split
    obtain ⟨eventBatches,liveEvents,rfl,hsnaps,hbatches,hlive⟩ := ih h₂
    refine ⟨(es₁,b.2)::eventBatches,liveEvents,?_,?_,?_,hlive⟩
    · rw [List.flatMap_cons, List.append_assoc]
    · rw [List.map_cons, hsnaps, List.map_cons]
    · intro eb heb
      rcases List.mem_cons.mp heb with rfl | heb
      · exact ⟨b,List.mem_cons_self,h₁,rfl⟩
      · obtain ⟨b',hb',hcomes⟩ := hbatches eb heb
        exact ⟨b',List.mem_cons_of_mem b hb',hcomes⟩

end Batches

section EndToEnd

variable {κ : Type} [CostNum κ] {codec : Codec κ} {cfg : Config κ} {k₀ : Kernel} {cache : Cache}
  {history : HistoryStore κ} {disk : Bytes} {turns : List Node.Turn} {n : Node κ}
  {tr : List (Node.Shown κ)}

omit [CostNum κ] in
lemma filterMap_dealt (seen : List (Seen κ)) :
    ((seen.filterMap Seen.dealt?).map Prod.snd).reduceOption = seen.filterMap Seen.call? ∧
    ((seen.filterMap Seen.dealt?).map fun r => sendBytes r.1).sum = (seen.map Seen.sent).sum ∧
    ((seen.filterMap Seen.dealt?).countP fun r => OfType eventExec r.1) =
      seen.countP Seen.isExec := by
  induction seen with
  | nil => exact ⟨rfl,rfl,rfl⟩
  | cons x seen ih =>
    obtain ⟨hcalls,hsent,hexecs⟩ := ih
    cases x with
    | handled raw call =>
      have hdealt : (Seen.handled raw call::seen).filterMap Seen.dealt? =
          (raw,call)::seen.filterMap Seen.dealt? := rfl
      rw [hdealt]
      refine ⟨?_,?_,?_⟩
      · cases call with
        | none => exact hcalls
        | some c => exact congrArg (List.cons c) hcalls
      · rw [List.map_cons, List.sum_cons, hsent, List.map_cons, List.sum_cons]
        rfl
      · rw [List.countP_cons, hexecs, List.countP_cons]
        rfl
    | snapshot snap =>
      refine ⟨hcalls,?_,?_⟩
      · rw [List.map_cons, List.sum_cons, Seen.sent, zero_add]
        exact hsent
      · rw [List.countP_cons]
        exact hexecs
    | recorded snap write =>
      refine ⟨hcalls,?_,?_⟩
      · rw [List.map_cons, List.sum_cons, Seen.sent, zero_add]
        exact hsent
      · rw [List.countP_cons]
        exact hexecs

/-- Over every run of a node: each event the probes submit is in the batch of one snapshot, in the
live map, in hand, or in the ring buffer, in the order in which they were submitted. A snapshot is
the summary of its batch, each event of it counted as what it is. -/
theorem events_reach_snapshots
    (hrun : run (Node.step codec cfg) (Node.start k₀ (Daemon.start cache history disk)) turns =
      some (n,tr)) :
    ∃ (batches : List (List Event × Snapshot κ)) (live inHand queued : List Event),
      n.kernel = trace k₀ (turns.filterMap Node.Turn.hit?) ∧
      n.kernel.events =
        k₀.events ++ (batches.flatMap Prod.fst ++ live ++ (inHand ++ queued)) ∧
      (∀ b ∈ batches, ∃ calls, ComesTo b.1 calls ∧ Summarises calls b.2) ∧
      (Node.ofDaemon tr).filterMap Seen.handed? ++ n.daemon.reporter.pending.toList =
        batches.map Prod.snd ∧
      (∃ calls, ComesTo live calls ∧ n.daemon.stats.conns = (newStats.replay calls).conns ∧
        n.daemon.stats.execCnt = (newStats.replay calls).execCnt) ∧
      Holds n.daemon.loop inHand ∧ List.Forall₂ Event.LaidOut queued n.ringbuf := by
  obtain ⟨hkernel,hevents,-,-⟩ := Node.kernel_of_run hrun
  obtain ⟨-,counted,inHand,queued,hplaces⟩ := Node.accounts_of_run hrun
  obtain ⟨acts,d,hacts,rfl⟩ := Node.node_simulates_daemon.run rfl hrun
  obtain ⟨callBatches,liveCalls,hcalls,hsums,-,hhanded,hconns,hexec⟩ := snapshots_batch_calls hacts
  have hcomes : ComesTo counted (callBatches.flatMap Prod.fst ++ liveCalls) := by
    refine ⟨_,?_,((filterMap_dealt _).1.trans hcalls)⟩
    rw [List.forall₂_map_right_iff]
    exact hplaces.counted.imp fun _ _ h => h.2
  obtain ⟨batches,live,rfl,hsnaps,hbatches,hlive⟩ := hcomes.batches
  refine ⟨batches,live,inHand,queued,hkernel,?_,?_,?_,⟨liveCalls,hlive,hconns,hexec⟩,
    hplaces.inHand,hplaces.queued⟩
  · rw [hevents, hplaces.submitted]
    rfl
  · intro b hb
    obtain ⟨b',hb',hcomes,hsnap⟩ := hbatches b hb
    exact ⟨b'.1,hcomes,hsnap ▸ hsums b' hb'⟩
  · rw [hsnaps]
    exact hhanded

/-- The records that are yet to be dealt with. -/
def Node.waiting (n : Node κ) : List Bytes := n.daemon.loop.record?.toList ++ n.ringbuf

lemma ofType_laidOut {e : Event} {raw : Bytes} (h : e.LaidOut raw) :
    OfType eventExec raw ↔ e.isExec := by
  have hread := binaryRead_mem h
  simp only [OfType, hread, Option.some.injEq, exists_eq_left', Event.isExec, decide_eq_true_eq]
  rfl

/-- Records say as much as the events they hold. -/
lemma sums_of_laidOut {es : List Event} {raws : List Bytes}
    (h : List.Forall₂ Event.LaidOut es raws) :
    (es.map Event.sent).sum = (raws.map sendBytes).sum ∧
      es.countP Event.isExec = raws.countP fun raw => OfType eventExec raw := by
  induction h with
  | nil => exact ⟨rfl,rfl⟩
  | cons hmem _ ih =>
    obtain ⟨hsent,hexecs⟩ := ih
    refine ⟨?_,?_⟩
    · rw [List.map_cons, List.sum_cons, hsent, List.map_cons, List.sum_cons,
        sendBytes_laidOut hmem]
      rfl
    · simp only [List.countP_cons, hexecs, decide_eq_true_eq, ofType_laidOut hmem]

lemma Holds.laidOut {loop : EventLoop} {es : List Event} (h : Holds loop es) :
    List.Forall₂ Event.LaidOut es loop.record?.toList := by
  cases h with
  | waiting => exact .nil
  | returned err => exact .nil
  | handling e raw rest hmem hrest => exact .cons hmem .nil

/-- Over every run of a node: what all calls of `tcp_sendmsg` asked for, as far as there was room
to report it, is in the live map, in the snapshot on its way, in what the history has gained, or
in records yet to be dealt with; and likewise the commands that were started. All sums are modulo
`2^64`. -/
theorem node_conserves
    (hrun : run (Node.step codec cfg) (Node.start k₀ (Daemon.start cache history disk)) turns =
      some (n,tr)) :
    ((turns.filterMap Node.Turn.hit?).map Hit.sent).sum =
      FiniteMap.weight ConnStat.bytes n.daemon.stats.conns +
        n.daemon.reporter.pending.elim 0 Snapshot.totalBytes +
        (n.daemon.history.cumBytes - history.cumBytes) + (n.waiting.map sendBytes).sum ∧
    UInt64.ofNat ((turns.filterMap Node.Turn.hit?).countP Hit.isExec) =
      n.daemon.stats.execCnt + ((Node.ofDaemon tr).map Seen.execs).sum +
        UInt64.ofNat (n.waiting.countP fun raw => OfType eventExec raw) := by
  obtain ⟨-,-,hsent,hexecs⟩ := Node.kernel_of_run hrun
  obtain ⟨-,counted,inHand,queued,hplaces⟩ := Node.accounts_of_run hrun
  obtain ⟨acts,d,hacts,rfl⟩ := Node.node_simulates_daemon.run rfl hrun
  have hbooks : Balanced history.cumBytes (Node.ofDaemon tr) n.daemon :=
    (sound_of_run hacts).balanced
  have hdealt : List.Forall₂ Event.LaidOut counted
      (((Node.ofDaemon tr).filterMap Seen.dealt?).map Prod.fst) := by
    rw [List.forall₂_map_right_iff]
    exact hplaces.counted.imp fun _ _ h => h.1
  have hwaiting : List.Forall₂ Event.LaidOut (inHand ++ queued) n.waiting :=
    List.rel_append hplaces.inHand.laidOut hplaces.queued
  obtain ⟨hcountedSent,hcountedExecs⟩ := sums_of_laidOut hdealt
  obtain ⟨hwaitingSent,hwaitingExecs⟩ := sums_of_laidOut hwaiting
  obtain ⟨-,hseenSent,hseenExecs⟩ := filterMap_dealt (Node.ofDaemon tr)
  rw [List.map_map] at hcountedSent
  rw [List.countP_map] at hcountedExecs
  constructor
  · rw [← hsent, hplaces.submitted, List.map_append, List.sum_append, hcountedSent, hwaitingSent,
      ← hbooks.bytes]
    exact congrArg (· + _) hseenSent
  · rw [← hexecs, hplaces.submitted, List.countP_append, hcountedExecs, hwaitingExecs,
      UInt64.ofNat_add, ← hbooks.execs]
    exact congrArg (fun k => UInt64.ofNat k + _) hseenExecs

end EndToEnd

section Demo

/-- A send is reported by the probe, handled and reported by the daemon; a second send and a
command come while the first is handled and stay in the ring buffer. -/
def sendThrough : List Node.Turn :=
  [.probe ⟨plainCtx 1,.tcpSendmsg 100 1500⟩ fun _ => 0,.read,
    .probe ⟨plainCtx 2,.tcpSendmsg 200 40⟩ fun _ => 1,.daemon .lookup,.daemon .lookup,
    .daemon .lookup,.daemon .lookup,.probe ⟨plainCtx 1,.execve⟩ fun _ => 2,.daemon .lookup,
    .daemon .lookup,.daemon (.finish 1),.daemon (.tick 2 ["0.0.0.0 -> 100.0.0.0:0"]),
    .daemon (.publish none),.daemon (.record .full)]

def demoNode : Node Rat := .start ⟨.empty,.empty,[]⟩ demoStart

lemma sendThrough_runs : ∃ n tr, run (Node.step demoCodec demoConfig) demoNode sendThrough =
    some (n,tr) ∧ n.ringbuf.length = 2 ∧ n.daemon.history.cumBytes = 1500 := by
  have hview : ((run (Node.step demoCodec demoConfig) demoNode sendThrough).map fun r =>
      (r.1.ringbuf.length,r.1.daemon.history.cumBytes)) = some (2,1500) := by
    decide +kernel
  obtain ⟨⟨n,tr⟩,hrun,heq⟩ := Option.map_eq_some_iff.mp hview
  simp only [Prod.mk.injEq] at heq
  exact ⟨n,tr,hrun,heq⟩

theorem events_reach_snapshots_sendThrough : ∃ n tr,
    run (Node.step demoCodec demoConfig) demoNode sendThrough = some (n,tr) ∧
    ∃ (batches : List (List Event × Snapshot Rat)) (live inHand queued : List Event),
      n.kernel = trace ⟨.empty,.empty,[]⟩ (sendThrough.filterMap Node.Turn.hit?) ∧
      n.kernel.events = [] ++ (batches.flatMap Prod.fst ++ live ++ (inHand ++ queued)) ∧
      (∀ b ∈ batches, ∃ calls, ComesTo b.1 calls ∧ Summarises calls b.2) ∧
      (Node.ofDaemon tr).filterMap Seen.handed? ++ n.daemon.reporter.pending.toList =
        batches.map Prod.snd ∧
      (∃ calls, ComesTo live calls ∧ n.daemon.stats.conns = (newStats.replay calls).conns ∧
        n.daemon.stats.execCnt = (newStats.replay calls).execCnt) ∧
      Holds n.daemon.loop inHand ∧ List.Forall₂ Event.LaidOut queued n.ringbuf := by
  obtain ⟨n,tr,hrun,-⟩ := sendThrough_runs
  exact ⟨n,tr,hrun,events_reach_snapshots hrun⟩

theorem node_conserves_sendThrough : ∃ n tr,
    run (Node.step demoCodec demoConfig) demoNode sendThrough = some (n,tr) ∧
    ((sendThrough.filterMap Node.Turn.hit?).map Hit.sent).sum =
      FiniteMap.weight ConnStat.bytes n.daemon.stats.conns +
        n.daemon.reporter.pending.elim 0 Snapshot.totalBytes +
        (n.daemon.history.cumBytes - demoStart.history.cumBytes) +
        (n.waiting.map sendBytes).sum ∧
    UInt64.ofNat ((sendThrough.filterMap Node.Turn.hit?).countP Hit.isExec) =
      n.daemon.stats.execCnt + ((Node.ofDaemon tr).map Seen.execs).sum +
        UInt64.ofNat (n.waiting.countP fun raw => OfType eventExec raw) := by
  obtain ⟨n,tr,hrun,-⟩ := sendThrough_runs
  exact ⟨n,tr,hrun,node_conserves hrun⟩

end Demo
end Tracewulf.Ebpf
