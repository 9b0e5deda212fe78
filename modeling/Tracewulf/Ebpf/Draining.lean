import Tracewulf.Ebpf.Shutdown

/-! How the daemon comes to rest. The handling of a record asks the cache a bounded number of
times, so once the ring buffer is closed the event loop has only a bounded number of steps left
to take, and it can always take the next one. -/
namespace Tracewulf.Ebpf
open Tracewulf.Base Tracewulf.K8s

section Lookups

lemma resolveName_within (ip : String) : (resolveName ip).Within 2 := by
  rintro (_ | pod)
  · rintro (_ | svc) <;> trivial
  · trivial

lemma resolveZone_within (ip : String) : (resolveZone ip).Within 2 := by
  have hpod : (lookupPod ip).Within 1 := fun _ => trivial
  refine Resumption.within_bind (n := 1) hpod fun pod => ?_
  cases pod with
  | none => trivial
  | some info =>
    have hnode : (lookupNode info.node).Within 1 := fun _ => trivial
    simp only
    split_ifs
    · trivial
    · refine Resumption.within_bind (n := 0) hnode fun node => ?_
      cases node with
      | none => trivial
      | some node =>
        simp only
        split_ifs <;> trivial

/-- Two lookups for each of two names and two zones. -/
theorem handleRecord_within (raw : Bytes) : (handleRecord raw).Within 8 := by
  unfold handleRecord
  cases binaryRead raw with
  | none => trivial
  | some e =>
    simp only
    split_ifs
    · trivial
    · trivial
    all_goals
      refine Resumption.within_bind (n := 6) (resolveName_within _) fun srcName => ?_
      refine Resumption.within_bind (n := 4) (resolveName_within _) fun dstName => ?_
      refine Resumption.within_bind (n := 2) (resolveZone_within _) fun srcZone => ?_
      refine Resumption.within_bind (n := 0) (resolveZone_within _) fun dstZone => ?_
      exact Resumption.within_pure 0 _

end Lookups

section Loop

/-- The record in hand. -/
def EventLoop.record? : EventLoop → Option Bytes
  | handling raw _ => some raw
  | waiting | returned _ => none

/-- How many steps the loop may still take by itself if it gets no further record. -/
inductive Budget : EventLoop → ℕ → Prop
  | returned (err : Option String) (n : ℕ) : Budget (.returned err) n
  | waiting (n : ℕ) : Budget .waiting (n+1)
  | handling (raw : Bytes) (rest : Lookups (Option (Time → Call))) (n : ℕ) (h : rest.Within n) :
      Budget (.handling raw rest) (n+2)

/-- The steps of the event loop. -/
def Action.ofLoop : Action → Bool
  | .readRecord _ | .lookup | .finish _ | .readClosed | .readError _ => true
  | _ => false

def Seen.handled? {κ : Type} : Seen κ → Option Bytes
  | handled raw _ => some raw
  | snapshot _ | recorded _ _ => none

variable {κ : Type} [CostNum κ] {codec : Codec κ} {cfg : Config κ} {d d' : Daemon κ} {a : Action}
  {seen tr : List (Seen κ)} {n : ℕ}

/-- What a step makes of the loop once the ring buffer is closed. -/
structure Drains (d : Daemon κ) (a : Action) (d' : Daemon κ) (seen : List (Seen κ)) (n : ℕ) :
    Prop where
  rdClosed : d'.rdClosed
  own : a.ofLoop → ∃ m, n = m+1 ∧ Budget d'.loop m
  other : a.ofLoop = false → d'.loop = d.loop
  records : d.loop.record?.toList = seen.filterMap Seen.handled? ++ d'.loop.record?.toList

lemma Budget.drains (h : Budget d.loop n) (hclosed : d.rdClosed)
    (hstep : d.step codec cfg a = some (d',seen)) : Drains d a d' seen n := by
  cases takes_of_step hstep with
  | readRecord raw hloop hopen => exact absurd hclosed hopen
  | lookup raw q resume hloop =>
    rw [hloop] at h
    cases h with
    | handling _ _ n hwithin =>
      cases n with
      | zero => exact hwithin.elim
      | succ n =>
        refine ⟨hclosed,fun _ => ⟨n+2,rfl,.handling raw _ n (hwithin _)⟩,fun ho => ?_,?_⟩
        · cases ho
        · rw [hloop]; rfl
  | finish raw call now hloop =>
    rw [hloop] at h
    cases h with
    | handling _ _ n hwithin =>
      refine ⟨hclosed,fun _ => ⟨n+1,rfl,.waiting n⟩,fun ho => ?_,?_⟩
      · cases ho
      · rw [hloop]; rfl
  | readClosed hloop _ =>
    rw [hloop] at h
    cases h with
    | waiting n =>
      refine ⟨hclosed,fun _ => ⟨n,rfl,.returned _ n⟩,fun ho => ?_,?_⟩
      · cases ho
      · rw [hloop]; rfl
  | readError err hloop =>
    rw [hloop] at h
    cases h with
    | waiting n =>
      refine ⟨hclosed,fun _ => ⟨n,rfl,.returned _ n⟩,fun ho => ?_,?_⟩
      · cases ho
      · rw [hloop]; rfl
  | closeReader hstop => exact absurd hclosed hstop.2
  | _ =>
    refine ⟨hclosed,fun ho => ?_,fun _ => rfl,rfl⟩
    cases ho

/-- The record in hand is never more than eight lookups away from its end. -/
def Bounded (l : EventLoop) : Prop := ∀ raw rest, l = .handling raw rest → rest.Within 8

lemma Bounded.advances {l l' : EventLoop} (h : Bounded l) (ha : Advances l l') : Bounded l' := by
  cases ha with
  | same => exact h
  | start raw =>
    rintro raw' rest ⟨⟩
    exact handleRecord_within raw
  | answer raw q resume x =>
    rintro raw' rest ⟨⟩
    have hwithin : (resume x).Within 7 := h raw _ rfl x
    exact hwithin.mono (by decide)
  | leave err => rintro raw' rest ⟨⟩

lemma Bounded.budget {l : EventLoop} (h : Bounded l) : Budget l 10 := by
  cases l with
  | waiting => exact .waiting 9
  | handling raw rest => exact .handling raw rest 8 (h raw rest rfl)
  | returned err => exact .returned err 10

variable {cache : Cache} {history : HistoryStore κ} {disk : Bytes} {acts more : List Action}

lemma bounded_of_run (hrun : (Daemon.start cache history disk).run codec cfg acts = some (d,tr)) :
    Bounded d.loop := by
  have hstart : Bounded (Daemon.start cache history disk).loop := by rintro raw rest ⟨⟩
  refine run_preserves (P := fun d => Bounded d.loop) ?_ hstart hrun
  intro d a d' seen h hstep
  cases effect_of_step hstep with
  | quiet hsame hloop => exact h.advances hloop
  | finish raw call now hloop hd' => subst hd'; rintro raw rest ⟨⟩
  | tick now keys hselect hkeys hd' => subst hd'; exact h
  | record snap write hpub hd' => subst hd'; exact h

/-- The budget covers whatever steps of its own the loop takes in a run. -/
lemma Budget.run (h : Budget d.loop n) (hclosed : d.rdClosed)
    (hrun : d.run codec cfg more = some (d',tr)) :
    more.countP Action.ofLoop ≤ n ∧ Budget d'.loop (n - more.countP Action.ofLoop) ∧
      tr.filterMap Seen.handled? <+: d.loop.record?.toList := by
  induction more generalizing d n tr with
  | nil =>
    simp only [Daemon.run, Base.run, Option.some.injEq, Prod.mk.injEq] at hrun
    obtain ⟨rfl,rfl⟩ := hrun
    exact ⟨Nat.zero_le n,h,List.nil_prefix⟩
  | cons a more ih =>
    obtain ⟨t,seen,later,hstep,hrest,rfl⟩ := run_cons_eq_some hrun
    have hd := h.drains hclosed hstep
    have hrecords : ∀ {rest : List (Seen κ)},
        rest.filterMap Seen.handled? <+: t.loop.record?.toList →
        (seen ++ rest).filterMap Seen.handled? <+: d.loop.record?.toList := by
      intro rest hrest
      rw [List.filterMap_append, hd.records]
      exact (List.prefix_append_right_inj _).mpr hrest
    cases ha : a.ofLoop with
    | true =>
      obtain ⟨m,rfl,hm⟩ := hd.own ha
      obtain ⟨hcount,hleft,htr⟩ := ih hm hd.rdClosed hrest
      rw [List.countP_cons_of_pos ha]
      refine ⟨Nat.succ_le_succ hcount,?_,hrecords htr⟩
      rwa [Nat.succ_sub_succ]
    | false =>
      have hsame : Budget t.loop n := (hd.other ha).symm ▸ h
      obtain ⟨hcount,hleft,htr⟩ := ih hsame hd.rdClosed hrest
      rw [List.countP_cons_of_neg (by simp [ha])]
      exact ⟨hcount,hleft,hrecords htr⟩

/-- A step the loop can take when the ring buffer is closed. -/
lemma loop_progresses (hclosed : d.rdClosed) (now : Time) :
    (∃ err, d.loop = .returned err) ∨ (d.step codec cfg .lookup).isSome ∨
      (d.step codec cfg (.finish now)).isSome ∨ (d.step codec cfg .readClosed).isSome := by
  cases hloop : d.loop with
  | waiting => exact .inr (.inr (.inr (by simp [Daemon.step, hloop, hclosed])))
  | handling raw rest =>
    rcases handling_progresses hloop now with h | h
    · exact .inr (.inl h)
    · exact .inr (.inr (.inl h))
  | returned err => exact .inl ⟨err,rfl⟩

/-- Once the ring buffer is closed, whatever goes on beside it: the event loop deals with no record
but the one in hand, takes at most ten more steps, and until it has returned it can take one. -/
theorem event_loop_returns
    (hrun : (Daemon.start cache history disk).run codec cfg acts = some (d,tr))
    (hclosed : d.rdClosed) {tr' : List (Seen κ)}
    (hmore : d.run codec cfg more = some (d',tr')) (now : Time) :
    more.countP Action.ofLoop ≤ 10 ∧
    tr'.filterMap Seen.handled? <+: d.loop.record?.toList ∧
    ((∃ err, d'.loop = .returned err) ∨ (d'.step codec cfg .lookup).isSome ∨
      (d'.step codec cfg (.finish now)).isSome ∨ (d'.step codec cfg .readClosed).isSome) := by
  obtain ⟨hcount,-,hrecords⟩ := (bounded_of_run hrun).budget.run hclosed hmore
  refine ⟨hcount,hrecords,loop_progresses ?_ now⟩
  have hstays : ∀ (s : Daemon κ) (a : Action) (t : Daemon κ) (seen : List (Seen κ)),
      s.rdClosed → s.step codec cfg a = some (t,seen) → t.rdClosed := by
    intro s a t seen h hstep
    cases takes_of_step hstep with
    | closeReader hstop => rfl
    | _ => exact h
  exact run_preserves (P := fun d => d.rdClosed = true) hstays hclosed hmore

end Loop

section Stop

variable {κ : Type} [CostNum κ] {codec : Codec κ} {cfg : Config κ} {d d' e : Daemon κ}
  {tr : List (Seen κ)} {n : ℕ}

/-- The steps of a shutdown: none of them waits for a record, a tick or a notification. -/
def Action.stopping : Action → Bool
  | .lookup | .finish _ | .readClosed | .publish _ | .record _ | .reporterStop | .closeStop
  | .closeReader => true
  | .informer _ _ | .readRecord _ | .readError _ | .tick _ _ => false

/-- At most `n` steps of a shutdown bring the daemon to rest. -/
def StopsIn (codec : Codec κ) (cfg : Config κ) (n : ℕ) (d : Daemon κ) : Prop :=
  ∃ acts d' tr, d.run codec cfg acts = some (d',tr) ∧ acts.length ≤ n ∧
    (∀ a ∈ acts, a.stopping = true) ∧ d'.stopped

lemma StopsIn.step {a : Action} {seen : List (Seen κ)}
    (hstep : d.step codec cfg a = some (d',seen)) (ha : a.stopping = true)
    (h : StopsIn codec cfg n d') : StopsIn codec cfg (n+1) d := by
  obtain ⟨acts,e,tr,hrun,hlen,hacts,hstopped⟩ := h
  refine ⟨a::acts,e,_,run_cons_of_eq_some hstep hrun,Nat.succ_le_succ hlen,?_,hstopped⟩
  intro b hb
  rcases List.mem_cons.mp hb with rfl | hb
  · exact ha
  · exact hacts b hb

lemma StopsIn.mono {m : ℕ} (h : StopsIn codec cfg n d) (hnm : n ≤ m) : StopsIn codec cfg m d := by
  obtain ⟨acts,e,tr,hrun,hlen,hacts,hstopped⟩ := h
  exact ⟨acts,e,tr,hrun,hlen.trans hnm,hacts,hstopped⟩

lemma stopsIn_of_stopped (h : d.stopped) : StopsIn codec cfg 0 d :=
  ⟨[],d,[],rfl,le_rfl,fun _ ha => absurd ha List.not_mem_nil,h⟩

lemma stopsIn_of_selecting (hloop : d.loop = .returned none) (hstop : d.stopClosed)
    (hreporter : d.reporter = .selecting) : StopsIn codec cfg 1 d := by
  have hstep : d.step codec cfg .reporterStop = some ({ d with reporter := .returned },[]) := by
    simp [Daemon.step, hreporter, hstop]
  refine StopsIn.step hstep rfl (stopsIn_of_stopped ?_)
  simp [Daemon.stopped, hloop]

lemma stopsIn_of_published {snap : Snapshot κ} (hloop : d.loop = .returned none)
    (hstop : d.stopClosed) (hreporter : d.reporter = .published snap) :
    StopsIn codec cfg 2 d := by
  have hstep : d.step codec cfg (.record .full) = some ({ d with
      disk := (d.history.record codec snap .full d.disk).1
      history := (d.history.record codec snap .full d.disk).2
      reporter := .selecting },[.recorded snap .full]) := by
    simp [Daemon.step, hreporter]
  refine StopsIn.step hstep rfl ?_
  exact stopsIn_of_selecting hloop hstop rfl

/-- The reporter finishes the report under way, if any, and takes the stop branch. -/
lemma stopsIn_of_returned (hloop : d.loop = .returned none) (hstop : d.stopClosed) :
    StopsIn codec cfg 3 d := by
  cases hreporter : d.reporter with
  | selecting => exact (stopsIn_of_selecting hloop hstop hreporter).mono (by decide)
  | taken snap =>
    have hstep : d.step codec cfg (.publish none) =
        some ({ d with reporter := .published snap },[]) := by
      simp [Daemon.step, hreporter]
    refine StopsIn.step hstep rfl ?_
    exact stopsIn_of_published hloop hstop rfl
  | published snap => exact (stopsIn_of_published hloop hstop hreporter).mono (by decide)
  | returned =>
    exact (stopsIn_of_stopped (by simp [Daemon.stopped, hloop, hreporter])).mono (by decide)

lemma stopsIn_of_waiting (hloop : d.loop = .waiting) (hstop : d.stopClosed)
    (hclosed : d.rdClosed) : StopsIn codec cfg 4 d := by
  have hstep : d.step codec cfg .readClosed = some ({ d with loop := .returned none },[]) := by
    simp [Daemon.step, hloop, hclosed]
  refine StopsIn.step hstep rfl ?_
  exact stopsIn_of_returned rfl hstop

/-- The event loop finishes the record in hand. -/
lemma stopsIn_of_handling {raw : Bytes} {rest : Lookups (Option (Time → Call))}
    (hwithin : rest.Within n) (hloop : d.loop = .handling raw rest) (hstop : d.stopClosed)
    (hclosed : d.rdClosed) : StopsIn codec cfg (n+5) d := by
  induction rest generalizing d n with
  | done call =>
    have hstep : d.step codec cfg (.finish 0) = some ({ d with
        stats := (call.map fun mk => mk 0).elim d.stats (Call.apply d.stats)
        loop := .waiting },[.handled raw (call.map fun mk => mk 0)]) := by
      simp [Daemon.step, hloop]
    have hwaiting : StopsIn codec cfg 5 d := by
      refine StopsIn.step hstep rfl ?_
      exact stopsIn_of_waiting rfl hstop hclosed
    exact hwaiting.mono (Nat.le_add_left 5 n)
  | ask q resume ih =>
    have hstep : d.step codec cfg .lookup =
        some ({ d with loop := .handling raw (resume (q.answer d.cache)) },[]) := by
      simp [Daemon.step, hloop]
    cases n with
    | zero => exact hwithin.elim
    | succ n =>
      rw [Nat.succ_add]
      refine StopsIn.step hstep rfl ?_
      exact ih (q.answer d.cache) (hwithin _) rfl hstop hclosed

lemma stopsIn_of_closed (h : Bounded d.loop) (halive : ∀ err, d.loop ≠ .returned (some err))
    (hstop : d.stopClosed) (hclosed : d.rdClosed) : StopsIn codec cfg 13 d := by
  cases hloop : d.loop with
  | waiting => exact (stopsIn_of_waiting hloop hstop hclosed).mono (by decide)
  | handling raw rest => exact stopsIn_of_handling (h raw rest hloop) hloop hstop hclosed
  | returned err =>
    cases err with
    | none => exact (stopsIn_of_returned hloop hstop).mono (by decide)
    | some err => exact absurd hloop (halive err)

lemma stopsIn_of_stopClosed (h : Bounded d.loop) (halive : ∀ err, d.loop ≠ .returned (some err))
    (hstop : d.stopClosed) : StopsIn codec cfg 14 d := by
  cases hclosed : d.rdClosed with
  | true => exact (stopsIn_of_closed h halive hstop hclosed).mono (by decide)
  | false =>
    have hstep : d.step codec cfg .closeReader = some ({ d with rdClosed := true },[]) := by
      simp [Daemon.step, hstop, hclosed]
    refine StopsIn.step hstep rfl ?_
    exact stopsIn_of_closed h halive hstop rfl

variable {cache : Cache} {history : HistoryStore κ} {disk : Bytes} {acts : List Action}

/-- Wherever a run stands, as long as reading the ring buffer has not failed: at most fifteen steps
bring the daemon to rest, none of which waits for a record, a tick or a notification. -/
theorem can_always_stop
    (hrun : (Daemon.start cache history disk).run codec cfg acts = some (d,tr))
    (halive : ∀ err, d.loop ≠ .returned (some err)) :
    ∃ more d' tr', d.run codec cfg more = some (d',tr') ∧ more.length ≤ 15 ∧
      (∀ a ∈ more, a.stopping = true) ∧ d'.stopped := by
  have hbounded := bounded_of_run hrun
  suffices StopsIn codec cfg 15 d from this
  cases hstop : d.stopClosed with
  | true => exact (stopsIn_of_stopClosed hbounded halive hstop).mono (by decide)
  | false =>
    have hstep : d.step codec cfg .closeStop = some ({ d with stopClosed := true },[]) := by
      simp [Daemon.step, hstop]
    refine StopsIn.step hstep rfl ?_
    exact stopsIn_of_stopClosed hbounded halive rfl

end Stop

section Demo

/-- The ring buffer is closed while a record is in hand. -/
def closeInHand : List Action :=
  [.readRecord sendRecord,.lookup,.lookup,.closeStop,.closeReader]

def finishInHand : List Action :=
  [.lookup,.tick 2 [],.lookup,.lookup,.lookup,.finish 3,.readClosed]

lemma closeInHand_runs : ∃ d tr, demoStart.run demoCodec demoConfig closeInHand = some (d,tr) ∧
    d.rdClosed = true ∧ (∀ err, d.loop ≠ .returned (some err)) ∧
    ∃ d' tr', d.run demoCodec demoConfig finishInHand = some (d',tr') := by
  have hview : ((demoStart.run demoCodec demoConfig closeInHand).map fun r =>
      (r.1.rdClosed,r.1.loop.record?.isSome,
        (r.1.run demoCodec demoConfig finishInHand).isSome)) = some (true,true,true) := by
    decide +kernel
  obtain ⟨⟨d,tr⟩,hrun,heq⟩ := Option.map_eq_some_iff.mp hview
  simp only [Prod.mk.injEq] at heq
  obtain ⟨hclosed,hhand,hmore⟩ := heq
  obtain ⟨⟨d',tr'⟩,hmore⟩ := Option.isSome_iff_exists.mp hmore
  refine ⟨d,tr,hrun,hclosed,fun err herr => ?_,d',tr',hmore⟩
  rw [herr] at hhand
  cases hhand

theorem event_loop_returns_inHand : ∃ d tr d' tr',
    demoStart.run demoCodec demoConfig closeInHand = some (d,tr) ∧
    d.run demoCodec demoConfig finishInHand = some (d',tr') ∧
    finishInHand.countP Action.ofLoop ≤ 10 ∧
    tr'.filterMap Seen.handled? <+: d.loop.record?.toList ∧
    ((∃ err, d'.loop = .returned err) ∨ (d'.step demoCodec demoConfig .lookup).isSome ∨
      (d'.step demoCodec demoConfig (.finish 0)).isSome ∨
      (d'.step demoCodec demoConfig .readClosed).isSome) := by
  obtain ⟨d,tr,hrun,hclosed,-,d',tr',hmore⟩ := closeInHand_runs
  exact ⟨d,tr,d',tr',hrun,hmore,event_loop_returns hrun hclosed hmore 0⟩

theorem can_always_stop_inHand : ∃ d tr,
    demoStart.run demoCodec demoConfig closeInHand = some (d,tr) ∧
    ∃ more d' tr', d.run demoCodec demoConfig more = some (d',tr') ∧ more.length ≤ 15 ∧
      (∀ a ∈ more, a.stopping = true) ∧ d'.stopped := by
  obtain ⟨d,tr,hrun,-,halive,-⟩ := closeInHand_runs
  exact ⟨d,tr,hrun,can_always_stop hrun halive⟩

end Demo
end Tracewulf.Ebpf
