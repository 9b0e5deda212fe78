import Tracewulf.Main.FailedStartup

/-! What the startup goroutine tells the reporter, against what its calls came to. A step of the
screen stands for some of the calls; the goroutine tells of a step what it has found out before,
and it makes no call after one that failed. -/
namespace Tracewulf.Main
open Tracewulf.Base Tracewulf.Tui

section Outcomes

/-- The calls outside that were made, with the error they came to, if any. -/
def outcomes (t : Transcript) : List (Call × Option String) := t.filterMap fun x =>
  match x with
  | ⟨.startInformer,err⟩ => some (.startInformer,err)
  | ⟨.attempt stage,err⟩ => some (.attempt stage,err)
  | ⟨.update _,_⟩ => none

def errors (t : Transcript) : List String := (outcomes t).filterMap Prod.snd

/-- What `ebpf.Start` attempts before it reports that the probes are attached. -/
def ebpfStages : List Stage :=
  [.removeMemlock,.loadTracerObjects,.tracepoint "syscalls" "sys_enter_execve",
   .kprobe "tcp_v4_connect",.kretprobe "tcp_v4_connect",.kprobe "tcp_sendmsg",
   .kprobe "tcp_recvmsg",.kretprobe "tcp_recvmsg",.newReader]

/-- The calls that a step of the screen stands for. -/
def stepCalls : ℕ → List Call
  | 0 => [.startInformer]
  | 1 => ebpfStages.map .attempt
  | 2 => [.attempt .newHistoryStore]
  | _ => []

/-- The calls that were made bear out what the message says of a step. -/
def Supported (seen : List (Call × Option String)) : UpdateMsg → Prop
  | .stepUpdate i .done _ => ∀ call ∈ stepCalls i, (call,none) ∈ seen
  | .stepUpdate i .failed err => ∃ call ∈ stepCalls i, (call,some err) ∈ seen
  | _ => True

/-- Every message is supported by the calls before it, the first of which are given. -/
def Vouched : List (Call × Option String) → Transcript → Prop
  | _, [] => True
  | seen, x::t => (∀ msg ∈ sent [x], Supported seen msg) ∧ Vouched (seen ++ outcomes [x]) t

/-- What a startup that does not fail tells. -/
def script : List UpdateMsg :=
  [Reporter.start 0,Reporter.done 0 "synced",Reporter.start 1,
   Reporter.done 1 "4 probes attached",Reporter.start 2,Reporter.done 2 "",
   Reporter.ready "http://localhost:9090"]

variable {seen seen' : List (Call × Option String)} {t u : Transcript} {msg : UpdateMsg}
  {r : Option String}

lemma outcomes_append (t u : Transcript) : outcomes (t ++ u) = outcomes t ++ outcomes u :=
  List.filterMap_append

lemma errors_append (t u : Transcript) : errors (t ++ u) = errors t ++ errors u := by
  rw [errors, outcomes_append, List.filterMap_append]
  rfl

lemma Supported.mono (h : Supported seen msg) (hseen : seen ⊆ seen') : Supported seen' msg := by
  cases msg with
  | stepUpdate i status detail =>
    cases status with
    | done => exact fun call hcall => hseen (h call hcall)
    | failed => exact h.imp fun call hcall => hcall.imp_right fun hmem => hseen hmem
    | _ => trivial
  | _ => trivial

lemma vouched_append : Vouched seen (t ++ u) ↔
    Vouched seen t ∧ Vouched (seen ++ outcomes t) u := by
  induction t generalizing seen with
  | nil => simp [Vouched, outcomes]
  | cons x t ih =>
    have hsplit : outcomes (x::t) = outcomes [x] ++ outcomes t := outcomes_append [x] t
    rw [List.cons_append, Vouched, ih, Vouched, hsplit, ← List.append_assoc, and_assoc]

lemma Vouched.supported (h : Vouched seen t) (hmsg : msg ∈ sent t) :
    Supported (seen ++ outcomes t) msg := by
  induction t generalizing seen with
  | nil => exact absurd hmsg List.not_mem_nil
  | cons x t ih =>
    have hsplit : outcomes (x::t) = outcomes [x] ++ outcomes t := outcomes_append [x] t
    have hsent : sent (x::t) = sent [x] ++ sent t := sent_append [x] t
    rw [hsplit, ← List.append_assoc]
    rw [hsent] at hmsg
    rcases List.mem_append.mp hmsg with hfirst | hlater
    · refine (h.1 msg hfirst).mono ?_
      rw [List.append_assoc]
      exact List.subset_append_left _ _
    · exact ih h.2 hlater

end Outcomes

section Recount

/-- What the goroutine has told when it ends with `r`, and what its calls came to. -/
structure Recounted (t : Transcript) (r : Option String) : Prop where
  errors : errors t = r.toList
  vouched : Vouched [] t
  told : sent t <+: script ∨ ∃ err, sent t = [Reporter.start 0,Reporter.fail 0 err]
  complete : ∀ i < steps.length, (∀ call ∈ stepCalls i, (call,none) ∈ outcomes t) →
    ∃ detail, Reporter.done i detail ∈ sent t

variable {P : Transcript → Option String → Prop} {stage : Stage} {stages before : List Stage}
  {msg : UpdateMsg} {rest : Goroutine (Option String)} {err : String} {t : Transcript}

/-- A call that succeeds. -/
def succeeds (stage : Stage) : (call : Call) × call.Answer := ⟨.attempt stage,none⟩

lemma comes_update {f : Unit → Goroutine (Option String)} : (update msg >>= f).Comes P ↔
    (f ()).Comes fun t => P (⟨.update msg,()⟩::t) := by
  rw [Resumption.comes_bind]
  exact ⟨fun h => h (),fun h _ => h⟩

lemma comes_startInformer {f : Option String → Goroutine (Option String)} :
    (startInformer >>= f).Comes P ↔
      ((f none).Comes fun t => P (⟨.startInformer,none⟩::t)) ∧
      ∀ err, (f (some err)).Comes fun t => P (⟨.startInformer,some err⟩::t) := by
  rw [Resumption.comes_bind]
  exact Option.forall

lemma comes_attempt : (attempt stage).Comes P ↔
    P [succeeds stage] none ∧ ∀ err, P [⟨.attempt stage,some err⟩] (some err) := Option.forall

lemma comes_check : (check stage rest).Comes P ↔
    (∀ err, P [⟨.attempt stage,some err⟩] (some err)) ∧
      rest.Comes fun t => P (succeeds stage::t) := by
  rw [check, Resumption.comes_bind, and_comm]
  exact Option.forall

/-- Attempts one after another: one of them fails and is the last, or all succeed. -/
lemma comes_checks : (stages.foldr check rest).Comes P ↔
    (∀ before stage after, stages = before ++ stage::after → ∀ err,
      P (before.map succeeds ++ [⟨.attempt stage,some err⟩]) (some err)) ∧
      rest.Comes fun t => P (stages.map succeeds ++ t) := by
  induction stages generalizing P with
  | nil =>
    simp only [List.foldr_nil, List.map_nil, List.nil_append]
    exact ⟨fun h => ⟨fun before stage after h => absurd h (by simp),h⟩,And.right⟩
  | cons first stages ih =>
    rw [List.foldr_cons, comes_check, ih, ← and_assoc]
    refine and_congr_left fun _ => ⟨?_,fun h => ⟨h [] first stages rfl,?_⟩⟩
    · rintro ⟨hfirst,hlater⟩ before stage after hsplit err
      cases before with
      | nil =>
        obtain ⟨rfl,-⟩ := List.cons.inj hsplit
        exact hfirst err
      | cons b before =>
        obtain ⟨rfl,hstages⟩ := List.cons.inj hsplit
        exact hlater before stage after hstages err
    · exact fun before stage after hsplit err =>
        h (first::before) stage after (by rw [hsplit, List.cons_append]) err

/-- `ebpf.Start` for the interactive daemon. -/
lemma ebpfStart_eq : ebpfStart (some report) = ebpfStages.foldr check (do
    update (Reporter.done 1 "4 probes attached")
    update (Reporter.start 2)
    check .newHistoryStore do
      update (Reporter.done 2 "")
      update (Reporter.ready "http://localhost:9090")
      attempt .readEvents) := rfl

@[simp] lemma outcomes_succeeds (stages : List Stage) :
    outcomes (stages.map succeeds) = stages.map fun stage => (.attempt stage,none) := by
  rw [outcomes, List.filterMap_map]
  exact List.filterMap_eq_map_iff_forall_eq_some.mpr fun _ _ => rfl

@[simp] lemma sent_succeeds (stages : List Stage) : sent (stages.map succeeds) = [] := by
  rw [sent, List.filterMap_map]
  exact List.filterMap_eq_nil_iff.mpr fun _ _ => rfl

@[simp] lemma errors_succeeds (stages : List Stage) : errors (stages.map succeeds) = [] := by
  rw [errors, outcomes_succeeds, List.filterMap_map]
  exact List.filterMap_eq_nil_iff.mpr fun _ _ => rfl

lemma vouched_succeeds (seen : List (Call × Option String)) (stages : List Stage) :
    Vouched seen (stages.map succeeds) := by
  induction stages generalizing seen with
  | nil => trivial
  | cons stage stages ih => exact ⟨List.forall_mem_nil _,ih _⟩

lemma vouched_update {seen : List (Call × Option String)} (h : Supported seen msg)
    (ht : Vouched seen t) : Vouched seen (⟨.update msg,()⟩::t) := by
  refine ⟨List.forall_mem_singleton.mpr h,?_⟩
  have hnone : outcomes [⟨.update msg,()⟩] = [] := rfl
  rwa [hnone, List.append_nil]

/-- The start of the goroutine when the informers are synced. -/
def synced : Transcript :=
  [⟨.update (Reporter.start 0),()⟩,⟨.startInformer,none⟩,
   ⟨.update (Reporter.done 0 "synced"),()⟩,⟨.update (Reporter.start 1),()⟩]

lemma vouched_synced : Vouched [] synced := by
  have hdone : Supported [(.startInformer,none)] (Reporter.done 0 "synced") :=
    List.forall_mem_singleton.mpr List.mem_cons_self
  exact vouched_update trivial
    ⟨List.forall_mem_nil _,vouched_update hdone (vouched_update trivial trivial)⟩

lemma done_synced (t : Transcript) : Reporter.done 0 "synced" ∈ sent (synced ++ t) := by
  rw [sent_append]
  exact List.mem_append_left _ (.tail _ (.head _))

/-- A probe, or what comes before the probes, fails: nothing more is told. -/
lemma recounted_probe {after : List Stage} (h : ebpfStages = before ++ stage::after)
    (err : String) : Recounted
      (synced ++ (before.map succeeds ++ [⟨.attempt stage,some err⟩])) (some err) where
  errors := by
    rw [errors_append, errors_append, errors_succeeds]
    rfl
  vouched :=
    vouched_append.mpr ⟨vouched_synced,vouched_append.mpr ⟨vouched_succeeds _ _,
      List.forall_mem_nil _,trivial⟩⟩
  told := by
    rw [sent_append, sent_append, sent_succeeds]
    exact .inl (List.take_prefix 3 script)
  complete := by
    have hseen : ∀ other : Stage, (Call.attempt other,none) ∈ outcomes
        (synced ++ (before.map succeeds ++ [⟨.attempt stage,some err⟩])) → other ∈ before := by
      intro other hmem
      rw [outcomes_append, outcomes_append, outcomes_succeeds] at hmem
      simpa [outcomes, synced] using hmem
    intro i hi hall
    match i, hi with
    | 0, _ => exact ⟨_,done_synced _⟩
    | 1, _ =>
      -- the stage that fails is one of those, and it is not attempted twice
      have hstage : stage ∈ ebpfStages := h ▸ by simp
      have hnodup : (before ++ stage::after).Nodup := h ▸ by decide
      have hbefore := hseen stage (hall _ (List.mem_map_of_mem hstage))
      exact absurd rfl ((List.nodup_append.mp hnodup).2.2 _ hbefore _ List.mem_cons_self)
    | 2, _ =>
      have hbefore := hseen .newHistoryStore (hall _ List.mem_cons_self)
      have hmem : Stage.newHistoryStore ∈ ebpfStages := h ▸ List.mem_append_left _ hbefore
      exact absurd hmem (by decide)

/-- The probes are attached. -/
def attached : Transcript :=
  synced ++ (ebpfStages.map succeeds ++
    [⟨.update (Reporter.done 1 "4 probes attached"),()⟩,⟨.update (Reporter.start 2),()⟩])

lemma vouched_attached : Vouched [] attached := by
  refine vouched_append.mpr ⟨vouched_synced,vouched_append.mpr ⟨vouched_succeeds _ _,?_⟩⟩
  refine vouched_update ?_ (vouched_update trivial trivial)
  intro call hcall
  obtain ⟨stage,hstage,rfl⟩ := List.mem_map.mp hcall
  rw [outcomes_succeeds]
  exact List.mem_append_right _ (List.mem_map_of_mem hstage)

/-- The history cannot be opened. -/
lemma recounted_store (err : String) :
    Recounted (attached ++ [⟨.attempt .newHistoryStore,some err⟩]) (some err) where
  errors := rfl
  vouched := vouched_append.mpr ⟨vouched_attached,List.forall_mem_nil _,trivial⟩
  told := .inl (List.take_prefix 5 script)
  complete := by
    intro i hi hall
    match i, hi with
    | 0, _ => exact ⟨"synced",.tail _ (.head _)⟩
    | 1, _ => exact ⟨"4 probes attached",.tail _ (.tail _ (.tail _ (.head _)))⟩
    | 2, _ =>
      have hmem := hall _ List.mem_cons_self
      simp [outcomes, attached, synced, ebpfStages, succeeds] at hmem

/-- The dashboard is told of, and then the events are read until they end. -/
lemma recounted_read (r : Option String) : Recounted (attached ++
    [succeeds .newHistoryStore,⟨.update (Reporter.done 2 ""),()⟩,
     ⟨.update (Reporter.ready "http://localhost:9090"),()⟩,⟨.attempt .readEvents,r⟩]) r where
  errors := by cases r <;> rfl
  vouched := by
    refine vouched_append.mpr ⟨vouched_attached,List.forall_mem_nil _,?_⟩
    refine vouched_update ?_ (vouched_update trivial ⟨List.forall_mem_nil _,trivial⟩)
    exact List.forall_mem_singleton.mpr (List.mem_append_right _ List.mem_cons_self)
  told := .inl List.prefix_rfl
  complete := by
    intro i hi _
    match i, hi with
    | 0, _ => exact ⟨"synced",.tail _ (.head _)⟩
    | 1, _ => exact ⟨"4 probes attached",.tail _ (.tail _ (.tail _ (.head _)))⟩
    | 2, _ => exact ⟨"",.tail _ (.tail _ (.tail _ (.tail _ (.tail _ (.head _)))))⟩

/-- The informers cannot be synced. -/
lemma recounted_informer (err : String) : Recounted
    [⟨.update (Reporter.start 0),()⟩,⟨.startInformer,some err⟩,
     ⟨.update (Reporter.fail 0 err),()⟩] (some err) where
  errors := rfl
  vouched := by
    refine vouched_update trivial ⟨List.forall_mem_nil _,vouched_update ?_ trivial⟩
    exact ⟨.startInformer,List.mem_cons_self,List.mem_cons_self⟩
  told := .inr ⟨err,rfl⟩
  complete := by
    intro i hi hall
    match i, hi with
    | 0, _ => simpa [outcomes] using hall _ List.mem_cons_self
    | 1, _ => simpa [outcomes] using hall _ List.mem_cons_self
    | 2, _ => simpa [outcomes] using hall _ List.mem_cons_self

/-- However the startup goes and wherever it ends. -/
theorem startup_recounted : startup.Comes Recounted := by
  rw [startup, comes_update, comes_startInformer]
  constructor
  · dsimp only
    simp only [comes_update, ebpfStart_eq, comes_checks, comes_check, comes_attempt]
    exact ⟨fun before stage after h err => recounted_probe h err,recounted_store,
      recounted_read none,fun err => recounted_read (some err)⟩
  · exact fun err => comes_update.mpr (recounted_informer err)

end Recount
end Tracewulf.Main
