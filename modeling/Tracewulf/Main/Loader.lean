import Tracewulf.Base.Deferred
import Tracewulf.Main.Startup

/-! `ebpf.Start` with all that it opens, starts and closes. Every link, the objects and the reader
are closed by a deferred call; the history file is not closed, and the goroutines that are started
run until `stopCh` is closed. With only its failing calls and its reports it is the `ebpfStart` that
the startup goroutine runs. -/
namespace Tracewulf.Main
open Tracewulf.Base Tracewulf.Tui

/-- What `Start` has to close, by the names of its variables. -/
inductive Resource
  | objs
  | tp
  | kpEntry
  | kpExit
  | kpSend
  | kpRecvEntry
  | kpRecvExit
  | rd
  deriving DecidableEq, Repr

/-- All of it, in the order in which it is opened. -/
def resources : List Resource := [.objs,.tp,.kpEntry,.kpExit,.kpSend,.kpRecvEntry,.kpRecvExit,.rd]

inductive Effect
  /-- a call that may fail, and what it opens where it does not -/
  | attempt (stage : Stage) (opens : Option Resource)
  | report (stage : String)
  | startReporter
  | serve
  /-- the goroutine that closes the reader when `stopCh` is closed -/
  | watch
  | close (r : Resource)
  deriving DecidableEq, Repr

abbrev Effect.Answer : Effect → Type
  | attempt _ _ => Option String
  | report _ | startReporter | serve | watch | close _ => Unit

abbrev Trail := Resumption.Transcript Effect Effect.Answer

def deferral : Deferral Effect Effect.Answer Resource where
  opens x := match x with
    | ⟨.attempt _ opens,none⟩ => opens
    | _ => none
  close := .close

/-- The rest of a function with deferred calls. -/
abbrev Body := List Resource → Resumption Effect Effect.Answer (Option String)

/-- `x, err := ...; if err != nil { return err }; defer x.Close()` -/
def checkDefer (stage : Stage) (opens : Option Resource) (rest : Body) : Body :=
  deferral.andThen (.attempt stage opens) fun err =>
    match err with
    | some err => deferral.ret (some err)
    | none => rest

/-- `if report != nil { report(stage) }` -/
def tell (report : Bool) (stage : String) (rest : Body) : Body :=
  if report then deferral.andThen (.report stage) fun _ => rest else rest

/-- What `Start` does with the probes attached. -/
def runAttached (report : Bool) : Body :=
  tell report "ebpf" <|
  checkDefer .newHistoryStore none <|
  deferral.andThen .startReporter fun _ =>
  deferral.andThen .serve fun _ =>
  tell report "dashboard" <|
  deferral.andThen .watch fun _ =>
  deferral.andThen (.attempt .readEvents none) fun err => deferral.ret err

def startBody (report : Bool) : Body :=
  checkDefer .removeMemlock none <|
  checkDefer .loadTracerObjects (some .objs) <|
  checkDefer (.tracepoint "syscalls" "sys_enter_execve") (some .tp) <|
  checkDefer (.kprobe "tcp_v4_connect") (some .kpEntry) <|
  checkDefer (.kretprobe "tcp_v4_connect") (some .kpExit) <|
  checkDefer (.kprobe "tcp_sendmsg") (some .kpSend) <|
  checkDefer (.kprobe "tcp_recvmsg") (some .kpRecvEntry) <|
  checkDefer (.kretprobe "tcp_recvmsg") (some .kpRecvExit) <|
  checkDefer .newReader (some .rd) <|
  runAttached report

def start (report : Bool) : Resumption Effect Effect.Answer (Option String) := startBody report []

section Releases

variable {stage : Stage} {opens : Option Resource} {rest : Body} {later : List Resource}
  {e : Effect} {r : Resource}

lemma sound_checkDefer (h : deferral.Sound rest) :
    deferral.Sound (checkDefer stage opens rest) := by
  refine Deferral.sound_andThen nofun fun err => ?_
  cases err with
  | some err => exact Deferral.sound_ret _
  | none => exact h

lemma sound_tell (h : deferral.Sound rest) (report : Bool) (stage : String) :
    deferral.Sound (tell report stage rest) := by
  rw [tell]
  split_ifs
  · exact Deferral.sound_andThen nofun fun _ => h
  · exact h

/-- What is still to be opened is opened in this order as far as the body gets, and all of it where
the events are read. -/
def Opens (b : Body) (later : List Resource) : Prop := ∀ ds, (b ds).Comes fun t _ =>
  deferral.opened t <+: later ∧
    (Effect.attempt .readEvents none ∈ t.map Sigma.fst → deferral.opened t = later)

lemma eq_close_of_mem {t : Trail} {ds : List Resource} (h : t.map Sigma.fst = ds.map .close)
    {x : (e : Effect) × e.Answer} (hx : x ∈ t) : ∃ d, x = ⟨.close d,()⟩ := by
  obtain ⟨e,a⟩ := x
  have hmem : e ∈ ds.map .close := h ▸ List.mem_map_of_mem hx
  obtain ⟨d,-,rfl⟩ := List.mem_map.mp hmem
  exact ⟨d,rfl⟩

lemma opened_of_closings {t : Trail} {ds : List Resource}
    (h : t.map Sigma.fst = ds.map .close) : deferral.opened t = [] := by
  refine List.filterMap_eq_nil_iff.mpr fun x hx => ?_
  obtain ⟨d,rfl⟩ := eq_close_of_mem h hx
  rfl

lemma opens_ret (err : Option String) (later : List Resource) :
    Opens (deferral.ret err) later := by
  refine fun ds => Deferral.comes_ret fun t ht => ?_
  rw [opened_of_closings ht]
  refine ⟨List.nil_prefix,fun hread => ?_⟩
  rw [ht] at hread
  obtain ⟨d,-,hd⟩ := List.mem_map.mp hread
  cases hd

lemma opens_andThen {k : e.Answer → Body} (he : ∀ a, deferral.opens ⟨e,a⟩ = none)
    (hread : e ≠ .attempt .readEvents none) (h : ∀ a, Opens (k a) later) :
    Opens (deferral.andThen e k) later := by
  intro ds a
  refine (h a _).imp ?_
  rintro t - ⟨hopened,hall⟩
  have hsame : deferral.opened (⟨e,a⟩::t) = deferral.opened t := by
    rw [Deferral.opened, List.filterMap_cons, he a]
    rfl
  rw [hsame, List.map_cons]
  refine ⟨hopened,fun hmem => hall ?_⟩
  rcases List.mem_cons.mp hmem with heq | hmem
  · exact absurd heq.symm hread
  · exact hmem

lemma opens_checkDefer (hstage : stage ≠ .readEvents) (h : Opens rest later) :
    Opens (checkDefer stage opens rest) (opens.toList ++ later) := by
  intro ds a
  have hcons : ∀ t : Trail, Effect.attempt .readEvents none ∈
      (⟨.attempt stage opens,a⟩::t : Trail).map Sigma.fst →
      Effect.attempt .readEvents none ∈ t.map Sigma.fst := by
    intro t hmem
    rcases List.mem_cons.mp hmem with heq | hmem
    · cases heq
      exact absurd rfl hstage
    · exact hmem
  cases a with
  | some err =>
    refine (opens_ret (some err) (opens.toList ++ later) _).imp ?_
    rintro t - ⟨hopened,hall⟩
    exact ⟨hopened,fun hread => hall (hcons t hread)⟩
  | none =>
    refine (h _).imp ?_
    rintro t - ⟨hopened,hall⟩
    have hfirst : deferral.opened (⟨.attempt stage opens,none⟩::t) =
        opens.toList ++ deferral.opened t := by
      cases opens <;> rfl
    rw [hfirst, List.prefix_append_right_inj]
    exact ⟨hopened,fun hread => by rw [hall (hcons t hread)]⟩

lemma opens_tell (h : Opens rest later) (report : Bool) (stage : String) :
    Opens (tell report stage rest) later := by
  rw [tell]
  split_ifs
  · exact opens_andThen (fun _ => rfl) nofun fun _ => h
  · exact h

/-- What `Start` has opened and closed when it returns. -/
structure Released (t : Trail) : Prop where
  closes : ∃ work closings, deferral.Closes [] work closings t
  /-- a part of the resources is opened, in their order -/
  inOrder : deferral.opened t <+: resources
  /-- the events are read with all of them open -/
  reading : Effect.attempt .readEvents none ∈ t.map Sigma.fst → deferral.opened t = resources

lemma opens_readEvents :
    Opens (deferral.andThen (.attempt .readEvents none) fun err => deferral.ret err) [] := by
  intro ds a
  refine (opens_ret a [] _).imp ?_
  rintro t - ⟨hopened,-⟩
  have hnone : deferral.opened (⟨.attempt .readEvents none,a⟩::t) = [] := by
    cases a <;> exact List.prefix_nil.mp hopened
  exact ⟨hnone ▸ List.nil_prefix,fun _ => hnone⟩

lemma opens_runAttached (report : Bool) : Opens (runAttached report) [] := by
  refine opens_tell ?_ report "ebpf"
  refine @opens_checkDefer .newHistoryStore none _ [] (by decide) ?_
  refine opens_andThen (fun _ => rfl) nofun fun _ => ?_
  refine opens_andThen (fun _ => rfl) nofun fun _ => ?_
  refine opens_tell ?_ report "dashboard"
  exact opens_andThen (fun _ => rfl) nofun fun _ => opens_readEvents

lemma sound_runAttached (report : Bool) : deferral.Sound (runAttached report) := by
  refine sound_tell (sound_checkDefer ?_) report "ebpf"
  refine Deferral.sound_andThen nofun fun _ => Deferral.sound_andThen nofun fun _ => ?_
  refine sound_tell ?_ report "dashboard"
  exact Deferral.sound_andThen nofun fun _ => Deferral.sound_andThen nofun Deferral.sound_ret

/-- However the calls of `Start` turn out, what it has opened is released when it returns. -/
lemma comes_released (report : Bool) : (start report).Comes fun t _ => Released t := by
  have hopens : Opens (startBody report) resources :=
    opens_checkDefer (by decide) <| opens_checkDefer (by decide) <|
    opens_checkDefer (by decide) <| opens_checkDefer (by decide) <|
    opens_checkDefer (by decide) <| opens_checkDefer (by decide) <|
    opens_checkDefer (by decide) <| opens_checkDefer (by decide) <|
    opens_checkDefer (by decide) (opens_runAttached report)
  have hsound : deferral.Sound (startBody report) :=
    sound_checkDefer <| sound_checkDefer <| sound_checkDefer <| sound_checkDefer <|
    sound_checkDefer <| sound_checkDefer <| sound_checkDefer <| sound_checkDefer <|
    sound_checkDefer (sound_runAttached report)
  exact ((hopens []).and (hsound [])).imp fun t _ h => ⟨h.2,h.1.1,h.1.2⟩

end Releases

section Failures

variable {stage : Stage} {opens : Option Resource} {rest : Body} {e : Effect}

/-- The errors of the calls that failed. -/
def trailErrors (t : Trail) : List String := t.filterMap fun x =>
  match x with
  | ⟨.attempt _ _,err⟩ => err
  | _ => none

/-- The body returns the error of the one call that fails, if one does. -/
def Reports (b : Body) : Prop := ∀ ds, (b ds).Comes fun t r => trailErrors t = r.toList

lemma trailErrors_of_closings {t : Trail} {ds : List Resource}
    (h : t.map Sigma.fst = ds.map .close) : trailErrors t = [] := by
  refine List.filterMap_eq_nil_iff.mpr fun x hx => ?_
  obtain ⟨d,rfl⟩ := eq_close_of_mem h hx
  rfl

lemma trailErrors_cons (x : (e : Effect) × e.Answer) (t : Trail) :
    trailErrors (x::t) = trailErrors [x] ++ trailErrors t :=
  @List.filterMap_append _ _ [x] t _

/-- A call fails, and its error is returned. -/
lemma comes_fails (err : String) (ds : List Resource) : (deferral.ret (some err) ds).Comes
    fun t r => trailErrors (⟨.attempt stage opens,some err⟩::t) = r.toList :=
  Deferral.comes_ret fun _ ht => congrArg (err::·) (trailErrors_of_closings ht)

lemma reports_checkDefer (h : Reports rest) : Reports (checkDefer stage opens rest) := by
  intro ds a
  cases a with
  | some err => exact comes_fails err _
  | none => exact h _

lemma reports_andThen {k : e.Answer → Body} (he : ∀ a, trailErrors [⟨e,a⟩] = [])
    (h : ∀ a, Reports (k a)) : Reports (deferral.andThen e k) := by
  intro ds a
  refine (h a _).imp fun t r hr => ?_
  dsimp only
  rw [trailErrors_cons, he a, List.nil_append, hr]

lemma reports_tell (h : Reports rest) (report : Bool) (stage : String) :
    Reports (tell report stage rest) := by
  rw [tell]
  split_ifs
  · exact reports_andThen (fun _ => rfl) fun _ => h
  · exact h

lemma reports_readEvents :
    Reports (deferral.andThen (.attempt .readEvents none) fun err => deferral.ret err) := by
  intro ds a
  cases a with
  | some err => exact comes_fails err _
  | none => exact Deferral.comes_ret fun t ht =>
      (trailErrors_cons _ t).trans (trailErrors_of_closings ht)

lemma comes_reports (report : Bool) :
    (start report).Comes fun t r => trailErrors t = r.toList := by
  have hrun : Reports (runAttached report) := by
    refine reports_tell (reports_checkDefer ?_) report "ebpf"
    refine reports_andThen (fun _ => rfl) fun _ => reports_andThen (fun _ => rfl) fun _ => ?_
    exact reports_tell (reports_andThen (fun _ => rfl) fun _ => reports_readEvents) report
      "dashboard"
  exact reports_checkDefer (reports_checkDefer <| reports_checkDefer <| reports_checkDefer <|
    reports_checkDefer <| reports_checkDefer <| reports_checkDefer <| reports_checkDefer <|
    reports_checkDefer hrun) []

/-- However the calls of `Start` turn out: it returns the error of the one that failed, if one did;
and what it has opened, its deferred calls have closed by then, in reverse order and each once,
while it closes nothing as long as it is at work. The goroutine it starts, which closes the reader
once the stop signal is given, is not part of it. -/
theorem start_returns (report : Bool) : (start report).Comes fun t r =>
    Released t ∧ trailErrors t = r.toList := (comes_released report).and (comes_reports report)

end Failures

section Projection

/-- The calls and messages of the startup goroutine that a step of `Start` is. -/
def shown : (e : Effect) × e.Answer → Transcript
  | ⟨.attempt stage _,err⟩ => [⟨.attempt stage,err⟩]
  | ⟨.report "ebpf",_⟩ =>
    [⟨.update (Reporter.done 1 "4 probes attached"),()⟩,⟨.update (Reporter.start 2),()⟩]
  | ⟨.report "dashboard",_⟩ =>
    [⟨.update (Reporter.done 2 ""),()⟩,⟨.update (Reporter.ready "http://localhost:9090"),()⟩]
  | _ => []

/-- The body does what the goroutine does, beside what is not shown. -/
def Matches (b : Body) (p : Goroutine (Option String)) : Prop := ∀ ds, (b ds).Comes fun t r =>
  Resumption.Follows p (t.flatMap shown) (.done r)

variable {stage : Stage} {opens : Option Resource} {rest : Body}
  {p : Goroutine (Option String)} {e : Effect}

lemma matches_ret (err : Option String) : Matches (deferral.ret err) (.done err) := by
  refine fun ds => Deferral.comes_ret fun t ht => ?_
  have hnone : t.flatMap shown = [] := by
    refine List.flatMap_eq_nil_iff.mpr fun x hx => ?_
    obtain ⟨d,rfl⟩ := eq_close_of_mem ht hx
    rfl
  rw [hnone]
  exact .refl _

lemma follows_attempt {k : Option String → Goroutine (Option String)} {t : Trail}
    {r : Option String}
    (err : Option String) (h : Resumption.Follows (k err) (t.flatMap shown) (.done r)) :
    Resumption.Follows (.ask (.attempt stage) k)
      ((⟨.attempt stage opens,err⟩::t : Trail).flatMap shown) (.done r) := by
  rw [List.flatMap_cons]
  exact Resumption.Follows.ask (A := Call.Answer) (.attempt stage) k err h

lemma check_eq : check stage p =
    .ask (.attempt stage) fun err => err.elim p fun err => .done (some err) := by
  refine congrArg (Resumption.ask (Call.attempt stage)) (funext fun err => ?_)
  cases err <;> rfl

lemma matches_checkDefer (h : Matches rest p) :
    Matches (checkDefer stage opens rest) (check stage p) := by
  intro ds a
  rw [check_eq]
  cases a with
  | some err => exact (matches_ret (some err) _).imp fun t r hfollows => follows_attempt _ hfollows
  | none => exact (h _).imp fun t r hfollows => follows_attempt _ hfollows

lemma matches_andThen {k : e.Answer → Body} (he : ∀ a, shown ⟨e,a⟩ = [])
    (h : ∀ a, Matches (k a) p) : Matches (deferral.andThen e k) p := by
  intro ds a
  refine (h a _).imp fun t r hfollows => ?_
  dsimp only
  rwa [List.flatMap_cons, he a]

lemma matches_readEvents :
    Matches (deferral.andThen (.attempt .readEvents none) fun err => deferral.ret err)
      (attempt .readEvents) := by
  intro ds a
  have hask : attempt .readEvents = .ask (.attempt .readEvents) .done := rfl
  rw [hask]
  exact (matches_ret a _).imp fun t r hfollows => follows_attempt _ hfollows

/-- A report is the two messages that it makes. -/
lemma matches_tell {s : String} {m₁ m₂ : UpdateMsg} (h : Matches rest p)
    (hreport : report s = do update m₁; update m₂)
    (hshown : shown ⟨.report s,()⟩ = [⟨.update m₁,()⟩,⟨.update m₂,()⟩]) :
    Matches (tell true s rest) (report s >>= fun _ => p) := by
  intro ds a
  have htwice : (report s >>= fun _ => p) =
      .ask (.update m₁) fun _ => .ask (.update m₂) fun _ => p := by
    rw [hreport]
    rfl
  rw [htwice]
  refine (h _).imp fun t r hfollows => ?_
  dsimp only
  rw [List.flatMap_cons, hshown]
  exact Resumption.Follows.ask (A := Call.Answer) (.update m₁) _ ()
    (Resumption.Follows.ask (A := Call.Answer) (.update m₂) (fun _ => p) () hfollows)

/-- The startup goroutine's `ebpfStart` is `Start` without what it opens, starts and closes. -/
theorem start_matches : (start true).Comes fun t r =>
    Resumption.Follows (ebpfStart (some report)) (t.flatMap shown) (.done r) := by
  have hrun : Matches (runAttached true) (report "ebpf" >>= fun _ =>
      check .newHistoryStore (report "dashboard" >>= fun _ => attempt .readEvents)) := by
    refine matches_tell (matches_checkDefer ?_) rfl rfl
    refine matches_andThen (fun _ => rfl) fun _ => matches_andThen (fun _ => rfl) fun _ => ?_
    exact matches_tell (matches_andThen (fun _ => rfl) fun _ => matches_readEvents) rfl rfl
  exact matches_checkDefer (matches_checkDefer <| matches_checkDefer <| matches_checkDefer <|
    matches_checkDefer <| matches_checkDefer <| matches_checkDefer <| matches_checkDefer <|
    matches_checkDefer hrun) []

end Projection
end Tracewulf.Main
