import Mathlib.Data.List.Forall2
import Mathlib.Data.Nat.Init
import Tracewulf.Base.Simulation
import Tracewulf.Main.Loader
import Tracewulf.Main.Recount

/-! The daemon without a terminal. The startup goroutine logs its progress, and `main` waits for a
signal or for what the goroutine ends with; after a signal it waits for the goroutine all the same,
and does not look at the error. -/
namespace Tracewulf.Main
open Tracewulf.Base Tracewulf.Tui

inductive PlainCall
  | log (line : String)
  | startInformer
  | start (e : Effect)

abbrev PlainCall.Answer : PlainCall → Type
  | log _ => Unit
  | startInformer => Option String
  | start e => e.Answer

instance : ∀ call : PlainCall, Inhabited call.Answer
  | .log _ => ⟨()⟩
  | .startInformer | .start (.attempt _ _) => ⟨none⟩
  | .start (.report _) | .start .startReporter | .start .serve | .start .watch
  | .start (.close _) => ⟨()⟩

abbrev PlainGoroutine := Resumption PlainCall PlainCall.Answer

abbrev PlainTranscript := Resumption.Transcript PlainCall PlainCall.Answer

def logLine (line : String) : PlainGoroutine Unit := .ask (.log line) .done

/-- The `report` of `main` where there is no terminal. -/
def logReport : String → PlainGoroutine Unit
  | "ebpf" => logLine "eBPF programs loaded, kernel probes attached"
  | "dashboard" => logLine "dashboard listening on http://0.0.0.0:9090"
  | _ => pure ()

/-- A step of `Start`, which has been given that `report`. -/
def carryOut : (e : Effect) → PlainGoroutine e.Answer
  | .report stage => logReport stage
  | .attempt stage opens => .ask (.start (.attempt stage opens)) .done
  | .startReporter => .ask (.start .startReporter) .done
  | .serve => .ask (.start .serve) .done
  | .watch => .ask (.start .watch) .done
  | .close r => .ask (.start (.close r)) .done

/-- The goroutine, down to the value that it sends on `errCh` and ends with. -/
def plainStartup : PlainGoroutine (Option String) := do
  logLine "connecting to Kubernetes API and syncing informers..."
  match ← (.ask .startInformer .done : PlainGoroutine (Option String)) with
  | some err => return some err
  | none =>
    logLine "Kubernetes informers synced"
    (start true).interpret carryOut

section Transcripts

/-- The calls outside that were made, with the error they came to, if any. -/
def plainOutcomes (t : PlainTranscript) : List (Call × Option String) := t.filterMap fun x =>
  match x with
  | ⟨.startInformer,err⟩ => some (.startInformer,err)
  | ⟨.start (.attempt stage _),err⟩ => some (.attempt stage,err)
  | _ => none

/-- What `Start` has done, apart from its reports. -/
def trail (t : PlainTranscript) : Trail := t.filterMap fun x =>
  match x with
  | ⟨.start e,a⟩ => some ⟨e,a⟩
  | _ => none

def Effect.isReport : Effect → Bool
  | report _ => true
  | _ => false

/-- A step of `Start` and what of it is in the goroutine's transcript. -/
structure CarriedOut (x : (e : Effect) × e.Answer) (t : PlainTranscript) : Prop where
  outcomes : plainOutcomes t = outcomes (shown x)
  trail : trail t = [x].filter fun x => !x.1.isReport

lemma outcomes_shown_report (stage : String) (a : Unit) :
    Main.outcomes (shown ⟨.report stage,a⟩) = [] := by
  unfold shown
  split
  · rename_i heq
    cases heq
  · rfl
  · rfl
  · rfl

/-- A report is a line of the log, or nothing. -/
lemma comes_logReport {P : PlainTranscript → Unit → Prop} (hline : ∀ line, P [⟨.log line,()⟩] ())
    (hnone : P [] ()) (stage : String) : (logReport stage).Comes P := by
  unfold logReport
  split
  · exact fun _ => hline _
  · exact fun _ => hline _
  · exact hnone

lemma carriedOut (e : Effect) : (carryOut e).Comes fun t a => CarriedOut ⟨e,a⟩ t := by
  cases e with
  | report stage =>
    have hsame := outcomes_shown_report stage ()
    exact comes_logReport (fun line => ⟨hsame.symm,rfl⟩) ⟨hsame.symm,rfl⟩ stage
  | attempt stage opens => exact fun _ => ⟨rfl,rfl⟩
  | startReporter => exact fun _ => ⟨rfl,rfl⟩
  | serve => exact fun _ => ⟨rfl,rfl⟩
  | watch => exact fun _ => ⟨rfl,rfl⟩
  | close r => exact fun _ => ⟨rfl,rfl⟩

lemma outcomes_of_carriedOut {u : Trail} {ts : List PlainTranscript}
    (h : List.Forall₂ CarriedOut u ts) : plainOutcomes ts.flatten = outcomes (u.flatMap shown) := by
  induction h with
  | nil => rfl
  | cons hx _ ih =>
    rw [List.flatten_cons, List.flatMap_cons, outcomes_append, ← ih, ← hx.outcomes, plainOutcomes,
      List.filterMap_append]
    rfl

lemma trail_of_carriedOut {u : Trail} {ts : List PlainTranscript}
    (h : List.Forall₂ CarriedOut u ts) :
    trail ts.flatten = u.filter fun x => !x.1.isReport := by
  induction h with
  | nil => rfl
  | cons hx _ ih =>
    rw [List.flatten_cons, ← List.singleton_append, List.filter_append, ← ih, ← hx.trail, trail,
      List.filterMap_append]
    rfl

end Transcripts

section Ended

/-- Reports open and close nothing. -/
lemma Released.withoutReports {t : Trail} (h : Released t) :
    Released (t.filter fun x => !x.1.isReport) := by
  have hopened : ∀ t : Trail,
      deferral.opened (t.filter fun x => !x.1.isReport) = deferral.opened t := by
    intro t
    rw [Deferral.opened, List.filterMap_filter]
    refine List.filterMap_congr ?_
    rintro ⟨e,a⟩ -
    cases e <;> rfl
  obtain ⟨⟨work,closings,hparts,hworking,hclosing⟩,hordered,hreading⟩ := h
  refine ⟨⟨work.filter fun x => !x.1.isReport,closings,?_,?_,?_⟩,?_,?_⟩
  · have hall : closings.filter (fun x => !x.1.isReport) = closings := by
      refine List.filter_eq_self.mpr fun x hx => ?_
      have hmem := List.mem_map_of_mem (f := Sigma.fst) hx
      rw [hclosing] at hmem
      obtain ⟨d,-,hd⟩ := List.mem_map.mp hmem
      rw [← hd]
      rfl
    rw [hparts, List.filter_append, hall]
  · exact fun x hx => hworking x (List.mem_of_mem_filter hx)
  · rw [hclosing, hopened]
  · rwa [hopened]
  · intro hread
    rw [hopened]
    exact hreading (List.map_subset _ List.filter_sublist.subset hread)

/-- What the goroutine has come to when it ends with `r`: the calls that the startup goroutine of
the interactive daemon makes, and nothing that is left open. -/
structure Ended (t : PlainTranscript) (r : Option String) : Prop where
  calls : ∃ u, Resumption.Follows startup u (.done r) ∧ outcomes u = plainOutcomes t
  released : Released (trail t)

/-- The informers are synced, by either goroutine. -/
lemma follows_synced {t : Transcript} {r : Option String}
    (h : Resumption.Follows (ebpfStart (some report)) t (.done r)) :
    Resumption.Follows startup (synced ++ t) (.done r) :=
  .ask (A := Call.Answer) (.update (Reporter.start 0)) _ () <|
  .ask (A := Call.Answer) .startInformer _ none <|
  .ask (A := Call.Answer) (.update (Reporter.done 0 "synced")) _ () <|
  .ask (A := Call.Answer) (.update (Reporter.start 1)) (fun _ => ebpfStart (some report)) () h

lemma follows_syncFailed (err : String) : Resumption.Follows startup
    [⟨.update (Reporter.start 0),()⟩,⟨.startInformer,some err⟩,
      ⟨.update (Reporter.fail 0 err),()⟩] (.done (some err)) :=
  .ask (A := Call.Answer) (.update (Reporter.start 0)) _ () <|
  .ask (A := Call.Answer) .startInformer _ (some err) <|
  .ask (A := Call.Answer) (.update (Reporter.fail 0 err)) (fun _ => .done (some err)) () (.refl _)

theorem plainStartup_ended : plainStartup.Comes Ended := by
  rintro ⟨⟩
  rintro (_ | err)
  · rintro ⟨⟩
    refine (((comes_released true).and start_matches).interpret carriedOut).imp ?_
    rintro _ r ⟨u,ts,rfl,hts,hreleased,hfollows⟩
    have htrail : trail (⟨.log "connecting to Kubernetes API and syncing informers...",()⟩::
        ⟨.startInformer,none⟩::⟨.log "Kubernetes informers synced",()⟩::ts.flatten) =
        trail ts.flatten := rfl
    refine ⟨⟨_,follows_synced hfollows,?_⟩,?_⟩
    · rw [outcomes_append, ← outcomes_of_carriedOut hts]
      rfl
    · rw [htrail, trail_of_carriedOut hts]
      exact hreleased.withoutReports
  · exact ⟨⟨_,follows_syncFailed err,rfl⟩,⟨[],[],rfl,List.forall_mem_nil _,rfl⟩,
      List.nil_prefix,nofun⟩

end Ended
/-- Where `main` is: at its `select`, waiting for `errCh` after a signal, or at its end, perhaps
with an error. -/
inductive HeadlessMain
  | selecting
  | stopping
  | ended (fatal : Option String)
  deriving DecidableEq, Repr

structure Headless where
  startup : PlainGoroutine (Option String)
  /-- what the startup goroutine has sent on `errCh` -/
  errCh : Option (Option String)
  /-- there is a signal in `sigCh` -/
  signalled : Bool
  stopClosed : Bool
  main : HeadlessMain

inductive HeadlessAction
  /-- the startup goroutine makes its next call, with this outcome -/
  | proceed (answer : (call : PlainCall) → call.Answer)
  | sendErr
  | signal
  | takeSignal
  | takeErr

namespace Headless

def start : Headless where
  startup := plainStartup
  errCh := none
  signalled := false
  stopClosed := false
  main := .selecting

/-- One step of one of the parties, with the call of the startup goroutine, if it is one; `none`
where it cannot be taken. -/
def step (s : Headless) : HeadlessAction → Option (Headless × PlainTranscript)
  | .proceed answer =>
    match s.startup with
    | .ask call resume =>
      some ({ s with startup := resume (answer call) },[⟨call,answer call⟩])
    | .done _ => none
  | .sendErr =>
    match s.startup with
    | .done err => if s.errCh.isNone then some ({ s with errCh := some err },[]) else none
    | .ask _ _ => none
  -- a signal that finds the channel full is dropped
  | .signal => some ({ s with signalled := true },[])
  | .takeSignal =>
    match s.main with
    | .selecting =>
      if s.signalled then
        some ({ s with signalled := false, stopClosed := true, main := .stopping },[])
      else none
    | _ => none
  | .takeErr =>
    match s.errCh, s.main with
    | some err, .selecting => some ({ s with main := .ended err },[])
    | some _, .stopping => some ({ s with main := .ended none },[])
    | _, _ => none

/-- A run of the daemon, with the transcript of its startup goroutine. -/
def run (s : Headless) (acts : List HeadlessAction) : Option (Headless × PlainTranscript) :=
  Base.run step s acts

variable {s s' : Headless} {a : HeadlessAction} {t u : PlainTranscript}
  {acts : List HeadlessAction}

/-- What an action requires, what it makes of the state and the call it is. -/
inductive Takes (s : Headless) : HeadlessAction → Headless → PlainTranscript → Prop
  | proceed (answer : (call : PlainCall) → call.Answer) (call : PlainCall)
      (resume : call.Answer → PlainGoroutine (Option String))
      (hat : s.startup = .ask call resume) : Takes s (.proceed answer)
      { s with startup := resume (answer call) } [⟨call,answer call⟩]
  | sendErr (err : Option String) (hat : s.startup = .done err) (hnone : s.errCh = none) :
      Takes s .sendErr { s with errCh := some err } []
  | signal : Takes s .signal { s with signalled := true } []
  | takeSignal (hmain : s.main = .selecting) (hsignal : s.signalled) : Takes s .takeSignal
      { s with signalled := false, stopClosed := true, main := .stopping } []
  | takeErr (err : Option String) (herr : s.errCh = some err) (hmain : s.main = .selecting) :
      Takes s .takeErr { s with main := .ended err } []
  | dropErr (err : Option String) (herr : s.errCh = some err) (hmain : s.main = .stopping) :
      Takes s .takeErr { s with main := .ended none } []

lemma takes_of_step (h : s.step a = some (s',t)) : Takes s a s' t := by
  cases a <;> simp only [step] at h
  case proceed answer =>
    split at h
    · rename_i call resume hat
      cases h
      exact .proceed answer call resume hat
    · cases h
  case sendErr =>
    split at h
    · rename_i err hat
      split_ifs at h with hnone
      cases h
      exact .sendErr err hat (Option.isNone_iff_eq_none.mp hnone)
    · cases h
  case signal =>
    cases h
    exact .signal
  case takeSignal =>
    split at h
    · rename_i hmain
      split_ifs at h with hsignal
      cases h
      exact .takeSignal hmain hsignal
    · cases h
  case takeErr =>
    split at h
    · rename_i err herr hmain
      cases h
      exact .takeErr err herr hmain
    · rename_i err herr hmain
      cases h
      exact .dropErr err herr hmain
    · cases h

/-- What the parties know of each other. `main` has seen the goroutine's error where it is at its
end, and `stopCh` is closed exactly where it has seen a signal. -/
structure Consistent (t : PlainTranscript) (s : Headless) : Prop where
  follows : Resumption.Follows plainStartup t s.startup
  errCh : ∀ r, s.errCh = some r → s.startup = .done r
  selecting : s.main = .selecting → s.stopClosed = false
  stopping : s.main = .stopping → s.stopClosed = true
  ended : ∀ fatal, s.main = .ended fatal →
    ∃ r, s.errCh = some r ∧ fatal = if s.stopClosed then none else r

lemma consistent_start : Consistent [] start := ⟨.refl _,nofun,fun _ => rfl,nofun,nofun⟩

lemma Consistent.step (h : Consistent t s) (hstep : s.step a = some (s',u)) :
    Consistent (t ++ u) s' := by
  obtain ⟨hfollows,herrCh,hselecting,hstopping,hended⟩ := h
  cases takes_of_step hstep with
  | proceed answer call resume hat =>
    rw [hat] at hfollows
    refine ⟨hfollows.answer _,fun r hr => ?_,hselecting,hstopping,hended⟩
    cases hat.symm.trans (herrCh r hr)
  | sendErr err hat hnone =>
    rw [List.append_nil]
    refine ⟨hfollows,?_,hselecting,hstopping,fun fatal hfatal => ?_⟩
    · rintro r ⟨⟩
      exact hat
    · obtain ⟨r,hr,-⟩ := hended fatal hfatal
      cases hnone.symm.trans hr
  | signal =>
    rw [List.append_nil]
    exact ⟨hfollows,herrCh,hselecting,hstopping,hended⟩
  | takeSignal hmain hsignal =>
    rw [List.append_nil]
    exact ⟨hfollows,herrCh,nofun,fun _ => rfl,nofun⟩
  | takeErr err herr hmain =>
    rw [List.append_nil]
    refine ⟨hfollows,herrCh,nofun,nofun,?_⟩
    rintro fatal ⟨⟩
    exact ⟨err,herr,by rw [hselecting hmain]; rfl⟩
  | dropErr err herr hmain =>
    rw [List.append_nil]
    refine ⟨hfollows,herrCh,nofun,nofun,?_⟩
    rintro fatal ⟨⟩
    exact ⟨err,herr,by rw [hstopping hmain]; rfl⟩

lemma consistent_of_run (h : start.run acts = some (s,t)) : Consistent t s :=
  run_invariant (fun _ _ _ _ _ hc hstep => hc.step hstep) consistent_start h

/-- A step that needs no signal, with this outcome if it is a call. -/
def Own (answer : (call : PlainCall) → call.Answer) : HeadlessAction → Prop
  | .proceed answer' => answer' = answer
  | .signal => False
  | .sendErr | .takeSignal | .takeErr => True

variable {answer : (call : PlainCall) → call.Answer}

/-- Once `main` has seen a signal, the goroutine goes on to its end, and `main` after it. -/
lemma Consistent.ends (h : Consistent t s) (hmain : s.main = .stopping) : ∃ more s' u,
    s.run more = some (s',u) ∧ (∀ a ∈ more, Own answer a) ∧ s'.main = .ended none := by
  generalize hp : s.startup = p
  induction p generalizing s t with
  | done r =>
    have htake : ∀ s : Headless, s.main = .stopping → s.errCh = some r →
        s.step .takeErr = some ({ s with main := .ended none },[]) := by
      intro s hmain herr
      rw [Headless.step, herr, hmain]
    cases herr : s.errCh with
    | some r' =>
      cases hp.symm.trans (h.errCh r' herr)
      exact ⟨_,_,_,run_singleton (htake s hmain herr),List.forall_mem_singleton.mpr trivial,rfl⟩
    | none =>
      have hsend : s.step .sendErr = some ({ s with errCh := some r },[]) := by
        rw [Headless.step, hp, herr]
        rfl
      have hend := run_singleton (htake { s with errCh := some r } hmain rfl)
      exact ⟨_,_,_,run_cons_of_eq_some hsend hend,
        List.forall_mem_cons.mpr ⟨trivial,List.forall_mem_singleton.mpr trivial⟩,rfl⟩
  | ask call resume ih =>
    have hcall : s.step (.proceed answer) = some
        ({ s with startup := resume (answer call) },[⟨call,answer call⟩]) := by
      rw [Headless.step, hp]
    obtain ⟨more,s',u,hrun,hown,hended⟩ := ih (answer call) (h.step hcall) hmain rfl
    exact ⟨_,s',_,run_cons_of_eq_some hcall hrun,List.forall_mem_cons.mpr ⟨rfl,hown⟩,hended⟩

end Headless

/-- In every run in which `main` comes to its end: the goroutine has come to its own, having made
the calls that it makes in the interactive daemon and closed all it had opened; and the error of
the one call that failed, if one did, is what `main` ends with, unless it has seen a signal. -/
theorem headless_exit {s : Headless} {t : PlainTranscript} {acts : List HeadlessAction}
    {fatal : Option String} (h : Headless.start.run acts = some (s,t))
    (hend : s.main = .ended fatal) : ∃ r, Ended t r ∧
      (plainOutcomes t).filterMap Prod.snd = r.toList ∧
      fatal = if s.stopClosed then none else r := by
  have hc := Headless.consistent_of_run h
  obtain ⟨r,hr,hfatal⟩ := hc.ended fatal hend
  have hfollows : Resumption.Follows plainStartup t (.done r) := hc.errCh r hr ▸ hc.follows
  have hended : Ended t r := plainStartup_ended.result hfollows
  obtain ⟨u,hu,houtcomes⟩ := hended.calls
  refine ⟨r,hended,?_,hfatal⟩
  rw [← houtcomes]
  exact (startup_recounted.result hu).errors

/-- From every state of every run that a signal has come in, unless `main` has taken the error of
the goroutine before: no further signal is needed for it to come to its end, however the calls
that are still to come turn out, and it ends without an error. -/
theorem headless_ends {s : Headless} {t : PlainTranscript} {acts : List HeadlessAction}
    (h : Headless.start.run acts = some (s,t)) (hsignal : s.signalled ∨ s.stopClosed)
    (hrunning : ∀ fatal, s.main ≠ .ended fatal) (answer : (call : PlainCall) → call.Answer) :
    ∃ more s' u, s.run more = some (s',u) ∧ (∀ a ∈ more, Headless.Own answer a) ∧
      s'.main = .ended none := by
  have hc := Headless.consistent_of_run h
  cases hmain : s.main with
  | ended fatal => exact absurd hmain (hrunning fatal)
  | stopping => exact hc.ends hmain
  | selecting =>
    have hcome : s.signalled := by
      rcases hsignal with hcome | hclosed
      · exact hcome
      · cases (hc.selecting hmain).symm.trans hclosed
    have htake : s.step .takeSignal = some ({ s with
        signalled := false, stopClosed := true, main := .stopping },[]) := by
      simp [Headless.step, hmain, hcome]
    obtain ⟨more,s',u,hrun,hown,hended⟩ := (hc.step htake).ends rfl
    exact ⟨_,s',_,run_cons_of_eq_some htake hrun,List.forall_mem_cons.mpr ⟨trivial,hown⟩,hended⟩

section Demo

/-- The memory limit cannot be lifted. -/
def limited : (call : PlainCall) → call.Answer
  | .start (.attempt .removeMemlock _) => some "operation not permitted"
  | _ => default

/-- `main` sees the error first, and then a signal is too late. -/
def limitedRun : List HeadlessAction :=
  List.replicate 4 (.proceed limited) ++ [.sendErr,.takeErr,.signal]

theorem headless_exit_limited : ∃ s t, Headless.start.run limitedRun = some (s,t) ∧
    ∃ r, Ended t r ∧ (plainOutcomes t).filterMap Prod.snd = r.toList ∧
      some "operation not permitted" = if s.stopClosed then none else r := by
  have hrun : ∃ s t, Headless.start.run limitedRun = some (s,t) ∧
      s.main = .ended (some "operation not permitted") := ⟨_,_,rfl,rfl⟩
  obtain ⟨s,t,hrun,hend⟩ := hrun
  exact ⟨s,t,hrun,headless_exit hrun hend⟩

/-- A signal comes while the informers are synced, and the memory limit cannot be lifted then. -/
theorem headless_ends_limited : ∃ s t, Headless.start.run [.proceed limited,.signal] = some (s,t) ∧
    ∃ more s' u, s.run more = some (s',u) ∧ (∀ a ∈ more, Headless.Own limited a) ∧
      s'.main = .ended none := by
  have hrun : ∃ s t, Headless.start.run [.proceed limited,.signal] = some (s,t) ∧
      s.signalled ∧ s.main = .selecting := ⟨_,_,rfl,rfl,rfl⟩
  obtain ⟨s,t,hrun,hsignal,hmain⟩ := hrun
  have hrunning : ∀ fatal, s.main ≠ .ended fatal := by
    rw [hmain]
    nofun
  exact ⟨s,t,hrun,headless_ends hrun (.inl hsignal) hrunning limited⟩

end Demo
end Tracewulf.Main
