import Tracewulf.Base.Simulation
import Tracewulf.Main.Checklist

/-! How the interactive daemon ends. After a signal it can always get to its end by itself, however
the calls of the startup goroutine turn out that are still to come, and what `main` exits with is
the error of the one call that failed. -/
namespace Tracewulf.Main
open Tracewulf.Base Tracewulf.Tui

variable {sp : Spinner} {t : Transcript} {c c' c'' : Console sp} {a : Action sp}
  {acts : List (Action sp)} {answer : (call : Call) → call.Answer}

/-- A step that needs neither the terminal nor a signal and is no failure of the program. -/
def Action.Own : Action sp → Prop
  | .signal | .tick _ | .key _ | .other | .programFails => False
  | _ => True

/-- The daemon gets there by itself when its calls are answered like this. -/
def Console.ByItself (answer : (call : Call) → call.Answer) (c c' : Console sp) : Prop :=
  ∃ acts t, (∀ a ∈ acts, a.Own) ∧ c.run acts = some (c',t) ∧ ∀ x ∈ t, x.2 = answer x.1

namespace Console

def Reachable (c : Console sp) : Prop := ∃ acts t, (Console.start sp).run acts = some (c,t)

lemma ByItself.refl (c : Console sp) : c.ByItself answer c :=
  ⟨[],[],List.forall_mem_nil _,rfl,List.forall_mem_nil _⟩

lemma ByItself.trans (h : c.ByItself answer c') (h' : c'.ByItself answer c'') :
    c.ByItself answer c'' := by
  obtain ⟨acts,t,hown,hrun,hanswer⟩ := h
  obtain ⟨acts',t',hown',hrun',hanswer'⟩ := h'
  exact ⟨acts ++ acts',t ++ t',List.forall_mem_append.mpr ⟨hown,hown'⟩,run_append hrun hrun',
    List.forall_mem_append.mpr ⟨hanswer,hanswer'⟩⟩

lemma byItself_call {x : (call : Call) × call.Answer} (hstep : c.step a = some (c',[x]))
    (hown : a.Own) (hanswer : x.2 = answer x.1) : c.ByItself answer c' :=
  ⟨[a],[x],List.forall_mem_singleton.mpr hown,run_singleton hstep,
    List.forall_mem_singleton.mpr hanswer⟩

lemma byItself_step (hstep : c.step a = some (c',[])) (hown : a.Own) : c.ByItself answer c' :=
  ⟨[a],[],List.forall_mem_singleton.mpr hown,run_singleton hstep,List.forall_mem_nil _⟩

lemma Reachable.byItself (h : c.Reachable) (hself : c.ByItself answer c') : c'.Reachable := by
  obtain ⟨acts,t,hrun⟩ := h
  obtain ⟨acts',t',-,hrun',-⟩ := hself
  exact ⟨acts ++ acts',t ++ t',run_append hrun hrun'⟩

/-- What `main` has received is what was sent on `errCh`. -/
lemma Reachable.exit (h : c.Reachable) {r : Option String} (hexit : c.exit = some r) :
    c.errCh = some r := by
  obtain ⟨acts,t,hrun⟩ := h
  have hkeep : ∀ (c : Console sp) a c' u, (∀ r, c.exit = some r → c.errCh = some r) →
      c.step a = some (c',u) → ∀ r, c'.exit = some r → c'.errCh = some r := by
    intro c a c' u hsent hstep r hr
    cases takes_of_step hstep with
    | sendErr err _ hnone =>
      rw [hsent r hr] at hnone
      cases hnone
    | takeErr err herr _ _ => rwa [← hr]
    | _ => exact hsent r hr
  have hstart : ∀ r, (Console.start sp).exit = some r → (Console.start sp).errCh = some r := by
    rintro r ⟨⟩
  exact run_preserves hkeep hstart hrun r hexit

/-- Once the screen's program has returned, the startup goroutine goes on to its end, and `main`
after it. -/
lemma Reachable.ends (h : c.Reachable) (hreturned : c.returned) :
    ∃ c', c.ByItself answer c' ∧ c'.exit = some (c.startup.eval answer) := by
  generalize hp : c.startup = p
  induction p generalizing c with
  | done r =>
    cases hexit : c.exit with
    | some r' =>
      obtain ⟨acts,t,hrun⟩ := h
      have hat := (onScreen_of_run hrun).1.errCh r' (Reachable.exit ⟨acts,t,hrun⟩ hexit)
      cases hp.symm.trans hat
      exact ⟨c,.refl c,hexit⟩
    | none =>
      have htake : ∀ c : Console sp, c.returned → c.exit = none → c.errCh = some r →
          c.ByItself answer { c with exit := some r } := by
        intro c hreturned hexit herr
        have hstep : c.step .takeErr = some ({ c with exit := some r },[]) := by
          simp [Console.step, herr, hreturned, hexit]
        exact byItself_step hstep trivial
      cases herr : c.errCh with
      | some r' =>
        obtain ⟨acts,t,hrun⟩ := h
        have hat := (onScreen_of_run hrun).1.errCh r' herr
        cases hp.symm.trans hat
        exact ⟨_,htake c hreturned hexit herr,rfl⟩
      | none =>
        have hstep : c.step .sendErr = some ({ c with errCh := some r },[]) := by
          simp [Console.step, hp, herr]
        have hsend : c.ByItself answer { c with errCh := some r } :=
          byItself_step hstep trivial
        exact ⟨_,hsend.trans (htake { c with errCh := some r } hreturned hexit rfl),rfl⟩
  | ask call resume ih =>
    have hon : ∀ c' : Console sp, c.ByItself answer c' → c'.returned →
        c'.startup = resume (answer call) →
        ∃ c'', c.ByItself answer c'' ∧ c''.exit = some ((resume (answer call)).eval answer) := by
      intro c' hself hreturned hat
      obtain ⟨c'',hrest,hexit⟩ := ih _ (h.byItself hself) hreturned hat
      exact ⟨c'',hself.trans hrest,hexit⟩
    cases call with
    | update msg =>
      obtain ⟨acts,t,hrun⟩ := h
      have hroom := room_for_updates hrun
      have hstep : c.step .send = some ({ c with
          startup := resume (), updates := c.updates ++ [msg] },[⟨.update msg,()⟩]) := by
        simp [Console.step, hp, hroom]
      exact hon _ (byItself_call hstep trivial rfl) hreturned rfl
    | startInformer =>
      have hstep : c.step (.call (answer .startInformer)) = some
          ({ c with startup := resume (answer .startInformer) },
            [⟨.startInformer,answer .startInformer⟩]) := by
        simp [Console.step, hp]
      exact hon _ (byItself_call hstep trivial rfl) hreturned rfl
    | attempt stage =>
      have hstep : c.step (.call (answer (.attempt stage))) = some
          ({ c with startup := resume (answer (.attempt stage)) },
            [⟨.attempt stage,answer (.attempt stage)⟩]) := by
        simp [Console.step, hp]
      exact hon _ (byItself_call hstep trivial rfl) hreturned rfl

/-- The signal's message, once sent, arrives, whatever the screen shows. -/
lemma Reachable.quits (h : c.Reachable) (hended : c.signal = .ended) (hrunning : ¬ c.returned) :
    ∃ c', c.ByItself answer c' ∧ c'.quit ∧ ¬ c'.returned ∧ c'.startup = c.startup := by
  -- receiving moves a message from the channel to a command, delivering takes it away
  induction hn : 2*c.updates.length + c.held.length using Nat.strongRecOn generalizing c with
  | ind n ih =>
    by_cases hquit : c.quit = true
    · exact ⟨c,.refl c,hquit,hrunning,rfl⟩
    obtain ⟨acts,t,hrun⟩ := h
    have hscreen := (onScreen_of_run hrun).2
    obtain ⟨-,msgs,-,-,harrived,hsent⟩ := queued_of_run hrun
    have hon : ∀ (a : Action sp) (c₁ : Console sp), c.step a = some (c₁,[]) → a.Own →
        c₁.signal = c.signal → c₁.returned = c.returned → c₁.startup = c.startup →
        2*c₁.updates.length + c₁.held.length < n →
        ∃ c', c.ByItself answer c' ∧ c'.quit ∧ ¬ c'.returned ∧ c'.startup = c.startup := by
      intro a c₁ hstep hown hsignal hreturned hstartup hless
      have hself : c.ByItself answer c₁ := byItself_step hstep hown
      have hreach : c₁.Reachable := Reachable.byItself ⟨acts,t,hrun⟩ hself
      obtain ⟨c',hrest,hquits,hruns,hat⟩ :=
        ih _ hless hreach (hsignal.trans hended) (hreturned ▸ hrunning) rfl
      exact ⟨c',hself.trans hrest,hquits,hruns,hat.trans hstartup⟩
    cases hheld : c.held with
    | cons msg held =>
      have hmem : msg ∈ c.held := hheld ▸ List.mem_cons_self
      have hin : (Msg.update msg : Msg sp).InRange :=
        hscreen.inRange msg (List.mem_append_left _ hmem)
      obtain ⟨⟨model,cmd⟩,hupdate⟩ :=
        Option.isSome_iff_exists.mp (hscreen.whole.update_isSome hin)
      have hstep : c.step (.deliver msg) =
          some ({ c with held := c.held.erase msg }.after model cmd,[]) := by
        simp [Console.step, Console.deliver, hmem, hrunning, hupdate]
      have hless : 2*c.updates.length + (c.held.erase msg).length < n := by
        rw [← hn, hheld, List.erase_cons_head, List.length_cons]
        omega
      exact hon _ _ hstep trivial rfl rfl rfl hless
    | nil =>
      cases hupdates : c.updates with
      | nil =>
        -- nothing is on its way, so the signal's message has arrived
        have hmem := hsent hended
        rw [Console.pending, hheld, hupdates, List.append_nil, List.append_nil] at hmem
        exact absurd (harrived hmem) hquit
      | cons msg rest =>
        have hwaiting : c.waiting = 0+1 := by
          have hone := hscreen.listens.resolve_left hquit
          rw [hheld] at hone
          exact hone
        have hstep : c.step .receive =
            some ({ c with waiting := 0, updates := rest, held := c.held ++ [msg] },[]) := by
          simp [Console.step, hwaiting, hupdates]
        have hless : 2*rest.length + (c.held ++ [msg]).length < n := by
          rw [← hn, hheld, hupdates]
          simp only [List.length_cons, List.length_nil, List.nil_append]
          omega
        exact hon _ _ hstep trivial rfl rfl rfl hless

/-- After a signal the screen's program returns. -/
lemma Reachable.returns (h : c.Reachable) (hsignal : c.signal ≠ .waiting) :
    ∃ c', c.ByItself answer c' ∧ c'.returned ∧ c'.startup = c.startup := by
  by_cases hreturned : c.returned = true
  · exact ⟨c,.refl c,hreturned,rfl⟩
  have hended : ∀ c : Console sp, c.Reachable → c.signal = .ended → ¬ c.returned →
      ∃ c', c.ByItself answer c' ∧ c'.returned ∧ c'.startup = c.startup := by
    intro c h hended hrunning
    obtain ⟨c',hself,hquit,hrunning',hat⟩ := h.quits hended hrunning
    have hstep : c'.step .programReturns = some ({ c' with returned := true },[]) := by
      simp [Console.step, hquit, hrunning']
    exact ⟨_,hself.trans (byItself_step hstep trivial),rfl,hat⟩
  cases hcase : c.signal with
  | waiting => exact absurd hcase hsignal
  | ended => exact hended c h hcase hreturned
  | stopping =>
    obtain ⟨acts,t,hrun⟩ := h
    have hroom := room_for_updates hrun
    have hstep : c.step .signalQuit =
        some ({ c with signal := .ended, updates := c.updates ++ [Reporter.quit] },[]) := by
      simp [Console.step, hcase, hroom]
    have hself : c.ByItself answer _ := byItself_step hstep trivial
    obtain ⟨c',hrest,hreturns,hat⟩ :=
      hended _ (Reachable.byItself ⟨acts,t,hrun⟩ hself) rfl hreturned
    exact ⟨c',hself.trans hrest,hreturns,hat⟩

end Console

/-- From every state of every run that a signal has come in: nobody need press a key, and no
further signal is needed, for `main` to come to its end; what it ends with is what the startup
goroutine comes to by the answers its calls will have. -/
theorem signal_ends (h : (Console.start sp).run acts = some (c,t))
    (hsignal : c.signal ≠ .waiting) (answer : (call : Call) → call.Answer) :
    ∃ c', c.ByItself answer c' ∧ c'.exit = some (c.startup.eval answer) := by
  have hreach : c.Reachable := ⟨acts,t,h⟩
  obtain ⟨c₁,hself,hreturned,hat⟩ := hreach.returns hsignal
  obtain ⟨c',hrest,hexit⟩ := (hreach.byItself hself).ends hreturned
  rw [← hat]
  exact ⟨c',hself.trans hrest,hexit⟩

/-- A signal comes while the informers are synced. -/
theorem signal_ends_syncing : ∃ c t c',
    (Console.start stillSpinner).run [.send,.signal] = some (c,t) ∧
    c.ByItself (fun _ => default) c' ∧ c'.exit = some none := by
  have hrun : ∃ c t, (Console.start stillSpinner).run [.send,.signal] = some (c,t) ∧
      c.signal ≠ .waiting ∧ c.startup.eval (fun _ => default) = none := ⟨_,_,rfl,nofun,rfl⟩
  obtain ⟨c,t,hrun,hsignal,heval⟩ := hrun
  obtain ⟨c',hself,hexit⟩ := signal_ends hrun hsignal fun _ => default
  exact ⟨c,t,c',hrun,hself,heval ▸ hexit⟩

/-- In every run in which `main` comes to its end it has the error of the call of the startup
goroutine that failed, if one did, and no other call of it has failed. An error of the program
that runs the screen is only logged and does not count here. -/
theorem exit_errors {r : Option String} (h : (Console.start sp).run acts = some (c,t))
    (hexit : c.exit = some r) : errors t = r.toList := by
  have hled := (onScreen_of_run h).1
  have herr : c.errCh = some r := Console.Reachable.exit ⟨acts,t,h⟩ hexit
  have hended : Resumption.Follows startup t (.done r) := by
    rw [← hled.errCh _ herr]
    exact hled.follows
  exact (startup_recounted.result hended).errors

theorem exit_errors_syncFailed : ∃ c t, (Console.start stillSpinner).run
      (syncFailed ++ [.key "ctrl+c",.programReturns,.takeErr]) = some (c,t) ∧
    errors t = ["failed to sync informer cache"] := by
  have hrun : ∃ c t, (Console.start stillSpinner).run
      (syncFailed ++ [.key "ctrl+c",.programReturns,.takeErr]) = some (c,t) ∧
      c.exit = some (some "failed to sync informer cache") := ⟨_,_,rfl,rfl⟩
  obtain ⟨c,t,hrun,hexit⟩ := hrun
  exact ⟨c,t,hrun,exit_errors hrun hexit⟩

end Tracewulf.Main
