import Mathlib.Data.List.Infix
import Tracewulf.Main.Recount
import Tracewulf.Tui.Screen

/-! The startup screen as a checklist. The messages arrive one by one in the order in which they
were sent, so the screen shows what the startup goroutine had told a moment ago; and what it had
told was so. -/
namespace Tracewulf.Main
open Tracewulf.Base Tracewulf.Tui

variable {sp : Spinner} {t u : Transcript} {c c' : Console sp} {a : Action sp}
  {acts : List (Action sp)}

section Queue

/-- What has arrived and what is on its way is, in this order, what was sent, the signal's message
apart; that one is among them once it was sent, and quits when it arrives. -/
structure Queued (t : Transcript) (c : Console sp) : Prop where
  one : c.waiting + c.held.length ≤ 1
  arrived : ∃ msgs, ((msgs ++ c.pending).filter fun msg => msg ≠ .quit) = sent t ∧
    c.model.screen = .after msgs ∧ (.quit ∈ msgs → c.quit) ∧
    (c.signal = .ended → .quit ∈ msgs ++ c.pending)

/-- The goroutine never tells the reporter to quit. -/
lemma ne_quit_of_follows {p : Goroutine (Option String)} {msg : UpdateMsg}
    (h : Resumption.Follows startup t p) (hmsg : msg ∈ sent t) : msg ≠ .quit := by
  obtain ⟨u,r,hend⟩ := (startup_recounted.follows h).exists
  have hmem : msg ∈ sent (t ++ u) := by
    rw [sent_append]
    exact List.mem_append_left _ hmsg
  rintro rfl
  rcases hend.told with hscript | ⟨err,hfail⟩
  · exact absurd (hscript.subset hmem) (by simp [script, Reporter.start, Reporter.done,
      Reporter.ready])
  · rw [hfail] at hmem
    simp [Reporter.start, Reporter.fail] at hmem

lemma queued_start : Queued [] (Console.start sp) :=
  ⟨Nat.le_refl 1,[],rfl,rfl,nofun,nofun⟩

lemma Queued.send {msg : UpdateMsg} {p : Goroutine (Option String)} (h : Queued t c)
    (hmsg : msg ≠ .quit) : Queued (t ++ [⟨.update msg,()⟩])
      { c with startup := p, updates := c.updates ++ [msg] } := by
  obtain ⟨hone,msgs,hsent,hscreen,hquit,hended⟩ := h
  have hpending : msgs ++ Console.pending { c with startup := p, updates := c.updates ++ [msg] } =
      (msgs ++ c.pending) ++ [msg] := by
    simp only [Console.pending, List.append_assoc]
  refine ⟨hone,msgs,?_,hscreen,hquit,fun hsignal => ?_⟩
  · rw [hpending, List.filter_append, hsent, sent_append, List.filter_singleton]
    simp [hmsg, sent]
  · rw [hpending]
    exact List.mem_append_left _ (hended hsignal)

lemma Queued.call {x : (call : Call) × call.Answer} {p : Goroutine (Option String)}
    (h : Queued t c) (hx : sent [x] = []) : Queued (t ++ [x]) { c with startup := p } := by
  obtain ⟨hone,msgs,hsent,hrest⟩ := h
  refine ⟨hone,msgs,?_,hrest⟩
  rw [sent_append, hx, List.append_nil, ← hsent]
  rfl

lemma Queued.signalQuit (h : Queued t c) :
    Queued t { c with signal := .ended, updates := c.updates ++ [Reporter.quit] } := by
  obtain ⟨hone,msgs,hsent,hscreen,hquit,-⟩ := h
  have hpending : msgs ++ Console.pending
      { c with signal := .ended, updates := c.updates ++ [Reporter.quit] } =
      (msgs ++ c.pending) ++ [.quit] := by
    simp only [Console.pending, List.append_assoc, Reporter.quit]
  refine ⟨hone,msgs,?_,hscreen,hquit,fun _ => ?_⟩
  · rw [hpending, List.filter_append, hsent, List.filter_singleton]
    simp
  · rw [hpending]
    exact List.mem_append_right _ List.mem_cons_self

lemma Queued.receive {n : ℕ} {msg : UpdateMsg} {rest : List UpdateMsg} (h : Queued t c)
    (hwaiting : c.waiting = n+1) (hupdates : c.updates = msg::rest) :
    Queued t { c with waiting := n, updates := rest, held := c.held ++ [msg] } := by
  obtain ⟨hone,msgs,hrest⟩ := h
  have hpending : Console.pending { c with waiting := n, updates := rest, held := c.held ++ [msg] }
      = c.pending := by
    simp [Console.pending, hupdates]
  refine ⟨?_,msgs,?_⟩
  · rw [hwaiting] at hone
    rw [List.length_append, List.length_singleton]
    dsimp only
    omega
  · rwa [hpending]

/-- The one message that is held is the next to arrive. -/
lemma Queued.deliver {msg : UpdateMsg} {model : Model sp} {cmd : Cmd sp} (h : Queued t c)
    (hheld : msg ∈ c.held) (hupdate : c.model.update (.update msg) = some (model,cmd)) :
    Queued t ({ c with held := c.held.erase msg }.after model cmd) := by
  obtain ⟨hone,msgs,hsent,hscreen,hquit,hended⟩ := h
  have hlen : c.held.length = 1 := by
    have hpos := List.length_pos_of_mem hheld
    omega
  obtain ⟨held,hheld₁⟩ := List.length_eq_one_iff.mp hlen
  obtain rfl : msg = held := by simpa [hheld₁] using hheld
  have herase : c.held.erase msg = [] := by rw [hheld₁, List.erase_cons_head]
  have hpending : (msgs ++ [msg]) ++
      Console.pending ({ c with held := c.held.erase msg }.after model cmd) =
        msgs ++ c.pending := by
    simp [Console.pending, Console.after, hheld₁]
  refine ⟨?_,msgs ++ [msg],?_,?_,fun hmem => ?_,fun hsignal => ?_⟩
  · have hnone : c.waiting = 0 := by omega
    simp only [Console.after, herase, hnone, List.length_nil]
    cases cmd <;> simp
  · rw [hpending, hsent]
  · rw [Screen.after_append_singleton, ← hscreen]
    exact screen_update hupdate
  · rcases List.mem_append.mp hmem with hbefore | hmsg
    · cases cmd <;> simp [Console.after, hquit hbefore]
    · obtain rfl := List.mem_singleton.mp hmsg
      cases hupdate
      rfl
  · rw [hpending]
    exact hended hsignal

lemma Queued.input {msg : Msg sp} {model : Model sp} {cmd : Cmd sp} (h : Queued t c)
    (hinput : Console.input a = some msg) (hupdate : c.model.update msg = some (model,cmd)) :
    Queued t (c.after model cmd) := by
  obtain ⟨hone,msgs,hsent,hscreen,hquit,hended⟩ := h
  have hterminal : ∀ u, msg ≠ .update u := by
    rintro u rfl
    cases a <;> cases hinput
  have hquiet : cmd ≠ .waitForUpdate := by
    rintro rfl
    cases updates_of_update hupdate with
    | key string quitting cmd hcmd => exact hcmd.elim nofun nofun
    | stepUpdate index status detail _ _ => exact hterminal _ rfl
    | ready dashboardURL => exact hterminal _ rfl
  refine ⟨?_,msgs,hsent,?_,fun hmem => ?_,hended⟩
  · cases cmd with
    | waitForUpdate => exact absurd rfl hquiet
    | _ => exact hone
  · rw [← hscreen]
    exact screen_input hupdate hterminal
  · cases cmd <;> simp [Console.after, hquit hmem]

lemma Queued.step (h : Queued t c) (hled : Led (t ++ u) c') (hstep : c.step a = some (c',u)) :
    Queued (t ++ u) c' := by
  cases Console.takes_of_step hstep with
  | send msg resume hat _ =>
    refine h.send (ne_quit_of_follows hled.follows ?_)
    rw [sent_append]
    exact List.mem_append_right _ List.mem_cons_self
  | startInformer err resume hat => exact h.call rfl
  | attempt stage err resume hat => exact h.call rfl
  | signal hsignal =>
    rw [List.append_nil]
    obtain ⟨hone,msgs,hsent,hscreen,hquit,-⟩ := h
    exact ⟨hone,msgs,hsent,hscreen,hquit,nofun⟩
  | signalQuit hsignal _ =>
    rw [List.append_nil]
    exact h.signalQuit
  | receive n msg rest hwaiting hupdates =>
    rw [List.append_nil]
    exact h.receive hwaiting hupdates
  | deliver msg model cmd hheld _ hupdate =>
    rw [List.append_nil]
    exact h.deliver hheld hupdate
  | input a msg model cmd hinput _ hupdate =>
    rw [List.append_nil]
    exact h.input hinput hupdate
  | _ =>
    rw [List.append_nil]
    exact ⟨h.one,h.arrived⟩

/-- In every run, whoever's turn it is. -/
theorem queued_of_run (h : (Console.start sp).run acts = some (c,t)) : Queued t c := by
  have hstep : ∀ (t : Transcript) (c : Console sp) a c' u, Led t c ∧ Queued t c →
      c.step a = some (c',u) → Led (t ++ u) c' ∧ Queued (t ++ u) c' := by
    rintro t c a c' u ⟨hled,hqueued⟩ hstep
    exact ⟨hled.step hstep,hqueued.step (hled.step hstep) hstep⟩
  exact (run_invariant hstep ⟨led_start,queued_start⟩ h).2

end Queue

section Truth

/-- What the screen says of the steps is so, by the calls that were made. -/
structure Truthful (seen : List (Call × Option String)) (s : Screen) : Prop where
  done : ∀ i, s.stepStatus[i]? = some .done → ∀ call ∈ stepCalls i, (call,none) ∈ seen
  failed : ∀ i, s.stepStatus[i]? = some .failed → ∃ call ∈ stepCalls i, ∃ err,
    (call,some err) ∈ seen ∧ s.stepDetail[i]? = some err
  orderly : s.Orderly

/-- The message says that the step is done. -/
def Completes (i : ℕ) : UpdateMsg → Prop
  | .stepUpdate j .done _ => j = i
  | _ => False

instance (i : ℕ) : DecidablePred (Completes i)
  | .stepUpdate j .done _ => inferInstanceAs (Decidable (j = i))
  | .stepUpdate _ .pending _ | .stepUpdate _ .active _ | .stepUpdate _ .failed _
  | .ready _ | .quit => inferInstanceAs (Decidable False)

variable {msgs : List UpdateMsg} {p : Goroutine (Option String)}

/-- Along the script the screen is orderly, and a step that was done stays done. -/
lemma script_shown (h : msgs <+: script) : (Screen.after msgs).Orderly ∧
    (∀ i < steps.length, ∀ msg ∈ msgs, Completes i msg →
      (Screen.after msgs).stepStatus[i]? = some .done) := by
  have hall : ∀ msgs ∈ script.inits, (Screen.after msgs).Orderly ∧
      (∀ i < steps.length, ∀ msg ∈ msgs, Completes i msg →
        (Screen.after msgs).stepStatus[i]? = some .done) := by decide
  exact hall msgs ((List.mem_inits _ _).mpr h)

/-- Whatever has arrived is a part of the script, or it is the failure of the informers. -/
lemma script_of_follows (h : Resumption.Follows startup t p) (hmsgs : msgs <+: sent t) :
    msgs <+: script ∨ ∃ err, msgs = [Reporter.start 0,Reporter.fail 0 err] := by
  obtain ⟨u,r,hend⟩ := (startup_recounted.follows h).exists
  have hall : msgs <+: sent (t ++ u) := by
    rw [sent_append]
    exact hmsgs.trans (List.prefix_append _ _)
  rcases hend.told with hscript | ⟨err,hfail⟩
  · exact .inl (hall.trans hscript)
  · rw [hfail] at hall
    rcases List.prefix_concat_iff.mp (show msgs <+: [Reporter.start 0] ++ [Reporter.fail 0 err]
      from hall) with heq | hshort
    · exact .inr ⟨err,heq⟩
    · exact .inl (hshort.trans (List.take_prefix 1 script))

/-- The screen with a part of what was sent is truthful. -/
lemma truthful_of_follows (h : Resumption.Follows startup t p) (hmsgs : msgs <+: sent t) :
    Truthful (outcomes t) (.after msgs) := by
  have hvouched : Vouched [] t := by
    obtain ⟨u,r,hend⟩ := (startup_recounted.follows h).exists
    exact (vouched_append.mp hend.vouched).1
  have hsupported : ∀ msg ∈ msgs, Supported (outcomes t) msg := fun msg hmsg =>
    hvouched.supported (hmsgs.subset hmsg)
  refine ⟨fun i hi => ?_,fun i hi => ?_,?_⟩
  · obtain ⟨detail,hdetail⟩ := Screen.exists_of_stepStatus hi (by decide)
    exact hsupported _ hdetail
  · obtain ⟨detail,hdetail⟩ := Screen.exists_of_stepStatus hi (by decide)
    obtain ⟨call,hcall,hseen⟩ := hsupported _ hdetail
    refine ⟨call,hcall,detail,hseen,?_⟩
    rcases script_of_follows h hmsgs with hscript | ⟨err,rfl⟩
    · exact absurd (hscript.subset hdetail)
        (by simp [script, Reporter.start, Reporter.done, Reporter.ready])
    · -- an error without a text leaves the text that was there, which is none
      obtain ⟨rfl,rfl⟩ : i = 0 ∧ detail = err := by
        simpa [Reporter.start, Reporter.fail] using hdetail
      by_cases herr : detail = ""
      · subst herr
        rfl
      · simp [Screen.after, Screen.update, Screen.blank, Reporter.start, Reporter.fail, herr,
          steps]
  · rcases script_of_follows h hmsgs with hscript | ⟨err,rfl⟩
    · exact (script_shown hscript).1
    · constructor <;> simp [Screen.after, Screen.update, Screen.blank, Reporter.start,
        Reporter.fail, steps]

/-- What has arrived is the start of what was sent. -/
lemma Queued.exists_screen (h : Queued t c) : ∃ msgs, msgs <+: sent t ∧
    c.model.screen = .after msgs ∧ (c.pending = [] → msgs = sent t) := by
  obtain ⟨-,msgs,hsent,hscreen,-,-⟩ := h
  refine ⟨msgs.filter fun msg => msg ≠ .quit,?_,?_,fun hnone => ?_⟩
  · rw [← hsent, List.filter_append]
    exact List.prefix_append _ _
  · rw [Screen.after_filter, hscreen]
  · rw [← hsent, hnone, List.append_nil]

/-- In every run of the daemon: a step that is shown as done has had all its calls succeed; a step
that is shown as failed has had one fail, with the error that is shown; the steps are done in
their order; and the dashboard is shown when all are done. -/
theorem screen_truthful (h : (Console.start sp).run acts = some (c,t)) :
    Truthful (outcomes t) c.model.screen := by
  obtain ⟨msgs,hmsgs,hscreen,-⟩ := (queued_of_run h).exists_screen
  rw [hscreen]
  exact truthful_of_follows (onScreen_of_run h).1.follows hmsgs

/-- Once the startup goroutine has ended and the screen has all that was sent to it, a step is
shown as done exactly if all its calls succeeded, and the error, if there was one, is what main
will exit with. -/
theorem screen_complete {r : Option String} (h : (Console.start sp).run acts = some (c,t))
    (herr : c.errCh = some r) (hdrained : c.pending = []) :
    errors t = r.toList ∧ ∀ i < steps.length, c.model.screen.stepStatus[i]? = some .done ↔
      ∀ call ∈ stepCalls i, (call,none) ∈ outcomes t := by
  obtain ⟨msgs,hmsgs,hscreen,hall⟩ := (queued_of_run h).exists_screen
  have hled := (onScreen_of_run h).1
  have hended : Resumption.Follows startup t (.done r) := by
    rw [← hled.errCh _ herr]
    exact hled.follows
  have hend := startup_recounted.result hended
  rw [hscreen]
  have htruthful := truthful_of_follows hended hmsgs
  refine ⟨hend.errors,fun i hi => ⟨htruthful.done i,fun hcalls => ?_⟩⟩
  obtain ⟨detail,hdone⟩ := hend.complete i hi hcalls
  rw [← hall hdrained] at hdone
  rcases script_of_follows hended hmsgs with hscript | ⟨err,rfl⟩
  · exact (script_shown hscript).2 i hi _ hdone rfl
  · simp [Reporter.start, Reporter.fail, Reporter.done] at hdone

/-- The informers are synced, and the memory limit cannot be lifted: the second step stays under
way. -/
theorem screen_truthful_memlockRefused : ∃ c t,
    (Console.start stillSpinner).run memlockRefused = some (c,t) ∧
    c.model.screen.stepStatus = [.done,.active,.pending] ∧
    Truthful (outcomes t) c.model.screen := by
  have hrun : ∃ c t, (Console.start stillSpinner).run memlockRefused = some (c,t) ∧
      c.model.screen.stepStatus = [.done,.active,.pending] := ⟨_,_,rfl,rfl⟩
  obtain ⟨c,t,hrun,hstatus⟩ := hrun
  exact ⟨c,t,hrun,hstatus,screen_truthful hrun⟩

theorem screen_complete_memlockRefused : ∃ c t,
    (Console.start stillSpinner).run memlockRefused = some (c,t) ∧
    errors t = ["operation not permitted"] ∧
    (c.model.screen.stepStatus[0]? = some .done ↔
      ∀ call ∈ stepCalls 0, (call,none) ∈ outcomes t) := by
  have hrun : ∃ c t, (Console.start stillSpinner).run memlockRefused = some (c,t) ∧
      c.errCh = some (some "operation not permitted") ∧ c.pending = [] := ⟨_,_,rfl,rfl,rfl⟩
  obtain ⟨c,t,hrun,herr,hdrained⟩ := hrun
  obtain ⟨herrors,hsteps⟩ := screen_complete hrun herr hdrained
  exact ⟨c,t,hrun,herrors,hsteps 0 (by decide)⟩

end Truth
end Tracewulf.Main
