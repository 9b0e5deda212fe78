import Tracewulf.Main.Console

/-! A startup that fails. What the startup goroutine has told its reporter is on the screen or on
its way there; ctrl+c quits once the screen was told of a failure or of the dashboard. The goroutine
tells of a failing informer, and of no other failure. -/
namespace Tracewulf.Main
open Tracewulf.Base Tracewulf.Tui

variable {sp : Spinner}

section Goroutine

variable {t : Transcript} {p : Goroutine (Option String)}

lemma sent_append (t u : Transcript) : sent (t ++ u) = sent t ++ sent u := List.filterMap_append

/-- What has been sent on the way is part of what will have been sent in the end. -/
lemma sent_of_follows (h : Resumption.Follows startup t p) :
    (∀ msg ∈ sent t, msg.InRange) ∧ (sent t).length ≤ 7 := by
  obtain ⟨u,r,hend⟩ := (startup_accounted.follows h).exists
  have hall := hend.inRange
  have hfew := hend.few
  rw [sent_append] at hall hfew
  rw [List.length_append] at hfew
  exact ⟨fun msg hmsg => hall msg (List.mem_append_left _ hmsg),by omega⟩

/-- The goroutine is where its calls have led it, it has sent nothing on `errCh` but its end, and
`main` has received nothing before its program returned. -/
structure Led (t : Transcript) (c : Console sp) : Prop where
  follows : Resumption.Follows startup t c.startup
  errCh : ∀ err, c.errCh = some err → c.startup = .done err
  exit : c.returned ∨ c.exit = none

variable {c c' : Console sp} {a : Action sp} {u : Transcript}

lemma Led.step (h : Led t c) (hstep : c.step a = some (c',u)) : Led (t ++ u) c' := by
  obtain ⟨hfollows,herr,hexit⟩ := h
  have hopen : ∀ {q resume}, c.startup = .ask q resume → ∀ err, c.errCh ≠ some err := by
    intro q resume hat err hsent
    cases hat.symm.trans (herr err hsent)
  cases Console.takes_of_step hstep with
  | send msg resume hat _ =>
    rw [hat] at hfollows
    exact ⟨hfollows.answer (),fun err hsent => absurd hsent (hopen hat err),hexit⟩
  | startInformer err resume hat =>
    rw [hat] at hfollows
    exact ⟨hfollows.answer err,fun err hsent => absurd hsent (hopen hat err),hexit⟩
  | attempt stage err resume hat =>
    rw [hat] at hfollows
    exact ⟨hfollows.answer err,fun err hsent => absurd hsent (hopen hat err),hexit⟩
  | sendErr err hat _ =>
    rw [List.append_nil]
    refine ⟨hfollows,fun err' hsent => ?_,hexit⟩
    obtain rfl := Option.some.inj hsent
    exact hat
  | programReturns hquit _ =>
    rw [List.append_nil]
    exact ⟨hfollows,herr,.inl rfl⟩
  | programFails _ =>
    rw [List.append_nil]
    exact ⟨hfollows,herr,.inl rfl⟩
  | takeErr err _ hreturned _ =>
    rw [List.append_nil]
    exact ⟨hfollows,herr,.inl hreturned⟩
  | _ =>
    rw [List.append_nil]
    exact ⟨hfollows,herr,hexit⟩

end Goroutine

section Screen

/-- The messages that were sent and have not arrived at the screen. -/
def Console.pending (c : Console sp) : List UpdateMsg := c.held ++ c.updates

/-- What was sent is on the screen or on its way, there are few messages on the way, and a command
waits for them or holds one until the program is to quit. -/
structure OnScreen (t : Transcript) (c : Console sp) : Prop where
  told : (∃ msg ∈ sent t, msg.Tells) ↔ c.model.Told ∨ ∃ msg ∈ c.pending, msg.Tells
  whole : c.model.Whole
  inRange : ∀ msg ∈ c.pending, msg.InRange
  few : c.pending.length ≤ (sent t).length + if c.signal = .ended then 1 else 0
  listens : c.quit ∨ c.waiting + c.held.length = 1

variable {t u : Transcript} {c c' : Console sp} {a : Action sp}

lemma exists_tells_append (l₁ l₂ : List UpdateMsg) : (∃ msg ∈ l₁ ++ l₂, msg.Tells) ↔
    (∃ msg ∈ l₁, msg.Tells) ∨ ∃ msg ∈ l₂, msg.Tells := by
  simp only [List.mem_append, or_and_right, exists_or]

lemma exists_tells_singleton (msg : UpdateMsg) : (∃ m ∈ [msg], m.Tells) ↔ msg.Tells := by simp

/-- A message from the startup goroutine is one more on the way. -/
lemma OnScreen.send {msg : UpdateMsg} {p : Goroutine (Option String)} (h : OnScreen t c)
    (hmsg : msg.InRange) : OnScreen (t ++ [⟨.update msg,()⟩])
      { c with startup := p, updates := c.updates ++ [msg] } := by
  obtain ⟨htold,hwhole,hrange,hfew,hlistens⟩ := h
  have hsent : sent (t ++ [⟨.update msg,()⟩]) = sent t ++ [msg] := sent_append t _
  have hpending : Console.pending { c with startup := p, updates := c.updates ++ [msg] } =
      c.pending ++ [msg] := (List.append_assoc _ _ _).symm
  refine ⟨?_,hwhole,?_,?_,hlistens⟩
  · rw [hsent, hpending, exists_tells_append, exists_tells_append, htold, or_assoc]
  · rw [hpending]
    exact List.forall_mem_append.mpr ⟨hrange,List.forall_mem_singleton.mpr hmsg⟩
  · rw [hsent, hpending, List.length_append, List.length_append]
    dsimp only
    omega

/-- A call outside sends nothing. -/
lemma OnScreen.call {x : (call : Call) × call.Answer} {p : Goroutine (Option String)}
    (h : OnScreen t c) (hx : sent [x] = []) : OnScreen (t ++ [x]) { c with startup := p } := by
  have hnone : sent (t ++ [x]) = sent t := by rw [sent_append, hx, List.append_nil]
  obtain ⟨htold,hwhole,hrange,hfew,hlistens⟩ := h
  rw [← hnone] at htold hfew
  exact ⟨htold,hwhole,hrange,hfew,hlistens⟩

/-- The signal's message tells nothing. -/
lemma OnScreen.signalQuit (h : OnScreen t c) (hsignal : c.signal = .stopping) :
    OnScreen t { c with signal := .ended, updates := c.updates ++ [Reporter.quit] } := by
  obtain ⟨htold,hwhole,hrange,hfew,hlistens⟩ := h
  have hpending : Console.pending
      { c with signal := .ended, updates := c.updates ++ [Reporter.quit] } =
      c.pending ++ [Reporter.quit] := (List.append_assoc _ _ _).symm
  refine ⟨?_,hwhole,?_,?_,hlistens⟩
  · have hquiet : ¬ Reporter.quit.Tells := by decide
    rw [hpending, exists_tells_append, exists_tells_singleton, htold, or_iff_left hquiet]
  · rw [hpending]
    exact List.forall_mem_append.mpr ⟨hrange,List.forall_mem_singleton.mpr (by decide)⟩
  · rw [hsignal, if_neg (by decide)] at hfew
    rw [hpending, List.length_append]
    dsimp only
    rw [if_pos rfl]
    simp only [List.length_singleton]
    omega

/-- A message received is still on its way, now held by the command that waited. -/
lemma OnScreen.receive {n : ℕ} {msg : UpdateMsg} {rest : List UpdateMsg} (h : OnScreen t c)
    (hwaiting : c.waiting = n+1) (hupdates : c.updates = msg::rest) :
    OnScreen t { c with waiting := n, updates := rest, held := c.held ++ [msg] } := by
  obtain ⟨htold,hwhole,hrange,hfew,hlistens⟩ := h
  have hpending : Console.pending
      { c with waiting := n, updates := rest, held := c.held ++ [msg] } = c.pending := by
    simp [Console.pending, hupdates]
  refine ⟨by rw [hpending, htold],hwhole,by rwa [hpending],by rwa [hpending],?_⟩
  refine hlistens.imp_right fun hone => ?_
  rw [List.length_append, List.length_singleton]
  dsimp only
  omega

/-- A message delivered is on the screen, and the program waits for the next. -/
lemma OnScreen.deliver {msg : UpdateMsg} {model : Model sp} {cmd : Cmd sp} (h : OnScreen t c)
    (hheld : msg ∈ c.held) (hupdate : c.model.update (.update msg) = some (model,cmd)) :
    OnScreen t ({ c with held := c.held.erase msg }.after model cmd) := by
  obtain ⟨htold,hwhole,hrange,hfew,hlistens⟩ := h
  have hperm : c.pending.Perm (msg::(c.held.erase msg ++ c.updates)) :=
    (List.perm_cons_erase hheld).append_right _
  have hlen : c.held.length = (c.held.erase msg).length + 1 :=
    (List.perm_cons_erase hheld).length_eq
  refine ⟨?_,hwhole.update hupdate,?_,?_,?_⟩
  · have hsame : (∃ m ∈ c.pending, m.Tells) ↔
        msg.Tells ∨ ∃ m ∈ c.held.erase msg ++ c.updates, m.Tells := by
      simp only [hperm.mem_iff, List.mem_cons, exists_eq_or_imp]
    rw [htold, hsame, ← or_assoc]
    exact or_congr_left (Model.told_update hupdate).symm
  · exact fun m hm => hrange m (hperm.mem_iff.mpr (List.mem_cons_of_mem _ hm))
  · have hfewer : (c.held.erase msg ++ c.updates).length ≤ c.pending.length := by
      rw [hperm.length_eq, List.length_cons]
      omega
    exact Nat.le_trans hfewer hfew
  · rcases cmd_of_update hupdate with rfl | rfl
    · refine hlistens.imp_right fun hone => ?_
      dsimp only [Console.after]
      omega
    · exact .inl rfl

/-- What the terminal says changes nothing of this. -/
lemma OnScreen.input {msg : Msg sp} {model : Model sp} {cmd : Cmd sp} (h : OnScreen t c)
    (hinput : Console.input a = some msg) (hupdate : c.model.update msg = some (model,cmd)) :
    OnScreen t (c.after model cmd) := by
  obtain ⟨htold,hwhole,hrange,hfew,hlistens⟩ := h
  have hquiet : ¬ msg.Tells ∧ cmd ≠ .waitForUpdate := by
    cases updates_of_update hupdate with
    | tick msg => exact ⟨id,nofun⟩
    | key string quitting cmd hcmd =>
      refine ⟨id,?_⟩
      rintro rfl
      exact hcmd.elim nofun nofun
    | other => exact ⟨id,nofun⟩
    | _ => cases a <;> cases hinput
  refine ⟨?_,hwhole.update hupdate,hrange,hfew,?_⟩
  · rw [htold]
    exact or_congr_left ((Model.told_update hupdate).trans (or_iff_left hquiet.1)).symm
  · cases cmd with
    | quit => exact .inl rfl
    | waitForUpdate => exact absurd rfl hquiet.2
    | _ => exact hlistens

lemma OnScreen.step (h : OnScreen t c) (hled : Led (t ++ u) c')
    (hstep : c.step a = some (c',u)) : OnScreen (t ++ u) c' := by
  have hsent := (sent_of_follows hled.follows).1
  cases Console.takes_of_step hstep with
  | send msg resume hat _ =>
    have hmem : msg ∈ sent (t ++ [⟨.update msg,()⟩]) := by
      rw [sent_append]
      exact List.mem_append_right _ List.mem_cons_self
    exact h.send (hsent msg hmem)
  | startInformer err resume hat => exact h.call rfl
  | attempt stage err resume hat => exact h.call rfl
  | signal hsignal =>
    rw [List.append_nil]
    refine ⟨h.told,h.whole,h.inRange,?_,h.listens⟩
    have hfew := h.few
    rw [hsignal] at hfew
    exact hfew
  | signalQuit hsignal _ =>
    rw [List.append_nil]
    exact h.signalQuit hsignal
  | receive n msg rest hwaiting hupdates =>
    rw [List.append_nil]
    exact h.receive hwaiting hupdates
  | deliver msg model cmd hheld _ hupdate =>
    rw [List.append_nil]
    exact h.deliver hheld hupdate
  | input a msg model cmd hinput _ hupdate =>
    rw [List.append_nil]
    exact h.input hinput hupdate
  | _ =>
    rw [List.append_nil]
    exact ⟨h.told,h.whole,h.inRange,h.few,h.listens⟩

end Screen

section Runs

variable {t : Transcript} {c : Console sp} {acts : List (Action sp)} {err : String}

lemma led_start : Led [] (Console.start sp) := ⟨.refl _,nofun,.inr rfl⟩

lemma onScreen_start : OnScreen [] (Console.start sp) where
  told := by simp [sent, Console.pending, Console.start, Model.Told, newModel]
  whole := newModel_whole
  inRange := nofun
  few := Nat.zero_le _
  listens := .inr rfl

/-- In every run, whoever's turn it is. -/
theorem onScreen_of_run (h : (Console.start sp).run acts = some (c,t)) :
    Led t c ∧ OnScreen t c := by
  have hstep : ∀ (t : Transcript) (c : Console sp) a c' u, Led t c ∧ OnScreen t c →
      c.step a = some (c',u) → Led (t ++ u) c' ∧ OnScreen (t ++ u) c' := by
    rintro t c a c' u ⟨hled,hscreen⟩ hstep
    exact ⟨hled.step hstep,hscreen.step (hled.step hstep) hstep⟩
  exact run_invariant hstep ⟨led_start,onScreen_start⟩ h

/-- The startup goroutine is never held up by a full channel. -/
theorem room_for_updates (h : (Console.start sp).run acts = some (c,t)) :
    c.updates.length < Reporter.capacity := by
  obtain ⟨hled,hscreen⟩ := onScreen_of_run h
  have hsent := (sent_of_follows hled.follows).2
  have hfew := hscreen.few
  have hle : (if c.signal = .ended then 1 else 0) ≤ 1 := by split_ifs <;> omega
  rw [Console.pending, List.length_append] at hfew
  rw [Reporter.capacity]
  omega

/-- Deliveries alone bring a running screen up to date, unless one of them makes it quit. -/
lemma OnScreen.arrives (h : OnScreen t c) (hrunning : ¬ c.returned) : ∃ deliveries c',
    c.run deliveries = some (c',[]) ∧ c'.startup = c.startup ∧ c'.errCh = c.errCh ∧
      (c'.quit ∨ c'.pending = []) := by
  -- receiving moves a message from the channel to a command, delivering takes it away
  induction hn : 2*c.updates.length + c.held.length using Nat.strongRecOn generalizing c with
  | ind n ih =>
    by_cases hquit : c.quit = true
    · exact ⟨[],c,rfl,rfl,rfl,.inl hquit⟩
    cases hheld : c.held with
    | cons msg held =>
      have hmem : msg ∈ c.held := hheld ▸ List.mem_cons_self
      have hin : (Msg.update msg : Msg sp).InRange := h.inRange msg (List.mem_append_left _ hmem)
      obtain ⟨⟨model,cmd⟩,hupdate⟩ := Option.isSome_iff_exists.mp (h.whole.update_isSome hin)
      have hstep : c.step (.deliver msg) =
          some ({ c with held := c.held.erase msg }.after model cmd,[]) := by
        simp [Console.step, Console.deliver, hmem, hrunning, hupdate]
      have hless : 2*c.updates.length + (c.held.erase msg).length < n := by
        rw [← hn, hheld, List.erase_cons_head, List.length_cons]
        omega
      obtain ⟨deliveries,c',hrun,hstartup,herr,hend⟩ :=
        ih _ hless (h.deliver hmem hupdate) hrunning rfl
      exact ⟨.deliver msg::deliveries,c',run_cons_of_eq_some hstep hrun,hstartup,herr,hend⟩
    | nil =>
      cases hupdates : c.updates with
      | nil => exact ⟨[],c,rfl,rfl,rfl,.inr (by rw [Console.pending, hheld, hupdates]; rfl)⟩
      | cons msg rest =>
        have hwaiting : c.waiting = 0+1 := by
          have hone := h.listens.resolve_left hquit
          rw [hheld] at hone
          exact hone
        have hstep : c.step .receive =
            some ({ c with waiting := 0, updates := rest, held := c.held ++ [msg] },[]) := by
          simp [Console.step, hwaiting, hupdates]
        have hless : 2*rest.length + (c.held ++ [msg]).length < n := by
          rw [← hn, hheld, hupdates]
          simp only [List.length_cons, List.length_nil, List.nil_append]
          omega
        obtain ⟨deliveries,c',hrun,hstartup,herr,hend⟩ :=
          ih _ hless (h.receive hwaiting hupdates) hrunning rfl
        exact ⟨.receive::deliveries,c',run_cons_of_eq_some hstep hrun,hstartup,herr,hend⟩

/-- So in every run the updates that are queued can still be delivered. -/
theorem updates_arrive (h : (Console.start sp).run acts = some (c,t)) (hrunning : ¬ c.returned) :
    ∃ deliveries c', c.run deliveries = some (c',[]) ∧ c'.startup = c.startup ∧
      c'.errCh = c.errCh ∧ (c'.quit ∨ c'.pending = []) :=
  (onScreen_of_run h).2.arrives hrunning

lemma Call.shown_iff (call : Call) :
    call.Shown ↔ call = .startInformer ∨ call = .attempt .readEvents := by
  cases call <;> simp [Call.Shown]

/-- Once the startup has failed and the screen has all that was sent to it, it has been told
exactly if what failed were the informers or the reading of events. -/
lemma told_iff (h : (Console.start sp).run acts = some (c,t)) (herr : c.errCh = some (some err))
    (hdrained : c.pending = []) :
    c.model.Told ↔ .startInformer ∈ failures t ∨ .attempt .readEvents ∈ failures t := by
  obtain ⟨hled,hscreen⟩ := onScreen_of_run h
  have hended : Resumption.Follows startup t (.done (some err)) := by
    rw [← hled.errCh _ herr]
    exact hled.follows
  have haccounted := (startup_accounted.result hended).told rfl
  have hnone : ¬ ∃ msg ∈ c.pending, msg.Tells := by simp [hdrained]
  calc c.model.Told ↔ ∃ msg ∈ sent t, msg.Tells := by rw [hscreen.told, or_iff_left hnone]
    _ ↔ ∃ call ∈ failures t, call.Shown := haccounted
    _ ↔ .startInformer ∈ failures t ∨ .attempt .readEvents ∈ failures t := by
      simp only [Call.shown_iff, and_or_left, exists_or, exists_eq_right]

/-- For every run to a failed startup with all updates delivered: ctrl+c makes `Update` return
`tea.Quit` exactly if `StartInformer` or `ReadEvents` is what failed; and where it does, a program
that still runs returns, and `main` has the error. -/
theorem failed_startup_quits_iff (h : (Console.start sp).run acts = some (c,t))
    (herr : c.errCh = some (some err)) (hdrained : c.pending = []) :
    ((∃ model, c.model.update (.key "ctrl+c") = some (model,.quit)) ↔
      .startInformer ∈ failures t ∨ .attempt .readEvents ∈ failures t) ∧
    ((∃ model, c.model.update (.key "ctrl+c") = some (model,.quit)) → ¬ c.returned →
      ∃ c', c.run [.key "ctrl+c",.programReturns,.takeErr] = some (c',[]) ∧
        c'.exit = some (some err)) := by
  refine ⟨(Model.ctrlC_quits_iff c.model).trans (told_iff h herr hdrained),?_⟩
  rintro ⟨model,hquit⟩ hrunning
  have hexit : c.exit = none := (onScreen_of_run h).1.exit.resolve_left hrunning
  refine ⟨{ c.after model .quit with returned := true, exit := some (some err) },?_,rfl⟩
  simp [Console.run, run, Console.step, Console.deliver, Console.after, hrunning, hquit, herr,
    hexit]

end Runs

section Demo

/-- A spinner with one state. -/
def stillSpinner : Spinner where
  Model := Unit
  TickMsg := Unit
  Cmd := Unit
  new := ()
  update _ _ := ((),())

/-- The informers are synced, and then the memory limit cannot be lifted. -/
def memlockRefused : List (Action stillSpinner) :=
  [.send,.call none,.send,.send,.call (some "operation not permitted"),.sendErr,
   .receive,.deliver (Reporter.start 0),.receive,.deliver (Reporter.done 0 "synced"),
   .receive,.deliver (Reporter.start 1)]

/-- The startup has failed, the screen has everything, and ctrl+c does nothing. -/
theorem memlockRefused_traps : ∃ c t,
    (Console.start stillSpinner).run memlockRefused = some (c,t) ∧
    c.errCh = some (some "operation not permitted") ∧ c.pending = [] ∧ ¬ c.returned ∧
    ¬ ∃ model, c.model.update (.key "ctrl+c") = some (model,.quit) := by
  refine ⟨_,_,rfl,rfl,rfl,nofun,?_⟩
  rw [Model.ctrlC_quits_iff]
  exact nofun

/-- The informers cannot be synced; a tick comes in between. -/
def syncFailed : List (Action stillSpinner) :=
  [.send,.receive,.call (some "failed to sync informer cache"),.send,.tick (),.sendErr,
   .deliver (Reporter.start 0),.receive,.deliver (Reporter.fail 0 "failed to sync informer cache")]

theorem failed_startup_quits_iff_syncFailed : ∃ c t c',
    (Console.start stillSpinner).run syncFailed = some (c,t) ∧
    (∃ model, c.model.update (.key "ctrl+c") = some (model,.quit)) ∧
    c.run [.key "ctrl+c",.programReturns,.takeErr] = some (c',[]) ∧
    c'.exit = some (some "failed to sync informer cache") := by
  have hrun : ∃ c t, (Console.start stillSpinner).run syncFailed = some (c,t) ∧
      c.errCh = some (some "failed to sync informer cache") ∧ c.pending = [] ∧ ¬ c.returned ∧
      .startInformer ∈ failures t := ⟨_,_,rfl,rfl,rfl,nofun,by decide⟩
  obtain ⟨c,t,hrun,herr,hdrained,hrunning,hfailed⟩ := hrun
  obtain ⟨hiff,hends⟩ := failed_startup_quits_iff hrun herr hdrained
  have hquits := hiff.mpr (.inl hfailed)
  obtain ⟨c',hreturn,hexit⟩ := hends hquits hrunning
  exact ⟨c,t,c',hrun,hquits,hreturn,hexit⟩

end Demo
end Tracewulf.Main
