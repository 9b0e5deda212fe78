import Tracewulf.Base.Run
import Tracewulf.Main.Startup

/-! The interactive daemon until it ends: the startup goroutine, the goroutine that waits for a
signal, the startup screen with its commands, and `main`, which runs the screen's program and then
waits for what the startup goroutine ends with. Ticks, key presses and signals come at any time; a
call outside may turn out either way at any time. -/
namespace Tracewulf.Main
open Tracewulf.Base Tracewulf.Tui

/-- The goroutine that closes `stopCh` on a signal, and then tells the reporter to quit. -/
inductive SignalHandler
  | waiting
  | stopping
  | ended
  deriving DecidableEq, Repr

structure Console (sp : Spinner) where
  startup : Goroutine (Option String)
  /-- what the startup goroutine has sent on `errCh` -/
  errCh : Option (Option String)
  signal : SignalHandler
  /-- the reporter's channel -/
  updates : List UpdateMsg
  /-- `waitForUpdate` commands that have received nothing yet -/
  waiting : ℕ
  /-- what other `waitForUpdate` commands have received, on its way to `Update` -/
  held : List UpdateMsg
  model : Model sp
  /-- `Update` has returned `tea.Quit` -/
  quit : Bool
  /-- `program.Run` has returned -/
  returned : Bool
  /-- what `main` has received from `errCh` -/
  exit : Option (Option String)

inductive Action (sp : Spinner)
  /-- the startup goroutine sends its next message to the reporter -/
  | send
  /-- the call outside that the startup goroutine is at returns -/
  | call (err : Option String)
  | sendErr
  | signal
  | signalQuit
  | receive
  | deliver (msg : UpdateMsg)
  | tick (msg : sp.TickMsg)
  | key (string : String)
  | other
  | programReturns
  /-- `program.Run` returns an error, which `main` logs -/
  | programFails
  | takeErr

variable {sp : Spinner}

/-- As `main` leaves it with both goroutines started, and the commands of `Init`. -/
def Console.start (sp : Spinner) : Console sp where
  startup := Main.startup
  errCh := none
  signal := .waiting
  updates := []
  waiting := 1
  held := []
  model := newModel sp
  quit := false
  returned := false
  exit := none

namespace Console

/-- The program takes over the model and runs the command. -/
def after (c : Console sp) (model : Model sp) (cmd : Cmd sp) : Console sp :=
  { c with
    model := model
    waiting := match cmd with
      | .waitForUpdate => c.waiting + 1
      | _ => c.waiting
    quit := match cmd with
      | .quit => true
      | _ => c.quit }

/-- The program, while it runs, gives `Update` a message. -/
def deliver (c : Console sp) (msg : Msg sp) : Option (Console sp) :=
  if c.returned then none else (c.model.update msg).map fun (model,cmd) => c.after model cmd

/-- One step of one of the parties, with the call of the startup goroutine, if it is one; `none`
where it cannot be taken. -/
def step (c : Console sp) : Action sp → Option (Console sp × Transcript)
  | .send =>
    match c.startup with
    | .ask (.update msg) resume =>
      if c.updates.length < Reporter.capacity then
        some ({ c with startup := resume (), updates := c.updates ++ [msg] },[⟨.update msg,()⟩])
      else none
    | _ => none
  | .call err =>
    match c.startup with
    | .ask .startInformer resume => some ({ c with startup := resume err },[⟨.startInformer,err⟩])
    | .ask (.attempt stage) resume =>
      some ({ c with startup := resume err },[⟨.attempt stage,err⟩])
    | _ => none
  | .sendErr =>
    match c.startup with
    | .done err => if c.errCh.isNone then some ({ c with errCh := some err },[]) else none
    | _ => none
  | .signal =>
    match c.signal with
    | .waiting => some ({ c with signal := .stopping },[])
    | _ => none
  | .signalQuit =>
    match c.signal with
    | .stopping =>
      if c.updates.length < Reporter.capacity then
        some ({ c with signal := .ended, updates := c.updates ++ [Reporter.quit] },[])
      else none
    | _ => none
  | .receive =>
    match c.waiting, c.updates with
    | n+1, msg::rest =>
      some ({ c with waiting := n, updates := rest, held := c.held ++ [msg] },[])
    | _, _ => none
  | .deliver msg =>
    if msg ∈ c.held then
      (deliver { c with held := c.held.erase msg } (.update msg)).map fun c => (c,[])
    else none
  | .tick msg => (c.deliver (.tick msg)).map fun c => (c,[])
  | .key string => (c.deliver (.key string)).map fun c => (c,[])
  | .other => (c.deliver .other).map fun c => (c,[])
  | .programReturns =>
    if c.quit ∧ ¬ c.returned then some ({ c with returned := true },[]) else none
  | .programFails => if c.returned then none else some ({ c with returned := true },[])
  | .takeErr =>
    match c.errCh with
    | some err => if c.returned ∧ c.exit.isNone then some ({ c with exit := some err },[]) else none
    | none => none

/-- A run of the daemon, with the transcript of its startup goroutine. -/
def run (c : Console sp) (acts : List (Action sp)) : Option (Console sp × Transcript) :=
  Base.run step c acts

section Inversion

/-- The message of the terminal that an action delivers. -/
def input : Action sp → Option (Msg sp)
  | .tick msg => some (.tick msg)
  | .key string => some (.key string)
  | .other => some .other
  | _ => none

/-- What each action requires, what it makes of the daemon, and the call it is. -/
inductive Takes (c : Console sp) : Action sp → Console sp → Transcript → Prop
  | send (msg : UpdateMsg) (resume : Unit → Goroutine (Option String))
      (hat : c.startup = .ask (.update msg) resume) (hroom : c.updates.length < Reporter.capacity) :
      Takes c .send { c with startup := resume (), updates := c.updates ++ [msg] }
        [⟨.update msg,()⟩]
  | startInformer (err : Option String) (resume : Option String → Goroutine (Option String))
      (hat : c.startup = .ask .startInformer resume) :
      Takes c (.call err) { c with startup := resume err } [⟨.startInformer,err⟩]
  | attempt (stage : Stage) (err : Option String)
      (resume : Option String → Goroutine (Option String))
      (hat : c.startup = .ask (.attempt stage) resume) :
      Takes c (.call err) { c with startup := resume err } [⟨.attempt stage,err⟩]
  | sendErr (err : Option String) (hat : c.startup = .done err) (hnone : c.errCh = none) :
      Takes c .sendErr { c with errCh := some err } []
  | signal (hsignal : c.signal = .waiting) : Takes c .signal { c with signal := .stopping } []
  | signalQuit (hsignal : c.signal = .stopping) (hroom : c.updates.length < Reporter.capacity) :
      Takes c .signalQuit
        { c with signal := .ended, updates := c.updates ++ [Reporter.quit] } []
  | receive (n : ℕ) (msg : UpdateMsg) (rest : List UpdateMsg) (hwaiting : c.waiting = n+1)
      (hupdates : c.updates = msg::rest) :
      Takes c .receive { c with waiting := n, updates := rest, held := c.held ++ [msg] } []
  | deliver (msg : UpdateMsg) (model : Model sp) (cmd : Cmd sp) (hheld : msg ∈ c.held)
      (hrunning : ¬ c.returned) (hupdate : c.model.update (.update msg) = some (model,cmd)) :
      Takes c (.deliver msg) ({ c with held := c.held.erase msg }.after model cmd) []
  | input (a : Action sp) (msg : Msg sp) (model : Model sp) (cmd : Cmd sp)
      (hinput : input a = some msg) (hrunning : ¬ c.returned)
      (hupdate : c.model.update msg = some (model,cmd)) : Takes c a (c.after model cmd) []
  | programReturns (hquit : c.quit) (hrunning : ¬ c.returned) :
      Takes c .programReturns { c with returned := true } []
  | programFails (hrunning : ¬ c.returned) : Takes c .programFails { c with returned := true } []
  | takeErr (err : Option String) (herr : c.errCh = some err) (hreturned : c.returned)
      (hnone : c.exit = none) : Takes c .takeErr { c with exit := some err } []

variable {c c' : Console sp} {a : Action sp} {msg : Msg sp} {t : Transcript}

lemma exists_of_deliver (h : c.deliver msg = some c') : ¬ c.returned ∧
    ∃ model cmd, c.model.update msg = some (model,cmd) ∧ c' = c.after model cmd := by
  rw [Console.deliver] at h
  split_ifs at h with hreturned
  obtain ⟨⟨model,cmd⟩,hupdate,rfl⟩ := Option.map_eq_some_iff.mp h
  exact ⟨hreturned,model,cmd,hupdate,rfl⟩

/-- A step is taken in one of these ways, and no other. -/
theorem takes_of_step (h : c.step a = some (c',t)) : Takes c a c' t := by
  have hinput : ∀ msg, input a = some msg →
      (c.deliver msg).map (fun c => (c,([] : Transcript))) = some (c',t) → Takes c a c' t := by
    intro msg ha hmap
    obtain ⟨c₁,hdeliver,heq⟩ := Option.map_eq_some_iff.mp hmap
    cases heq
    obtain ⟨hrunning,model,cmd,hupdate,rfl⟩ := exists_of_deliver hdeliver
    exact .input a msg model cmd ha hrunning hupdate
  cases a <;> simp only [step] at h
  case send =>
    split at h
    · rename_i msg resume hat
      split_ifs at h with hroom
      cases h
      exact .send msg resume hat hroom
    · cases h
  case call err =>
    split at h
    · rename_i resume hat
      cases h
      exact .startInformer err resume hat
    · rename_i stage resume hat
      cases h
      exact .attempt stage err resume hat
    · cases h
  case sendErr =>
    split at h
    · rename_i err hat
      split_ifs at h with hnone
      cases h
      exact .sendErr err hat (Option.isNone_iff_eq_none.mp hnone)
    · cases h
  case signal =>
    split at h
    · rename_i hsignal
      cases h
      exact .signal hsignal
    · cases h
  case signalQuit =>
    split at h
    · rename_i hsignal
      split_ifs at h with hroom
      cases h
      exact .signalQuit hsignal hroom
    · cases h
  case receive =>
    split at h
    · rename_i n msg rest hwaiting hupdates
      cases h
      exact .receive n msg rest hwaiting hupdates
    · cases h
  case deliver msg =>
    split_ifs at h with hheld
    obtain ⟨c₁,hdeliver,heq⟩ := Option.map_eq_some_iff.mp h
    cases heq
    obtain ⟨hrunning,model,cmd,hupdate,rfl⟩ := exists_of_deliver hdeliver
    exact .deliver msg model cmd hheld hrunning hupdate
  case tick msg => exact hinput (.tick msg) rfl h
  case key string => exact hinput (.key string) rfl h
  case other => exact hinput .other rfl h
  case programReturns =>
    split_ifs at h with hquit
    cases h
    exact .programReturns hquit.1 hquit.2
  case programFails =>
    split_ifs at h with hreturned
    cases h
    exact .programFails hreturned
  case takeErr =>
    split at h
    · rename_i err herr
      split_ifs at h with hmain
      cases h
      exact .takeErr err herr hmain.1 (Option.isNone_iff_eq_none.mp hmain.2)
    · cases h

end Inversion
end Console
end Tracewulf.Main
