import Tracewulf.Base.Resumption
import Tracewulf.Tui.Startup

/-! The startup goroutine of the interactive daemon: the informers are started, then the eBPF
programs, and the reporter is told of each step on the way. Every call that may fail is a question,
answered by its error if it has one; so is every message to the reporter, which has no answer. -/
namespace Tracewulf.Main
open Tracewulf.Base Tracewulf.Tui

/-- The calls of `ebpf.Start` that may fail, in the order they are made. -/
inductive Stage
  | removeMemlock
  | loadTracerObjects
  | tracepoint (group name : String)
  | kprobe (symbol : String)
  | kretprobe (symbol : String)
  | newReader
  | newHistoryStore
  | readEvents
  deriving DecidableEq, Repr

inductive Call
  | startInformer
  | attempt (stage : Stage)
  | update (msg : UpdateMsg)
  deriving DecidableEq, Repr

abbrev Call.Answer : Call → Type
  | startInformer | attempt _ => Option String
  | update _ => Unit

instance : ∀ call : Call, Inhabited call.Answer
  | .startInformer | .attempt _ => ⟨none⟩
  | .update _ => ⟨()⟩

abbrev Goroutine := Resumption Call Call.Answer

abbrev Transcript := Resumption.Transcript Call Call.Answer

def startInformer : Goroutine (Option String) := .ask .startInformer .done
def attempt (stage : Stage) : Goroutine (Option String) := .ask (.attempt stage) .done
def update (msg : UpdateMsg) : Goroutine Unit := .ask (.update msg) .done

/-- `if err := ...; err != nil { return err }` -/
def check (stage : Stage) (rest : Goroutine (Option String)) : Goroutine (Option String) := do
  match ← attempt stage with
  | some err => return some err
  | none => rest

/-- `ebpf.Start`; the reader, once it is open, is read from until it is closed. -/
def ebpfStart (report : Option (String → Goroutine Unit)) : Goroutine (Option String) :=
  check .removeMemlock <|
  check .loadTracerObjects <|
  check (.tracepoint "syscalls" "sys_enter_execve") <|
  check (.kprobe "tcp_v4_connect") <|
  check (.kretprobe "tcp_v4_connect") <|
  check (.kprobe "tcp_sendmsg") <|
  check (.kprobe "tcp_recvmsg") <|
  check (.kretprobe "tcp_recvmsg") <|
  check .newReader do
    report.elim (pure ()) fun report => report "ebpf"
    check .newHistoryStore do
      report.elim (pure ()) fun report => report "dashboard"
      attempt .readEvents

/-- The `report` of `main`. -/
def report : String → Goroutine Unit
  | "ebpf" => do
    update (Reporter.done 1 "4 probes attached")
    update (Reporter.start 2)
  | "dashboard" => do
    update (Reporter.done 2 "")
    update (Reporter.ready "http://localhost:9090")
  | _ => pure ()

/-- The goroutine, down to the value that it sends on `errCh` and ends with. -/
def startup : Goroutine (Option String) := do
  update (Reporter.start 0)
  match ← startInformer with
  | some err =>
    update (Reporter.fail 0 err)
    return some err
  | none =>
    update (Reporter.done 0 "synced")
    update (Reporter.start 1)
    ebpfStart (some report)

section Transcripts

/-- The messages of a transcript. -/
def sent (t : Transcript) : List UpdateMsg := t.filterMap fun x =>
  match x.1 with
  | .update msg => some msg
  | _ => none

/-- The calls of a transcript that failed. -/
def failures (t : Transcript) : List Call := t.filterMap fun x =>
  match x with
  | ⟨.startInformer,some _⟩ => some .startInformer
  | ⟨.attempt stage,some _⟩ => some (.attempt stage)
  | _ => none

/-- A call whose failure the screen is told of, or that fails only after it was told of the
dashboard. -/
def Call.Shown : Call → Prop
  | startInformer => True
  | attempt stage => stage = .readEvents
  | update _ => False

instance : DecidablePred Call.Shown
  | .startInformer => inferInstanceAs (Decidable True)
  | .attempt stage => inferInstanceAs (Decidable (stage = .readEvents))
  | .update _ => inferInstanceAs (Decidable False)

/-- What the goroutine has told the reporter, and what failed, when it ends with `r`. -/
structure Accounted (msgs : List UpdateMsg) (failed : List Call) (r : Option String) : Prop where
  inRange : ∀ msg ∈ msgs, msg.InRange
  few : msgs.length ≤ 7
  told : r.isSome → ((∃ msg ∈ msgs, msg.Tells) ↔ ∃ call ∈ failed, call.Shown)

end Transcripts

section Accounts

/-- Whatever the goroutine has sent and what has failed when it comes to `r` satisfies `Q`. -/
def Accounts {ρ : Type} (p : Goroutine ρ) (Q : List UpdateMsg → List Call → ρ → Prop) : Prop :=
  p.Comes fun t r => Q (sent t) (failures t) r

variable {Q : List UpdateMsg → List Call → Option String → Prop} {stage : Stage} {msg : UpdateMsg}
  {rest : Goroutine (Option String)}

lemma accounts_update {f : Unit → Goroutine (Option String)} :
    Accounts (update msg >>= f) Q ↔ Accounts (f ()) fun msgs => Q (msg::msgs) := by
  rw [Accounts, Resumption.comes_bind]
  exact ⟨fun h => h (),fun h _ => h⟩

lemma accounts_startInformer {f : Option String → Goroutine (Option String)} :
    Accounts (startInformer >>= f) Q ↔ Accounts (f none) Q ∧
      ∀ err, Accounts (f (some err)) fun msgs failed => Q msgs (.startInformer::failed) := by
  rw [Accounts, Resumption.comes_bind]
  exact Option.forall

lemma accounts_attempt : Accounts (attempt stage) Q ↔
    Q [] [] none ∧ ∀ err, Q [] [.attempt stage] (some err) := Option.forall

lemma accounts_check : Accounts (check stage rest) Q ↔
    (∀ err, Q [] [.attempt stage] (some err)) ∧ Accounts rest Q := by
  rw [check, Accounts, Resumption.comes_bind, and_comm]
  exact Option.forall

lemma accounts_report_ebpf {f : Unit → Goroutine (Option String)} :
    Accounts (report "ebpf" >>= f) Q ↔
      Accounts (f ()) fun msgs => Q (Reporter.done 1 "4 probes attached"::Reporter.start 2::msgs) :=
  ⟨fun h => h () (),fun h _ _ => h⟩

lemma accounts_report_dashboard {f : Unit → Goroutine (Option String)} :
    Accounts (report "dashboard" >>= f) Q ↔ Accounts (f ()) fun msgs =>
      Q (Reporter.done 2 ""::Reporter.ready "http://localhost:9090"::msgs) :=
  ⟨fun h => h () (),fun h _ _ => h⟩

/-- However the startup goes and wherever it ends: it has sent few messages, all in range, and if
it ends with an error, one of them tells exactly if the call that failed is one that is shown. -/
theorem startup_accounted : Accounts startup Accounted := by
  rw [startup, accounts_update, accounts_startInformer]
  constructor
  · dsimp only
    simp only [accounts_update, ebpfStart, accounts_check, Option.elim_some,
      accounts_report_ebpf, accounts_report_dashboard, accounts_attempt]
    have hearly : ∀ stage : Stage, stage ≠ .readEvents → ∀ err : String,
        Accounted [Reporter.start 0,Reporter.done 0 "synced",Reporter.start 1] [.attempt stage]
          (some err) := by
      intro stage hstage err
      refine ⟨by decide,by decide,fun _ => ?_⟩
      simp [Reporter.start, Reporter.done, UpdateMsg.Tells, Call.Shown, hstage]
    refine ⟨hearly _ (by decide),hearly _ (by decide),hearly _ (by decide),hearly _ (by decide),
      hearly _ (by decide),hearly _ (by decide),hearly _ (by decide),hearly _ (by decide),
      hearly _ (by decide),?store,?closed,?read⟩
    case store => exact fun err => ⟨by decide,by decide,fun _ => by decide⟩
    case closed => exact ⟨by decide,by decide,fun hfailed => absurd hfailed (by decide)⟩
    case read => exact fun err => ⟨by decide,by decide,fun _ => by decide⟩
  · intro err
    dsimp only
    rw [accounts_update]
    refine ⟨?_,by simp [sent],fun _ => ?_⟩
    · simp [sent, Reporter.start, Reporter.fail, UpdateMsg.InRange, steps]
    · simp [Reporter.fail, UpdateMsg.Tells, Call.Shown]

end Accounts
end Tracewulf.Main
