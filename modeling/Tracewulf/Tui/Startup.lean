import Mathlib.Data.List.Basic

/-! The startup screen: a model that messages update one after another. The reporter's messages
come through a channel, one `waitForUpdate` command for each; ticks and key presses come from the
terminal. The spinner is a component of its own, with its own messages and commands. -/
namespace Tracewulf.Tui

inductive StepStatus
  | pending
  | active
  | done
  | failed
  deriving DecidableEq, Repr

/-- `stepUpdateMsg`, `readyMsg` and `quitMsg`: what goes through the reporter's channel. -/
inductive UpdateMsg
  | stepUpdate (index : ℕ) (status : StepStatus) (detail : String)
  | ready (dashboardURL : String)
  | quit
  deriving DecidableEq, Repr

/-! The reporter's methods, each by the message it sends. -/

namespace Reporter

/-- The room in its channel. -/
def capacity : ℕ := 16

def start (i : ℕ) : UpdateMsg := .stepUpdate i .active ""
def done (i : ℕ) (detail : String) : UpdateMsg := .stepUpdate i .done detail
def fail (i : ℕ) (err : String) : UpdateMsg := .stepUpdate i .failed err
def ready (dashboardURL : String) : UpdateMsg := .ready dashboardURL
def quit : UpdateMsg := .quit

end Reporter

def steps : List String :=
  ["Connecting to Kubernetes API and syncing informers",
   "Loading eBPF programs and attaching kernel probes",
   "Restoring history and starting dashboard"]

/-- The spinner component. -/
structure Spinner where
  Model : Type
  TickMsg : Type
  Cmd : Type
  new : Model
  update : Model → TickMsg → Model × Cmd

variable (sp : Spinner)

/-- What `Update` may be given; a key press is known by its `String()`. -/
inductive Msg
  | tick (msg : sp.TickMsg)
  | update (msg : UpdateMsg)
  | key (string : String)
  | other

/-- What `Update` may return beside the model. -/
inductive Cmd
  | nil
  | spinner (cmd : sp.Cmd)
  | waitForUpdate
  | quit

structure Model where
  stepStatus : List StepStatus
  stepDetail : List String
  spin : sp.Model
  ready : Bool
  dashboardURL : String
  failed : Bool
  quitting : Bool

def newModel : Model sp where
  stepStatus := List.replicate steps.length .pending
  stepDetail := List.replicate steps.length ""
  spin := sp.new
  ready := false
  dashboardURL := ""
  failed := false
  quitting := false

variable {sp}

namespace Model

/-- `Update`; `none` where an index is out of range, which is a panic. -/
def update (m : Model sp) : Msg sp → Option (Model sp × Cmd sp)
  | .tick msg =>
    let (spin,cmd) := sp.update m.spin msg
    some ({ m with spin := spin },.spinner cmd)
  | .update (.stepUpdate index status detail) =>
    if index < m.stepStatus.length ∧ (detail ≠ "" → index < m.stepDetail.length) then
      some ({ m with
        stepStatus := m.stepStatus.set index status
        stepDetail := if detail ≠ "" then m.stepDetail.set index detail else m.stepDetail
        failed := if status = .failed then true else m.failed },.waitForUpdate)
    else none
  | .update (.ready dashboardURL) =>
    some ({ m with ready := true, dashboardURL := dashboardURL },.waitForUpdate)
  | .update .quit => some ({ m with quitting := true },.quit)
  | .key string =>
    if m.ready ∧ (string = "q" ∨ string = "ctrl+c" ∨ string = "enter") then
      some ({ m with quitting := true },.quit)
    else if m.failed ∧ string = "ctrl+c" then some (m,.quit)
    else some (m,.nil)
  | .other => some (m,.nil)

end Model

section Update

/-- What `Update` may do with a message. -/
inductive Updates (m : Model sp) : Msg sp → Model sp → Cmd sp → Prop
  | tick (msg : sp.TickMsg) : Updates m (.tick msg)
      { m with spin := (sp.update m.spin msg).1 } (.spinner (sp.update m.spin msg).2)
  | stepUpdate (index : ℕ) (status : StepStatus) (detail : String)
      (hstatus : index < m.stepStatus.length)
      (hdetail : detail ≠ "" → index < m.stepDetail.length) :
      Updates m (.update (.stepUpdate index status detail))
      { m with
        stepStatus := m.stepStatus.set index status
        stepDetail := if detail ≠ "" then m.stepDetail.set index detail else m.stepDetail
        failed := if status = .failed then true else m.failed } .waitForUpdate
  | ready (dashboardURL : String) : Updates m (.update (.ready dashboardURL))
      { m with ready := true, dashboardURL := dashboardURL } .waitForUpdate
  | quit : Updates m (.update .quit) { m with quitting := true } .quit
  | key (string : String) (quitting : Bool) (cmd : Cmd sp) (hcmd : cmd = .quit ∨ cmd = .nil) :
      Updates m (.key string) { m with quitting := quitting } cmd
  | other : Updates m .other m .nil

variable {m m' : Model sp} {msg : Msg sp} {cmd : Cmd sp}

theorem updates_of_update (h : m.update msg = some (m',cmd)) : Updates m msg m' cmd := by
  cases msg with
  | tick msg =>
    cases h
    exact .tick msg
  | update msg =>
    cases msg with
    | stepUpdate index status detail =>
      by_cases hin : index < m.stepStatus.length ∧ (detail ≠ "" → index < m.stepDetail.length)
      · rw [Model.update, if_pos hin] at h
        cases h
        exact .stepUpdate index status detail hin.1 hin.2
      · rw [Model.update, if_neg hin] at h
        cases h
    | ready dashboardURL =>
      cases h
      exact .ready dashboardURL
    | quit =>
      cases h
      exact .quit
  | key string =>
    rw [Model.update] at h
    split_ifs at h with hready hfailed
    · cases h
      exact .key string true .quit (.inl rfl)
    · cases h
      exact .key string m.quitting .quit (.inl rfl)
    · cases h
      exact .key string m.quitting .nil (.inr rfl)
  | other =>
    cases h
    exact .other

/-- After an update the program waits for the next one, unless it is to quit. -/
lemma cmd_of_update {u : UpdateMsg} (h : m.update (.update u) = some (m',cmd)) :
    cmd = .waitForUpdate ∨ cmd = .quit := by
  cases updates_of_update h with
  | stepUpdate index status detail _ _ => exact .inl rfl
  | ready dashboardURL => exact .inl rfl
  | quit => exact .inr rfl

/-- The message names one of the steps, if it names any. -/
def UpdateMsg.InRange : UpdateMsg → Prop
  | stepUpdate index _ _ => index < steps.length
  | ready _ | quit => True

instance : DecidablePred UpdateMsg.InRange
  | .stepUpdate index _ _ => inferInstanceAs (Decidable (index < steps.length))
  | .ready _ | .quit => inferInstanceAs (Decidable True)

def Msg.InRange : Msg sp → Prop
  | update msg => msg.InRange
  | tick _ | key _ | other => True

/-- The screen has a line for every step. -/
structure Model.Whole (m : Model sp) : Prop where
  stepStatus : m.stepStatus.length = steps.length
  stepDetail : m.stepDetail.length = steps.length

lemma newModel_whole : (newModel sp).Whole := ⟨List.length_replicate,List.length_replicate⟩

lemma Model.Whole.update (hm : m.Whole) (h : m.update msg = some (m',cmd)) : m'.Whole := by
  obtain ⟨hstatus,hdetail⟩ := hm
  cases updates_of_update h with
  | stepUpdate index status detail _ _ =>
    refine ⟨by rw [List.length_set, hstatus],?_⟩
    dsimp only
    split_ifs
    · rw [List.length_set, hdetail]
    · exact hdetail
  | _ => exact ⟨hstatus,hdetail⟩

/-- A message in range does not panic. -/
lemma Model.Whole.update_isSome (hm : m.Whole) (h : msg.InRange) : (m.update msg).isSome := by
  cases msg with
  | update msg =>
    cases msg with
    | stepUpdate index status detail =>
      have hin : index < m.stepStatus.length ∧ (detail ≠ "" → index < m.stepDetail.length) :=
        ⟨hm.stepStatus ▸ h,fun _ => hm.stepDetail ▸ h⟩
      rw [Model.update, if_pos hin]
      rfl
    | ready dashboardURL => rfl
    | quit => rfl
  | key string =>
    rw [Model.update]
    split_ifs <;> rfl
  | tick msg => rfl
  | other => rfl

/-- The screen has been told of a dashboard or of a failure. -/
def Model.Told (m : Model sp) : Prop := m.ready ∨ m.failed

/-- The message tells the screen of a dashboard or of a failure. -/
def UpdateMsg.Tells : UpdateMsg → Prop
  | stepUpdate _ status _ => status = .failed
  | ready _ => True
  | quit => False

instance : DecidablePred UpdateMsg.Tells
  | .stepUpdate _ status _ => inferInstanceAs (Decidable (status = .failed))
  | .ready _ => inferInstanceAs (Decidable True)
  | .quit => inferInstanceAs (Decidable False)

def Msg.Tells : Msg sp → Prop
  | update msg => msg.Tells
  | tick _ | key _ | other => False

/-- The screen has been told what its messages tell. -/
lemma Model.told_update (h : m.update msg = some (m',cmd)) : m'.Told ↔ m.Told ∨ msg.Tells := by
  cases updates_of_update h with
  | stepUpdate index status detail _ _ =>
    by_cases hs : status = .failed <;> simp [Told, Msg.Tells, UpdateMsg.Tells, hs]
  | ready dashboardURL => simp [Told, Msg.Tells, UpdateMsg.Tells]
  | quit => simp [Told, Msg.Tells, UpdateMsg.Tells]
  | _ => simp [Told, Msg.Tells]

/-- Ctrl+c quits exactly when the screen has been told. -/
theorem Model.ctrlC_quits_iff (m : Model sp) :
    (∃ m', m.update (.key "ctrl+c") = some (m',.quit)) ↔ m.Told := by
  by_cases hr : m.ready = true <;> by_cases hf : m.failed = true <;>
    simp [Model.update, Told, hr, hf]

end Update
end Tracewulf.Tui
