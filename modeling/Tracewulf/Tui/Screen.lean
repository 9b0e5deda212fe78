import Mathlib.Data.List.Induction
import Tracewulf.Tui.Startup

/-! What the startup screen says of the steps, apart from its spinner. It is made of the reporter's
messages, in the order in which they arrive. -/
namespace Tracewulf.Tui

structure Screen where
  stepStatus : List StepStatus
  stepDetail : List String
  ready : Bool
  dashboardURL : String
  failed : Bool
  deriving DecidableEq, Repr

namespace Screen

/-- No step has begun. -/
def blank : Screen where
  stepStatus := List.replicate steps.length .pending
  stepDetail := List.replicate steps.length ""
  ready := false
  dashboardURL := ""
  failed := false

def update (s : Screen) : UpdateMsg → Screen
  | .stepUpdate index status detail =>
    { s with
      stepStatus := s.stepStatus.set index status
      stepDetail := if detail ≠ "" then s.stepDetail.set index detail else s.stepDetail
      failed := if status = .failed then true else s.failed }
  | .ready dashboardURL => { s with ready := true, dashboardURL := dashboardURL }
  | .quit => s

/-- The screen that these messages make. -/
def after (msgs : List UpdateMsg) : Screen := msgs.foldl update blank

/-- A step begins when those before it are done, and the dashboard is shown when all are. -/
def Orderly (s : Screen) : Prop :=
  s.stepStatus.Pairwise (fun before after => before = .done ∨ after = .pending) ∧
    (s.ready → ∀ status ∈ s.stepStatus, status = .done)

instance : DecidablePred Orderly := fun _ => instDecidableAnd

variable {msgs : List UpdateMsg} {msg : UpdateMsg} {i : ℕ} {status : StepStatus}

lemma after_append_singleton (msgs : List UpdateMsg) (msg : UpdateMsg) :
    after (msgs ++ [msg]) = (after msgs).update msg := by
  simp only [after, List.foldl_append, List.foldl_cons, List.foldl_nil]

/-- The signal's message changes nothing of it. -/
lemma after_filter (msgs : List UpdateMsg) :
    after (msgs.filter fun msg => msg ≠ .quit) = after msgs := by
  induction msgs using List.reverseRecOn with
  | nil => rfl
  | append_singleton msgs msg ih =>
    rw [List.filter_append, after_append_singleton, ← ih]
    by_cases hquit : msg = .quit
    · subst hquit
      rw [List.filter_singleton]
      simp [update]
    · rw [List.filter_singleton]
      simp [hquit, after_append_singleton]

/-- A step that is not pending has what the last message about it said. -/
lemma exists_of_stepStatus (h : (after msgs).stepStatus[i]? = some status)
    (hbegun : status ≠ .pending) : ∃ detail, .stepUpdate i status detail ∈ msgs := by
  induction msgs using List.reverseRecOn with
  | nil =>
    have hpending := List.mem_of_getElem? h
    exact absurd (List.eq_of_mem_replicate hpending) hbegun
  | append_singleton msgs msg ih =>
    rw [after_append_singleton] at h
    have hbefore : (after msgs).stepStatus[i]? = some status →
        ∃ detail, .stepUpdate i status detail ∈ msgs ++ [msg] := fun h =>
      (ih h).imp fun detail hmem => List.mem_append_left _ hmem
    cases msg with
    | stepUpdate index status' detail =>
      by_cases hindex : index = i
      · subst hindex
        rw [update, List.getElem?_set_self'] at h
        obtain ⟨-,-,rfl⟩ := Option.map_eq_some_iff.mp h
        exact ⟨detail,List.mem_append_right _ List.mem_cons_self⟩
      · rw [update, List.getElem?_set_ne hindex] at h
        exact hbefore h
    | ready dashboardURL => exact hbefore h
    | quit => exact hbefore h

end Screen

variable {sp : Spinner} {m m' : Model sp} {cmd : Cmd sp}

def Model.screen (m : Model sp) : Screen where
  stepStatus := m.stepStatus
  stepDetail := m.stepDetail
  ready := m.ready
  dashboardURL := m.dashboardURL
  failed := m.failed

lemma screen_update {msg : UpdateMsg} (h : m.update (.update msg) = some (m',cmd)) :
    m'.screen = m.screen.update msg := by
  cases updates_of_update h <;> rfl

/-- What the terminal says leaves the screen alone. -/
lemma screen_input {msg : Msg sp} (h : m.update msg = some (m',cmd))
    (hmsg : ∀ u, msg ≠ .update u) : m'.screen = m.screen := by
  cases updates_of_update h with
  | tick msg => rfl
  | key string quitting cmd _ => rfl
  | other => rfl
  | stepUpdate index status detail _ _ => exact absurd rfl (hmsg _)
  | ready dashboardURL => exact absurd rfl (hmsg _)
  | quit => exact absurd rfl (hmsg _)

end Tracewulf.Tui
