import Mathlib.Data.List.Forall2
import Tracewulf.Base.Run

/-! Interleaved owners. The actions of a run belong to several owners; taking the actions of one
owner alone gives a run of its own. Where another owner's action leaves the relation between the
two runs as it is and an own action keeps it, the owner puts out together what it puts out alone,
as far as the relation says. -/
namespace Tracewulf.Base

variable {σ α ω : Type*} {step : σ → α → σ} {out : σ → α → ω}

/-- The actions of a run, each with what it puts out. -/
def outputs (step : σ → α → σ) (out : σ → α → ω) : σ → List α → List (α × ω)
  | _, [] => []
  | s, a::as => (a,out s a)::outputs step out (step s a) as

/-- `R` relates a state of the run together to one of the run alone, and `Q` what is put out. -/
theorem forall₂_outputs {own : α → Bool} {safe : σ → α → Prop} {R : σ → σ → Prop}
    {Q : ω → ω → Prop} (hother : ∀ s t a, R s t → own a = false → R (step s a) t)
    (hown : ∀ s t a, R s t → own a = true → safe s a →
      R (step s a) (step t a) ∧ Q (out s a) (out t a))
    {s t : σ} (h : R s t) {as : List α} (hsafe : EveryStep step safe s as) :
    List.Forall₂ (fun x y => x.1 = y.1 ∧ Q x.2 y.2)
      ((outputs step out s as).filter fun x => own x.1) (outputs step out t (as.filter own)) := by
  induction as generalizing s t with
  | nil => exact .nil
  | cons a as ih =>
    obtain ⟨hsafe,hrest⟩ := (everyStep_cons s a as).mp hsafe
    cases ha : own a with
    | false =>
      simp only [outputs, List.filter_cons, ha, Bool.false_eq_true, if_false]
      exact ih (hother s t a h ha) hrest
    | true =>
      obtain ⟨hR,hQ⟩ := hown s t a h ha hsafe
      simp only [outputs, List.filter_cons, ha, if_true]
      exact .cons ⟨rfl,hQ⟩ (ih hR hrest)

/-- Where an owner puts out the same, the two are equal. -/
theorem outputs_filter_eq {own : α → Bool} {safe : σ → α → Prop} {R : σ → σ → Prop}
    (hother : ∀ s t a, R s t → own a = false → R (step s a) t)
    (hown : ∀ s t a, R s t → own a = true → safe s a →
      R (step s a) (step t a) ∧ out s a = out t a)
    {s t : σ} (h : R s t) {as : List α} (hsafe : EveryStep step safe s as) :
    ((outputs step out s as).filter fun x => own x.1) = outputs step out t (as.filter own) := by
  have hall := forall₂_outputs hother hown h hsafe
  rw [← List.forall₂_eq_eq_eq]
  exact hall.imp fun _ _ hxy => Prod.ext hxy.1 hxy.2

end Tracewulf.Base
