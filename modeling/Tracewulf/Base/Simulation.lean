import Tracewulf.Base.Run

/-! One machine carried out by another. A step of the first is matched by any number of steps of
the second, none included, that show what is kept of what the first one showed. Runs are then
matched by runs, and what holds after every run of the second can be said of the first. -/
namespace Tracewulf.Base

section Append

variable {σ α ω : Type*} {step : σ → α → Option (σ × List ω)} {s t u : σ} {as bs : List α}
  {seen later : List ω}

/-- Runs one after the other are a run. -/
theorem run_append (h : run step s as = some (t,seen)) (h' : run step t bs = some (u,later)) :
    run step s (as ++ bs) = some (u,seen ++ later) := by
  induction as generalizing s seen with
  | nil =>
    simp only [run, Option.some.injEq, Prod.mk.injEq] at h
    obtain ⟨rfl,rfl⟩ := h
    exact h'
  | cons a as ih =>
    obtain ⟨v,one,rest,hstep,hrun,rfl⟩ := run_cons_eq_some h
    rw [List.append_assoc]
    exact run_cons_of_eq_some hstep (ih hrun)

/-- A run can be cut anywhere. -/
theorem run_append_eq_some {tr : List ω} (h : run step s (as ++ bs) = some (u,tr)) :
    ∃ t seen later, run step s as = some (t,seen) ∧ run step t bs = some (u,later) ∧
      tr = seen ++ later := by
  induction as generalizing s tr with
  | nil => exact ⟨s,[],tr,rfl,h,rfl⟩
  | cons a as ih =>
    obtain ⟨v,one,rest,hstep,hrun,rfl⟩ := run_cons_eq_some h
    obtain ⟨t,seen,later,has,hbs,rfl⟩ := ih hrun
    exact ⟨t,one ++ seen,later,run_cons_of_eq_some hstep has,hbs,(List.append_assoc ..).symm⟩

lemma run_singleton {a : α} (h : step s a = some (t,seen)) : run step s [a] = some (t,seen) := by
  have hnil : run step t [] = some (t,[]) := rfl
  have hone := run_cons_of_eq_some h hnil
  rwa [List.append_nil] at hone

/-- Whatever is shown in a run is shown by one of its steps, where the steps before have led. -/
theorem exists_step_of_run {x : ω} {pre post : List ω}
    (h : run step s as = some (u,pre ++ x::post)) : ∃ as₁ a t t' before one after,
      run step s as₁ = some (t,before) ∧ step t a = some (t',one ++ x::after) ∧
        pre = before ++ one := by
  induction as generalizing s pre with
  | nil =>
    simp only [run, Option.some.injEq, Prod.mk.injEq] at h
    exact absurd h.2.symm (by simp)
  | cons a as ih =>
    obtain ⟨v,seen,later,hstep,hrun,heq⟩ := run_cons_eq_some h
    -- either the first step shows it, or what the first step shows lies before it
    rcases List.append_eq_append_iff.mp heq with ⟨one,hseen,hlater⟩ | ⟨rest,hpre,hrest⟩
    · cases one with
      | nil =>
        rw [List.append_nil] at hseen
        rw [List.nil_append] at hlater
        subst hseen
        have hrun' : run step v as = some (u,[] ++ x::post) := hlater ▸ hrun
        obtain ⟨as₁,b,t,t',before,one,after,hbefore,hb,hnil⟩ := ih hrun'
        obtain ⟨rfl,rfl⟩ := List.append_eq_nil_iff.mp hnil.symm
        refine ⟨a::as₁,b,t,t',seen,[],after,?_,hb,(List.append_nil _).symm⟩
        have hboth := run_cons_of_eq_some hstep hbefore
        rwa [List.append_nil] at hboth
      | cons y after =>
        obtain ⟨rfl,-⟩ := List.cons.inj hlater
        exact ⟨[],a,s,v,[],pre,after,rfl,hseen ▸ hstep,rfl⟩
    · obtain ⟨as₁,b,t,t',before,one,after,hbefore,hb,rfl⟩ := ih (hrest ▸ hrun)
      refine ⟨a::as₁,b,t,t',seen ++ before,one,after,run_cons_of_eq_some hstep hbefore,hb,?_⟩
      rw [hpre, List.append_assoc]

end Append

section Simulates

variable {σ τ α β ω υ : Type*} {step₁ : σ → α → Option (σ × List ω)}
  {step₂ : τ → β → Option (τ × List υ)} {R : σ → τ → Prop} {view : ω → Option υ}

/-- From related states, what the first machine does in a step the second does in a run that ends
in related states again and shows what `view` keeps. -/
def Simulates (step₁ : σ → α → Option (σ × List ω)) (step₂ : τ → β → Option (τ × List υ))
    (R : σ → τ → Prop) (view : ω → Option υ) : Prop :=
  ∀ s t a s' seen, R s t → step₁ s a = some (s',seen) →
    ∃ bs t', run step₂ t bs = some (t',seen.filterMap view) ∧ R s' t'

/-- A run of the first machine is a run of the second. -/
theorem Simulates.run (h : Simulates step₁ step₂ R view) {s s' : σ} {t : τ} {as : List α}
    {tr : List ω} (hR : R s t) (hrun : Base.run step₁ s as = some (s',tr)) :
    ∃ bs t', Base.run step₂ t bs = some (t',tr.filterMap view) ∧ R s' t' := by
  induction as generalizing s t tr with
  | nil =>
    simp only [Base.run, Option.some.injEq, Prod.mk.injEq] at hrun
    obtain ⟨rfl,rfl⟩ := hrun
    exact ⟨[],t,rfl,hR⟩
  | cons a as ih =>
    obtain ⟨v,seen,later,hstep,hrest,rfl⟩ := run_cons_eq_some hrun
    obtain ⟨bs,t₁,hbs,hR₁⟩ := h s t a v seen hR hstep
    obtain ⟨cs,t₂,hcs,hR₂⟩ := ih hR₁ hrest
    rw [List.filterMap_append]
    exact ⟨bs ++ cs,t₂,run_append hbs hcs,hR₂⟩

end Simulates
end Tracewulf.Base
