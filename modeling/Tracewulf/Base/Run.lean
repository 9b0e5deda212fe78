import Mathlib.Data.List.Basic

/-! Runs of step functions, and the induction rules that carry an invariant along them. A total
step is folded over its inputs; a partial, observable step may refuse an action and reports what
an observer sees. -/
namespace Tracewulf.Base

section Fold

variable {σ α : Type*} {step : σ → α → σ} {P : σ → Prop} {safe : σ → α → Prop}

/-- The state after every prefix of the inputs satisfies `P`. -/
def AfterEveryPrefix (step : σ → α → σ) (P : σ → Prop) (s : σ) (as : List α) : Prop :=
  ∀ pre, pre <+: as → P (pre.foldl step s)

/-- Every input is safe in the state it arrives in. -/
def EveryStep (step : σ → α → σ) (safe : σ → α → Prop) (s : σ) (as : List α) : Prop :=
  ∀ pre a, pre ++ [a] <+: as → safe (pre.foldl step s) a

lemma afterEveryPrefix_cons (s : σ) (a : α) (as : List α) :
    AfterEveryPrefix step P s (a::as) ↔ P s ∧ AfterEveryPrefix step P (step s a) as := by
  constructor
  · intro h
    refine ⟨h [] List.nil_prefix,fun pre hp => ?_⟩
    exact h (a::pre) (List.cons_prefix_cons.mpr ⟨rfl,hp⟩)
  · rintro ⟨h0,h⟩ pre hp
    cases pre with
    | nil => exact h0
    | cons b pre =>
      obtain ⟨rfl,hq⟩ := List.cons_prefix_cons.mp hp
      exact h pre hq

lemma everyStep_cons (s : σ) (a : α) (as : List α) :
    EveryStep step safe s (a::as) ↔ safe s a ∧ EveryStep step safe (step s a) as := by
  constructor
  · intro h
    refine ⟨h [] a (List.cons_prefix_cons.mpr ⟨rfl,List.nil_prefix⟩),fun pre b hp => ?_⟩
    exact h (a::pre) b (List.cons_prefix_cons.mpr ⟨rfl,hp⟩)
  · rintro ⟨h0,h⟩ pre b hp
    cases pre with
    | nil =>
      obtain ⟨rfl,-⟩ := List.cons_prefix_cons.mp hp
      exact h0
    | cons c pre =>
      obtain ⟨rfl,hq⟩ := List.cons_prefix_cons.mp hp
      exact h pre b hq

/-- Where a step keeps the invariant exactly when it is safe, the invariant holds after every
prefix of a run exactly when every step of the run is safe. -/
theorem afterEveryPrefix_iff (hstep : ∀ s a, P s → (P (step s a) ↔ safe s a)) (s : σ)
    (h0 : P s) (as : List α) :
    AfterEveryPrefix step P s as ↔ EveryStep step safe s as := by
  induction as generalizing s with
  | nil =>
    constructor
    · intro _ pre a hp
      have hlen := hp.length_le
      simp at hlen
    · intro _ pre hp
      rw [List.prefix_nil.mp hp]
      exact h0
  | cons a as ih =>
    rw [afterEveryPrefix_cons,everyStep_cons]
    constructor
    · rintro ⟨-,h⟩
      have ha : P (step s a) := h [] List.nil_prefix
      exact ⟨(hstep s a h0).mp ha,(ih _ ha).mp h⟩
    · rintro ⟨hs,h⟩
      exact ⟨h0,(ih _ ((hstep s a h0).mpr hs)).mpr h⟩

end Fold

section Observed

variable {σ α ω : Type*}

/-- Run a partial step over a list of actions, collecting what each step shows. -/
def run (step : σ → α → Option (σ × List ω)) : σ → List α → Option (σ × List ω)
  | s, [] => some (s,[])
  | s, a::as => do
    let (t,seen) ← step s a
    let (u,later) ← run step t as
    some (u,seen ++ later)

lemma run_cons_eq_some {step : σ → α → Option (σ × List ω)} {s u : σ} {a : α} {as : List α}
    {tr : List ω} (h : run step s (a::as) = some (u,tr)) :
    ∃ t seen later, step s a = some (t,seen) ∧ run step t as = some (u,later) ∧
      tr = seen ++ later := by
  cases hs : step s a with
  | none => simp [run,hs] at h
  | some r =>
    obtain ⟨t,seen⟩ := r
    cases hr : run step t as with
    | none => simp [run,hs,hr] at h
    | some q =>
      obtain ⟨w,later⟩ := q
      simp only [run,hs,hr,Option.bind_eq_bind,Option.bind_some,Option.some.injEq,
        Prod.mk.injEq] at h
      obtain ⟨rfl,rfl⟩ := h
      exact ⟨t,seen,later,rfl,hr,rfl⟩

lemma run_cons_of_eq_some {step : σ → α → Option (σ × List ω)} {s t u : σ} {a : α} {as : List α}
    {seen later : List ω} (h : step s a = some (t,seen)) (hrun : run step t as = some (u,later)) :
    run step s (a::as) = some (u,seen ++ later) := by
  simp [run, h, hrun]

/-- An invariant of the state and of all that has been seen, kept by every enabled step, holds
at the end of every run. -/
theorem run_invariant {step : σ → α → Option (σ × List ω)} {P : List ω → σ → Prop}
    (hstep : ∀ tr s a t seen, P tr s → step s a = some (t,seen) → P (tr ++ seen) t)
    {s u : σ} {as : List α} {tr pre : List ω} (h0 : P pre s)
    (h : run step s as = some (u,tr)) : P (pre ++ tr) u := by
  induction as generalizing s tr pre with
  | nil =>
    simp only [run,Option.some.injEq,Prod.mk.injEq] at h
    obtain ⟨rfl,rfl⟩ := h
    simpa using h0
  | cons a as ih =>
    obtain ⟨t,seen,later,hs,hr,rfl⟩ := run_cons_eq_some h
    rw [← List.append_assoc]
    exact ih (hstep _ _ _ _ _ h0 hs) hr

/-- The same for an invariant of the state alone. -/
theorem run_preserves {step : σ → α → Option (σ × List ω)} {P : σ → Prop}
    (hstep : ∀ s a t seen, P s → step s a = some (t,seen) → P t) {s u : σ} {as : List α}
    {tr : List ω} (h0 : P s) (h : run step s as = some (u,tr)) : P u :=
  @run_invariant σ α ω step (fun _ => P) (fun _ => hstep) s u as tr [] h0 h

/-- A step that shows, beside what it shows, the action that was taken. -/
def logged (step : σ → α → Option (σ × List ω)) (s : σ) (a : α) :
    Option (σ × List (α × List ω)) :=
  (step s a).map fun r => (r.1,[(a,r.2)])

lemma logged_eq_some {step : σ → α → Option (σ × List ω)} {s t : σ} {a : α}
    {j : List (α × List ω)} (h : logged step s a = some (t,j)) :
    ∃ seen, step s a = some (t,seen) ∧ j = [(a,seen)] := by
  obtain ⟨⟨t',seen⟩,hstep,heq⟩ := Option.map_eq_some_iff.mp h
  cases heq
  exact ⟨seen,hstep,rfl⟩

/-- A journal is the run it is kept of, with its actions. -/
lemma run_of_logged {step : σ → α → Option (σ × List ω)} {s u : σ} {as : List α}
    {j : List (α × List ω)} (h : run (logged step) s as = some (u,j)) :
    run step s as = some (u,j.flatMap Prod.snd) := by
  induction as generalizing s j with
  | nil =>
    simp only [run, Option.some.injEq, Prod.mk.injEq] at h
    obtain ⟨rfl,rfl⟩ := h
    rfl
  | cons a as ih =>
    obtain ⟨t,one,later,hlog,hrun,rfl⟩ := run_cons_eq_some h
    obtain ⟨seen,hstep,rfl⟩ := logged_eq_some hlog
    exact run_cons_of_eq_some hstep (ih hrun)

/-- Every entry of a journal is a step taken where the entries before it lead. -/
lemma step_of_logged {step : σ → α → Option (σ × List ω)} {s u : σ} {as : List α} {a : α}
    {seen : List ω} {before after : List (α × List ω)}
    (h : run (logged step) s as = some (u,before ++ (a,seen)::after)) :
    ∃ as₁ t t', run (logged step) s as₁ = some (t,before) ∧ step t a = some (t',seen) := by
  induction before generalizing s as with
  | nil =>
    cases as with
    | nil => simp [run] at h
    | cons b as =>
      obtain ⟨t,one,later,hlog,hrun,heq⟩ := run_cons_eq_some h
      obtain ⟨shown,hstep,rfl⟩ := logged_eq_some hlog
      cases heq
      exact ⟨[],s,t,rfl,hstep⟩
  | cons x before ih =>
    cases as with
    | nil => simp [run] at h
    | cons b as =>
      obtain ⟨t,one,later,hlog,hrun,heq⟩ := run_cons_eq_some h
      obtain ⟨shown,hstep,rfl⟩ := logged_eq_some hlog
      obtain ⟨rfl,rfl⟩ := List.cons.inj heq
      obtain ⟨as₁,v,v',hbefore,hentry⟩ := ih hrun
      exact ⟨b::as₁,v,v',run_cons_of_eq_some hlog hbefore,hentry⟩

end Observed
end Tracewulf.Base
