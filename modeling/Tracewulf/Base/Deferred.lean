import Tracewulf.Base.Resumption

/-! Functions with deferred calls. A question may open something, by its answer, whose closing is
then deferred; a function that returns, whichever way, closes what was deferred, the last first. The
body of such a function is given what has been deferred before it. -/
namespace Tracewulf.Base
open Resumption

/-- What questions open, and the questions that close it. -/
structure Deferral (Q : Type) (A : Q → Type) (D : Type) where
  opens : (q : Q) × A q → Option D
  close : D → Q

namespace Deferral

variable {Q : Type} {A : Q → Type} {D ρ : Type} (f : Deferral Q A D)

/-- A return: the deferred calls, and then the result. -/
def ret (r : ρ) : List D → Resumption Q A ρ
  | [] => .done r
  | d::ds => .ask (f.close d) fun _ => ret r ds

/-- A question, and what the body does with its answer. -/
def andThen (q : Q) (k : A q → List D → Resumption Q A ρ) (ds : List D) : Resumption Q A ρ :=
  .ask q fun a => k a ((f.opens ⟨q,a⟩).toList ++ ds)

def opened (t : Transcript Q A) : List D := t.filterMap f.opens

/-- What was opened, and what had been deferred before, is closed in the end: each once, the last
opened first, and nothing happens in between or after. -/
structure Closes (ds : List D) (work closings t : Transcript Q A) : Prop where
  parts : t = work ++ closings
  working : ∀ x ∈ work, ∀ d, x.1 ≠ f.close d
  closing : closings.map Sigma.fst = ((f.opened work).reverse ++ ds).map f.close

/-- However the body goes, it closes what it opened. -/
def Sound (b : List D → Resumption Q A ρ) : Prop :=
  ∀ ds, (b ds).Comes fun t _ => ∃ work closings, f.Closes ds work closings t

variable {f} {b : List D → Resumption Q A ρ} {q : Q} {k : A q → List D → Resumption Q A ρ}

lemma comes_ret {P : Transcript Q A → ρ → Prop} {r : ρ} {ds : List D} :
    (∀ t : Transcript Q A, t.map Sigma.fst = ds.map f.close → P t r) → (f.ret r ds).Comes P := by
  induction ds generalizing P with
  | nil => exact fun h => h [] rfl
  | cons d ds ih =>
    intro h a
    refine ih fun t ht => h _ ?_
    rw [List.map_cons, List.map_cons, ht]

theorem sound_ret (r : ρ) : f.Sound (f.ret r) := fun _ =>
  comes_ret fun t ht => ⟨[],t,rfl,List.forall_mem_nil _,ht⟩

theorem sound_andThen (hq : ∀ d, q ≠ f.close d) (hk : ∀ a, f.Sound (k a)) :
    f.Sound (f.andThen q k) := by
  intro ds a
  refine (hk a _).imp ?_
  rintro t - ⟨work,closings,rfl,hworking,hclosing⟩
  refine ⟨⟨q,a⟩::work,closings,rfl,List.forall_mem_cons.mpr ⟨hq,hworking⟩,?_⟩
  have hopened : f.opened (⟨q,a⟩::work) = (f.opens ⟨q,a⟩).toList ++ f.opened work := by
    rw [opened, List.filterMap_cons]
    cases f.opens ⟨q,a⟩ <;> rfl
  have hone : (f.opens ⟨q,a⟩).toList.reverse = (f.opens ⟨q,a⟩).toList := by
    cases f.opens ⟨q,a⟩ <;> rfl
  rw [hclosing, hopened, List.reverse_append, hone, List.append_assoc]

end Deferral
end Tracewulf.Base
