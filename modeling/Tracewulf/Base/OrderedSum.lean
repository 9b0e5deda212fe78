import Mathlib.Data.List.Perm.Basic

/-! Sums over sorted listings, for an addition that need not commute or associate. Two listings of
the same things by the same measure can differ only among ties; where what is added depends on the
measure alone, ties add the same and the two sums are built by the same additions. -/
namespace Tracewulf.Base
namespace OrderedSum

variable {α β M : Type*}

/-- Adding from the left, in the order of the list. -/
def total [Zero M] [Add M] (xs : List M) : M := xs.foldl (· + ·) 0

/-- Two listings by non-increasing measure read the same, measure by measure. -/
theorem map_eq_of_perm [LE β] (hanti : ∀ a b : β, a ≤ b → b ≤ a → a = b) {f : α → β}
    {xs ys : List α} (hp : xs.Perm ys) (hx : xs.Pairwise fun a b => f b ≤ f a)
    (hy : ys.Pairwise fun a b => f b ≤ f a) : xs.map f = ys.map f := by
  have hx' : (xs.map f).Pairwise (fun a b => b ≤ a) := List.pairwise_map.mpr hx
  have hy' : (ys.map f).Pairwise (fun a b => b ≤ a) := List.pairwise_map.mpr hy
  exact List.Perm.eq_of_pairwise (fun a b _ _ hab hba => hanti a b hba hab) hx' hy' (hp.map f)

/-- What adds nothing can be left out. -/
lemma foldl_filter [Zero M] [Add M] (hzero : ∀ t : M, t + 0 = t) (p : α → Bool) (g : α → M)
    (xs : List α) (t : M) : (xs.map fun a => if p a then g a else 0).foldl (· + ·) t =
      ((xs.filter p).map g).foldl (· + ·) t := by
  induction xs generalizing t with
  | nil => rfl
  | cons a xs ih =>
    by_cases ha : p a = true
    · simp only [List.map_cons, List.foldl_cons, List.filter_cons, if_pos ha]
      exact ih (t + g a)
    · simp only [List.map_cons, List.foldl_cons, List.filter_cons, if_neg ha, hzero]
      exact ih t

/-- The sum over the chosen things does not depend on how ties are ordered. -/
theorem total_eq_of_perm [Zero M] [Add M] [LE β] (hanti : ∀ a b : β, a ≤ b → b ≤ a → a = b)
    (hzero : ∀ t : M, t + 0 = t) (p : α → Bool) {f : α → β} (price : β → M) {xs ys : List α}
    (hp : xs.Perm ys) (hx : xs.Pairwise fun a b => f b ≤ f a)
    (hy : ys.Pairwise fun a b => f b ≤ f a) :
    total (xs.map fun a => if p a then price (f a) else 0) =
      total (ys.map fun a => if p a then price (f a) else 0) := by
  have hsame : (xs.filter p).map f = (ys.filter p).map f :=
    map_eq_of_perm hanti (hp.filter p) (hx.filter p) (hy.filter p)
  have hread : ∀ zs : List α, (zs.filter p).map (fun a => price (f a)) =
      ((zs.filter p).map f).map price := by
    intro zs
    rw [List.map_map]
    rfl
  unfold total
  rw [foldl_filter hzero, foldl_filter hzero, hread, hread, hsame]

end OrderedSum
end Tracewulf.Base
