import Mathlib.Algebra.BigOperators.Group.Finset.Piecewise
import Mathlib.Tactic.Abel
import Tracewulf.Base.FiniteMap

/-! Aggregation by key. A log is folded into a map, each entry that has a key creating or updating
the value there. Seen from one key, the fold is the fold over that key's own entries; a measure
that grows by a fixed amount with each entry adds up over the whole map to the sum of the log. -/
namespace Tracewulf.Base
open scoped BigOperators

namespace KeyedFold

variable {α κ ν M : Type*} [DecidableEq κ]

section Upsert

variable (key : α → Option κ) (touch : Option ν → α → ν)

/-- Create or update the value at the entry's key; an entry without a key changes nothing. -/
def upsert (m : FiniteMap κ ν) (x : α) : FiniteMap κ ν :=
  match key x with
  | some k => m.insert k (touch (m.lookup k) x)
  | none => m

lemma lookup_upsert (m : FiniteMap κ ν) (x : α) (k : κ) : (upsert key touch m x).lookup k =
    if key x = some k then some (touch (m.lookup k) x) else m.lookup k := by
  cases hx : key x with
  | none => simp [upsert, hx]
  | some y =>
    simp only [upsert, hx, FiniteMap.lookup_insert, Option.some.injEq]
    by_cases hk : k = y
    · subst hk; simp
    · rw [if_neg hk, if_neg (Ne.symm hk)]

/-- The entries of the log with a given key. -/
def ofKey (xs : List α) (k : κ) : List α := xs.filter fun x => key x = some k

lemma ofKey_append (xs ys : List α) (k : κ) :
    ofKey key (xs ++ ys) k = ofKey key xs k ++ ofKey key ys k :=
  List.filter_append xs ys

/-- One key's view of the fold is the fold of its own entries. -/
theorem lookup_foldl (xs : List α) (m : FiniteMap κ ν) (k : κ) :
    (xs.foldl (upsert key touch) m).lookup k =
      (ofKey key xs k).foldl (fun o x => some (touch o x)) (m.lookup k) := by
  induction xs generalizing m with
  | nil => rfl
  | cons x xs ih =>
    rw [List.foldl_cons, ih, lookup_upsert]
    by_cases hx : key x = some k <;> simp [ofKey, hx]

/-- The map holds exactly the keys of the log. -/
theorem mem_foldl_empty (xs : List α) (k : κ) :
    k ∈ xs.foldl (upsert key touch) (∅ : FiniteMap κ ν) ↔ ∃ x ∈ xs, key x = some k := by
  rw [← Finmap.lookup_isSome, lookup_foldl]
  induction xs using List.reverseRecOn with
  | nil => simp [ofKey]
  | append_singleton xs x ih =>
    rw [ofKey_append, List.foldl_append]
    by_cases hx : key x = some k
    · simp [ofKey, hx]
    · have htail : ofKey key [x] k = [] := by simp [ofKey, hx]
      rw [htail, List.foldl_nil, ih]
      simp [hx]

end Upsert

section Weight

variable [AddCommMonoid M] (key : α → Option κ) (touch : Option ν → α → ν) (f : ν → M) (g : α → M)

/-- A measure each entry raises by a fixed amount rises by that amount over the whole map. -/
lemma weight_upsert [IsRightCancelAdd M] (m : FiniteMap κ ν) (x : α)
    (h : ∀ o, f (touch o x) = o.elim 0 f + g x) :
    FiniteMap.weight f (upsert key touch m x) =
      FiniteMap.weight f m + (key x).elim 0 fun _ => g x := by
  cases hx : key x with
  | none => simp [upsert, hx]
  | some k =>
    have hw := FiniteMap.weight_insert f m k (touch (m.lookup k) x)
    rw [h, ← FiniteMap.weightAt] at hw
    apply add_right_cancel (b := FiniteMap.weightAt f m k)
    simp only [upsert, hx, Option.elim_some]
    rw [hw]
    abel

/-- Adding up a log key by key, over any set of keys. -/
theorem sum_at (s : Finset κ) (xs : List α) (g : κ → α → M) :
    ∑ k ∈ s, ((ofKey key xs k).map (g k)).sum =
      (xs.map fun x => (key x).elim 0 fun k => if k ∈ s then g k x else 0).sum := by
  induction xs with
  | nil => simp [ofKey]
  | cons x xs ih =>
    rw [List.map_cons, List.sum_cons, ← ih]
    cases hx : key x with
    | none => simp [ofKey, hx]
    | some k =>
      have hsplit : ∀ y ∈ s, ((ofKey key (x::xs) y).map (g y)).sum =
          (if k = y then g y x else 0) + ((ofKey key xs y).map (g y)).sum := by
        intro y _
        by_cases hy : k = y <;> simp [ofKey, hx, hy]
      rw [Finset.sum_congr rfl hsplit, Finset.sum_add_distrib, Finset.sum_ite_eq]
      rfl

end Weight
end KeyedFold
end Tracewulf.Base
