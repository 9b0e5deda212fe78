import Mathlib.Algebra.BigOperators.Group.Finset.Basic
import Mathlib.Data.Finmap
import Mathlib.Tactic.Abel

/-! Finite maps with a weight: the sum of a measure over the values held. Updating one key
moves the total by the difference of the two values at that key and by nothing else. -/
namespace Tracewulf.Base
open scoped BigOperators

/-- A map from keys to values of one type, with extensional equality and no iteration order. -/
abbrev FiniteMap (κ ν : Type*) := Finmap fun _ : κ => ν

namespace FiniteMap

variable {κ ν M : Type*} [DecidableEq κ] [AddCommMonoid M]

@[simp] theorem keys_insert (m : FiniteMap κ ν) (k : κ) (v : ν) :
    (m.insert k v).keys = Insert.insert k m.keys := by
  ext x
  simp [Finmap.mem_keys, Finmap.mem_insert]

/-- Lookup after an insertion, at the inserted key and elsewhere. -/
theorem lookup_insert (m : FiniteMap κ ν) (k x : κ) (v : ν) :
    (m.insert k v).lookup x = if x = k then some v else m.lookup x := by
  split_ifs with h
  · subst h; exact Finmap.lookup_insert m
  · exact Finmap.lookup_insert_of_ne m h

/-- The measure of the value at a key, zero where there is none. -/
def weightAt (f : ν → M) (m : FiniteMap κ ν) (k : κ) : M := (m.lookup k).elim 0 f

/-- The total of `f` over the values of the map. -/
def weight (f : ν → M) (m : FiniteMap κ ν) : M := ∑ k ∈ m.keys, weightAt f m k

@[simp] theorem weight_empty (f : ν → M) : weight f (∅ : FiniteMap κ ν) = 0 := by
  simp [weight]

lemma weightAt_eq_zero (f : ν → M) {m : FiniteMap κ ν} {k : κ} (h : k ∉ m) :
    weightAt f m k = 0 := by
  simp [weightAt, Finmap.lookup_eq_none.mpr h]

lemma weightAt_insert (f : ν → M) (m : FiniteMap κ ν) (k x : κ) (v : ν) :
    weightAt f (m.insert k v) x = if x = k then f v else weightAt f m x := by
  unfold weightAt
  rw [lookup_insert]
  split_ifs <;> rfl

/-- The total apart from one key is the same before and after that key is written. -/
lemma weight_eq_weightAt_add (f : ν → M) (m : FiniteMap κ ν) (k : κ) :
    weight f m = weightAt f m k + ∑ x ∈ m.keys.erase k, weightAt f m x := by
  by_cases h : k ∈ m.keys
  · exact (Finset.add_sum_erase m.keys _ h).symm
  · rw [weightAt_eq_zero f (mt Finmap.mem_keys.mpr h), zero_add, Finset.erase_eq_of_notMem h]
    rfl

/-- Writing one key replaces its contribution and leaves the rest of the total alone. -/
theorem weight_insert (f : ν → M) (m : FiniteMap κ ν) (k : κ) (v : ν) :
    weight f (m.insert k v) + weightAt f m k = weight f m + f v := by
  have hrest : ∑ x ∈ (m.insert k v).keys.erase k, weightAt f (m.insert k v) x =
      ∑ x ∈ m.keys.erase k, weightAt f m x := by
    rw [keys_insert, Finset.erase_insert_eq_erase]
    apply Finset.sum_congr rfl
    intro x hx
    rw [weightAt_insert, if_neg (Finset.ne_of_mem_erase hx)]
  rw [weight_eq_weightAt_add f (m.insert k v) k, weight_eq_weightAt_add f m k, hrest,
    weightAt_insert, if_pos rfl]
  abel

/-- Any listing of the keys, each once, adds up to the total. -/
theorem sum_of_keys (f : ν → M) (m : FiniteMap κ ν) {ks : List κ} (hn : ks.Nodup)
    (hk : ∀ k, k ∈ ks ↔ k ∈ m) : (ks.map (weightAt f m)).sum = weight f m := by
  rw [← List.sum_toFinset _ hn]
  apply Finset.sum_congr _ (fun _ _ => rfl)
  ext k
  rw [List.mem_toFinset, hk, Finmap.mem_keys]

end FiniteMap
end Tracewulf.Base
