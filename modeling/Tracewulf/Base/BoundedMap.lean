import Tracewulf.Base.FiniteMap

/-! A map with room for a fixed number of keys. Overwriting a key that is present always succeeds;
a new key is refused, silently, when the map is full. -/
namespace Tracewulf.Base

structure BoundedMap (cap : ℕ) (κ ν : Type*) where
  entries : FiniteMap κ ν
  card_le : entries.keys.card ≤ cap

namespace BoundedMap

variable {cap : ℕ} {κ ν : Type*} [DecidableEq κ]

def empty : BoundedMap cap κ ν := ⟨∅,by simp⟩

def lookup (m : BoundedMap cap κ ν) (k : κ) : Option ν := m.entries.lookup k

/-- There is room for `k`: it is present already, or the map is not full. -/
def Admits (m : BoundedMap cap κ ν) (k : κ) : Prop :=
  k ∈ m.entries ∨ m.entries.keys.card < cap

instance (m : BoundedMap cap κ ν) (k : κ) : Decidable (m.Admits k) :=
  inferInstanceAs (Decidable (_ ∨ _))

lemma card_insert_le {m : BoundedMap cap κ ν} {k : κ} (h : m.Admits k) (v : ν) :
    (m.entries.insert k v).keys.card ≤ cap := by
  rw [FiniteMap.keys_insert]
  rcases h with hk | hc
  · rw [Finset.insert_eq_of_mem (Finmap.mem_keys.mpr hk)]
    exact m.card_le
  · exact (Finset.card_insert_le k m.entries.keys).trans hc

def update (m : BoundedMap cap κ ν) (k : κ) (v : ν) : BoundedMap cap κ ν :=
  if h : m.Admits k then ⟨m.entries.insert k v,card_insert_le h v⟩ else m

def delete (m : BoundedMap cap κ ν) (k : κ) : BoundedMap cap κ ν where
  entries := m.entries.erase k
  card_le := by
    rw [Finmap.keys_erase]
    exact (Finset.card_erase_le).trans m.card_le

lemma lookup_update_of_ne (m : BoundedMap cap κ ν) {k x : κ} (v : ν) (h : x ≠ k) :
    (m.update k v).lookup x = m.lookup x := by
  unfold update
  split_ifs
  · exact Finmap.lookup_insert_of_ne m.entries h
  · rfl

/-- After an update the key holds the new value, or the key was refused and is absent. -/
theorem lookup_update_self (m : BoundedMap cap κ ν) (k : κ) (v : ν) :
    (m.update k v).lookup k = some v ∨ (m.update k v).lookup k = none := by
  unfold update
  split_ifs with h
  · exact Or.inl (Finmap.lookup_insert m.entries)
  · exact Or.inr (Finmap.lookup_eq_none.mpr fun hk => h (Or.inl hk))

lemma lookup_update_of_admits {m : BoundedMap cap κ ν} {k : κ} (h : m.Admits k) (v : ν) :
    (m.update k v).lookup k = some v := by
  rw [update, dif_pos h]
  exact Finmap.lookup_insert m.entries

/-- The keys that are there. -/
def keys (m : BoundedMap cap κ ν) : Finset κ := m.entries.keys

lemma mem_keys_iff {m : BoundedMap cap κ ν} {k : κ} : k ∈ m.keys ↔ m.lookup k ≠ none := by
  rw [keys, Finmap.mem_keys, lookup, Ne, Finmap.lookup_eq_none, not_not]

lemma keys_update_of_admits {m : BoundedMap cap κ ν} {k : κ} (h : m.Admits k) (v : ν) :
    (m.update k v).keys = insert k m.keys := by
  rw [update, dif_pos h]
  exact FiniteMap.keys_insert _ _ _

lemma keys_update_subset (m : BoundedMap cap κ ν) (k : κ) (v : ν) :
    (m.update k v).keys ⊆ insert k m.keys := by
  by_cases h : m.Admits k
  · rw [keys_update_of_admits h]
  · rw [update, dif_neg h]
    exact Finset.subset_insert k m.keys

@[simp] lemma keys_delete (m : BoundedMap cap κ ν) (k : κ) :
    (m.delete k).keys = m.keys.erase k := Finmap.keys_erase k m.entries

/-- A key is admitted wherever the map with it would not hold too many. -/
lemma admits_of_card_insert_le {m : BoundedMap cap κ ν} {k : κ}
    (h : (insert k m.keys).card ≤ cap) : m.Admits k := by
  by_cases hk : k ∈ m.keys
  · exact .inl (Finmap.mem_keys.mp hk)
  · rw [Finset.card_insert_of_notMem hk] at h
    exact .inr h

@[simp] lemma lookup_delete_self (m : BoundedMap cap κ ν) (k : κ) :
    (m.delete k).lookup k = none := Finmap.lookup_erase k m.entries

lemma lookup_delete_of_ne (m : BoundedMap cap κ ν) {k x : κ} (h : x ≠ k) :
    (m.delete k).lookup x = m.lookup x := Finmap.lookup_erase_ne h

end BoundedMap
end Tracewulf.Base
