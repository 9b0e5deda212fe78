import Mathlib.Logic.Function.Basic
import Tracewulf.Base.FiniteMap
import Tracewulf.Base.Run

/-! A directory keyed by address and fed by notices about objects. Each object announces its
current address and description, or its removal; the directory sees one notice at a time and
keeps one description for each address, whoever wrote it last. The results say exactly which
notices keep every announced address listed, which keep every listing truthful, and when the order
of notices about different objects makes no difference. -/
namespace Tracewulf.Base

/-- What is delivered about object `id`: its present address (if it has one) and description, or
its removal together with the address the removal gives up. -/
inductive Notice (ι κ ν : Type*)
  | upsert (id : ι) (addr : Option κ) (info : ν)
  | remove (id : ι) (addr : Option κ)
  deriving DecidableEq

namespace Notice

variable {ι κ ν : Type*}

def id : Notice ι κ ν → ι
  | upsert i _ _ => i
  | remove i _ => i

def addr : Notice ι κ ν → Option κ
  | upsert _ a _ => a
  | remove _ a => a

/-- The effect on the listings alone. They are keyed by address: neither writing one nor clearing
one asks whose it was. -/
def write [DecidableEq κ] (m : FiniteMap κ ν) : Notice ι κ ν → FiniteMap κ ν
  | upsert _ (some k) v => m.insert k v
  | remove _ (some k) => m.erase k
  | upsert _ none _ | remove _ none => m

end Notice

/-- The directory, beside what each object last announced. -/
structure AddressBook (ι κ ν : Type*) where
  latest : ι → Option (Option κ × ν)
  entries : FiniteMap κ ν

namespace AddressBook

variable {ι κ ν : Type*} [DecidableEq ι] [DecidableEq κ]

def empty : AddressBook ι κ ν := ⟨fun _ => none,∅⟩

def receive (b : AddressBook ι κ ν) (n : Notice ι κ ν) : AddressBook ι κ ν where
  latest := Function.update b.latest n.id
    (match n with | .upsert _ a v => some (a,v) | .remove _ _ => none)
  entries := n.write b.entries

/-- Feed inputs of another kind through their reading as notices; those with none are ignored. -/
def feed {α : Type*} (read : α → Option (Notice ι κ ν)) (b : AddressBook ι κ ν) (x : α) :
    AddressBook ι κ ν :=
  match read x with
  | some n => b.receive n
  | none => b

/-- Object `i` is present, and its last announcement was address `k` with description `v`. -/
def Holds (b : AddressBook ι κ ν) (i : ι) (k : κ) (v : ν) : Prop :=
  b.latest i = some (some k,v)

/-- Every address that a present object announced is listed. -/
def Complete (b : AddressBook ι κ ν) : Prop :=
  ∀ i k v, b.Holds i k v → (b.entries.lookup k).isSome

/-- Every listing is some present object's own last announcement. -/
def Truthful (b : AddressBook ι κ ν) : Prop :=
  ∀ k v, b.entries.lookup k = some v → ∃ i, b.Holds i k v

/-- A removal is safe when no other present object stands at the address it clears. -/
def SafeRemoval (b : AddressBook ι κ ν) : Notice ι κ ν → Prop
  | .upsert _ _ _ => True
  | .remove i a => ∀ k, a = some k → ∀ j v, j ≠ i → ¬ b.Holds j k v

/-- A notice is a clean move when the listing at any address its object leaves behind is either
gone or another present object's own. -/
def CleanMove (b : AddressBook ι κ ν) (n : Notice ι κ ν) : Prop :=
  ∀ k v, b.Holds n.id k v → n.addr ≠ some k →
    ∀ w, b.entries.lookup k = some w → ∃ j, j ≠ n.id ∧ b.Holds j k w

lemma holds_receive_other (b : AddressBook ι κ ν) (n : Notice ι κ ν) {j : ι} (hj : j ≠ n.id)
    (k : κ) (v : ν) : (b.receive n).Holds j k v ↔ b.Holds j k v := by
  simp only [Holds, receive]
  rw [Function.update_of_ne hj]

@[simp] lemma holds_upsert_self (b : AddressBook ι κ ν) (i : ι) (a : Option κ) (w : ν) (k : κ)
    (v : ν) : (b.receive (.upsert i a w)).Holds i k v ↔ a = some k ∧ w = v := by
  simp [Holds, receive, Notice.id]

@[simp] lemma not_holds_remove_self (b : AddressBook ι κ ν) (i : ι) (a : Option κ) (k : κ)
    (v : ν) : ¬ (b.receive (.remove i a)).Holds i k v := by
  simp [Holds, receive, Notice.id]

lemma holds_receive_self (b : AddressBook ι κ ν) (n : Notice ι κ ν) {k : κ} {v : ν}
    (h : (b.receive n).Holds n.id k v) : n.addr = some k := by
  cases n with
  | upsert i a w => exact ((holds_upsert_self b i a w k v).mp h).1
  | remove i a => exact absurd h (not_holds_remove_self b i a k v)

/-- A notice touches the listing at its own address and no other. -/
lemma lookup_receive_other (b : AddressBook ι κ ν) (n : Notice ι κ ν) {k : κ}
    (hk : n.addr ≠ some k) : (b.receive n).entries.lookup k = b.entries.lookup k := by
  cases n with
  | upsert i a v =>
    cases a with
    | none => rfl
    | some x =>
      have hx : k ≠ x := fun h => hk (congrArg some h.symm)
      exact Finmap.lookup_insert_of_ne b.entries hx
  | remove i a =>
    cases a with
    | none => rfl
    | some x =>
      have hx : k ≠ x := fun h => hk (congrArg some h.symm)
      exact Finmap.lookup_erase_ne hx

@[simp] lemma lookup_upsert_self (b : AddressBook ι κ ν) (i : ι) (k : κ) (v : ν) :
    (b.receive (.upsert i (some k) v)).entries.lookup k = some v :=
  Finmap.lookup_insert b.entries

@[simp] lemma lookup_remove_self (b : AddressBook ι κ ν) (i : ι) (k : κ) :
    (b.receive (.remove i (some k))).entries.lookup k = none :=
  Finmap.lookup_erase k b.entries

/-- One notice keeps the directory complete exactly when it is no unsafe removal. -/
theorem complete_receive (b : AddressBook ι κ ν) (n : Notice ι κ ν) (h : b.Complete) :
    (b.receive n).Complete ↔ b.SafeRemoval n := by
  cases n with
  | upsert i a v =>
    refine iff_of_true ?_ trivial
    intro j k w hj
    by_cases ha : a = some k
    · subst ha; simp
    · rw [lookup_receive_other b (.upsert i a v) ha]
      by_cases hji : j = i
      · subst hji; exact absurd (holds_receive_self b (.upsert j a v) hj) ha
      · exact h j k w ((holds_receive_other b (.upsert i a v) hji k w).mp hj)
  | remove i a =>
    constructor
    · rintro hc k rfl j v hj hold
      have hkept := (holds_receive_other b (.remove i (some k)) hj k v).mpr hold
      simpa using hc j k v hkept
    · intro hs j k v hj
      have hji : j ≠ i := by
        rintro rfl
        exact not_holds_remove_self b j a k v hj
      have hold := (holds_receive_other b (.remove i a) hji k v).mp hj
      have ha : a ≠ some k := fun ha => hs k ha j v hji hold
      rw [lookup_receive_other b (.remove i a) ha]
      exact h j k v hold

/-- What stays listed away from the notice's own address stays true exactly for a clean move. -/
theorem truthful_receive (b : AddressBook ι κ ν) (n : Notice ι κ ν) (h : b.Truthful) :
    (b.receive n).Truthful ↔ b.CleanMove n := by
  constructor
  · intro ht k v hold hk w hw
    obtain ⟨j,hj⟩ := ht k w (by rwa [lookup_receive_other b n hk])
    have hjn : j ≠ n.id := by
      rintro rfl
      exact hk (holds_receive_self b n hj)
    exact ⟨j,hjn,(holds_receive_other b n hjn k w).mp hj⟩
  · intro hm k w hw
    by_cases hk : n.addr = some k
    · -- the notice's own address: freshly written by its object, or just cleared
      cases n with
      | upsert i a v =>
        obtain rfl : a = some k := hk
        obtain rfl : v = w := by simpa using hw
        exact ⟨i,by simp⟩
      | remove i a =>
        obtain rfl : a = some k := hk
        simp at hw
    · rw [lookup_receive_other b n hk] at hw
      obtain ⟨j,hj⟩ := h k w hw
      by_cases hjn : j = n.id
      · subst hjn
        obtain ⟨i,hi,hold⟩ := hm k w hj hk w hw
        exact ⟨i,(holds_receive_other b n hi k w).mpr hold⟩
      · exact ⟨j,(holds_receive_other b n hjn k w).mpr hj⟩

omit [DecidableEq ι] in
lemma complete_empty : (empty : AddressBook ι κ ν).Complete := by
  intro i k v h
  simp [Holds, empty] at h

omit [DecidableEq ι] in
lemma truthful_empty : (empty : AddressBook ι κ ν).Truthful := by
  intro k v h
  simp [empty] at h

section Feed

variable {α : Type*} (read : α → Option (Notice ι κ ν))

/-- Every listed address was announced by some input. -/
theorem announced_of_listed (xs : List α) {k : κ} {v : ν}
    (h : (xs.foldl (feed read) empty).entries.lookup k = some v) :
    ∃ x ∈ xs, ∃ i, read x = some (.upsert i (some k) v) := by
  induction xs using List.reverseRecOn with
  | nil => simp [empty] at h
  | append_singleton xs x ih =>
    rw [List.foldl_append] at h
    simp only [List.foldl_cons, List.foldl_nil] at h
    have hold : (xs.foldl (feed read) empty).entries.lookup k = some v →
        ∃ y ∈ xs ++ [x], ∃ i, read y = some (.upsert i (some k) v) := by
      intro hk
      obtain ⟨y,hy,i,hr⟩ := ih hk
      exact ⟨y,List.mem_append_left _ hy,i,hr⟩
    cases hx : read x with
    | none => exact hold (by simpa [feed, hx] using h)
    | some n =>
      simp only [feed, hx] at h
      by_cases hn : n.addr = some k
      · cases n with
        | upsert i a w =>
          obtain rfl : a = some k := hn
          obtain rfl : w = v := by simpa using h
          exact ⟨x,by simp,i,hx⟩
        | remove i a =>
          obtain rfl : a = some k := hn
          simp at h
      · exact hold (by rwa [lookup_receive_other _ n hn] at h)

/-- Along a whole delivery: every announced address stays listed after every prefix exactly when
no removal in it clears an address under another present object. -/
theorem complete_afterEveryPrefix (xs : List α) :
    AfterEveryPrefix (feed read) Complete empty xs ↔
      EveryStep (feed read) (fun b x => ∀ n, read x = some n → b.SafeRemoval n) empty xs := by
  refine afterEveryPrefix_iff (fun b x hb => ?_) empty complete_empty xs
  cases hx : read x with
  | none => simpa [feed, hx] using hb
  | some n => simpa [feed, hx] using complete_receive b n hb

/-- Along a whole delivery: every listing stays truthful after every prefix exactly when every
notice in it is a clean move. -/
theorem truthful_afterEveryPrefix (xs : List α) :
    AfterEveryPrefix (feed read) Truthful empty xs ↔
      EveryStep (feed read) (fun b x => ∀ n, read x = some n → b.CleanMove n) empty xs := by
  refine afterEveryPrefix_iff (fun b x hb => ?_) empty truthful_empty xs
  cases hx : read x with
  | none => simpa [feed, hx] using hb
  | some n => simpa [feed, hx] using truthful_receive b n hb

end Feed

section Order

/-- Whoever announces an address is the only one whose notices touch it. -/
def Owned (ns : List (Notice ι κ ν)) : Prop :=
  ∀ i k v, .upsert i (some k) v ∈ ns → ∀ n ∈ ns, n.addr = some k → n.id = i

/-- The listings of a feed are written by its notices. -/
lemma entries_foldl_feed {α : Type*} (read : α → Option (Notice ι κ ν)) (xs : List α)
    (b : AddressBook ι κ ν) :
    (xs.foldl (feed read) b).entries = (xs.filterMap read).foldl Notice.write b.entries := by
  induction xs generalizing b with
  | nil => rfl
  | cons x xs ih =>
    rw [List.foldl_cons, ih]
    cases hx : read x with
    | none => rw [List.filterMap_cons_none hx, feed, hx]
    | some n =>
      rw [List.filterMap_cons_some hx, List.foldl_cons, feed, hx]
      rfl

omit [DecidableEq ι] in
/-- One address's listing is written by the notices at that address alone. -/
lemma lookup_foldl_write (ns : List (Notice ι κ ν)) (k : κ) (m m' : FiniteMap κ ν)
    (h : m.lookup k = m'.lookup k) : (ns.foldl Notice.write m).lookup k =
      ((ns.filter fun n => n.addr = some k).foldl Notice.write m').lookup k := by
  induction ns generalizing m m' with
  | nil => exact h
  | cons n ns ih =>
    rw [List.foldl_cons, List.filter_cons]
    by_cases hk : n.addr = some k
    · rw [if_pos (decide_eq_true hk), List.foldl_cons]
      refine ih _ _ ?_
      cases n with
      | upsert i a v =>
        obtain rfl : a = some k := hk
        exact (Finmap.lookup_insert m).trans (Finmap.lookup_insert m').symm
      | remove i a =>
        obtain rfl : a = some k := hk
        exact (Finmap.lookup_erase k m).trans (Finmap.lookup_erase k m').symm
    · rw [if_neg (by simpa using hk)]
      refine ih _ _ ?_
      rw [← h]
      cases n with
      | upsert i a v =>
        cases a with
        | none => rfl
        | some x => exact Finmap.lookup_insert_of_ne m fun e => hk (congrArg some e.symm)
      | remove i a =>
        cases a with
        | none => rfl
        | some x => exact Finmap.lookup_erase_ne fun e => hk (congrArg some e.symm)

/-- An address nobody announces is not listed, whatever removals name it. -/
lemma lookup_foldl_write_of_not_announced (ns : List (Notice ι κ ν)) {k : κ}
    (h : ∀ i v, .upsert i (some k) v ∉ ns) : (ns.foldl Notice.write ∅).lookup k = none := by
  by_contra hk
  obtain ⟨v,hv⟩ := Option.ne_none_iff_exists'.mp hk
  have hfeed : (ns.foldl (feed some) empty).entries.lookup k = some v := by
    rw [entries_foldl_feed, List.filterMap_some]
    exact hv
  obtain ⟨n,hn,i,hr⟩ := announced_of_listed some ns hfeed
  obtain rfl := Option.some.inj hr
  exact h i v hn

/-- Where every announced address has one owner, the listings depend on each object's own order
of notices and on nothing else. -/
theorem listings_order_irrelevant {ns ms : List (Notice ι κ ν)} (hown : Owned ns)
    (hord : ∀ i, (ns.filter fun n => n.id = i) = ms.filter fun n => n.id = i) :
    ns.foldl Notice.write (∅ : FiniteMap κ ν) = ms.foldl Notice.write ∅ := by
  have hmem : ∀ n, n ∈ ns ↔ n ∈ ms := by
    intro n
    have hn := congrArg (fun l => n ∈ l) (hord n.id)
    simpa [List.mem_filter] using hn
  apply Finmap.ext_lookup
  intro k
  by_cases hk : ∃ i v, .upsert i (some k) v ∈ ns
  · -- the owner's notices at `k` are all there are, and both orders have them alike
    obtain ⟨i,v,hi⟩ := hk
    have hone : ∀ xs : List (Notice ι κ ν), (∀ n ∈ xs, n ∈ ns) →
        (xs.filter fun n => n.addr = some k) =
          (xs.filter fun n => n.id = i).filter fun n => n.addr = some k := by
      intro xs hxs
      rw [List.filter_filter]
      apply List.filter_congr
      intro n hn
      by_cases ha : n.addr = some k
      · simp [ha, hown i k v hi n (hxs n hn) ha]
      · simp [ha]
    rw [lookup_foldl_write ns k ∅ ∅ rfl, lookup_foldl_write ms k ∅ ∅ rfl,
      hone ns (fun _ h => h), hone ms (fun n h => (hmem n).mpr h), hord i]
  · have hnone : ∀ i v, .upsert i (some k) v ∉ ns := fun i v hi => hk ⟨i,v,hi⟩
    rw [lookup_foldl_write_of_not_announced ns hnone,
      lookup_foldl_write_of_not_announced ms fun i v hi => hnone i v ((hmem _).mpr hi)]

end Order

end AddressBook
end Tracewulf.Base
