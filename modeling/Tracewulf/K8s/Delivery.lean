import Tracewulf.Base.AddressBook
import Tracewulf.K8s.Informer

/-! Whole deliveries of informer notifications. Pods and services are two views of one address
book: an informer's events are notices about its objects, and the cache map it writes is the
book's listings. Which deliveries keep every live endpoint in the cache, and which keep every
cached identity true, is read off the book. -/
namespace Tracewulf.K8s
open Tracewulf.Base AddressBook Delivery

/-- How one informer's events read as notices, and which cache map its handlers keep. -/
structure View (π ν : Type) where
  resource : Resource
  /-- the type assertion the handlers make -/
  assert : Obj → Option π
  /-- the key an add or update writes, if it writes one -/
  addr : π → Option String
  /-- the key a delete clears, if it clears one -/
  cleared : π → Option String
  info : π → ν
  listings : Cache → FiniteMap String ν

namespace View

variable {π ν ι : Type} (V : View π ν)

def notice (d : Delivery ι) : Option (Notice ι String ν) :=
  if d.resource = V.resource then
    match d.event with
    | .add obj | .update _ obj =>
      (V.assert obj).map fun p => .upsert d.uid (V.addr p) (V.info p)
    | .delete obj => some (.remove d.uid ((V.assert obj).bind V.cleared))
  else none

/-- The handlers write the listings as the notices say, and no other informer touches them. -/
structure Faithful : Prop where
  empty : V.listings newCache = ∅
  handle : ∀ (ι : Type) (c : Cache) (d : Delivery ι), V.listings (handle c d) =
    (V.notice d).elim (V.listings c) (Notice.write (V.listings c))

variable [DecidableEq ι]

/-- The state object `uid` was last delivered in, if its delete has not been delivered since. -/
def latest (ds : List (Delivery ι)) (uid : ι) : Option π :=
  ds.foldl (fun old d =>
    if d.resource = V.resource ∧ d.uid = uid then
      match d.event with
      | .add obj | .update _ obj => (V.assert obj).or old
      | .delete _ => none
    else old) none

def book (ds : List (Delivery ι)) : AddressBook ι String ν := ds.foldl (feed V.notice) empty

/-- What one delivery makes of what the book knows about an object. -/
lemma latest_feed (b : AddressBook ι String ν) (d : Delivery ι) (uid : ι) :
    (feed V.notice b d).latest uid =
      if d.resource = V.resource ∧ d.uid = uid then
        match d.event with
        | .add obj | .update _ obj =>
          ((V.assert obj).map fun p => (V.addr p,V.info p)).or (b.latest uid)
        | .delete _ => none
      else b.latest uid := by
  by_cases hr : d.resource = V.resource
  · rcases he : d.event with obj | ⟨old,obj⟩ | obj
    · cases ha : V.assert obj <;> by_cases hu : uid = d.uid <;>
        simp [feed, notice, receive, Notice.id, hr, he, ha, hu, eq_comm]
    · cases ha : V.assert obj <;> by_cases hu : uid = d.uid <;>
        simp [feed, notice, receive, Notice.id, hr, he, ha, hu, eq_comm]
    · by_cases hu : uid = d.uid <;>
        simp [feed, notice, receive, Notice.id, hr, he, hu, eq_comm]
  · simp [feed, notice, hr]

lemma book_latest (ds : List (Delivery ι)) (uid : ι) :
    (V.book ds).latest uid = (V.latest ds uid).map fun p => (V.addr p,V.info p) := by
  induction ds using List.reverseRecOn with
  | nil => rfl
  | append_singleton ds d ih =>
    simp only [book, latest, List.foldl_append, List.foldl_cons, List.foldl_nil] at ih ⊢
    rw [latest_feed, ih]
    split_ifs
    · rcases d.event with obj | ⟨old,obj⟩ | obj
      · exact Option.map_or.symm
      · exact Option.map_or.symm
      · rfl
    · rfl

/-- The cache map is the book's listings: the code refines the directory it stands for. -/
theorem Faithful.listings_deliver {V : View π ν} (h : V.Faithful) (ds : List (Delivery ι)) :
    V.listings (deliver ds) = (V.book ds).entries := by
  induction ds using List.reverseRecOn with
  | nil => exact h.empty
  | append_singleton ds d ih =>
    simp only [deliver, book, List.foldl_append, List.foldl_cons, List.foldl_nil] at ih ⊢
    rw [h.handle, ih]
    cases hn : V.notice d <;> simp [feed, hn, receive]

lemma holds_book (ds : List (Delivery ι)) (uid : ι) (k : String) (v : ν) :
    (V.book ds).Holds uid k v ↔
      ∃ p, V.latest ds uid = some p ∧ V.addr p = some k ∧ V.info p = v := by
  simp [Holds, book_latest]

/-- Every object delivered at an address, and not deleted since, has that address listed. -/
def Listed (ds : List (Delivery ι)) : Prop :=
  ∀ uid p k, V.latest ds uid = some p → V.addr p = some k →
    ((V.listings (deliver ds)).lookup k).isSome

/-- Every listing is the latest delivered description of a live object standing there. -/
def Current (ds : List (Delivery ι)) : Prop :=
  ∀ k v, (V.listings (deliver ds)).lookup k = some v →
    ∃ uid p, V.latest ds uid = some p ∧ V.addr p = some k ∧ V.info p = v

/-- The delivery `d` after `ds` is no delete that clears another live object's address. -/
def SafeDelete (ds : List (Delivery ι)) (d : Delivery ι) : Prop :=
  d.resource = V.resource → ∀ obj p k, d.event = .delete obj → V.assert obj = some p →
    V.cleared p = some k → ∀ uid q, uid ≠ d.uid → V.latest ds uid = some q → V.addr q ≠ some k

/-- The delivery `d` after `ds` leaves no address of its object behind with a listing that no
other live object at that address accounts for. -/
def CleanDelivery (ds : List (Delivery ι)) (d : Delivery ι) : Prop :=
  ∀ n, V.notice d = some n → ∀ p k, V.latest ds d.uid = some p → V.addr p = some k →
    n.addr ≠ some k → ∀ v, (V.listings (deliver ds)).lookup k = some v →
      ∃ uid q, uid ≠ d.uid ∧ V.latest ds uid = some q ∧ V.addr q = some k ∧ V.info q = v

variable {V}

omit [DecidableEq ι] in
lemma notice_id {d : Delivery ι} {n : Notice ι String ν} (h : V.notice d = some n) :
    n.id = d.uid := by
  unfold notice at h
  split_ifs at h with hr
  rcases he : d.event with obj | ⟨old,obj⟩ | obj <;> simp only [he] at h
  · obtain ⟨p,-,rfl⟩ := Option.map_eq_some_iff.mp h; rfl
  · obtain ⟨p,-,rfl⟩ := Option.map_eq_some_iff.mp h; rfl
  · cases h; rfl

theorem Faithful.listed_iff (h : V.Faithful) (ds : List (Delivery ι)) :
    V.Listed ds ↔ (V.book ds).Complete := by
  unfold Listed Complete
  simp only [holds_book, h.listings_deliver]
  constructor
  · rintro hl uid k v ⟨p,hp,hk,-⟩
    exact hl uid p k hp hk
  · intro hc uid p k hp hk
    exact hc uid k (V.info p) ⟨p,hp,hk,rfl⟩

theorem Faithful.current_iff (h : V.Faithful) (ds : List (Delivery ι)) :
    V.Current ds ↔ (V.book ds).Truthful := by
  simp only [Current, Truthful, holds_book, h.listings_deliver]

lemma safeDelete_iff (ds : List (Delivery ι)) (d : Delivery ι) :
    V.SafeDelete ds d ↔ ∀ n, V.notice d = some n → (V.book ds).SafeRemoval n := by
  by_cases hr : d.resource = V.resource
  · rcases he : d.event with obj | ⟨old,obj⟩ | obj
    · simp [SafeDelete, notice, hr, he, SafeRemoval]
    · simp [SafeDelete, notice, hr, he, SafeRemoval]
    · simp only [SafeDelete, notice, hr, he, SafeRemoval, holds_book, if_true,
        Option.some.injEq, forall_eq', Event.delete.injEq, true_implies, Option.bind_eq_some_iff]
      constructor
      · rintro hs k ⟨p,hp,hk⟩ uid v hu ⟨q,hq,hqk,-⟩
        exact hs obj p k rfl hp hk uid q hu hq hqk
      · rintro hs _ p k rfl hp hk uid q hu hq hqk
        exact hs k ⟨p,hp,hk⟩ uid (V.info q) hu ⟨q,hq,hqk,rfl⟩
  · simp [SafeDelete, notice, hr]

lemma Faithful.cleanDelivery_iff (h : V.Faithful) (ds : List (Delivery ι)) (d : Delivery ι) :
    V.CleanDelivery ds d ↔ ∀ n, V.notice d = some n → (V.book ds).CleanMove n := by
  unfold CleanDelivery CleanMove
  simp only [holds_book, h.listings_deliver]
  constructor
  · rintro hc n hn k v ⟨p,hp,hk,-⟩ hne w hw
    rw [notice_id hn] at hp ⊢
    obtain ⟨uid,q,hu,hq,hqk,hqw⟩ := hc n hn p k hp hk hne w hw
    exact ⟨uid,hu,q,hq,hqk,hqw⟩
  · intro hc n hn p k hp hk hne w hw
    rw [← notice_id hn] at hp
    obtain ⟨uid,hu,q,hq,hqk,hqw⟩ := hc n hn k (V.info p) ⟨p,hp,hk,rfl⟩ hne w hw
    rw [notice_id hn] at hu
    exact ⟨uid,q,hu,hq,hqk,hqw⟩

/-- Live objects stay listed after every prefix exactly when every delete is safe. -/
theorem Faithful.listed_prefix_iff (h : V.Faithful) (ds : List (Delivery ι)) :
    (∀ pre, pre <+: ds → V.Listed pre) ↔ ∀ pre d, pre ++ [d] <+: ds → V.SafeDelete pre d := by
  simp only [h.listed_iff, safeDelete_iff]
  exact complete_afterEveryPrefix V.notice ds

/-- Listings stay current after every prefix exactly when every delivery is clean. -/
theorem Faithful.current_prefix_iff (h : V.Faithful) (ds : List (Delivery ι)) :
    (∀ pre, pre <+: ds → V.Current pre) ↔
      ∀ pre d, pre ++ [d] <+: ds → V.CleanDelivery pre d := by
  simp only [h.current_iff, h.cleanDelivery_iff]
  exact truthful_afterEveryPrefix V.notice ds

/-- A listing is what an add or update of some object, delivered under that address, said. -/
lemma Faithful.exists_delivered (h : V.Faithful) (ds : List (Delivery ι)) {k : String} {v : ν}
    (hk : (V.listings (deliver ds)).lookup k = some v) : ∃ d ∈ ds, d.resource = V.resource ∧
      ∃ obj p, (d.event = .add obj ∨ ∃ old, d.event = .update old obj) ∧
        V.assert obj = some p ∧ V.addr p = some k ∧ V.info p = v := by
  rw [h.listings_deliver] at hk
  obtain ⟨d,hd,i,hn⟩ := announced_of_listed V.notice ds hk
  refine ⟨d,hd,?_⟩
  unfold notice at hn
  split_ifs at hn with hr
  rcases he : d.event with obj | ⟨old,obj⟩ | obj <;> simp only [he] at hn
  · obtain ⟨p,hp,hnp⟩ := Option.map_eq_some_iff.mp hn
    obtain ⟨-,ha,hv⟩ := Notice.upsert.inj hnp
    exact ⟨hr,obj,p,Or.inl rfl,hp,ha,hv⟩
  · obtain ⟨p,hp,hnp⟩ := Option.map_eq_some_iff.mp hn
    obtain ⟨-,ha,hv⟩ := Notice.upsert.inj hnp
    exact ⟨hr,obj,p,Or.inr ⟨old,rfl⟩,hp,ha,hv⟩
  · cases hn

/-- A listed address is one that some delivered object was written under. -/
lemma Faithful.exists_addr_of_listed (h : V.Faithful) (ds : List (Delivery ι)) {k : String}
    {v : ν} (hk : (V.listings (deliver ds)).lookup k = some v) : ∃ p, V.addr p = some k := by
  obtain ⟨d,-,-,obj,p,-,-,ha,-⟩ := h.exists_delivered ds hk
  exact ⟨p,ha⟩

end View
end Tracewulf.K8s
