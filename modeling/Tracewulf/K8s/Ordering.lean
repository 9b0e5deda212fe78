import Tracewulf.K8s.Endpoints

/-! The three informers run concurrently, so notifications about different objects reach the cache
in any order. Where objects do not share addresses, the cache depends on each object's own
sequence of notifications and on nothing else. -/
namespace Tracewulf.K8s
open Tracewulf.Base AddressBook Delivery

/-- The object a notification is about, in the state it announces. -/
def Event.obj : Event → Obj
  | add obj | update _ obj | delete obj => obj

section Order

variable {ι : Type} [DecidableEq ι]

/-- Two deliveries that give every object the same notifications in the same order. -/
def SameObjectOrder (ds ds' : List (Delivery ι)) : Prop := ∀ (r : Resource) (uid : ι),
  (ds.filter fun d => d.resource = r ∧ d.uid = uid) =
    ds'.filter fun d => d.resource = r ∧ d.uid = uid

/-- Objects of one kind do not share addresses: different pods never carry the same address,
different services never the same cluster address, different nodes never the same name. -/
structure DistinctAddresses (ds : List (Delivery ι)) : Prop where
  pods : ∀ d ∈ ds, ∀ d' ∈ ds, d.resource = .pods → d'.resource = .pods → d.uid ≠ d'.uid →
    ∀ p p', d.event.obj.asPod = some p → d'.event.obj.asPod = some p' →
      p.podIP = p'.podIP → p.podIP = ""
  services : ∀ d ∈ ds, ∀ d' ∈ ds, d.resource = .services → d'.resource = .services →
    d.uid ≠ d'.uid → ∀ s s', d.event.obj.asService = some s → d'.event.obj.asService = some s' →
      s.clusterIP = s'.clusterIP → s.clusterIP = "" ∨ s.clusterIP = "None"
  nodes : ∀ d ∈ ds, ∀ d' ∈ ds, d.resource = .nodes → d'.resource = .nodes → d.uid ≠ d'.uid →
    ∀ n n', d.event.obj.asNode = some n → d'.event.obj.asNode = some n' → n.name ≠ n'.name

namespace View

variable {π ν : Type} (V : View π ν)

/-- No notification touches the address another object is written under. -/
def Distinct (ds : List (Delivery ι)) : Prop := ∀ d ∈ ds, ∀ d' ∈ ds, d.resource = V.resource →
  d'.resource = V.resource → ∀ p p' k, V.assert d.event.obj = some p →
    V.assert d'.event.obj = some p' → V.addr p = some k →
      (V.addr p' = some k ∨ V.cleared p' = some k) → d'.uid = d.uid

variable {V}

omit [DecidableEq ι] in
/-- A notice at an address is a delivery of an object that is written or cleared there. -/
lemma exists_of_notice {d : Delivery ι} {n : Notice ι String ν} (h : V.notice d = some n)
    {k : String} (hk : n.addr = some k) : d.resource = V.resource ∧ n.id = d.uid ∧
      ∃ p, V.assert d.event.obj = some p ∧ (V.addr p = some k ∨ V.cleared p = some k) ∧
        ∀ i a v, n = .upsert i a v → V.addr p = some k := by
  have hid := notice_id h
  obtain ⟨r,uid,e⟩ := d
  unfold notice at h
  split_ifs at h with hr
  refine ⟨hr,hid,?_⟩
  rcases e with obj | ⟨old,obj⟩ | obj
  · obtain ⟨p,hp,rfl⟩ := Option.map_eq_some_iff.mp h
    exact ⟨p,hp,Or.inl hk,fun _ _ _ _ => hk⟩
  · obtain ⟨p,hp,rfl⟩ := Option.map_eq_some_iff.mp h
    exact ⟨p,hp,Or.inl hk,fun _ _ _ _ => hk⟩
  · obtain rfl := Option.some.inj h
    obtain ⟨p,hp,hc⟩ := Option.bind_eq_some_iff.mp hk
    exact ⟨p,hp,Or.inr hc,fun _ _ _ he => by cases he⟩

omit [DecidableEq ι] in
lemma Distinct.owned {ds : List (Delivery ι)} (h : V.Distinct ds) :
    Owned (ds.filterMap V.notice) := by
  intro i k v hi n hn hk
  obtain ⟨d,hd,hdi⟩ := List.mem_filterMap.mp hi
  obtain ⟨d',hd',hdn⟩ := List.mem_filterMap.mp hn
  obtain ⟨hr,hid,p,hp,-,haddr⟩ := exists_of_notice hdi (k := k) rfl
  obtain ⟨hr',hid',p',hp',hk',-⟩ := exists_of_notice hdn hk
  have huid : d'.uid = d.uid :=
    h d hd d' hd' hr hr' p p' k hp hp' (haddr _ _ _ rfl) hk'
  rw [hid', huid, ← hid]
  rfl

/-- The notices of one object come from its own deliveries. -/
lemma filter_notices (ds : List (Delivery ι)) (i : ι) :
    ((ds.filterMap V.notice).filter fun n => n.id = i) =
      (ds.filter fun d => d.resource = V.resource ∧ d.uid = i).filterMap V.notice := by
  induction ds with
  | nil => rfl
  | cons d ds ih =>
    cases hn : V.notice d with
    | none =>
      rw [List.filterMap_cons_none hn, ih, List.filter_cons]
      split_ifs
      · rw [List.filterMap_cons_none hn]
      · rfl
    | some n =>
      have hid := notice_id hn
      have hr : d.resource = V.resource := by
        by_contra hr
        simp [notice, hr] at hn
      rw [List.filterMap_cons_some hn, List.filter_cons, List.filter_cons, ih]
      by_cases hi : d.uid = i
      · rw [if_pos (by simp [hid, hi]), if_pos (by simp [hr, hi]), List.filterMap_cons_some hn]
      · rw [if_neg (by simp [hid, hi]), if_neg (by simp [hi])]

/-- One cache map, whichever order the deliveries come in. -/
theorem Faithful.listings_order_irrelevant (h : V.Faithful) {ds ds' : List (Delivery ι)}
    (hd : V.Distinct ds) (ho : SameObjectOrder ds ds') :
    V.listings (deliver ds) = V.listings (deliver ds') := by
  have hwritten : ∀ xs : List (Delivery ι), V.listings (deliver xs) =
      (xs.filterMap V.notice).foldl Notice.write ∅ := by
    intro xs
    rw [h.listings_deliver, book, entries_foldl_feed]
    rfl
  rw [hwritten, hwritten]
  refine AddressBook.listings_order_irrelevant hd.owned fun i => ?_
  rw [filter_notices, filter_notices, ho V.resource i]

end View

variable {ds ds' : List (Delivery ι)}

lemma DistinctAddresses.podView (h : DistinctAddresses ds) : podView.Distinct ds := by
  intro d hd d' hd' hr hr' p p' k hp hp' hk hk'
  obtain ⟨hne,rfl⟩ := podView_addr.mp hk
  have hsame : p'.podIP = p.podIP := (podView_addr.mp (hk'.elim id id)).2
  by_contra hu
  exact hne (h.pods d hd d' hd' hr hr' (Ne.symm hu) p p' hp hp' hsame.symm)

lemma DistinctAddresses.serviceView (h : DistinctAddresses ds) : serviceView.Distinct ds := by
  intro d hd d' hd' hr hr' s s' k hs hs' hk hk'
  obtain ⟨⟨hne,hnone⟩,rfl⟩ := serviceView_addr.mp hk
  have hsame : s'.clusterIP = s.clusterIP := by
    rcases hk' with hk' | hk'
    · exact (serviceView_addr.mp hk').2
    · simp only [K8s.serviceView, Option.ite_none_left_eq_some, Option.some.injEq] at hk'
      exact hk'.2
  by_contra hu
  rcases h.services d hd d' hd' hr hr' (Ne.symm hu) s s' hs hs' hsame.symm with he | he
  · exact hne he
  · exact hnone he

lemma DistinctAddresses.nodeView (h : DistinctAddresses ds) : nodeView.Distinct ds := by
  intro d hd d' hd' hr hr' n n' k hn hn' hk hk'
  have hname : n.name = k := Option.some.inj hk
  have hname' : n'.name = k := Option.some.inj (hk'.elim id id)
  by_contra hu
  exact h.nodes d hd d' hd' hr hr' (Ne.symm hu) n n' hn hn' (hname.trans hname'.symm)

/-- The cache is the same, whichever informer got ahead. -/
theorem deliver_order_irrelevant (hd : DistinctAddresses ds) (ho : SameObjectOrder ds ds') :
    deliver ds = deliver ds' := by
  have hpods : (deliver ds).ipMap = (deliver ds').ipMap :=
    podView_faithful.listings_order_irrelevant hd.podView ho
  have hservices : (deliver ds).svcMap = (deliver ds').svcMap :=
    serviceView_faithful.listings_order_irrelevant hd.serviceView ho
  have hnodes : (deliver ds).nodeMap = (deliver ds').nodeMap :=
    nodeView_faithful.listings_order_irrelevant hd.nodeView ho
  calc deliver ds = ⟨(deliver ds).ipMap,(deliver ds).svcMap,(deliver ds).nodeMap⟩ := rfl
    _ = ⟨(deliver ds').ipMap,(deliver ds').svcMap,(deliver ds').nodeMap⟩ := by
      rw [hpods, hservices, hnodes]
    _ = deliver ds' := rfl

end Order
end Tracewulf.K8s
