import Tracewulf.K8s.Delivery

/-! What the cache promises about endpoints along a delivery: live pods and services are listed,
and what is listed is live. Handlers see one event at a time and the cache is keyed by address,
so both promises hold exactly along the deliveries in which no event disturbs an address that
belongs, or still belongs, to someone else. -/
namespace Tracewulf.K8s
open Tracewulf.Base AddressBook Delivery

def podView : View Pod PodInfo where
  resource := .pods
  assert := Obj.asPod
  addr p := if p.podIP = "" then none else some p.podIP
  cleared p := if p.podIP = "" then none else some p.podIP
  info := Pod.info
  listings := Cache.ipMap

def serviceView : View Service ServiceInfo where
  resource := .services
  assert := Obj.asService
  addr s := if s.clusterIP = "" ∨ s.clusterIP = "None" then none else some s.clusterIP
  cleared s := if s.clusterIP = "" then none else some s.clusterIP
  info := Service.info
  listings := Cache.svcMap

/-- Nodes are kept by name. -/
def nodeView : View Node NodeInfo where
  resource := .nodes
  assert := Obj.asNode
  addr n := some n.name
  cleared n := some n.name
  info := Node.info
  listings := Cache.nodeMap

/-- The pod handlers keep `ipMap` as a directory of the pods. -/
theorem podView_faithful : podView.Faithful where
  empty := rfl
  handle ι c d := by
    by_cases hr : d.resource = .pods
    · obtain ⟨r,uid,e⟩ := d
      obtain rfl : r = .pods := hr
      rcases e with obj | ⟨old,obj⟩ | obj <;> cases ha : obj.asPod with
      | none => simp [podView, View.notice, handle, Resource.handlers, podHandlers,
          ResourceEventHandlerFuncs.handle, upsertPod, ha, Notice.write]
      | some p =>
        by_cases hp : p.podIP = "" <;>
          simp [podView, View.notice, handle, Resource.handlers, podHandlers,
            ResourceEventHandlerFuncs.handle, upsertPod, ha, hp, Notice.write, Cache.setPod,
            Cache.deletePod]
    · simp [podView, View.notice, hr, handle_ipMap_of_ne c hr]

/-- The service handlers keep `svcMap` as a directory of the services. -/
theorem serviceView_faithful : serviceView.Faithful where
  empty := rfl
  handle ι c d := by
    by_cases hr : d.resource = .services
    · obtain ⟨r,uid,e⟩ := d
      obtain rfl : r = .services := hr
      rcases e with obj | ⟨old,obj⟩ | obj <;> cases ha : obj.asService with
      | none => simp [serviceView, View.notice, handle, Resource.handlers, serviceHandlers,
          ResourceEventHandlerFuncs.handle, upsertService, ha, Notice.write]
      | some s =>
        by_cases hs : s.clusterIP = "" <;> by_cases hn : s.clusterIP = "None" <;>
          simp [serviceView, View.notice, handle, Resource.handlers, serviceHandlers,
            ResourceEventHandlerFuncs.handle, upsertService, ha, hs, hn, Notice.write,
            Cache.setService, Cache.deleteService]
    · simp [serviceView, View.notice, hr, handle_svcMap_of_ne c hr]

/-- The node handlers keep `nodeMap` as a directory of the nodes. -/
theorem nodeView_faithful : nodeView.Faithful where
  empty := rfl
  handle ι c d := by
    by_cases hr : d.resource = .nodes
    · obtain ⟨r,uid,e⟩ := d
      obtain rfl : r = .nodes := hr
      rcases e with obj | ⟨old,obj⟩ | obj <;> cases ha : obj.asNode <;>
        simp [nodeView, View.notice, handle, Resource.handlers, nodeHandlers,
          ResourceEventHandlerFuncs.handle, upsertNode, ha, Notice.write, Cache.setNode,
          Cache.deleteNode]
    · simp [nodeView, View.notice, hr, handle_nodeMap_of_ne c hr]

variable {ι : Type} [DecidableEq ι]

lemma podView_addr {p : Pod} {ip : String} :
    podView.addr p = some ip ↔ p.podIP ≠ "" ∧ p.podIP = ip := by
  simp [podView]

lemma serviceView_addr {s : Service} {ip : String} : serviceView.addr s = some ip ↔
    (s.clusterIP ≠ "" ∧ s.clusterIP ≠ "None") ∧ s.clusterIP = ip := by
  simp [serviceView]

/-- Every pod delivered with an address and not deleted since is found at that address. -/
def PodsListed (ds : List (Delivery ι)) : Prop :=
  ∀ uid p, podView.latest ds uid = some p → p.podIP ≠ "" →
    ((deliver ds).lookupPod p.podIP).isSome

/-- Every service delivered with a cluster address and not deleted since is found there. -/
def ServicesListed (ds : List (Delivery ι)) : Prop :=
  ∀ uid s, serviceView.latest ds uid = some s → s.clusterIP ≠ "" → s.clusterIP ≠ "None" →
    ((deliver ds).lookupService s.clusterIP).isSome

/-- A pod found in the cache is a live pod standing at that address, as last delivered. -/
def PodsCurrent (ds : List (Delivery ι)) : Prop :=
  ∀ ip info, (deliver ds).lookupPod ip = some info →
    ∃ uid p, podView.latest ds uid = some p ∧ p.podIP = ip ∧ info = ⟨p.name,p.ns,p.nodeName⟩

/-- A service found in the cache is a live service at that address, as last delivered. -/
def ServicesCurrent (ds : List (Delivery ι)) : Prop :=
  ∀ ip info, (deliver ds).lookupService ip = some info →
    ∃ uid s, serviceView.latest ds uid = some s ∧ s.clusterIP = ip ∧ info = ⟨s.name,s.ns⟩

lemma podsListed_iff (ds : List (Delivery ι)) : PodsListed ds ↔ podView.Listed ds := by
  unfold PodsListed View.Listed
  simp only [podView_addr]
  constructor
  · rintro h uid p _ hp ⟨hne,rfl⟩
    exact h uid p hp hne
  · intro h uid p hp hne
    exact h uid p p.podIP hp ⟨hne,rfl⟩

lemma servicesListed_iff (ds : List (Delivery ι)) :
    ServicesListed ds ↔ serviceView.Listed ds := by
  unfold ServicesListed View.Listed
  simp only [serviceView_addr]
  constructor
  · rintro h uid s _ hs ⟨⟨he,hn⟩,rfl⟩
    exact h uid s hs he hn
  · intro h uid s hs he hn
    exact h uid s s.clusterIP hs ⟨⟨he,hn⟩,rfl⟩

lemma podsCurrent_iff (ds : List (Delivery ι)) : PodsCurrent ds ↔ podView.Current ds := by
  constructor
  · intro h ip info hl
    obtain ⟨uid,p,hp,hip,hi⟩ := h ip info hl
    obtain ⟨q,hq⟩ := podView_faithful.exists_addr_of_listed ds hl
    obtain ⟨hne,rfl⟩ := podView_addr.mp hq
    exact ⟨uid,p,hp,podView_addr.mpr ⟨hip ▸ hne,hip⟩,hi.symm⟩
  · intro h ip info hl
    obtain ⟨uid,p,hp,hip,hi⟩ := h ip info hl
    exact ⟨uid,p,hp,(podView_addr.mp hip).2,hi.symm⟩

lemma servicesCurrent_iff (ds : List (Delivery ι)) :
    ServicesCurrent ds ↔ serviceView.Current ds := by
  constructor
  · intro h ip info hl
    obtain ⟨uid,s,hs,hip,hi⟩ := h ip info hl
    obtain ⟨q,hq⟩ := serviceView_faithful.exists_addr_of_listed ds hl
    obtain ⟨hne,rfl⟩ := serviceView_addr.mp hq
    exact ⟨uid,s,hs,serviceView_addr.mpr ⟨hip ▸ hne,hip⟩,hi.symm⟩
  · intro h ip info hl
    obtain ⟨uid,s,hs,hip,hi⟩ := h ip info hl
    exact ⟨uid,s,hs,(serviceView_addr.mp hip).2,hi.symm⟩

/-- No live endpoint is ever missing from the cache along a delivery exactly when no delete in it
clears an address at which another pod (another service) was last delivered and still lives. -/
theorem endpoints_listed_iff (ds : List (Delivery ι)) :
    (∀ pre, pre <+: ds → PodsListed pre ∧ ServicesListed pre) ↔
      ∀ pre d, pre ++ [d] <+: ds → podView.SafeDelete pre d ∧ serviceView.SafeDelete pre d := by
  simp only [podsListed_iff, servicesListed_iff, forall_and]
  rw [podView_faithful.listed_prefix_iff, serviceView_faithful.listed_prefix_iff]

/-- Two host-network pods on one node share its address; the first is deleted. -/
def hostNetworkPods : List (Delivery ℕ) :=
  [⟨.pods,0,.add (.pod ⟨"proxy","kube-system","10.0.0.5","node-a"⟩)⟩,
   ⟨.pods,1,.add (.pod ⟨"exporter","monitoring","10.0.0.5","node-a"⟩)⟩,
   ⟨.pods,0,.delete (.pod ⟨"proxy","kube-system","10.0.0.5","node-a"⟩)⟩]

/-- The surviving pod is gone from the cache with the deleted one. -/
theorem hostNetworkPods_not_listed : ¬ PodsListed hostNetworkPods := by
  intro h
  have hlive : podView.latest hostNetworkPods 1 =
      some ⟨"exporter","monitoring","10.0.0.5","node-a"⟩ := by decide
  have hfound := h 1 _ hlive (by decide)
  revert hfound
  decide

/-- Everything in the cache is current after every prefix of a delivery exactly when no delivery
in it takes an object off its address, to another or to none, while the cache still lists that
address with an identity no other live object there accounts for. -/
theorem identities_current_iff (ds : List (Delivery ι)) :
    (∀ pre, pre <+: ds → PodsCurrent pre ∧ ServicesCurrent pre) ↔
      ∀ pre d, pre ++ [d] <+: ds →
        podView.CleanDelivery pre d ∧ serviceView.CleanDelivery pre d := by
  simp only [podsCurrent_iff, servicesCurrent_iff, forall_and]
  rw [podView_faithful.current_prefix_iff, serviceView_faithful.current_prefix_iff]

/-- A pod's sandbox is recreated and comes back with a new address. -/
def movedPod : List (Delivery ℕ) :=
  [⟨.pods,0,.add (.pod ⟨"checkout","shop","10.0.0.5","node-a"⟩)⟩,
   ⟨.pods,0,.update (.pod ⟨"checkout","shop","10.0.0.5","node-a"⟩)
     (.pod ⟨"checkout","shop","10.0.0.9","node-a"⟩)⟩]

/-- The address it left is still cached under its old description. -/
theorem movedPod_not_current : ¬ PodsCurrent movedPod := by
  intro h
  have hstale : (deliver movedPod).lookupPod "10.0.0.5" = some ⟨"checkout","shop","node-a"⟩ := by
    decide
  obtain ⟨uid,p,hp,hip,-⟩ := h _ _ hstale
  have hmoved : podView.latest movedPod uid = none ∨
      podView.latest movedPod uid = some ⟨"checkout","shop","10.0.0.9","node-a"⟩ := by
    by_cases hu : 0 = uid <;> simp [View.latest, movedPod, podView, Obj.asPod, hu]
  rcases hmoved with hm | hm <;> rw [hm] at hp
  · cases hp
  · cases hp
    exact absurd hip (by decide)

end Tracewulf.K8s
