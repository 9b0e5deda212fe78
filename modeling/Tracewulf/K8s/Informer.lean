import Tracewulf.K8s.Cache

/-! The three informers' event handlers. client-go hands a handler an untyped object; each handler
asserts the type it wants and returns without effect when the assertion fails. A delete whose
watch event was missed arrives as a tombstone wrapping the last known state. -/
namespace Tracewulf.K8s
open Tracewulf.Base

structure Pod where
  name : String
  ns : String
  /-- `Status.PodIP` -/
  podIP : String
  /-- `Spec.NodeName` -/
  nodeName : String
  deriving DecidableEq, Repr

structure Service where
  name : String
  ns : String
  /-- `Spec.ClusterIP` -/
  clusterIP : String
  deriving DecidableEq, Repr

structure Node where
  name : String
  labels : FiniteMap String String

/-- The dynamic types an `interface{}` argument of a handler can have. -/
inductive Obj
  | pod (p : Pod)
  | service (s : Service)
  | node (n : Node)
  | deletedFinalStateUnknown (key : String) (obj : Obj)

namespace Obj

/-- `obj.(*corev1.Pod)` -/
def asPod : Obj → Option Pod
  | pod p => some p
  | _ => none

/-- `obj.(*corev1.Service)` -/
def asService : Obj → Option Service
  | service s => some s
  | _ => none

/-- `obj.(*corev1.Node)` -/
def asNode : Obj → Option Node
  | node n => some n
  | _ => none

end Obj

def zoneFromLabels (labels : FiniteMap String String) : String :=
  match labels.lookup "topology.kubernetes.io/zone" with
  | some z => z
  | none =>
    match labels.lookup "failure-domain.beta.kubernetes.io/zone" with
    | some z => z
    | none => "unknown"

def Pod.info (p : Pod) : PodInfo := ⟨p.name,p.ns,p.nodeName⟩
def Service.info (s : Service) : ServiceInfo := ⟨s.name,s.ns⟩
def Node.info (n : Node) : NodeInfo := ⟨n.name,zoneFromLabels n.labels⟩

/-- The body the pod handlers' `AddFunc` and `UpdateFunc` share. -/
def upsertPod (c : Cache) (obj : Obj) : Cache :=
  match obj.asPod with
  | none => c
  | some pod => if pod.podIP = "" then c else c.setPod pod.podIP pod.info

/-- The body the service handlers' `AddFunc` and `UpdateFunc` share. -/
def upsertService (c : Cache) (obj : Obj) : Cache :=
  match obj.asService with
  | none => c
  | some svc =>
    if svc.clusterIP = "" ∨ svc.clusterIP = "None" then c
    else c.setService svc.clusterIP svc.info

/-- The body the node handlers' `AddFunc` and `UpdateFunc` share. -/
def upsertNode (c : Cache) (obj : Obj) : Cache :=
  match obj.asNode with
  | none => c
  | some node => c.setNode node.name node.info

/-- `cache.ResourceEventHandlerFuncs`, with the pod cache the closures capture made explicit. -/
structure ResourceEventHandlerFuncs where
  addFunc : Cache → Obj → Cache
  updateFunc : Cache → Obj → Obj → Cache
  deleteFunc : Cache → Obj → Cache

def podHandlers : ResourceEventHandlerFuncs where
  addFunc := upsertPod
  updateFunc c _oldObj newObj := upsertPod c newObj
  deleteFunc c obj :=
    match obj.asPod with
    | none => c
    | some pod => if pod.podIP ≠ "" then c.deletePod pod.podIP else c

def serviceHandlers : ResourceEventHandlerFuncs where
  addFunc := upsertService
  updateFunc c _oldObj newObj := upsertService c newObj
  -- unlike the other two, this one does not single out "None"
  deleteFunc c obj :=
    match obj.asService with
    | none => c
    | some svc => if svc.clusterIP ≠ "" then c.deleteService svc.clusterIP else c

def nodeHandlers : ResourceEventHandlerFuncs where
  addFunc := upsertNode
  updateFunc c _oldObj newObj := upsertNode c newObj
  deleteFunc c obj :=
    match obj.asNode with
    | none => c
    | some node => c.deleteNode node.name

/-- A notification as an informer delivers it to its handlers. -/
inductive Event
  | add (obj : Obj)
  | update (oldObj newObj : Obj)
  | delete (obj : Obj)

def ResourceEventHandlerFuncs.handle (h : ResourceEventHandlerFuncs) (c : Cache) : Event → Cache
  | .add obj => h.addFunc c obj
  | .update oldObj newObj => h.updateFunc c oldObj newObj
  | .delete obj => h.deleteFunc c obj

section Frame

variable (c : Cache) (obj : Obj) (e : Event)

lemma upsertPod_frame :
    (upsertPod c obj).svcMap = c.svcMap ∧ (upsertPod c obj).nodeMap = c.nodeMap := by
  rw [upsertPod]
  cases obj.asPod with
  | none => exact ⟨rfl,rfl⟩
  | some pod =>
    dsimp only
    split_ifs <;> exact ⟨rfl,rfl⟩

lemma upsertService_frame :
    (upsertService c obj).ipMap = c.ipMap ∧ (upsertService c obj).nodeMap = c.nodeMap := by
  rw [upsertService]
  cases obj.asService with
  | none => exact ⟨rfl,rfl⟩
  | some svc =>
    dsimp only
    split_ifs <;> exact ⟨rfl,rfl⟩

lemma podHandlers_frame : (podHandlers.handle c e).svcMap = c.svcMap ∧
    (podHandlers.handle c e).nodeMap = c.nodeMap := by
  cases e with
  | add obj => exact upsertPod_frame c obj
  | update oldObj obj => exact upsertPod_frame c obj
  | delete obj =>
    simp only [ResourceEventHandlerFuncs.handle, podHandlers]
    cases obj.asPod with
    | none => exact ⟨rfl,rfl⟩
    | some pod =>
      dsimp only
      split_ifs <;> exact ⟨rfl,rfl⟩

lemma serviceHandlers_frame : (serviceHandlers.handle c e).ipMap = c.ipMap ∧
    (serviceHandlers.handle c e).nodeMap = c.nodeMap := by
  cases e with
  | add obj => exact upsertService_frame c obj
  | update oldObj obj => exact upsertService_frame c obj
  | delete obj =>
    simp only [ResourceEventHandlerFuncs.handle, serviceHandlers]
    cases obj.asService with
    | none => exact ⟨rfl,rfl⟩
    | some svc =>
      dsimp only
      split_ifs <;> exact ⟨rfl,rfl⟩

lemma nodeHandlers_frame : (nodeHandlers.handle c e).ipMap = c.ipMap ∧
    (nodeHandlers.handle c e).svcMap = c.svcMap := by
  rcases e with obj | ⟨old,obj⟩ | obj <;> cases obj <;> exact ⟨rfl,rfl⟩

end Frame

/-- The three informers `StartInformer` runs concurrently. -/
inductive Resource
  | pods
  | services
  | nodes
  deriving DecidableEq, Repr

def Resource.handlers : Resource → ResourceEventHandlerFuncs
  | pods => podHandlers
  | services => serviceHandlers
  | nodes => nodeHandlers

/-- One delivered notification about the object `uid` of a resource. -/
structure Delivery (ι : Type) where
  resource : Resource
  uid : ι
  event : Event

namespace Delivery

variable {ι : Type}

def handle (c : Cache) (d : Delivery ι) : Cache := d.resource.handlers.handle c d.event

/-- The cache after a sequence of deliveries, whichever informers they came from. -/
def deliver (ds : List (Delivery ι)) : Cache := ds.foldl handle newCache

/-- Only the pod informer's handlers write the pod map. -/
lemma handle_ipMap_of_ne (c : Cache) {d : Delivery ι} (h : d.resource ≠ .pods) :
    (handle c d).ipMap = c.ipMap := by
  obtain ⟨r,uid,e⟩ := d
  cases r with
  | pods => exact absurd rfl h
  | services => exact (serviceHandlers_frame c e).1
  | nodes => exact (nodeHandlers_frame c e).1

/-- Only the service informer's handlers write the service map. -/
lemma handle_svcMap_of_ne (c : Cache) {d : Delivery ι} (h : d.resource ≠ .services) :
    (handle c d).svcMap = c.svcMap := by
  obtain ⟨r,uid,e⟩ := d
  cases r with
  | pods => exact (podHandlers_frame c e).1
  | services => exact absurd rfl h
  | nodes => exact (nodeHandlers_frame c e).2

/-- Only the node informer's handlers write the node map. -/
lemma handle_nodeMap_of_ne (c : Cache) {d : Delivery ι} (h : d.resource ≠ .nodes) :
    (handle c d).nodeMap = c.nodeMap := by
  obtain ⟨r,uid,e⟩ := d
  cases r with
  | pods => exact (podHandlers_frame c e).2
  | services => exact (serviceHandlers_frame c e).2
  | nodes => exact absurd rfl h

end Delivery
end Tracewulf.K8s
