import Tracewulf.Base.Run
import Tracewulf.K8s.Informer

/-! Deletes that were missed. When the watch did not see a deletion, the informer reports it later
by a tombstone around the object's last known state. Every delete handler asserts the plain type
and returns when the assertion fails, so the tombstone deletes nothing. -/
namespace Tracewulf.K8s
open Tracewulf.Base Delivery

/-- A notification as the informer had it, or a delete that it may have missed, with the key and
the last known state that the tombstone then carries. -/
inductive Notification (ι : Type)
  | seen (d : Delivery ι)
  | missed (resource : Resource) (uid : ι) (obj : Obj) (key : String) (last : Obj)

namespace Notification

variable {ι : Type}

/-- The delivery when the delete is seen. -/
def typed : Notification ι → Delivery ι
  | seen d => d
  | missed r uid obj _ _ => ⟨r,uid,.delete obj⟩

/-- The delivery when the delete is missed and made up for. -/
def late : Notification ι → Delivery ι
  | seen d => d
  | missed r uid _ key last => ⟨r,uid,.delete (.deletedFinalStateUnknown key last)⟩

end Notification

/-- The caches give the same answers. -/
structure SameAnswers (c c' : Cache) : Prop where
  pod : ∀ ip, c.lookupPod ip = c'.lookupPod ip
  service : ∀ ip, c.lookupService ip = c'.lookupService ip
  node : ∀ name, c.lookupNode name = c'.lookupNode name

lemma sameAnswers_iff {c c' : Cache} : SameAnswers c c' ↔ c = c' := by
  constructor
  · intro h
    obtain ⟨pods,services,nodes⟩ := c
    obtain ⟨pods',services',nodes'⟩ := c'
    obtain rfl : pods = pods' := Finmap.ext_lookup h.pod
    obtain rfl : services = services' := Finmap.ext_lookup h.service
    obtain rfl : nodes = nodes' := Finmap.ext_lookup h.node
    rfl
  · rintro rfl
    exact ⟨fun _ => rfl,fun _ => rfl,fun _ => rfl⟩

/-- The cache holds nothing under the address (or the name) that deleting `obj` would clear. -/
def ClearsNothing (c : Cache) : Resource → Obj → Prop
  | .pods, obj => ∀ p, obj.asPod = some p → p.podIP ≠ "" → c.lookupPod p.podIP = none
  | .services, obj =>
    ∀ s, obj.asService = some s → s.clusterIP ≠ "" → c.lookupService s.clusterIP = none
  | .nodes, obj => ∀ n, obj.asNode = some n → c.lookupNode n.name = none

/-- Erasing a key changes nothing exactly when nothing is there. -/
lemma erase_eq_self {ν : Type} (m : FiniteMap String ν) (k : String) :
    m.erase k = m ↔ m.lookup k = none := by
  constructor
  · intro h
    rw [← h]
    exact Finmap.lookup_erase k m
  · intro h
    apply Finmap.ext_lookup
    intro x
    by_cases hx : x = k
    · subst hx
      rw [h]
      exact Finmap.lookup_erase x m
    · exact Finmap.lookup_erase_ne hx

variable {ι : Type}

/-- A delete that clears nothing is a delete with no effect. -/
lemma handle_delete_eq_self (c : Cache) (r : Resource) (uid : ι) (obj : Obj) :
    handle c ⟨r,uid,.delete obj⟩ = c ↔ ClearsNothing c r obj := by
  obtain ⟨pods,services,nodes⟩ := c
  cases r with
  | pods =>
    cases ha : obj.asPod with
    | none => simp [handle, Resource.handlers, ResourceEventHandlerFuncs.handle, podHandlers,
        ClearsNothing, ha]
    | some p =>
      by_cases hp : p.podIP = "" <;>
        simp [handle, Resource.handlers, ResourceEventHandlerFuncs.handle, podHandlers,
          ClearsNothing, ha, hp, Cache.deletePod, Cache.lookupPod, erase_eq_self]
  | services =>
    cases ha : obj.asService with
    | none => simp [handle, Resource.handlers, ResourceEventHandlerFuncs.handle, serviceHandlers,
        ClearsNothing, ha]
    | some s =>
      by_cases hs : s.clusterIP = "" <;>
        simp [handle, Resource.handlers, ResourceEventHandlerFuncs.handle, serviceHandlers,
          ClearsNothing, ha, hs, Cache.deleteService, Cache.lookupService, erase_eq_self]
  | nodes =>
    cases ha : obj.asNode <;>
      simp [handle, Resource.handlers, ResourceEventHandlerFuncs.handle, nodeHandlers,
        ClearsNothing, ha, Cache.deleteNode, Cache.lookupNode, erase_eq_self]

/-- No handler takes a tombstone apart. -/
lemma handle_tombstone (c : Cache) (r : Resource) (uid : ι) (key : String) (last : Obj) :
    handle c ⟨r,uid,.delete (.deletedFinalStateUnknown key last)⟩ = c := by
  cases r <;> rfl

/-- The caches of the two runs, side by side. -/
def handleBoth (cs : Cache × Cache) (n : Notification ι) : Cache × Cache :=
  (handle cs.1 n.typed,handle cs.2 n.late)

lemma foldl_handleBoth (ns : List (Notification ι)) (cs : Cache × Cache) :
    ns.foldl handleBoth cs = ((ns.map Notification.typed).foldl handle cs.1,
      (ns.map Notification.late).foldl handle cs.2) := by
  induction ns generalizing cs with
  | nil => rfl
  | cons n ns ih => rw [List.foldl_cons, ih]; rfl

/-- Missing the delete is harmless: it is none, or one that would clear nothing. -/
def HarmlessToMiss (c : Cache) : Notification ι → Prop
  | .seen _ => True
  | .missed r _ obj _ _ => ClearsNothing c r obj

/-- Seen and missed deletes leave the same cache, after every notification, exactly when no delete
that is missed would have cleared anything. -/
theorem late_deletes_iff (ns : List (Notification ι)) :
    (∀ pre, pre <+: ns →
      SameAnswers (deliver (pre.map Notification.typed)) (deliver (pre.map Notification.late))) ↔
    ∀ pre n, pre ++ [n] <+: ns → HarmlessToMiss (deliver (pre.map Notification.typed)) n := by
  have hstep : ∀ (cs : Cache × Cache) (n : Notification ι), cs.1 = cs.2 →
      ((handleBoth cs n).1 = (handleBoth cs n).2 ↔ HarmlessToMiss cs.1 n) := by
    rintro ⟨c,c'⟩ n h
    obtain rfl : c = c' := h
    cases n with
    | seen d => exact iff_of_true rfl trivial
    | missed r uid obj key last =>
      simp only [handleBoth, Notification.typed, Notification.late, handle_tombstone]
      exact handle_delete_eq_self c r uid obj
  have hruns := afterEveryPrefix_iff hstep (newCache,newCache) rfl ns
  simp only [AfterEveryPrefix, EveryStep, foldl_handleBoth] at hruns
  simp only [sameAnswers_iff]
  exact hruns

/-- A pod is added; its deletion happens while the watch is down. -/
def missedDelete : List (Notification ℕ) :=
  [.seen ⟨.pods,0,.add (.pod ⟨"checkout","shop","10.0.0.5","node-a"⟩)⟩,
   .missed .pods 0 (.pod ⟨"checkout","shop","10.0.0.5","node-a"⟩) "shop/checkout"
     (.pod ⟨"checkout","shop","10.0.0.5","node-a"⟩)]

/-- The pod stays in the cache for good. -/
theorem missedDelete_differs :
    ¬ SameAnswers (deliver (missedDelete.map Notification.typed))
      (deliver (missedDelete.map Notification.late)) := by
  intro h
  have hpod := h.pod "10.0.0.5"
  revert hpod
  decide

end Tracewulf.K8s
