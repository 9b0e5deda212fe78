import Tracewulf.Base.Run
import Tracewulf.Ebpf.Conservation
import Tracewulf.K8s.Ordering

/-! Resolving the two addresses of a record against a cache that other goroutines write. Each
lookup takes the cache lock by itself; nothing holds it from the first lookup of a record to the
last. -/
namespace Tracewulf.Ebpf
open Tracewulf.Base Tracewulf.K8s

section At

/-- The name and the zone of an address, by a cache that stands still. -/
def resolveNameAt (c : Cache) (ip : String) : String := (resolveName ip).eval (CacheQuery.answer c)
def resolveZoneAt (c : Cache) (ip : String) : String := (resolveZone ip).eval (CacheQuery.answer c)

lemma resolveNameAt_eq (c : Cache) (ip : String) : resolveNameAt c ip =
    match c.lookupPod ip with
    | some info => "pod:" ++ info.ns ++ "/" ++ info.name
    | none =>
      match c.lookupService ip with
      | some info => "svc:" ++ info.ns ++ "/" ++ info.name
      | none => ip := by
  unfold resolveNameAt resolveName
  rw [Resumption.eval_bind]
  change Resumption.eval _ (match c.lookupPod ip with | some info => _ | none => _) = _
  cases c.lookupPod ip with
  | some info => rfl
  | none =>
    simp only
    rw [Resumption.eval_bind]
    change Resumption.eval _ (match c.lookupService ip with | some info => _ | none => _) = _
    cases c.lookupService ip <;> rfl

/-- The recorded names and zones are those the cache `c` gives the two addresses of the event. -/
structure ResolvedAt (c : Cache) (e : RingbufEvent) (a : FlowArgs) : Prop where
  srcName : a.srcName = resolveNameAt c (ipOfWord e.srcIP).toText
  dstName : a.dstName = resolveNameAt c (ipOfWord e.dstIP).toText
  srcZone : a.srcZone = resolveZoneAt c (ipOfWord e.srcIP).toText
  dstZone : a.dstZone = resolveZoneAt c (ipOfWord e.dstIP).toText

variable {raw : Bytes} {e : RingbufEvent} {mk : Time → Call} {now : Time} {a : FlowArgs}

/-- Handled against a cache that stands still, a record is resolved by it. -/
lemma resolvedAt_of_eval {c : Cache} (he : binaryRead raw = some e)
    (h : (handleRecord raw).eval (CacheQuery.answer c) = some mk) (ha : (mk now).args = some a) :
    ResolvedAt c e a := by
  simp only [handleRecord, he] at h
  split_ifs at h with hexec hrecv hconnect hsend <;>
    simp only [Resumption.eval_bind, Resumption.eval_pure, Option.some.injEq, reduceCtorEq] at h
  · subst h
    cases ha
  · subst h
    obtain rfl := Option.some.inj ha
    exact ⟨rfl,rfl,rfl,rfl⟩
  · subst h
    obtain rfl := Option.some.inj ha
    exact ⟨rfl,rfl,rfl,rfl⟩

end At

section Order

variable {ι : Type} [DecidableEq ι] {ds ds' : List (Delivery ι)}

/-- Whichever informer got ahead: every key is answered and every address resolved alike. -/
theorem resolution_order_irrelevant (hd : DistinctAddresses ds) (ho : SameObjectOrder ds ds') :
    ((∀ ip, (Delivery.deliver ds).lookupPod ip = (Delivery.deliver ds').lookupPod ip) ∧
      (∀ ip, (Delivery.deliver ds).lookupService ip = (Delivery.deliver ds').lookupService ip) ∧
      ∀ name, (Delivery.deliver ds).lookupNode name = (Delivery.deliver ds').lookupNode name) ∧
    ∀ ip, resolveNameAt (Delivery.deliver ds) ip = resolveNameAt (Delivery.deliver ds') ip ∧
      resolveZoneAt (Delivery.deliver ds) ip = resolveZoneAt (Delivery.deliver ds') ip := by
  rw [deliver_order_irrelevant hd ho]
  exact ⟨⟨fun _ => rfl,fun _ => rfl,fun _ => rfl⟩,fun _ => ⟨rfl,rfl⟩⟩

/-- Two pods, a headless service that comes and goes, and a node. -/
def podsFirst : List (Delivery ℕ) :=
  [⟨.pods,0,.add (.pod ⟨"checkout","shop","10.0.0.1","node-a"⟩)⟩,
   ⟨.pods,1,.add (.pod ⟨"search","shop","10.0.0.2","node-a"⟩)⟩,
   ⟨.services,0,.add (.service ⟨"queue","shop","None"⟩)⟩,
   ⟨.services,0,.delete (.service ⟨"queue","shop","None"⟩)⟩,
   ⟨.nodes,0,.add (.node ⟨"node-a",∅⟩)⟩]

/-- The same notifications, with the node informer ahead. -/
def nodesFirst : List (Delivery ℕ) :=
  [⟨.nodes,0,.add (.node ⟨"node-a",∅⟩)⟩,
   ⟨.services,0,.add (.service ⟨"queue","shop","None"⟩)⟩,
   ⟨.pods,1,.add (.pod ⟨"search","shop","10.0.0.2","node-a"⟩)⟩,
   ⟨.services,0,.delete (.service ⟨"queue","shop","None"⟩)⟩,
   ⟨.pods,0,.add (.pod ⟨"checkout","shop","10.0.0.1","node-a"⟩)⟩]

lemma podsFirst_distinct : DistinctAddresses podsFirst := by
  constructor <;> intro d hd d' hd' hr hr' hu <;>
    simp only [podsFirst, List.mem_cons, List.not_mem_nil, or_false] at hd hd' <;>
    rcases hd with rfl | rfl | rfl | rfl | rfl <;> simp only [reduceCtorEq] at hr <;>
    rcases hd' with rfl | rfl | rfl | rfl | rfl <;>
    simp_all [Event.obj, Obj.asPod]

lemma podsFirst_sameObjectOrder : SameObjectOrder podsFirst nodesFirst := by
  intro r uid
  cases r <;> by_cases h₀ : 0 = uid <;> by_cases h₁ : 1 = uid <;>
    first | omega | simp_all [podsFirst, nodesFirst]

theorem resolution_order_irrelevant_nodesFirst :
    ((∀ ip, (Delivery.deliver podsFirst).lookupPod ip =
        (Delivery.deliver nodesFirst).lookupPod ip) ∧
      (∀ ip, (Delivery.deliver podsFirst).lookupService ip =
        (Delivery.deliver nodesFirst).lookupService ip) ∧
      ∀ name, (Delivery.deliver podsFirst).lookupNode name =
        (Delivery.deliver nodesFirst).lookupNode name) ∧
    ∀ ip, resolveNameAt (Delivery.deliver podsFirst) ip =
        resolveNameAt (Delivery.deliver nodesFirst) ip ∧
      resolveZoneAt (Delivery.deliver podsFirst) ip =
        resolveZoneAt (Delivery.deliver nodesFirst) ip :=
  resolution_order_irrelevant podsFirst_distinct podsFirst_sameObjectOrder

end Order

section Interleaved

/-- The writes the informers' handlers make, each under the cache lock. -/
inductive CacheWrite
  | setPod (ip : String) (info : PodInfo)
  | deletePod (ip : String)
  | setService (ip : String) (info : ServiceInfo)
  | deleteService (ip : String)
  | setNode (name : String) (info : NodeInfo)
  | deleteNode (name : String)

def CacheWrite.apply (c : Cache) : CacheWrite → Cache
  | setPod ip info => c.setPod ip info
  | deletePod ip => c.deletePod ip
  | setService ip info => c.setService ip info
  | deleteService ip => c.deleteService ip
  | setNode name info => c.setNode name info
  | deleteNode name => c.deleteNode name

/-- A locked operation on the cache: a handler's write, or the next lookup of the event loop. -/
abbrev Turn := Resumption.Turn CacheWrite

/-- A lookup with its answer. -/
abbrev Lookup := (q : CacheQuery) × q.Answer

/-- Handling goes on from the cache and the rest of the handling as the turns say; the lookups made
on the way are seen. -/
def interleave {ρ : Type} (s : Cache × Lookups ρ) (ts : List Turn) :
    Option ((Cache × Lookups ρ) × List Lookup) :=
  run (Resumption.turn CacheWrite.apply CacheQuery.answer) s ts

/-- The cache after the writes of some turns. -/
def cacheAfter (c : Cache) (ts : List Turn) : Cache := Resumption.stateAfter CacheWrite.apply c ts

/-- No write among the turns changes the answer to a lookup that is made. -/
def Untouched (c : Cache) (ts : List Turn) (made : List Lookup) : Prop :=
  ∀ pre w, pre ++ [.write w] <+: ts → ∀ x ∈ made,
    x.1.answer (w.apply (cacheAfter c pre)) = x.1.answer (cacheAfter c pre)

variable {raw : Bytes} {e : RingbufEvent} {mk : Time → Call} {now : Time} {a : FlowArgs}
  {c c' : Cache} {mid : List Turn} {made : List Lookup}

/-- From the first lookup of a record to the last, with any writes in between: each lookup is
answered by the cache of its own moment; a cache on the way that gives all those answers resolves
the record as recorded; and if nothing looked up is written, every cache on the way does. -/
theorem resolution_by_moments
    (hrun : interleave (c,handleRecord raw) (.read::(mid ++ [.read])) =
      some ((c',.done (some mk)),made))
    (he : binaryRead raw = some e) (ha : (mk now).args = some a) :
    (handleRecord raw).evalInTurn
        ((Resumption.readStates CacheWrite.apply c (.read::(mid ++ [.read]))).map
          CacheQuery.answer) = some (some mk) ∧
    (∀ pre, pre <+: .read::(mid ++ [.read]) →
      (∀ x ∈ made, x.1.answer (cacheAfter c pre) = x.2) → ResolvedAt (cacheAfter c pre) e a) ∧
    (Untouched c (.read::(mid ++ [.read])) made →
      ∀ pre, pre <+: .read::(mid ++ [.read]) → ResolvedAt (cacheAfter c pre) e a) := by
  have hagree : ∀ f : (q : CacheQuery) → q.Answer, (∀ x ∈ made, f x.1 = x.2) →
      (handleRecord raw).eval f = some mk := fun f hf => Resumption.eval_of_run hrun hf
  have hat : ∀ pre, (∀ x ∈ made, x.1.answer (cacheAfter c pre) = x.2) →
      ResolvedAt (cacheAfter c pre) e a := fun pre hpre =>
    resolvedAt_of_eval he (hagree _ hpre) ha
  refine ⟨Resumption.evalInTurn_of_run hrun,fun pre _ => hat pre,fun hu pre hpre => ?_⟩
  apply hat pre
  intro x hx
  obtain ⟨own,hown,hx2⟩ := Resumption.exists_state_of_mem hrun hx
  have hsame : ∀ {p : List Turn}, p <+: .read::(mid ++ [.read]) →
      x.1.answer (cacheAfter c p) = x.1.answer c := fun hp =>
    Resumption.answer_stateAfter c (fun q w hq => hu q w hq x hx) hp
  rw [hsame hpre, hx2]
  exact (hsame hown).symm

/-- The one write a notification makes, if it makes one. -/
def handlerWrite : Resource → Event → Option CacheWrite
  | .pods, .add obj | .pods, .update _ obj => obj.asPod.bind fun p =>
    if p.podIP = "" then none else some (.setPod p.podIP p.info)
  | .pods, .delete obj => obj.asPod.bind fun p =>
    if p.podIP = "" then none else some (.deletePod p.podIP)
  | .services, .add obj | .services, .update _ obj => obj.asService.bind fun s =>
    if s.clusterIP = "" ∨ s.clusterIP = "None" then none else some (.setService s.clusterIP s.info)
  | .services, .delete obj => obj.asService.bind fun s =>
    if s.clusterIP = "" then none else some (.deleteService s.clusterIP)
  | .nodes, .add obj | .nodes, .update _ obj => obj.asNode.map fun n => .setNode n.name n.info
  | .nodes, .delete obj => obj.asNode.map fun n => .deleteNode n.name

/-- Every handler call is at most one locked write. -/
lemma handle_eq_write (c : Cache) (r : Resource) (ev : Event) :
    r.handlers.handle c ev = (handlerWrite r ev).elim c (CacheWrite.apply c) := by
  cases r with
  | pods =>
    rcases ev with obj | ⟨old,obj⟩ | obj <;> cases ha : obj.asPod with
    | none => simp [Resource.handlers, podHandlers, ResourceEventHandlerFuncs.handle, upsertPod,
        handlerWrite, ha]
    | some p => by_cases hp : p.podIP = "" <;>
        simp [Resource.handlers, podHandlers, ResourceEventHandlerFuncs.handle, upsertPod,
          handlerWrite, ha, hp, CacheWrite.apply]
  | services =>
    rcases ev with obj | ⟨old,obj⟩ | obj <;> cases ha : obj.asService with
    | none => simp [Resource.handlers, serviceHandlers, ResourceEventHandlerFuncs.handle,
        upsertService, handlerWrite, ha]
    | some s => by_cases hs : s.clusterIP = "" <;> by_cases hn : s.clusterIP = "None" <;>
        simp [Resource.handlers, serviceHandlers, ResourceEventHandlerFuncs.handle, upsertService,
          handlerWrite, ha, hs, hn, CacheWrite.apply]
  | nodes =>
    rcases ev with obj | ⟨old,obj⟩ | obj <;> cases ha : obj.asNode <;>
      simp [Resource.handlers, nodeHandlers, ResourceEventHandlerFuncs.handle, upsertNode,
        handlerWrite, ha, CacheWrite.apply]

/-- What an action of the daemon is to the handling of a record. -/
def Action.turn : Action → Option Turn
  | .informer r ev => (handlerWrite r ev).map .write
  | .lookup => some .read
  | _ => none

/-- While the daemon handles a record, its run is an interleaving of the handling with writes. -/
theorem interleave_of_run {κ : Type} [CostNum κ] {codec : Codec κ} {cfg : Config κ}
    {d d' : Daemon κ} {acts : List Action} {tr : List (Seen κ)}
    {rest : Lookups (Option (Time → Call))} (hloop : d.loop = .handling raw rest)
    (hopen : ∀ now, .finish now ∉ acts) (hrun : d.run codec cfg acts = some (d',tr)) :
    ∃ rest' made, d'.loop = .handling raw rest' ∧
      interleave (d.cache,rest) (acts.filterMap Action.turn) = some ((d'.cache,rest'),made) := by
  induction acts generalizing d rest tr with
  | nil =>
    simp only [Daemon.run, run, Option.some.injEq, Prod.mk.injEq] at hrun
    obtain ⟨rfl,-⟩ := hrun
    exact ⟨rest,[],hloop,rfl⟩
  | cons act acts ih =>
    obtain ⟨d₁,seen,later,hstep,htail,-⟩ := run_cons_eq_some hrun
    have hopen' : ∀ now, .finish now ∉ acts := fun now h => hopen now (List.mem_cons_of_mem _ h)
    have hcache := cache_of_step hstep
    have hmoves := moves_of_step hloop hstep
    cases act with
    | informer r ev =>
      obtain ⟨rest',made,hrest,hturns⟩ := ih hmoves hopen' htail
      refine ⟨rest',made,hrest,?_⟩
      rw [hcache, Action.onCache, handle_eq_write] at hturns
      cases hw : handlerWrite r ev with
      | none =>
        rw [hw, Option.elim_none] at hturns
        rwa [List.filterMap_cons_none (by rw [Action.turn, hw]; rfl)]
      | some w =>
        rw [hw, Option.elim_some] at hturns
        have hwrite : Resumption.turn CacheWrite.apply CacheQuery.answer (d.cache,rest) (.write w) =
            some ((w.apply d.cache,rest),[]) := rfl
        rw [List.filterMap_cons_some (by rw [Action.turn, hw]; rfl)]
        exact run_cons_of_eq_some hwrite hturns
    | lookup =>
      obtain ⟨q,resume,rfl,hloop'⟩ := hmoves
      obtain ⟨rest',made,hrest,hturns⟩ := ih hloop' hopen' htail
      rw [hcache] at hturns
      have hread : Resumption.turn CacheWrite.apply CacheQuery.answer (d.cache,.ask q resume)
          .read = some ((d.cache,resume (q.answer d.cache)),[⟨q,q.answer d.cache⟩]) := rfl
      exact ⟨rest',_,hrest,run_cons_of_eq_some hread hturns⟩
    | finish now => exact absurd List.mem_cons_self (hopen now)
    | readRecord raw => exact hmoves.elim
    | readClosed => exact hmoves.elim
    | readError err => exact hmoves.elim
    | _ =>
      obtain ⟨rest',made,hrest,hturns⟩ := ih hmoves hopen' htail
      rw [hcache] at hturns
      exact ⟨rest',made,hrest,hturns⟩

end Interleaved

section Demo

/-- A pod and the nodes of two zones. -/
def busyCache : Cache :=
  ((newCache.setPod "10.0.0.1" ⟨"checkout","shop","node-a"⟩).setNode "node-a"
    ⟨"node-a","us-east-1a"⟩).setNode "node-b" ⟨"node-b","us-east-1b"⟩

/-- Between the lookups for the names and those for the zones, the address of the sender passes
from one pod to another. -/
def handover : List Turn :=
  [.read,.read,.write (.deletePod "10.0.0.1"),
    .write (.setPod "10.0.0.1" ⟨"search","shop","node-b"⟩),.read,.read]

/-- The arguments of the recording call a handling has come to. -/
def outcome (r : (Cache × Lookups (Option (Time → Call))) × List Lookup) : Option FlowArgs :=
  match r.1.2 with
  | .done (some mk) => (mk 0).args
  | _ => none

lemma exists_of_outcome {s : Cache × Lookups (Option (Time → Call))} {ts : List Turn}
    {a : FlowArgs} (h : (interleave s ts).bind outcome = some a) :
    ∃ c' mk made, interleave s ts = some ((c',.done (some mk)),made) ∧ (mk 0).args = some a := by
  obtain ⟨⟨⟨c',rest⟩,made⟩,hrun,hout⟩ := Option.bind_eq_some_iff.mp h
  unfold outcome at hout
  split at hout
  · rename_i mk hrest
    obtain rfl : rest = .done (some mk) := hrest
    exact ⟨c',mk,made,hrun,hout⟩
  · cases hout

/-- Between the same lookups, another pod comes up. -/
def bystander : List Turn :=
  [.read,.read,.write (.setPod "10.0.0.9" ⟨"search","shop","node-b"⟩),.read,.read]

theorem resolution_by_moments_bystander : ∃ c' mk made a,
    interleave (busyCache,handleRecord sendRecord) (.read::(bystander ++ [.read])) =
      some ((c',.done (some mk)),made) ∧ (mk 0).args = some a ∧
    ((handleRecord sendRecord).evalInTurn
        ((Resumption.readStates CacheWrite.apply busyCache (.read::(bystander ++ [.read]))).map
          CacheQuery.answer) = some (some mk) ∧
      (∀ pre, pre <+: .read::(bystander ++ [.read]) →
        (∀ x ∈ made, x.1.answer (cacheAfter busyCache pre) = x.2) →
        ResolvedAt (cacheAfter busyCache pre) (decodeFields sendRecord) a) ∧
      (Untouched busyCache (.read::(bystander ++ [.read])) made →
        ∀ pre, pre <+: .read::(bystander ++ [.read]) →
          ResolvedAt (cacheAfter busyCache pre) (decodeFields sendRecord) a)) := by
  have hout : (interleave (busyCache,handleRecord sendRecord)
      (.read::(bystander ++ [.read]))).bind outcome =
      some ⟨"pod:shop/checkout","10.0.0.2",443,"internal","us-east-1a","",0⟩ := by
    decide +kernel
  obtain ⟨c',mk,made,hrun,ha⟩ := exists_of_outcome hout
  exact ⟨c',mk,made,_,hrun,ha,resolution_by_moments hrun (by decide +kernel) ha⟩

/-- The flow is named after the pod that left and gets the zone of the pod that came, and at no
moment did the cache resolve it so. -/
theorem handover_mixes : ∃ c' mk made e a,
    interleave (busyCache,handleRecord sendRecord) (.read::(handover ++ [.read])) =
      some ((c',.done (some mk)),made) ∧
    binaryRead sendRecord = some e ∧ (mk 0).args = some a ∧
    a.srcName = "pod:shop/checkout" ∧ a.srcZone = "us-east-1b" ∧
    ¬ ∃ pre, pre <+: .read::(handover ++ [.read]) ∧ ResolvedAt (cacheAfter busyCache pre) e a := by
  have hout : (interleave (busyCache,handleRecord sendRecord)
      (.read::(handover ++ [.read]))).bind outcome =
      some ⟨"pod:shop/checkout","10.0.0.2",443,"internal","us-east-1b","",0⟩ := by
    decide +kernel
  obtain ⟨c',mk,made,hrun,ha⟩ := exists_of_outcome hout
  refine ⟨c',mk,made,decodeFields sendRecord,_,hrun,by decide +kernel,ha,rfl,rfl,?_⟩
  rintro ⟨pre,hpre,hat⟩
  have hsrc : (ipOfWord (decodeFields sendRecord).srcIP).toText = "10.0.0.1" := by decide +kernel
  have hnever : ∀ pre ∈ List.inits (.read::(handover ++ [.read])),
      ¬ (resolveNameAt (cacheAfter busyCache pre) "10.0.0.1" = "pod:shop/checkout" ∧
        resolveZoneAt (cacheAfter busyCache pre) "10.0.0.1" = "us-east-1b") := by
    decide +kernel
  have hname := hat.srcName
  have hzone := hat.srcZone
  rw [hsrc] at hname hzone
  exact hnever pre ((List.mem_inits _ _).mpr hpre) ⟨hname.symm,hzone.symm⟩

end Demo
end Tracewulf.Ebpf
