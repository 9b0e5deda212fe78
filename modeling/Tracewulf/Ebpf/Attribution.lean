import Tracewulf.Ebpf.CrossZone
import Tracewulf.Ebpf.Shutdown
import Tracewulf.K8s.Endpoints

/-! Where a cross-zone mark comes from. A zone label is copied from node to cache, from cache to
call, from call to live record and from there to the snapshot; a journal of the run, with every
action beside what it showed, is what each copy is traced back through. -/
namespace Tracewulf.Ebpf
open Tracewulf.Base Tracewulf.K8s KeyedFold

/-- The actions of a run in order, each with what an observer was told. -/
abbrev Journal (κ : Type) := List (Action × List (Seen κ))

/-- A run of the daemon and its journal. -/
def Daemon.journal {κ : Type} [CostNum κ] (codec : Codec κ) (cfg : Config κ) (d : Daemon κ)
    (acts : List Action) : Option (Daemon κ × Journal κ) :=
  Base.run (logged (Daemon.step codec cfg)) d acts

/-- The two ends of a flow. -/
inductive Side
  | src
  | dst

namespace Side

def word : Side → RingbufEvent → UInt32
  | src => RingbufEvent.srcIP
  | dst => RingbufEvent.dstIP

def zoneArg : Side → FlowArgs → String
  | src => FlowArgs.srcZone
  | dst => FlowArgs.dstZone

def zoneStat : Side → ConnStat → String
  | src => ConnStat.srcZone
  | dst => ConnStat.dstZone

end Side

section Delivered

variable {κ : Type}

/-- The informer of a resource has delivered the object, with an add or as an update's new state. -/
def DeliveredTo (r : Resource) (j : Journal κ) (obj : Obj) : Prop :=
  ∃ ev out, (.informer r ev,out) ∈ j ∧ (ev = .add obj ∨ ∃ old, ev = .update old obj)

/-- The zone the labels give, the older label only where the newer is absent. -/
def Labelled (labels : FiniteMap String String) (zone : String) : Prop :=
  labels.lookup "topology.kubernetes.io/zone" = some zone ∨
    labels.lookup "topology.kubernetes.io/zone" = none ∧
      labels.lookup "failure-domain.beta.kubernetes.io/zone" = some zone

/-- A pod with this address and a node of that pod's node name, labelled with the zone, have both
been delivered. -/
def ZoneDelivered (j : Journal κ) (ip zone : String) : Prop :=
  ∃ p n, DeliveredTo .pods j (.pod p) ∧ p.podIP = ip ∧ p.nodeName ≠ "" ∧
    DeliveredTo .nodes j (.node n) ∧ n.name = p.nodeName ∧ Labelled n.labels zone

/-- Some CONNECT or SEND record of the flow was finished in the interval the journal ends in, when
the zone of its address on that side had been delivered. -/
def Backed (side : Side) (j : Journal κ) (flow zone : String) : Prop :=
  ∃ earlier now raw call interval e,
    j = earlier ++ (.finish now,[.handled raw (some call)])::interval ∧
    (∀ x ∈ interval, ∀ snap, .snapshot snap ∉ x.2) ∧
    binaryRead raw = some e ∧ (e.type = eventConnect ∨ e.type = eventSend) ∧
    call.key = some flow ∧ ZoneDelivered earlier (ipOfWord (side.word e)).toText zone

variable {j j' : Journal κ}

lemma labelled_of_zoneFromLabels {labels : FiniteMap String String} {zone : String}
    (h : zoneFromLabels labels = zone) (hz : zone ≠ "unknown") : Labelled labels zone := by
  unfold zoneFromLabels at h
  cases hnew : labels.lookup "topology.kubernetes.io/zone" with
  | some z =>
    rw [hnew] at h
    exact Or.inl (hnew.trans (congrArg some h))
  | none =>
    rw [hnew] at h
    cases hold : labels.lookup "failure-domain.beta.kubernetes.io/zone" with
    | some z =>
      rw [hold] at h
      exact Or.inr ⟨hnew,hold.trans (congrArg some h)⟩
    | none =>
      rw [hold] at h
      exact absurd h.symm hz

/-- What a lookup may answer, going by what the informers have delivered. -/
def Told (j : Journal κ) : (q : CacheQuery) → q.Answer → Prop
  | .lookupPod ip, answer => ∀ info, answer = some info →
      ∃ p, DeliveredTo .pods j (.pod p) ∧ p.podIP = ip ∧ p.info = info
  | .lookupService _, _ => True
  | .lookupNode name, answer => ∀ info, answer = some info →
      ∃ n, DeliveredTo .nodes j (.node n) ∧ n.name = name ∧ n.info = info

/-- The zones of a call are empty, or delivered for the addresses of its record. -/
def Attested (j : Journal κ) (raw : Bytes) (a : FlowArgs) : Prop :=
  ∃ e, binaryRead raw = some e ∧ (e.type = eventConnect ∨ e.type = eventSend) ∧
    ∀ side : Side, side.zoneArg a ≠ "" → side.zoneArg a ≠ "unknown" ∧
      ZoneDelivered j (ipOfWord (side.word e)).toText (side.zoneArg a)

lemma DeliveredTo.mono {r : Resource} {obj : Obj} (h : DeliveredTo r j obj) (hj : j <+: j') :
    DeliveredTo r j' obj := by
  obtain ⟨ev,out,hmem,hev⟩ := h
  exact ⟨ev,out,hj.subset hmem,hev⟩

lemma Told.mono {q : CacheQuery} {answer : q.Answer} (h : Told j q answer) (hj : j <+: j') :
    Told j' q answer := by
  cases q with
  | lookupPod ip =>
    intro info ha
    obtain ⟨p,hp,hip⟩ := h info ha
    exact ⟨p,hp.mono hj,hip⟩
  | lookupService ip => trivial
  | lookupNode name =>
    intro info ha
    obtain ⟨n,hn,hname⟩ := h info ha
    exact ⟨n,hn.mono hj,hname⟩

end Delivered

section Handling

variable {κ : Type} {j : Journal κ}

/-- From delivered answers, a resolved zone is empty or a delivered one. -/
lemma resolveZone_delivered (j : Journal κ) (ip : String) : (resolveZone ip).EndsUnder (Told j)
    fun zone => zone ≠ "" → zone ≠ "unknown" ∧ ZoneDelivered j ip zone := by
  refine Resumption.endsUnder_bind (G := fun answer => Told j (.lookupPod ip) answer)
    (fun _ h => h) fun answer hpod => ?_
  cases answer with
  | none => exact fun h => absurd rfl h
  | some info =>
    obtain ⟨p,hp,hip,rfl⟩ := hpod info rfl
    simp only
    split_ifs with hnode
    · exact fun h => absurd rfl h
    refine Resumption.endsUnder_bind
      (G := fun answer => Told j (.lookupNode p.info.node) answer)
      (fun _ h => h) fun answer hnodes => ?_
    cases answer with
    | none => exact fun h => absurd rfl h
    | some node =>
      obtain ⟨n,hn,hname,rfl⟩ := hnodes node rfl
      simp only
      split_ifs with hunknown
      · exact fun h => absurd rfl h
      · intro _
        exact ⟨hunknown,p,n,hp,hip,hnode,hn,hname,labelled_of_zoneFromLabels rfl hunknown⟩

/-- From delivered answers, a record ends in a call that is attested. -/
lemma handleRecord_attested (j : Journal κ) (raw : Bytes) : (handleRecord raw).EndsUnder (Told j)
    fun call => ∀ mk, call = some mk → ∀ now a, (mk now).args = some a → Attested j raw a := by
  unfold handleRecord
  cases he : binaryRead raw with
  | none => rintro mk ⟨⟩
  | some e =>
    simp only
    by_cases hexec : e.type = eventExec
    · rw [if_pos hexec]
      rintro mk ⟨⟩ now a ⟨⟩
    by_cases hrecv : e.type = eventRecv
    · rw [if_neg hexec, if_pos hrecv]
      rintro mk ⟨⟩
    rw [if_neg hexec, if_neg hrecv]
    refine Resumption.endsUnder_bind (Resumption.endsUnder_true _) fun srcName _ =>
      Resumption.endsUnder_bind (Resumption.endsUnder_true _) fun dstName _ =>
      Resumption.endsUnder_bind (resolveZone_delivered j _) fun srcZone hsrc =>
      Resumption.endsUnder_bind (resolveZone_delivered j _) fun dstZone hdst => ?_
    split_ifs with hconnect hsend
    · rintro mk ⟨⟩ now a ⟨⟩
      exact ⟨e,he,Or.inl hconnect,fun side => by cases side; exacts [hsrc,hdst]⟩
    · rintro mk ⟨⟩ now a ⟨⟩
      exact ⟨e,he,Or.inr hsend,fun side => by cases side; exacts [hsrc,hdst]⟩
    · rintro mk ⟨⟩

end Handling

section Invariant

variable {κ : Type} [CostNum κ] {codec : Codec κ} {cfg : Config κ} {j : Journal κ}
  {d d' : Daemon κ} {act : Action} {seen : List (Seen κ)}

/-- The notification an action delivers. -/
def Action.delivery : Action → Option (Delivery Unit)
  | .informer r ev => some ⟨r,(),ev⟩
  | _ => none

/-- The cache holds what has been delivered, and nothing else. -/
def CacheDelivered (j : Journal κ) (d : Daemon κ) : Prop :=
  d.cache = Delivery.deliver (j.filterMap fun x => x.1.delivery)

/-- The record in hand ends in an attested call, however much is delivered before it does. -/
def InHandAttested (j : Journal κ) (d : Daemon κ) : Prop :=
  ∀ raw rest, d.loop = .handling raw rest → ∀ j', j <+: j' → rest.EndsUnder (Told j')
    fun call => ∀ mk, call = some mk → ∀ now a, (mk now).args = some a → Attested j' raw a

/-- Every call since the last snapshot was made in the interval the journal ends in, by a record
that was attested when it was finished. -/
def CallsAttested (j : Journal κ) : Prop :=
  ∀ call ∈ sinceTick (j.flatMap Prod.snd), ∃ earlier now raw interval,
    j = earlier ++ (.finish now,[.handled raw (some call)])::interval ∧
    (∀ x ∈ interval, ∀ snap, .snapshot snap ∉ x.2) ∧
    ∀ a, call.args = some a → Attested earlier raw a

lemma CacheDelivered.step (h : CacheDelivered j d)
    (hstep : d.step codec cfg act = some (d',seen)) : CacheDelivered (j ++ [(act,seen)]) d' := by
  unfold CacheDelivered at h ⊢
  rw [cache_of_step hstep, List.filterMap_append, h]
  cases act <;> simp [Action.onCache, Action.delivery, Delivery.deliver, Delivery.handle]

omit [CostNum κ] in
/-- What the cache answers has been delivered. -/
lemma CacheDelivered.told (h : CacheDelivered j d) (q : CacheQuery) :
    Told j q (q.answer d.cache) := by
  have hfound : ∀ {r : Resource} {obj : Obj} {x : Delivery Unit},
      x ∈ j.filterMap (fun x => x.1.delivery) → x.resource = r →
      (x.event = .add obj ∨ ∃ old, x.event = .update old obj) → DeliveredTo r j obj := by
    rintro r obj x hx rfl hev
    obtain ⟨⟨act,out⟩,hmem,hact⟩ := List.mem_filterMap.mp hx
    cases act <;> simp only [Action.delivery, reduceCtorEq, Option.some.injEq] at hact
    subst hact
    exact ⟨_,out,hmem,hev⟩
  cases q with
  | lookupService ip => trivial
  | lookupPod ip =>
    intro info ha
    rw [h] at ha
    obtain ⟨x,hx,hr,obj,p,hev,hp,haddr,hinfo⟩ := podView_faithful.exists_delivered _ ha
    cases obj <;> simp only [podView, Obj.asPod, reduceCtorEq, Option.some.injEq] at hp
    subst hp
    exact ⟨_,hfound hx hr hev,(podView_addr.mp haddr).2,hinfo⟩
  | lookupNode name =>
    intro info ha
    rw [h] at ha
    obtain ⟨x,hx,hr,obj,n,hev,hn,haddr,hinfo⟩ := nodeView_faithful.exists_delivered _ ha
    cases obj <;> simp only [nodeView, Obj.asNode, reduceCtorEq, Option.some.injEq] at hn
    subst hn
    exact ⟨_,hfound hx hr hev,Option.some.inj haddr,hinfo⟩

lemma InHandAttested.step (h : InHandAttested j d) (hc : CacheDelivered j d)
    (hstep : d.step codec cfg act = some (d',seen)) :
    InHandAttested (j ++ [(act,seen)]) d' := by
  intro raw rest hloop j' hj'
  have hj : j <+: j' := (List.prefix_append j _).trans hj'
  by_cases hhand : ∃ raw₀ rest₀, d.loop = .handling raw₀ rest₀
  · obtain ⟨raw₀,rest₀,hloop₀⟩ := hhand
    have hold := h raw₀ rest₀ hloop₀ j' hj
    have hmoves := moves_of_step hloop₀ hstep
    cases act with
    | lookup =>
      obtain ⟨q,resume,rfl,hnext⟩ := hmoves
      cases hnext.symm.trans hloop
      exact hold _ ((hc.told q).mono hj)
    | finish now =>
      obtain ⟨call,-,hnext⟩ := hmoves
      cases hnext.symm.trans hloop
    | readRecord raw => exact hmoves.elim
    | readClosed => exact hmoves.elim
    | readError err => exact hmoves.elim
    | _ =>
      cases (show d'.loop = .handling raw₀ rest₀ from hmoves).symm.trans hloop
      exact hold
  · have hidle : ∀ raw rest, d.loop ≠ .handling raw rest := fun raw rest hl =>
      hhand ⟨raw,rest,hl⟩
    rw [eq_handleRecord_of_step hidle hstep hloop]
    exact handleRecord_attested j' raw

omit [CostNum κ] in
/-- Calls stay attested while the interval goes on. -/
lemma CallsAttested.extend (h : CallsAttested j) {x : Action × List (Seen κ)}
    (hlog : sinceTick ((j ++ [x]).flatMap Prod.snd) = sinceTick (j.flatMap Prod.snd))
    (hx : ∀ snap, .snapshot snap ∉ x.2) : CallsAttested (j ++ [x]) := by
  intro call hcall
  rw [hlog] at hcall
  obtain ⟨earlier,now,raw,interval,rfl,hnone,hatt⟩ := h call hcall
  refine ⟨earlier,now,raw,interval ++ [x],by simp,?_,hatt⟩
  intro y hy
  rcases List.mem_append.mp hy with hy | hy
  · exact hnone y hy
  · obtain rfl := List.mem_singleton.mp hy
    exact hx

omit [CostNum κ] in
lemma sinceTick_append (j : Journal κ) (act : Action) (seen : List (Seen κ)) :
    sinceTick ((j ++ [(act,seen)]).flatMap Prod.snd) =
      seen.foldl noteCall (sinceTick (j.flatMap Prod.snd)) := by
  rw [List.flatMap_append, sinceTick, List.foldl_append]
  simp [sinceTick]

lemma CallsAttested.step (h : CallsAttested j) (hh : InHandAttested j d)
    (hstep : d.step codec cfg act = some (d',seen)) : CallsAttested (j ++ [(act,seen)]) := by
  have hshows := shows_of_step hstep
  cases act with
  | finish now =>
    obtain ⟨raw,result,hloop,rfl⟩ := hshows
    intro call hcall
    rw [sinceTick_append] at hcall
    rcases List.mem_append.mp hcall with hold | hnew
    · obtain ⟨earlier,now',raw',interval,rfl,hnone,hatt⟩ := h call hold
      refine ⟨earlier,now',raw',_,List.append_assoc _ _ _,?_,hatt⟩
      intro x hx
      rcases List.mem_append.mp hx with hx | hx
      · exact hnone x hx
      · obtain rfl := List.mem_singleton.mp hx
        simp
    · -- the record just finished: the whole journal so far attests it
      obtain ⟨mk,rfl,rfl⟩ : ∃ mk, result = some mk ∧ mk now = call := by
        simpa [Option.map_eq_some_iff] using hnew
      refine ⟨j,now,raw,[],rfl,by simp,fun a ha => ?_⟩
      exact hh raw _ hloop j List.prefix_rfl mk rfl now a ha
  | tick now keys =>
    obtain ⟨-,rfl⟩ := hshows
    intro call hcall
    rw [sinceTick_append] at hcall
    exact absurd hcall List.not_mem_nil
  | record write =>
    obtain ⟨snap,rfl⟩ := hshows
    exact h.extend (sinceTick_append _ _ _) (by simp)
  | _ =>
    obtain rfl : seen = [] := hshows
    exact h.extend (sinceTick_append _ _ _) (by simp)

/-- What the run keeps. -/
structure Traced (j : Journal κ) (d : Daemon κ) : Prop where
  cache : CacheDelivered j d
  inHand : InHandAttested j d
  calls : CallsAttested j

lemma Traced.step (h : Traced j d) {out : Journal κ}
    (hlog : logged (Daemon.step codec cfg) d act = some (d',out)) : Traced (j ++ out) d' := by
  obtain ⟨seen,hstep,rfl⟩ := logged_eq_some hlog
  exact ⟨h.cache.step hstep,h.inHand.step h.cache hstep,h.calls.step h.inHand hstep⟩

lemma traced_of_journal {history : HistoryStore κ} {disk : Bytes} {acts : List Action}
    (hrun : (Daemon.start newCache history disk).journal codec cfg acts = some (d,j)) :
    Traced j d := by
  have h0 : Traced [] (Daemon.start newCache history disk) :=
    ⟨rfl,by rintro raw rest ⟨⟩,fun call hcall => absurd hcall List.not_mem_nil⟩
  exact run_invariant (fun j d act d' out h hstep => h.step hstep) h0 hrun

end Invariant

section Snapshot

variable {κ : Type} [CostNum κ] {codec : Codec κ} {cfg : Config κ} {history : HistoryStore κ}
  {disk : Bytes} {acts : List Action} {d : Daemon κ} {j before after : Journal κ}

lemma lastKnown_mem {zones : List String} (h : lastKnown zones ≠ "") :
    lastKnown zones ∈ zones := by
  induction zones using List.reverseRecOn with
  | nil => exact absurd rfl h
  | append_singleton zones z ih =>
    rw [lastKnown_append_singleton] at h ⊢
    split_ifs at h ⊢
    · simp
    · exact List.mem_append_left _ (ih h)

/-- A zone of a live record is empty, or that of one of the calls of its flow. -/
lemma Aggregates.exists_call {log : List Call} {k : String} {c : ConnStat}
    (h : Aggregates (onFlow log k) c) (side : Side) (hz : side.zoneStat c ≠ "") :
    ∃ call ∈ log, call.key = some k ∧
      ∃ a, call.args = some a ∧ side.zoneArg a = side.zoneStat c := by
  have hlast : side.zoneStat c =
      lastKnown ((onFlow log k).map fun call => call.args.elim "" side.zoneArg) := by
    cases side
    · exact h.srcZone
    · exact h.dstZone
  have hmem := lastKnown_mem (hlast ▸ hz)
  rw [← hlast] at hmem
  obtain ⟨call,hcall,hzone⟩ := List.mem_map.mp hmem
  obtain ⟨hlog,hkey⟩ := List.mem_filter.mp hcall
  obtain ⟨a,ha,-⟩ := Option.map_eq_some_iff.mp (of_decide_eq_true hkey)
  refine ⟨call,hlog,of_decide_eq_true hkey,a,ha,?_⟩
  rw [← hzone, ha]
  rfl

/-- Over every run of the daemon, whatever the informers deliver and when: a flow is marked in a
snapshot only with two different known zones, each a label delivered for a pod at the address of a
record of that flow, before that record was finished, within the interval. -/
theorem crossAZ_backed {snap : Snapshot κ} {now : Time} {keys : List String}
    (hrun : (Daemon.start newCache history disk).journal codec cfg acts = some (d,j))
    (hj : j = before ++ (.tick now keys,[.snapshot snap])::after) {f : FlowSummary κ}
    (hf : f ∈ snap.flows) (hmark : f.crossAZ) :
    (f.srcZone ≠ "" ∧ f.dstZone ≠ "" ∧ f.srcZone ≠ f.dstZone ∧
      f.srcZone ≠ "unknown" ∧ f.dstZone ≠ "unknown") ∧
    Backed .src before f.flow f.srcZone ∧ Backed .dst before f.flow f.dstZone := by
  subst hj
  obtain ⟨as₁,d₁,d₂,hbefore,htick⟩ := step_of_logged hrun
  have htraced := traced_of_journal hbefore
  have hfresh : Current (κ := κ) [] (Daemon.start newCache history disk) := rfl
  have hcurrent : Current (before.flatMap Prod.snd) d₁ :=
    run_invariant (fun tr s a t seen h hstep => h.effect (effect_of_step hstep)) hfresh
      (run_of_logged hbefore)
  obtain ⟨hkeys,hsnap⟩ := shows_of_step htick
  obtain rfl : snap = _ := Seen.snapshot.inj (List.singleton_inj.mp hsnap)
  rw [snapshotAndReset_fst hkeys] at hf
  obtain ⟨k,hk,rfl⟩ := List.mem_map.mp hf
  -- the mark and both zones of the flow are those of its live record
  have hc : (statAt d₁.stats.conns k).crossAZ := hmark
  simp only [ConnStat.crossAZ, decide_eq_true_eq] at hc
  obtain ⟨hsrc,hdst,hdiff⟩ := hc
  have hagg : Aggregates (onFlow (sinceTick (before.flatMap Prod.snd)) k)
      (statAt d₁.stats.conns k) := by
    have hlive : k ∈ (newStats.replay (sinceTick (before.flatMap Prod.snd))).conns :=
      hcurrent ▸ (hkeys.mem_iff k).mp hk
    rw [hcurrent]
    exact statAt_replay none _ ((mem_conns_replay none _ k).mp hlive)
  have hbacked : ∀ side : Side, side.zoneStat (statAt d₁.stats.conns k) ≠ "" →
      side.zoneStat (statAt d₁.stats.conns k) ≠ "unknown" ∧
        Backed side before k (side.zoneStat (statAt d₁.stats.conns k)) := by
    intro side hz
    obtain ⟨call,hcall,hkey,a,ha,hzone⟩ := hagg.exists_call side hz
    obtain ⟨earlier,now,raw,interval,hj,hnone,hatt⟩ := htraced.calls call hcall
    obtain ⟨e,he,htype,hsides⟩ := hatt a ha
    obtain ⟨hunknown,hzoned⟩ := hsides side (hzone ▸ hz)
    rw [hzone] at hunknown hzoned
    exact ⟨hunknown,earlier,now,raw,call,interval,e,hj,hnone,he,htype,hkey,hzoned⟩
  obtain ⟨hsu,hsb⟩ := hbacked .src hsrc
  obtain ⟨hdu,hdb⟩ := hbacked .dst hdst
  exact ⟨⟨hsrc,hdst,hdiff,hsu,hdu⟩,hsb,hdb⟩

end Snapshot

section Demo

def zoneLabel (zone : String) : FiniteMap String String :=
  (∅ : FiniteMap String String).insert "topology.kubernetes.io/zone" zone

/-- Two pods come up on nodes of two zones. -/
def twoZones : List Action :=
  [.informer .pods (.add (.pod ⟨"checkout","shop","10.0.0.1","node-a"⟩)),
    .informer .nodes (.add (.node ⟨"node-b",zoneLabel "us-east-1b"⟩)),
    .informer .nodes (.add (.node ⟨"node-a",zoneLabel "us-east-1a"⟩)),
    .informer .pods (.add (.pod ⟨"pricing","shop","10.0.0.2","node-b"⟩))]

/-- One of them sends to the other, and the reporter takes a snapshot. -/
def sendAcross : List Action :=
  twoZones ++ handleSend ++ [.tick 2 ["pod:shop/checkout -> pod:shop/pricing:443"]]

/-- The marks of the snapshot a journal ends with. -/
def lastMarks (j : Journal Rat) : List Bool :=
  match j.getLast? with
  | some (.tick _ _,[.snapshot snap]) => snap.flows.map FlowSummary.crossAZ
  | _ => []

theorem crossAZ_backed_sendAcross : ∃ d before now keys snap, ∃ f ∈ snap.flows,
    demoStart.journal demoCodec demoConfig sendAcross =
      some (d,before ++ [(.tick now keys,[.snapshot snap])]) ∧
    (f.srcZone ≠ "" ∧ f.dstZone ≠ "" ∧ f.srcZone ≠ f.dstZone ∧
      f.srcZone ≠ "unknown" ∧ f.dstZone ≠ "unknown") ∧
    Backed .src before f.flow f.srcZone ∧ Backed .dst before f.flow f.dstZone := by
  have hview : (demoStart.journal demoCodec demoConfig sendAcross).map (fun r => lastMarks r.2) =
      some [true] := by
    decide +kernel
  obtain ⟨⟨d,j⟩,hrun,hmarks⟩ := Option.map_eq_some_iff.mp hview
  simp only [lastMarks] at hmarks
  split at hmarks
  · rename_i now keys snap hlast
    obtain ⟨f,fs,hflows,hmark,-⟩ := List.map_eq_cons_iff.mp hmarks
    have hf : f ∈ snap.flows := hflows ▸ List.mem_cons_self
    have hj : j = j.dropLast ++ [(.tick now keys,[.snapshot snap])] :=
      (List.dropLast_append_getLast? _ hlast).symm
    exact ⟨d,j.dropLast,now,keys,snap,f,hf,hj ▸ hrun,crossAZ_backed hrun hj hf hmark⟩
  · cases hmarks

end Demo
end Tracewulf.Ebpf
