import Tracewulf.Ebpf.Stats

/-! The aggregator against the log of the calls made on it. Each flow's record is the fold of that
flow's own calls; a snapshot lists every flow of the interval once and adds them up. -/
namespace Tracewulf.Ebpf
open Tracewulf.Base KeyedFold

/-- A call of one of the recording methods. -/
inductive Call
  | recordTCP (a : FlowArgs)
  | recordBytes (a : FlowArgs) (n : UInt64)
  | recordExec
  deriving DecidableEq

namespace Call

def args : Call → Option FlowArgs
  | recordTCP a | recordBytes a _ => some a
  | recordExec => none

def key (c : Call) : Option String := c.args.map FlowArgs.key

def isTCP : Call → Bool
  | recordTCP _ => true
  | _ => false

def isExec : Call → Bool
  | recordExec => true
  | _ => false

/-- The bytes the call reports. -/
def sent : Call → UInt64
  | recordBytes _ n => n
  | _ => 0

def cls (c : Call) : String := c.args.elim "" FlowArgs.cls
def srcZone (c : Call) : String := c.args.elim "" FlowArgs.srcZone
def dstZone (c : Call) : String := c.args.elim "" FlowArgs.dstZone
def now (c : Call) : Time := c.args.elim 0 FlowArgs.now

def apply (s : Stats) : Call → Stats
  | recordTCP a => s.recordTCP a
  | recordBytes a n => s.recordBytes a n
  | recordExec => s.recordExec

/-- The record a flow has after the call, from the one it had before, if any. -/
def touch (o : Option ConnStat) (c : Call) : ConnStat :=
  let old := (o.getD ⟨0,0,0,c.cls,c.srcZone,c.dstZone⟩).noteZones c.srcZone c.dstZone
  { old with
    count := old.count + if c.isTCP then 1 else 0
    bytes := old.bytes + c.sent
    lastSeen := c.now }

lemma getOrCreate_eq (s : Stats) (a : FlowArgs) :
    s.getOrCreate a.key a.cls a.srcZone a.dstZone =
      ((s.conns.lookup a.key).getD ⟨0,0,0,a.cls,a.srcZone,a.dstZone⟩).noteZones
        a.srcZone a.dstZone := by
  unfold Stats.getOrCreate
  cases s.conns.lookup a.key <;> rfl

/-- Every call updates the record of its own flow and no other. -/
lemma conns_apply (s : Stats) (c : Call) : (c.apply s).conns = upsert key touch s.conns c := by
  cases c with
  | recordTCP a =>
    simp [apply, Stats.recordTCP, upsert, key, args, touch, getOrCreate_eq, cls, srcZone, dstZone,
      isTCP, sent, now]
  | recordBytes a n =>
    simp [apply, Stats.recordBytes, upsert, key, args, touch, getOrCreate_eq, cls, srcZone,
      dstZone, isTCP, sent, now]
  | recordExec => rfl

lemma execCnt_apply (s : Stats) (c : Call) :
    (c.apply s).execCnt = s.execCnt + if c.isExec then 1 else 0 := by
  cases c <;> simp [apply, Stats.recordTCP, Stats.recordBytes, Stats.recordExec, isExec]

lemma lastJSON_apply (s : Stats) (c : Call) : (c.apply s).lastJSON = s.lastJSON := by
  cases c <;> rfl

lemma srcZone_touch (o : Option ConnStat) (c : Call) : (touch o c).srcZone =
    if c.srcZone ≠ "" then c.srcZone else o.elim c.srcZone ConnStat.srcZone := by
  cases o <;> rfl

lemma dstZone_touch (o : Option ConnStat) (c : Call) : (touch o c).dstZone =
    if c.dstZone ≠ "" then c.dstZone else o.elim c.dstZone ConnStat.dstZone := by
  cases o <;> rfl

lemma bytes_touch (o : Option ConnStat) (c : Call) :
    (touch o c).bytes = o.elim 0 ConnStat.bytes + c.sent := by
  cases o <;> rfl

lemma count_touch (o : Option ConnStat) (c : Call) :
    (touch o c).count = o.elim 0 ConnStat.count + if c.isTCP then 1 else 0 := by
  cases o <;> rfl

lemma cls_touch (o : Option ConnStat) (c : Call) :
    (touch o c).cls = o.elim c.cls ConnStat.cls := by
  cases o <;> rfl

end Call

def Stats.replay (s : Stats) (log : List Call) : Stats := log.foldl Call.apply s

lemma conns_replay (s : Stats) (log : List Call) :
    (s.replay log).conns = log.foldl (upsert Call.key Call.touch) s.conns := by
  induction log generalizing s with
  | nil => rfl
  | cons c log ih =>
    rw [Stats.replay, List.foldl_cons, List.foldl_cons, ← Call.conns_apply]
    exact ih (c.apply s)

/-- A count as a machine word, one entry at a time. -/
lemma ofNat_countP_append {α : Type} (p : α → Bool) (xs : List α) (x : α) :
    UInt64.ofNat ((xs ++ [x]).countP p) = UInt64.ofNat (xs.countP p) + if p x then 1 else 0 := by
  rw [List.countP_append, UInt64.ofNat_add]
  cases hx : p x <;> simp [hx]

lemma execCnt_replay (s : Stats) (log : List Call) :
    (s.replay log).execCnt = s.execCnt + UInt64.ofNat (log.countP Call.isExec) := by
  induction log using List.reverseRecOn with
  | nil => simp [Stats.replay]
  | append_singleton log c ih =>
    have hlast : s.replay (log ++ [c]) = c.apply (s.replay log) := List.foldl_append
    rw [hlast, Call.execCnt_apply, ih, ofNat_countP_append, add_assoc]

lemma lastJSON_replay (s : Stats) (log : List Call) :
    (s.replay log).lastJSON = s.lastJSON := by
  induction log generalizing s with
  | nil => rfl
  | cons c log ih => exact (ih (c.apply s)).trans (Call.lastJSON_apply s c)

/-- The last known zone in a sequence of zone arguments, empty if all were unknown. -/
def lastKnown (zones : List String) : String := ((zones.filter (· ≠ "")).getLast?).getD ""

lemma lastKnown_append_singleton (zones : List String) (z : String) :
    lastKnown (zones ++ [z]) = if z ≠ "" then z else lastKnown zones := by
  by_cases h : z = "" <;> simp [lastKnown, h]

/-- The record `c` is the aggregate of the calls `cs` on one flow. -/
structure Aggregates (cs : List Call) (c : ConnStat) : Prop where
  count : c.count = UInt64.ofNat (cs.countP Call.isTCP)
  bytes : c.bytes = (cs.map Call.sent).sum
  cls : c.cls = cs.head?.elim "" Call.cls
  srcZone : c.srcZone = lastKnown (cs.map Call.srcZone)
  dstZone : c.dstZone = lastKnown (cs.map Call.dstZone)

/-- The first call on a flow opens its record. -/
lemma aggregates_first (x : Call) : Aggregates [x] (Call.touch none x) where
  count := by cases h : x.isTCP <;> simp [Call.count_touch, h]
  bytes := by simp [Call.bytes_touch]
  cls := by simp [Call.cls_touch]
  srcZone := by
    rw [Call.srcZone_touch, List.map_singleton, ← List.nil_append [x.srcZone],
      lastKnown_append_singleton]
    by_cases h : x.srcZone = "" <;> simp [h, lastKnown]
  dstZone := by
    rw [Call.dstZone_touch, List.map_singleton, ← List.nil_append [x.dstZone],
      lastKnown_append_singleton]
    by_cases h : x.dstZone = "" <;> simp [h, lastKnown]

/-- Every later call carries the aggregate on. -/
lemma Aggregates.next {cs : List Call} {c : ConnStat} (h : Aggregates cs c) (hne : cs ≠ [])
    (x : Call) : Aggregates (cs ++ [x]) (Call.touch (some c) x) where
  count := by
    rw [Call.count_touch, Option.elim_some, h.count, ofNat_countP_append]
  bytes := by simp [Call.bytes_touch, h.bytes]
  cls := by rw [Call.cls_touch, Option.elim_some, h.cls, List.head?_append_of_ne_nil cs hne]
  srcZone := by
    rw [Call.srcZone_touch, Option.elim_some, h.srcZone, List.map_append, List.map_singleton,
      lastKnown_append_singleton]
  dstZone := by
    rw [Call.dstZone_touch, Option.elim_some, h.dstZone, List.map_append, List.map_singleton,
      lastKnown_append_singleton]

/-- The fold over one flow's calls is their aggregate. -/
theorem aggregates_foldl (cs : List Call) (hne : cs ≠ []) :
    ∃ c, cs.foldl (fun o x => some (Call.touch o x)) none = some c ∧ Aggregates cs c := by
  induction cs using List.reverseRecOn with
  | nil => exact absurd rfl hne
  | append_singleton cs x ih =>
    rw [List.foldl_append]
    by_cases hcs : cs = []
    · subst hcs
      exact ⟨_,rfl,aggregates_first x⟩
    · obtain ⟨c,hc,ha⟩ := ih hcs
      rw [hc]
      exact ⟨_,rfl,ha.next hcs x⟩

/-- The calls of the log on a flow. -/
def onFlow (log : List Call) (k : String) : List Call := ofKey Call.key log k

lemma onFlow_ne_nil {log : List Call} {k : String} :
    onFlow log k ≠ [] ↔ ∃ c ∈ log, c.key = some k := by
  simp [onFlow, ofKey]

/-- Any stats whose live map has just been emptied: new, or reset while `lastJSON` is served. -/
def freshStats (lastJSON : Option Bytes) : Stats := { newStats with lastJSON := lastJSON }

lemma mem_conns_replay (j : Option Bytes) (log : List Call) (k : String) :
    k ∈ ((freshStats j).replay log).conns ↔ ∃ c ∈ log, c.key = some k := by
  rw [conns_replay]
  exact mem_foldl_empty Call.key Call.touch log k

/-- The live record of every flow of the log is the aggregate of its calls. -/
theorem statAt_replay (j : Option Bytes) (log : List Call) {k : String}
    (h : ∃ c ∈ log, c.key = some k) :
    Aggregates (onFlow log k) (statAt ((freshStats j).replay log).conns k) := by
  obtain ⟨c,hc,ha⟩ := aggregates_foldl (onFlow log k) (onFlow_ne_nil.mpr h)
  have hl : ((freshStats j).replay log).conns.lookup k = some c := by
    rw [conns_replay, lookup_foldl]
    exact hc
  rwa [statAt_of_lookup hl]

section Snapshot

variable {κ : Type} [CostNum κ]

/-- The snapshot is the fold of the interval's log: one entry for each flow called on and no
other, in non-increasing order of bytes, each the aggregate of its calls, with their totals.
Counters are machine words, so every equation between them is modulo `2^64`. -/
structure FaithfulSnapshot (log : List Call) (snap : Snapshot κ) : Prop where
  nodup : (snap.flows.map FlowSummary.flow).Nodup
  flow_iff : ∀ k, k ∈ snap.flows.map FlowSummary.flow ↔ ∃ c ∈ log, c.key = some k
  sorted : snap.flows.Pairwise fun f g => g.bytes ≤ f.bytes
  count : ∀ f ∈ snap.flows, f.count = UInt64.ofNat ((onFlow log f.flow).countP Call.isTCP)
  bytes : ∀ f ∈ snap.flows, f.bytes = ((onFlow log f.flow).map Call.sent).sum
  cls : ∀ f ∈ snap.flows, f.cls = (onFlow log f.flow).head?.elim "" Call.cls
  srcZone : ∀ f ∈ snap.flows, f.srcZone = lastKnown ((onFlow log f.flow).map Call.srcZone)
  dstZone : ∀ f ∈ snap.flows, f.dstZone = lastKnown ((onFlow log f.flow).map Call.dstZone)
  flowCount : snap.flowCount = (log.filterMap Call.key).dedup.length
  execEvents : snap.execEvents = UInt64.ofNat (log.countP Call.isExec)
  totalBytes : snap.totalBytes = (snap.flows.map FlowSummary.bytes).sum
  crossAZBytes : snap.crossAZBytes = ((snap.flows.filter FlowSummary.crossAZ).map
    FlowSummary.bytes).sum

variable {cfg : Config κ} {now : Time} {keys : List String}

/-- The bytes of the flagged flows, summed with a zero for each of the others. -/
lemma sum_crossBytes (conns : FiniteMap String ConnStat) (ks : List String) :
    (ks.map fun k => (statAt conns k).crossBytes).sum =
      (((ks.map fun k => (statAt conns k).summary cfg k).filter FlowSummary.crossAZ).map
        FlowSummary.bytes).sum := by
  induction ks with
  | nil => rfl
  | cons k ks ih =>
    have hflag : ((statAt conns k).summary cfg k).crossAZ = (statAt conns k).crossAZ := rfl
    rw [List.map_cons, List.sum_cons, List.map_cons, List.filter_cons, hflag, ih]
    cases hc : (statAt conns k).crossAZ with
    | true =>
      have hbytes : (statAt conns k).crossBytes = (statAt conns k).bytes := by
        simp [ConnStat.crossBytes, hc]
      rw [if_pos rfl, List.map_cons, List.sum_cons, hbytes]
      rfl
    | false =>
      have hbytes : (statAt conns k).crossBytes = 0 := by simp [ConnStat.crossBytes, hc]
      rw [if_neg Bool.false_ne_true, hbytes, zero_add]

theorem faithful_snapshot (j : Option Bytes) (log : List Call)
    (h : SortedKeys ((freshStats j).replay log).conns keys) :
    FaithfulSnapshot log (((freshStats j).replay log).snapshotAndReset cfg now keys).1 := by
  have hkey : ∀ k, k ∈ keys ↔ ∃ c ∈ log, c.key = some k := fun k =>
    (h.mem_iff k).trans (mem_conns_replay j log k)
  have hagg : ∀ k ∈ keys,
      Aggregates (onFlow log k) (statAt ((freshStats j).replay log).conns k) :=
    fun k hk => statAt_replay j log ((hkey k).mp hk)
  have hflows : (keys.map fun k => (statAt ((freshStats j).replay log).conns k).summary cfg k).map
      FlowSummary.flow = keys := by
    rw [List.map_map]
    exact List.map_id keys
  rw [snapshotAndReset_fst h]
  constructor
  case nodup => rw [hflows]; exact h.nodup
  case flow_iff => intro k; rw [hflows]; exact hkey k
  case sorted =>
    rw [List.pairwise_map]
    refine h.sorted.imp (fun {a b} hab => ?_)
    simpa only [ConnStat.summary, statAt_bytes] using hab
  case flowCount =>
    have hperm : keys.Perm (log.filterMap Call.key).dedup := by
      rw [List.perm_ext_iff_of_nodup h.nodup (List.nodup_dedup _)]
      intro k
      rw [List.mem_dedup, List.mem_filterMap, hkey]
    exact congrArg Nat.cast hperm.length_eq
  case execEvents => simp [execCnt_replay, freshStats, newStats]
  case totalBytes =>
    rw [← FiniteMap.sum_of_keys _ _ h.nodup h.mem_iff]
    simp [Function.comp_def, ConnStat.summary, statAt_bytes]
  case crossAZBytes =>
    rw [← sum_crossBytes]
    simp only [statAt_crossBytes]
    exact (FiniteMap.sum_of_keys _ _ h.nodup h.mem_iff).symm
  all_goals
    intro f hf
    obtain ⟨k,hk,rfl⟩ := List.mem_map.mp hf
    have ha := hagg k hk
  case count => exact ha.count
  case bytes => exact ha.bytes
  case cls => exact ha.cls
  case srcZone => exact ha.srcZone
  case dstZone => exact ha.dstZone

/-- What an interval starts from: a new aggregator, or one a snapshot has just reset. -/
inductive Opened (cfg : Config κ) : Stats → Prop
  | new : Opened cfg newStats
  | reset (s : Stats) (now : Time) (keys : List String) :
      Opened cfg (s.snapshotAndReset cfg now keys).2

lemma Opened.eq_freshStats {s : Stats} (h : Opened cfg s) : s = freshStats s.lastJSON := by
  cases h <;> rfl

/-- Recording and snapshotting cannot tell the aggregator from a new one. -/
def ActsAsNew (cfg : Config κ) (s : Stats) : Prop :=
  ∀ (later : List Call) (now : Time) (keys : List String),
    (SortedKeys (s.replay later).conns keys ↔ SortedKeys (newStats.replay later).conns keys) ∧
    ((s.replay later).snapshotAndReset cfg now keys).1 =
      ((newStats.replay later).snapshotAndReset cfg now keys).1

lemma actsAsNew_freshStats (j : Option Bytes) : ActsAsNew cfg (freshStats j) := by
  intro later now keys
  have hconns : ((freshStats j).replay later).conns = (newStats.replay later).conns := by
    rw [conns_replay, conns_replay]
    rfl
  have hexec : ((freshStats j).replay later).execCnt = (newStats.replay later).execCnt := by
    rw [execCnt_replay, execCnt_replay]
    rfl
  refine ⟨by rw [hconns],?_⟩
  simp only [Stats.snapshotAndReset, hconns, hexec]

/-- One interval of the aggregator, from either way it can start, over any log of calls. -/
theorem snapshot_folds_log {s₀ : Stats} (h₀ : Opened cfg s₀) (log : List Call)
    (h : SortedKeys (s₀.replay log).conns keys) :
    FaithfulSnapshot log ((s₀.replay log).snapshotAndReset cfg now keys).1 ∧
      ((s₀.replay log).snapshotAndReset cfg now keys).2 =
        { newStats with lastJSON := s₀.lastJSON } ∧
      ActsAsNew cfg ((s₀.replay log).snapshotAndReset cfg now keys).2 := by
  have hfresh := h₀.eq_freshStats
  rw [hfresh] at h ⊢
  have hafter : (((freshStats s₀.lastJSON).replay log).snapshotAndReset cfg now keys).2 =
      freshStats s₀.lastJSON := by
    rw [snapshotAndReset_snd, lastJSON_replay]
    rfl
  refine ⟨faithful_snapshot s₀.lastJSON log h,hafter,?_⟩
  rw [hafter]
  exact actsAsNew_freshStats s₀.lastJSON

end Snapshot

/-- A day with one flow across zones, one within, and a command run in between. -/
def twoFlows : List Call :=
  [.recordTCP ⟨"checkout","pricing",443,"service","us-east-1a","us-east-1b",7⟩,
    .recordBytes ⟨"checkout","cache",6379,"service","us-east-1a","",8⟩ 50,
    .recordExec,
    .recordBytes ⟨"checkout","pricing",443,"service","us-east-1a","us-east-1b",9⟩ 120]

theorem snapshot_folds_log_twoFlows :
    let cfg : Config Rat := ⟨1/100,fun _ => ""⟩
    let keys := ["checkout -> pricing:443","checkout -> cache:6379"]
    let out := (newStats.replay twoFlows).snapshotAndReset cfg 10 keys
    FaithfulSnapshot twoFlows out.1 ∧ out.2 = newStats ∧ ActsAsNew cfg out.2 :=
  snapshot_folds_log Opened.new twoFlows (by decide)

end Tracewulf.Ebpf
