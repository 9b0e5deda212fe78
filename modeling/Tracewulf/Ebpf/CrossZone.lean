import Tracewulf.Ebpf.Aggregation

/-! What a snapshot bills. A flow is classified once, when the snapshot is taken, by the zone last
known for each of its ends; all of its bytes in the interval go with it, whatever zones the calls
that reported them carried. -/
namespace Tracewulf.Ebpf
open Tracewulf.Base KeyedFold

/-- Both zones known, and different. -/
def differing (srcZone dstZone : String) : Bool := srcZone ≠ "" ∧ dstZone ≠ "" ∧ srcZone ≠ dstZone

/-- The call's own zones were known and different. -/
def Call.confirmed (c : Call) : Bool := differing c.srcZone c.dstZone

/-- The zones last known for the flow, source and destination apart, are known and different. -/
def flagged (log : List Call) (k : String) : Bool :=
  differing (lastKnown ((onFlow log k).map Call.srcZone))
    (lastKnown ((onFlow log k).map Call.dstZone))

def Call.onFlagged (log : List Call) (c : Call) : Bool := c.key.elim false (flagged log)

/-- The bytes reported by the calls that satisfy `p`. -/
def sentBy (p : Call → Bool) (log : List Call) : UInt64 := ((log.filter p).map Call.sent).sum

lemma sentBy_eq_sum (p : Call → Bool) (log : List Call) :
    sentBy p log = (log.map fun c => if p c then c.sent else 0).sum := by
  induction log with
  | nil => rfl
  | cons c log ih =>
    unfold sentBy at ih ⊢
    rw [List.filter_cons, List.map_cons, List.sum_cons, ← ih]
    by_cases hc : p c = true
    · rw [if_pos hc, if_pos hc, List.map_cons, List.sum_cons]
    · rw [if_neg hc, if_neg hc, zero_add]

section Aggregate

variable {log : List Call} {k : String} {c : ConnStat}

lemma Aggregates.crossAZ (h : Aggregates (onFlow log k) c) : c.crossAZ = flagged log k := by
  rw [flagged, ← h.srcZone, ← h.dstZone]
  rfl

/-- A flagged flow brings in the bytes of all its calls, another flow none. -/
lemma Aggregates.crossBytes (h : Aggregates (onFlow log k) c) : c.crossBytes =
    ((onFlow log k).map fun x => if flagged log k then x.sent else 0).sum := by
  rw [ConnStat.crossBytes, h.crossAZ, h.bytes]
  cases flagged log k <;> simp

lemma Aggregates.costUSD {κ : Type} [CostNum κ] {cfg : Config κ}
    (h : Aggregates (onFlow log k) c) : c.costUSD cfg = if flagged log k then
      CostNum.ofUInt64 ((onFlow log k).map Call.sent).sum / CostNum.e9 * cfg.costPerGB else 0 := by
  rw [ConnStat.costUSD, h.crossAZ, h.bytes]
  cases flagged log k <;> rfl

end Aggregate

/-- The flagged bytes, gathered flow by flow, are the bytes of the calls on flagged flows. -/
lemma weight_crossBytes (j : Option Bytes) (log : List Call) :
    FiniteMap.weight ConnStat.crossBytes ((freshStats j).replay log).conns =
      sentBy (Call.onFlagged log) log := by
  have hkey : ∀ k ∈ ((freshStats j).replay log).conns.keys,
      FiniteMap.weightAt ConnStat.crossBytes ((freshStats j).replay log).conns k =
        ((ofKey Call.key log k).map fun x => if flagged log k then x.sent else 0).sum := by
    intro k hk
    have hmem := (mem_conns_replay j log k).mp (Finmap.mem_keys.mp hk)
    rw [← statAt_crossBytes, (statAt_replay j log hmem).crossBytes]
    rfl
  rw [FiniteMap.weight, Finset.sum_congr rfl hkey,
    sum_at Call.key _ log fun k x => if flagged log k then x.sent else 0, sentBy_eq_sum]
  apply congrArg List.sum
  apply List.map_congr_left
  intro c hc
  cases hk : c.key with
  | none => simp [Call.onFlagged, hk]
  | some k =>
    have hmem := (mem_conns_replay j log k).mpr ⟨c,hc,hk⟩
    simp [Call.onFlagged, hk, Finmap.mem_keys.mpr hmem]

section Billing

variable {κ : Type} [CostNum κ]

/-- What the snapshot of an interval bills: the bytes of exactly the calls on flagged flows, and
the price of those bytes flow by flow, each flow called on being listed once. -/
structure Billing (cfg : Config κ) (log : List Call) (snap : Snapshot κ) : Prop where
  nodup : (snap.flows.map FlowSummary.flow).Nodup
  flow_iff : ∀ k, k ∈ snap.flows.map FlowSummary.flow ↔ ∃ c ∈ log, c.key = some k
  crossAZBytes : snap.crossAZBytes = sentBy (Call.onFlagged log) log
  crossAZ : ∀ f ∈ snap.flows, f.crossAZ = flagged log f.flow
  costUSD : ∀ f ∈ snap.flows, f.costUSD = if flagged log f.flow then
    CostNum.ofUInt64 ((onFlow log f.flow).map Call.sent).sum / CostNum.e9 * cfg.costPerGB else 0
  totalCostUSD : snap.totalCostUSD = (snap.flows.map FlowSummary.costUSD).foldl (· + ·) 0

variable {cfg : Config κ} {now : Time} {keys : List String}

/-- Over any interval, however the zones known for a flow come and go. -/
theorem snapshot_bills_flagged {s₀ : Stats} (h₀ : Opened cfg s₀) (log : List Call)
    (h : SortedKeys (s₀.replay log).conns keys) :
    Billing cfg log ((s₀.replay log).snapshotAndReset cfg now keys).1 := by
  rw [h₀.eq_freshStats] at h ⊢
  have hagg : ∀ k ∈ keys,
      Aggregates (onFlow log k) (statAt ((freshStats s₀.lastJSON).replay log).conns k) :=
    fun k hk => statAt_replay s₀.lastJSON log
      ((mem_conns_replay s₀.lastJSON log k).mp ((h.mem_iff k).mp hk))
  have hlisted : FaithfulSnapshot log
      (((freshStats s₀.lastJSON).replay log).snapshotAndReset cfg now keys).1 :=
    faithful_snapshot s₀.lastJSON log h
  rw [snapshotAndReset_fst h] at hlisted ⊢
  constructor
  case nodup => exact hlisted.nodup
  case flow_iff => exact hlisted.flow_iff
  case crossAZBytes => exact weight_crossBytes s₀.lastJSON log
  case totalCostUSD => rw [List.map_map]; rfl
  all_goals
    intro f hf
    obtain ⟨k,hk,rfl⟩ := List.mem_map.mp hf
  case crossAZ => exact (hagg k hk).crossAZ
  case costUSD => exact (hagg k hk).costUSD

end Billing

theorem snapshot_bills_flagged_twoFlows :
    let cfg : Config Rat := ⟨1/100,fun _ => ""⟩
    let keys := ["checkout -> pricing:443","checkout -> cache:6379"]
    Billing cfg twoFlows ((newStats.replay twoFlows).snapshotAndReset cfg 10 keys).1 :=
  snapshot_bills_flagged Opened.new twoFlows (by decide)

/-- The peer's zone becomes known only after the bytes were sent. -/
def lateZone : List Call :=
  [.recordBytes ⟨"checkout","pricing",443,"service","us-east-1a","",7⟩ 100,
    .recordTCP ⟨"checkout","pricing",443,"service","us-east-1a","us-east-1b",8⟩]

/-- No call of the interval reports confirmed bytes, and yet a hundred are billed. -/
theorem lateZone_billed :
    let cfg : Config Rat := ⟨1/100,fun _ => ""⟩
    let keys := ["checkout -> pricing:443"]
    let out := (newStats.replay lateZone).snapshotAndReset cfg 9 keys
    SortedKeys (newStats.replay lateZone).conns keys ∧
      out.1.crossAZBytes = 100 ∧ out.1.totalCostUSD ≠ 0 ∧
      sentBy Call.confirmed lateZone = 0 := by
  decide +kernel

section Steady

/-- Every call on a flow carries the same zones. -/
def Steady (log : List Call) : Prop := ∀ c ∈ log, ∀ d ∈ log, c.key = d.key →
  c.srcZone = d.srcZone ∧ c.dstZone = d.dstZone

lemma lastKnown_replicate {zones : List String} {z : String} (hne : zones ≠ [])
    (h : ∀ x ∈ zones, x = z) : lastKnown zones = z := by
  induction zones using List.reverseRecOn with
  | nil => exact absurd rfl hne
  | append_singleton zones x ih =>
    have hx : x = z := h x (by simp)
    rw [lastKnown_append_singleton, hx]
    by_cases hz : z = ""
    · rw [if_neg (not_not.mpr hz)]
      by_cases hzs : zones = []
      · rw [hzs, hz]; rfl
      · exact ih hzs fun y hy => h y (List.mem_append_left _ hy)
    · rw [if_pos hz]

/-- Where zones do not change within an interval, only confirmed bytes are billed. -/
theorem sentBy_confirmed_of_steady {log : List Call} (h : Steady log) :
    sentBy (Call.onFlagged log) log = sentBy Call.confirmed log := by
  rw [sentBy_eq_sum, sentBy_eq_sum]
  apply congrArg List.sum
  apply List.map_congr_left
  intro c hc
  cases hk : c.key with
  | none =>
    have hsent : c.sent = 0 := by cases c <;> simp_all [Call.key, Call.args, Call.sent]
    simp [hsent]
  | some k =>
    have hmem : ∀ d ∈ onFlow log k, d.srcZone = c.srcZone ∧ d.dstZone = c.dstZone := by
      intro d hd
      obtain ⟨hd,hdk⟩ := List.mem_filter.mp hd
      exact h d hd c hc ((of_decide_eq_true hdk).trans hk.symm)
    have hne : onFlow log k ≠ [] := onFlow_ne_nil.mpr ⟨c,hc,hk⟩
    have hsrc : lastKnown ((onFlow log k).map Call.srcZone) = c.srcZone :=
      lastKnown_replicate (by simpa using hne) (by simpa using fun d hd => (hmem d hd).1)
    have hdst : lastKnown ((onFlow log k).map Call.dstZone) = c.dstZone :=
      lastKnown_replicate (by simpa using hne) (by simpa using fun d hd => (hmem d hd).2)
    have hflag : c.onFlagged log = c.confirmed := by
      rw [Call.onFlagged, hk, Option.elim_some, flagged, hsrc, hdst]
      rfl
    rw [hflag]

end Steady
end Tracewulf.Ebpf
