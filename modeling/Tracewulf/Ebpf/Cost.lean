import Mathlib.Algebra.Order.BigOperators.Group.Finset
import Mathlib.Algebra.Order.Ring.Rat
import Mathlib.Tactic.LinearCombination
import Mathlib.Tactic.Ring
import Tracewulf.Base.OrderedSum
import Tracewulf.Ebpf.Aggregation
import Tracewulf.Ebpf.AppendLog

/-! Costs. Within a snapshot they are added in the order of the sorted keys, which map iteration
and the unstable sort leave open among ties; and they are kept beside the cross-zone bytes they
are the price of, flow by flow, snapshot by snapshot and in the history. -/
namespace Tracewulf.Ebpf
open Tracewulf.Base

section Order

variable {κ : Type} [CostNum κ] {cfg : Config κ} {conns : FiniteMap String ConnStat}
  {keys keys' : List String}

lemma SortedKeys.perm (h : SortedKeys conns keys) (h' : SortedKeys conns keys') :
    keys.Perm keys' := by
  rw [List.perm_ext_iff_of_nodup h.nodup h'.nodup]
  intro k
  rw [h.mem_iff, h'.mem_iff]

lemma SortedKeys.sorted_bytes (h : SortedKeys conns keys) :
    keys.Pairwise fun a b => (statAt conns b).bytes ≤ (statAt conns a).bytes := by
  simp only [statAt_bytes]
  exact h.sorted

/-- The cost of the flows in the order of the keys, under any price of a flagged flow's bytes. -/
def costUnder (price : UInt64 → κ) (conns : FiniteMap String ConnStat) (keys : List String) : κ :=
  OrderedSum.total (keys.map fun k =>
    if (statAt conns k).crossAZ then price (statAt conns k).bytes else 0)

/-- The price the program puts on the bytes of a flagged flow. -/
def priceUSD (cfg : Config κ) (n : UInt64) : κ := CostNum.ofUInt64 n / CostNum.e9 * cfg.costPerGB

lemma costUSD_eq (cfg : Config κ) (c : ConnStat) :
    c.costUSD cfg = if c.crossAZ then priceUSD cfg c.bytes else 0 := by
  unfold ConnStat.costUSD
  cases c.crossAZ <;> rfl

/-- The totals of two snapshots are the same. -/
structure SameTotals (a b : Snapshot κ) : Prop where
  totalBytes : a.totalBytes = b.totalBytes
  crossAZBytes : a.crossAZBytes = b.crossAZBytes
  flowCount : a.flowCount = b.flowCount
  totalCostUSD : a.totalCostUSD = b.totalCostUSD

/-- However the map is iterated and ties are broken, and whatever flagged bytes cost: the totals
come out the same, as long as adding nothing changes nothing. -/
theorem totals_order_irrelevant (hzero : ∀ t : κ, t + 0 = t) {s : Stats}
    (h : SortedKeys s.conns keys) (h' : SortedKeys s.conns keys') (now now' : Time) :
    SameTotals (s.snapshotAndReset cfg now keys).1 (s.snapshotAndReset cfg now' keys').1 ∧
      ∀ price : UInt64 → κ, costUnder price s.conns keys = costUnder price s.conns keys' := by
  have hperm := h.perm h'
  have hcost : ∀ price : UInt64 → κ,
      costUnder price s.conns keys = costUnder price s.conns keys' := fun price =>
    OrderedSum.total_eq_of_perm (fun _ _ => UInt64.le_antisymm) hzero
      (fun k => (statAt s.conns k).crossAZ) price hperm
      h.sorted_bytes h'.sorted_bytes
  refine ⟨?_,hcost⟩
  rw [snapshotAndReset_fst h, snapshotAndReset_fst h']
  refine ⟨rfl,rfl,congrArg Nat.cast hperm.length_eq,?_⟩
  simp only [costUSD_eq]
  exact hcost (priceUSD cfg)

end Order

/-- Two flows with the same bytes, one across zones. -/
def tiedFlows : List Call :=
  [.recordBytes ⟨"checkout","pricing",443,"service","us-east-1a","us-east-1b",7⟩ 100,
    .recordBytes ⟨"checkout","cache",6379,"service","us-east-1a","us-east-1a",8⟩ 100]

theorem totals_order_irrelevant_tied :
    let cfg : Config ℚ := ⟨1/100,fun _ => ""⟩
    let s := newStats.replay tiedFlows
    let keys := ["checkout -> pricing:443","checkout -> cache:6379"]
    let keys' := ["checkout -> cache:6379","checkout -> pricing:443"]
    SameTotals (s.snapshotAndReset cfg 9 keys).1 (s.snapshotAndReset cfg 9 keys').1 ∧
      ∀ price : UInt64 → ℚ, costUnder price s.conns keys = costUnder price s.conns keys' :=
  totals_order_irrelevant Rat.add_zero (by decide) (by decide) 9 9

section Session

/-- A session: the aggregator, the snapshots taken from it, the history store and its file. -/
structure Session (κ : Type) where
  stats : Stats
  taken : List (Snapshot κ)
  history : HistoryStore κ
  disk : Bytes

/-- The sessions that calls on the aggregator, resets, and `history.Record` of any snapshot taken
lead to, in any order, as long as every sum of bytes that is formed fits a machine word. -/
inductive Session.Reached {κ : Type} [CostNum κ] (codec : Codec κ) (cfg : Config κ)
    (h₀ : HistoryStore κ) (disk₀ : Bytes) : Session κ → Prop
  | start : Reached codec cfg h₀ disk₀ ⟨newStats,[],h₀,disk₀⟩
  | call (c : Call) {s : Session κ} : Reached codec cfg h₀ disk₀ s →
      Reached codec cfg h₀ disk₀ { s with stats := c.apply s.stats }
  | reset (now : Time) (keys : List String) {s : Session κ} : Reached codec cfg h₀ disk₀ s →
      SortedKeys s.stats.conns keys →
      FiniteMap.weight (fun c : ConnStat => c.bytes.toNat) s.stats.conns < 2^64 →
      Reached codec cfg h₀ disk₀
        { s with stats := (s.stats.snapshotAndReset cfg now keys).2
                 taken := s.taken ++ [(s.stats.snapshotAndReset cfg now keys).1] }
  | record (snap : Snapshot κ) (write : Write) {s : Session κ} : Reached codec cfg h₀ disk₀ s →
      snap ∈ s.taken → s.history.cumBytes.toNat + snap.totalBytes.toNat < 2^64 →
      s.history.cumCrossAZ.toNat + snap.crossAZBytes.toNat < 2^64 →
      Reached codec cfg h₀ disk₀
        { s with disk := (s.history.record codec snap write s.disk).1
                 history := (s.history.record codec snap write s.disk).2 }

/-- The snapshot's cost is that of its flows, and the price of its cross-zone bytes. -/
structure Priced (rate : ℚ) (snap : Snapshot ℚ) : Prop where
  flows : snap.totalCostUSD = (snap.flows.map FlowSummary.costUSD).sum
  bytes : snap.totalCostUSD = rate * snap.crossAZBytes.toNat / 1000000000
  le : snap.crossAZBytes.toNat ≤ snap.totalBytes.toNat

/-- What the history gained since `h₀` in cost is the price of what it gained in cross-zone bytes,
and these are some of the bytes it gained. -/
structure Proportional (rate : ℚ) (h₀ h : HistoryStore ℚ) : Prop where
  cost : h.cumCost - h₀.cumCost =
    rate / 1000000000 * ((h.cumCrossAZ.toNat : ℚ) - h₀.cumCrossAZ.toNat)
  le : (h.cumCrossAZ.toNat : ℤ) - h₀.cumCrossAZ.toNat ≤ h.cumBytes.toNat - h₀.cumBytes.toNat

/-- A total that fits a word is the total of the numbers. -/
lemma toNat_weight (f : ConnStat → UInt64) (conns : FiniteMap String ConnStat)
    (h : FiniteMap.weight (fun c => (f c).toNat) conns < 2^64) :
    (FiniteMap.weight f conns).toNat = FiniteMap.weight (fun c => (f c).toNat) conns := by
  have hat : ∀ k, FiniteMap.weightAt (fun c => (f c).toNat) conns k =
      (FiniteMap.weightAt f conns k).toNat := by
    intro k
    unfold FiniteMap.weightAt
    cases conns.lookup k <;> rfl
  have hsum : ∀ s : Finset String, (∑ k ∈ s, FiniteMap.weightAt f conns k).toNat =
      (∑ k ∈ s, (FiniteMap.weightAt f conns k).toNat) % 2^64 := by
    intro s
    induction s using Finset.induction_on with
    | empty => rfl
    | insert k s hk ih =>
      rw [Finset.sum_insert hk, Finset.sum_insert hk, UInt64.toNat_add, ih, Nat.add_mod_mod]
  unfold FiniteMap.weight at h ⊢
  simp only [hat] at h ⊢
  rw [hsum, Nat.mod_eq_of_lt h]

lemma crossBytes_le (c : ConnStat) : c.crossBytes.toNat ≤ c.bytes.toNat := by
  unfold ConnStat.crossBytes
  split_ifs
  · exact le_rfl
  · exact Nat.zero_le _

/-- In rationals a flow costs the rate for each of its cross-zone bytes. -/
lemma costUSD_rat (cfg : Config ℚ) (c : ConnStat) :
    c.costUSD cfg = cfg.costPerGB / 1000000000 * c.crossBytes.toNat := by
  rw [costUSD_eq, ConnStat.crossBytes]
  split_ifs
  · change (c.bytes.toNat : ℚ) / 1000000000 * cfg.costPerGB = _
    ring
  · change (0 : ℚ) = _
    simp

/-- Every snapshot of an interval that fits is priced. -/
lemma priced_snapshot {cfg : Config ℚ} {s : Stats} {keys : List String}
    (hk : SortedKeys s.conns keys)
    (hfit : FiniteMap.weight (fun c : ConnStat => c.bytes.toNat) s.conns < 2^64) (now : Time) :
    Priced cfg.costPerGB (s.snapshotAndReset cfg now keys).1 := by
  have hle : FiniteMap.weight (fun c : ConnStat => c.crossBytes.toNat) s.conns ≤
      FiniteMap.weight (fun c : ConnStat => c.bytes.toNat) s.conns := by
    apply Finset.sum_le_sum
    intro k _
    unfold FiniteMap.weightAt
    cases s.conns.lookup k with
    | none => exact le_rfl
    | some c => exact crossBytes_le c
  have hcross : (FiniteMap.weight ConnStat.crossBytes s.conns).toNat =
      (keys.map fun k => (statAt s.conns k).crossBytes.toNat).sum := by
    rw [toNat_weight _ _ (hle.trans_lt hfit), ← FiniteMap.sum_of_keys _ _ hk.nodup hk.mem_iff]
    apply congrArg List.sum
    apply List.map_congr_left
    intro k _
    unfold FiniteMap.weightAt statAt
    cases s.conns.lookup k <;> rfl
  have hsum : ∀ ks : List String, (ks.map fun k => (statAt s.conns k).costUSD cfg).sum =
      cfg.costPerGB / 1000000000 *
        ((ks.map fun k => (statAt s.conns k).crossBytes.toNat).sum : ℕ) := by
    intro ks
    induction ks with
    | nil => simp
    | cons k ks ih =>
      rw [List.map_cons, List.sum_cons, ih, costUSD_rat, List.map_cons, List.sum_cons]
      push_cast
      ring
  have htotal : (s.snapshotAndReset cfg now keys).1.totalCostUSD =
      (keys.map fun k => (statAt s.conns k).costUSD cfg).sum := by
    rw [snapshotAndReset_fst hk]
    exact (List.sum_eq_foldl).symm
  constructor
  case flows =>
    rw [htotal, snapshotAndReset_fst hk, List.map_map]
    rfl
  case bytes =>
    rw [htotal, hsum, ← hcross, snapshotAndReset_fst hk]
    ring
  case le =>
    rw [snapshotAndReset_fst hk]
    simp only [toNat_weight _ _ (hle.trans_lt hfit), toNat_weight _ _ hfit]
    exact hle

variable {codec : Codec ℚ} {cfg : Config ℚ} {h₀ : HistoryStore ℚ} {disk₀ : Bytes} {s : Session ℚ}

lemma Session.Reached.replay (hr : Session.Reached codec cfg h₀ disk₀ s) (log : List Call) :
    Session.Reached codec cfg h₀ disk₀ { s with stats := s.stats.replay log } := by
  induction log using List.reverseRecOn with
  | nil => exact hr
  | append_singleton log c ih =>
    have hlast : s.stats.replay (log ++ [c]) = c.apply (s.stats.replay log) := List.foldl_append
    rw [hlast]
    exact ih.call c

/-- A priced snapshot taken into the history keeps it proportional. -/
lemma Proportional.record {rate : ℚ} {h : HistoryStore ℚ} (hp : Proportional rate h₀ h)
    (codec : Codec ℚ) {snap : Snapshot ℚ} (hs : Priced rate snap) (write : Write) (disk : Bytes)
    (hbytes : h.cumBytes.toNat + snap.totalBytes.toNat < 2^64)
    (hcross : h.cumCrossAZ.toNat + snap.crossAZBytes.toNat < 2^64) :
    Proportional rate h₀ (h.record codec snap write disk).2 := by
  have hb : (h.record codec snap write disk).2.cumBytes.toNat =
      h.cumBytes.toNat + snap.totalBytes.toNat := by
    simp only [HistoryStore.record, Snapshot.toRecord, UInt64.toNat_add]
    exact Nat.mod_eq_of_lt hbytes
  have hc : (h.record codec snap write disk).2.cumCrossAZ.toNat =
      h.cumCrossAZ.toNat + snap.crossAZBytes.toNat := by
    simp only [HistoryStore.record, Snapshot.toRecord, UInt64.toNat_add]
    exact Nat.mod_eq_of_lt hcross
  have hu : (h.record codec snap write disk).2.cumCost = h.cumCost + snap.totalCostUSD := rfl
  constructor
  case cost =>
    have hcost := hp.cost
    rw [hu, hc, hs.bytes]
    push_cast
    linear_combination hcost
  case le =>
    have hle := hp.le
    have hsnap := hs.le
    rw [hb, hc]
    push_cast
    omega

/-- Over every session: cost and cross-zone bytes keep the rate, in each snapshot and in all that
the history has gained. -/
theorem costs_proportional (hr : Session.Reached codec cfg h₀ disk₀ s) :
    Proportional cfg.costPerGB h₀ s.history ∧ ∀ snap ∈ s.taken, Priced cfg.costPerGB snap := by
  induction hr with
  | start => exact ⟨⟨by simp,by simp⟩,by simp⟩
  | call c _ ih => exact ih
  | reset now keys _ hk hfit ih =>
    refine ⟨ih.1,fun snap hs => ?_⟩
    rcases List.mem_append.mp hs with hs | hs
    · exact ih.2 snap hs
    · obtain rfl := List.mem_singleton.mp hs
      exact priced_snapshot hk hfit now
  | @record snap write t _ hs hbytes hcross ih =>
    exact ⟨ih.1.record codec (ih.2 snap hs) write t.disk hbytes hcross,ih.2⟩

/-- A history that starts from what an earlier session left. -/
def earlier : HistoryStore ℚ := ⟨some "h",[],7,5,3,""⟩

/-- A day with one flow across zones is counted, taken and handed to the history. -/
theorem costs_proportional_twoFlows : ∃ s : Session ℚ,
    Session.Reached demoCodec ⟨1/100,fun _ => ""⟩ earlier [] s ∧ s.history.cumCrossAZ = 125 ∧
      Proportional (1/100) earlier s.history ∧ ∀ snap ∈ s.taken, Priced (1/100) snap := by
  have hstart : Session.Reached demoCodec ⟨1/100,fun _ => ""⟩ earlier [] _ := .start
  have htaken := (hstart.replay twoFlows).reset 10
    ["checkout -> pricing:443","checkout -> cache:6379"]
    (by decide) (by decide)
  have hfiled := htaken.record _ .full (List.mem_singleton.mpr rfl) (by decide) (by decide)
  exact ⟨_,hfiled,by decide,costs_proportional hfiled⟩

end Session
end Tracewulf.Ebpf
