import Mathlib.Data.UInt
import Tracewulf.Base.KeyedFold
import Tracewulf.Base.Layout

/-! The live aggregator: one record for each flow seen since the last reset. Every method runs
under the mutex, so each is one atomic step; the clock reading a method takes is an argument. -/
namespace Tracewulf.Ebpf
open Tracewulf.Base

/-- An instant, as `time.Now` reads it. -/
abbrev Time := ℤ

/-- The arithmetic costs are computed in. The program uses `float64`; nothing is assumed of the
operations, in particular no associativity. -/
class CostNum (κ : Type) extends Zero κ, Add κ, Mul κ, Div κ where
  ofUInt64 : UInt64 → κ
  /-- the constant `1e9` -/
  e9 : κ

/-- What is fixed when the process starts, and how instants are printed. -/
structure Config (κ : Type) where
  costPerGB : κ
  rfc3339 : Time → String

/-- Costs kept exactly, as rationals. -/
instance : CostNum Rat where
  ofUInt64 n := n.toNat
  e9 := 1000000000

structure ConnStat where
  count : UInt64
  bytes : UInt64
  lastSeen : Time
  cls : String
  srcZone : String
  dstZone : String
  deriving DecidableEq, Inhabited

namespace ConnStat

def crossAZ (c : ConnStat) : Bool :=
  c.srcZone ≠ "" ∧ c.dstZone ≠ "" ∧ c.srcZone ≠ c.dstZone

def costUSD {κ : Type} [CostNum κ] (cfg : Config κ) (c : ConnStat) : κ :=
  if !c.crossAZ then 0
  else
    let gb := CostNum.ofUInt64 c.bytes / CostNum.e9
    gb * cfg.costPerGB

end ConnStat

structure Stats where
  conns : FiniteMap String ConnStat
  execCnt : UInt64
  lastJSON : Option Bytes

def newStats : Stats := ⟨∅,0,none⟩

def flowKey (srcName dstName : String) (dstPort : UInt16) : String :=
  srcName ++ " -> " ++ dstName ++ ":" ++ toString dstPort.toNat

/-- The arguments `RecordTCP` and `RecordBytes` share, and the clock reading they take. -/
structure FlowArgs where
  srcName : String
  dstName : String
  dstPort : UInt16
  cls : String
  srcZone : String
  dstZone : String
  now : Time
  deriving DecidableEq

def FlowArgs.key (a : FlowArgs) : String := flowKey a.srcName a.dstName a.dstPort

/-- The zone updates of `getOrCreate`: a known zone replaces what is there, side by side. -/
def ConnStat.noteZones (c : ConnStat) (srcZone dstZone : String) : ConnStat :=
  { c with
    srcZone := if srcZone ≠ "" then srcZone else c.srcZone
    dstZone := if dstZone ≠ "" then dstZone else c.dstZone }

namespace Stats

def recordExec (s : Stats) : Stats := { s with execCnt := s.execCnt + 1 }

/-- The record `getOrCreate` returns a pointer to; callers change it and store it back. -/
def getOrCreate (s : Stats) (key cls srcZone dstZone : String) : ConnStat :=
  let c := match s.conns.lookup key with
    | some c => c
    | none =>
      { count := 0, bytes := 0, lastSeen := 0, cls := cls, srcZone := srcZone, dstZone := dstZone }
  c.noteZones srcZone dstZone

def recordTCP (s : Stats) (a : FlowArgs) : Stats :=
  let c := s.getOrCreate a.key a.cls a.srcZone a.dstZone
  { s with conns := s.conns.insert a.key { c with count := c.count + 1, lastSeen := a.now } }

def recordBytes (s : Stats) (a : FlowArgs) (n : UInt64) : Stats :=
  let c := s.getOrCreate a.key a.cls a.srcZone a.dstZone
  { s with conns := s.conns.insert a.key { c with bytes := c.bytes + n, lastSeen := a.now } }

end Stats

structure FlowSummary (κ : Type) where
  flow : String
  cls : String
  count : UInt64
  bytes : UInt64
  lastSeen : String
  srcZone : String
  dstZone : String
  crossAZ : Bool
  costUSD : κ

structure Snapshot (κ : Type) where
  timestamp : String
  execEvents : UInt64
  flowCount : ℤ
  totalBytes : UInt64
  crossAZBytes : UInt64
  totalCostUSD : κ
  costPerGB : κ
  flows : List (FlowSummary κ)

/-- The orders in which the loop over the sorted keys may visit them. Map iteration order is
unspecified and `sort.Slice` is not stable, so any arrangement by non-increasing bytes may occur. -/
structure SortedKeys (conns : FiniteMap String ConnStat) (keys : List String) : Prop where
  nodup : keys.Nodup
  mem_iff : ∀ k, k ∈ keys ↔ k ∈ conns
  sorted : keys.Pairwise fun a b =>
    FiniteMap.weightAt ConnStat.bytes conns b ≤ FiniteMap.weightAt ConnStat.bytes conns a

lemma sortedKeys_iff {conns : FiniteMap String ConnStat} {keys : List String} :
    SortedKeys conns keys ↔ keys.Nodup ∧ keys.toFinset = conns.keys ∧ keys.Pairwise fun a b =>
      FiniteMap.weightAt ConnStat.bytes conns b ≤ FiniteMap.weightAt ConnStat.bytes conns a := by
  have hmem : (∀ k, k ∈ keys ↔ k ∈ conns) ↔ keys.toFinset = conns.keys := by
    simp only [Finset.ext_iff, List.mem_toFinset, Finmap.mem_keys]
  constructor
  · intro h
    exact ⟨h.nodup,hmem.mp h.mem_iff,h.sorted⟩
  · rintro ⟨hn,hk,hs⟩
    exact ⟨hn,hmem.mpr hk,hs⟩

instance (conns : FiniteMap String ConnStat) (keys : List String) :
    Decidable (SortedKeys conns keys) := decidable_of_iff _ sortedKeys_iff.symm

/-- Some order is always there to visit the keys in. -/
theorem exists_sortedKeys (conns : FiniteMap String ConnStat) : ∃ keys, SortedKeys conns keys := by
  let le (a b : String) : Bool :=
    FiniteMap.weightAt ConnStat.bytes conns b ≤ FiniteMap.weightAt ConnStat.bytes conns a
  have hperm := List.mergeSort_perm conns.keys.toList le
  refine ⟨conns.keys.toList.mergeSort le,?_,?_,?_⟩
  · exact hperm.nodup_iff.mpr conns.keys.nodup_toList
  · intro k
    rw [hperm.mem_iff, Finset.mem_toList, Finmap.mem_keys]
  · have htrans : ∀ a b c, le a b → le b c → le a c := by
      intro a b c hab hbc
      simp only [le, decide_eq_true_eq] at hab hbc ⊢
      exact UInt64.le_trans hbc hab
    have htotal : ∀ a b, (le a b || le b a) := by
      intro a b
      simp only [le, Bool.or_eq_true, decide_eq_true_eq]
      exact UInt64.le_total _ _
    refine (List.pairwise_mergeSort htrans htotal _).imp ?_
    intro a b hab
    simpa [le] using hab

section Snapshot

variable {κ : Type} [CostNum κ] (cfg : Config κ)

def ConnStat.summary (k : String) (c : ConnStat) : FlowSummary κ where
  flow := k
  cls := c.cls
  count := c.count
  bytes := c.bytes
  lastSeen := cfg.rfc3339 c.lastSeen
  srcZone := c.srcZone
  dstZone := c.dstZone
  crossAZ := c.crossAZ
  costUSD := c.costUSD cfg

/-- The accumulators of the snapshot loop. -/
structure Totals (κ : Type) where
  totalCost : κ
  totalBytes : UInt64
  crossAZBytes : UInt64
  flows : List (FlowSummary κ)

/-- One turn of the snapshot loop. The keys were read off the map under the same lock, so each
is there. -/
def visit (conns : FiniteMap String ConnStat) (acc : Totals κ) (k : String) : Totals κ :=
  match conns.lookup k with
  | none => acc
  | some c =>
    { totalCost := acc.totalCost + c.costUSD cfg
      totalBytes := acc.totalBytes + c.bytes
      crossAZBytes := if c.crossAZ then acc.crossAZBytes + c.bytes else acc.crossAZBytes
      flows := acc.flows ++ [c.summary cfg k] }

/-- `keys` is the sorted slice the loop runs over, `now` the clock reading for the timestamp. -/
def Stats.snapshotAndReset (now : Time) (keys : List String) (s : Stats) : Snapshot κ × Stats :=
  let t := keys.foldl (visit cfg s.conns) ⟨0,0,0,[]⟩
  ({ timestamp := cfg.rfc3339 now
     execEvents := s.execCnt
     flowCount := t.flows.length
     totalBytes := t.totalBytes
     crossAZBytes := t.crossAZBytes
     totalCostUSD := t.totalCost
     costPerGB := cfg.costPerGB
     flows := t.flows },
   { s with execCnt := 0, conns := ∅ })

/-- The bytes a record adds to the cross-zone total. -/
def ConnStat.crossBytes (c : ConnStat) : UInt64 := if c.crossAZ then c.bytes else 0

/-- The record at a key, all zero where there is none. -/
def statAt (conns : FiniteMap String ConnStat) (k : String) : ConnStat :=
  (conns.lookup k).getD default

lemma statAt_of_lookup {conns : FiniteMap String ConnStat} {k : String} {c : ConnStat}
    (h : conns.lookup k = some c) : statAt conns k = c := by simp [statAt, h]

/-- A measure that is zero on the all-zero record is the weight at the key. -/
lemma statAt_measure {f : ConnStat → UInt64} (hf : f default = 0)
    (conns : FiniteMap String ConnStat) (k : String) :
    f (statAt conns k) = FiniteMap.weightAt f conns k := by
  unfold statAt FiniteMap.weightAt
  cases conns.lookup k with
  | none => exact hf
  | some c => rfl

lemma statAt_bytes (conns : FiniteMap String ConnStat) (k : String) :
    (statAt conns k).bytes = FiniteMap.weightAt ConnStat.bytes conns k :=
  statAt_measure rfl conns k

lemma statAt_count (conns : FiniteMap String ConnStat) (k : String) :
    (statAt conns k).count = FiniteMap.weightAt ConnStat.count conns k :=
  statAt_measure rfl conns k

lemma statAt_crossBytes (conns : FiniteMap String ConnStat) (k : String) :
    (statAt conns k).crossBytes = FiniteMap.weightAt ConnStat.crossBytes conns k :=
  statAt_measure rfl conns k

/-- The loop in closed form: bytes are summed, costs folded from the left in visiting order. -/
lemma foldl_visit (conns : FiniteMap String ConnStat) (keys : List String)
    (h : ∀ k ∈ keys, k ∈ conns) (acc : Totals κ) : keys.foldl (visit cfg conns) acc =
      { totalCost := (keys.map fun k => (statAt conns k).costUSD cfg).foldl (· + ·) acc.totalCost
        totalBytes := acc.totalBytes + (keys.map fun k => (statAt conns k).bytes).sum
        crossAZBytes := acc.crossAZBytes + (keys.map fun k => (statAt conns k).crossBytes).sum
        flows := acc.flows ++ keys.map fun k => (statAt conns k).summary cfg k } := by
  induction keys generalizing acc with
  | nil => simp
  | cons k keys ih =>
    obtain ⟨c,hc⟩ := Finmap.mem_iff.mp (h k List.mem_cons_self)
    rw [List.foldl_cons, ih (fun x hx => h x (List.mem_cons_of_mem k hx))]
    cases hx : c.crossAZ <;>
      simp [visit, hc, hx, statAt_of_lookup hc, ConnStat.crossBytes, add_assoc]

section Spec

variable {cfg} {now : Time} {keys : List String} {s : Stats}

/-- What `snapshotAndReset` hands out, for any order the loop may visit the keys in. -/
theorem snapshotAndReset_fst (h : SortedKeys s.conns keys) :
    (s.snapshotAndReset cfg now keys).1 =
      { timestamp := cfg.rfc3339 now
        execEvents := s.execCnt
        flowCount := keys.length
        totalBytes := FiniteMap.weight ConnStat.bytes s.conns
        crossAZBytes := FiniteMap.weight ConnStat.crossBytes s.conns
        totalCostUSD := (keys.map fun k => (statAt s.conns k).costUSD cfg).foldl (· + ·) 0
        costPerGB := cfg.costPerGB
        flows := keys.map fun k => (statAt s.conns k).summary cfg k } := by
  have hmem : ∀ k ∈ keys, k ∈ s.conns := fun k hk => (h.mem_iff k).mp hk
  rw [Stats.snapshotAndReset, foldl_visit cfg s.conns keys hmem]
  simp only [statAt_bytes, statAt_crossBytes, FiniteMap.sum_of_keys _ _ h.nodup h.mem_iff,
    zero_add, List.nil_append, List.length_map]

/-- A reset leaves what `NewStats` makes, apart from the JSON being served. -/
theorem snapshotAndReset_snd (s : Stats) :
    (s.snapshotAndReset cfg now keys).2 = { newStats with lastJSON := s.lastJSON } := rfl

end Spec

end Snapshot
end Tracewulf.Ebpf
