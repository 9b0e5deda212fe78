import Tracewulf.Base.Locked
import Tracewulf.Ebpf.History

/-! The methods of the aggregator and `Record` of the history store between `Lock` and `Unlock`,
access by access. Done at once, each is the function it is elsewhere taken for. -/
namespace Tracewulf.Ebpf
open Tracewulf.Base

section Aggregator

variable {ρ : Type} {s : Stats} {key : String} {r : ρ}

/-- Reads a record of the map through its pointer and writes it back. -/
def changeConn (key : String) (f : ConnStat → ConnStat) (rest : Critical Stats ρ) :
    Critical Stats ρ :=
  .read fun s =>
    match s.conns.lookup key with
    | some c => .write (fun s => { s with conns := s.conns.insert key (f c) }) rest
    | none => rest

/-- `getOrCreate`, down to the pointer that it returns. -/
def getOrCreateBody (key cls srcZone dstZone : String) (rest : Critical Stats ρ) :
    Critical Stats ρ :=
  let noteDst := if dstZone ≠ "" then
    changeConn key (fun c => { c with dstZone := dstZone }) rest else rest
  let noteSrc := if srcZone ≠ "" then
    changeConn key (fun c => { c with srcZone := srcZone }) noteDst else noteDst
  let fresh : ConnStat :=
    { count := 0, bytes := 0, lastSeen := 0, cls := cls, srcZone := srcZone, dstZone := dstZone }
  .read fun s =>
    match s.conns.lookup key with
    | some _ => noteSrc
    | none => .write (fun s => { s with conns := s.conns.insert key fresh }) noteSrc

def recordTCPBody (a : FlowArgs) : Critical Stats Unit :=
  getOrCreateBody a.key a.cls a.srcZone a.dstZone <|
  changeConn a.key (fun c => { c with count := c.count + 1 }) <|
  changeConn a.key (fun c => { c with lastSeen := a.now }) <|
  .ret ()

def recordBytesBody (a : FlowArgs) (n : UInt64) : Critical Stats Unit :=
  getOrCreateBody a.key a.cls a.srcZone a.dstZone <|
  changeConn a.key (fun c => { c with bytes := c.bytes + n }) <|
  changeConn a.key (fun c => { c with lastSeen := a.now }) <|
  .ret ()

def recordExecBody : Critical Stats Unit :=
  .read fun s => .write (fun t => { t with execCnt := s.execCnt + 1 }) <| .ret ()

/-- The change `changeConn` makes. -/
def Stats.change (s : Stats) (key : String) (f : ConnStat → ConnStat) : Stats :=
  match s.conns.lookup key with
  | some c => { s with conns := s.conns.insert key (f c) }
  | none => s

@[simp] lemma eval_changeConn (f : ConnStat → ConnStat) (rest : Critical Stats ρ) (s : Stats) :
    (changeConn key f rest).eval s = rest.eval (s.change key f) := by
  rw [changeConn, Critical.eval_read, Stats.change]
  cases s.conns.lookup key <;> rfl

lemma Stats.change_change (f g : ConnStat → ConnStat) (s : Stats) :
    (s.change key f).change key g = s.change key (g ∘ f) := by
  cases h : s.conns.lookup key with
  | none => simp [Stats.change, h]
  | some c => simp [Stats.change, h, Finmap.insert_insert]

/-- What is done with the pointer that `getOrCreate` returns is done to that record. -/
lemma eval_getOrCreateBody {rest : Critical Stats ρ} {f : ConnStat → ConnStat}
    (hrest : ∀ s, rest.eval s = (r,s.change key f)) (cls srcZone dstZone : String) (s : Stats) :
    (getOrCreateBody key cls srcZone dstZone rest).eval s = (r,{ s with
      conns := s.conns.insert key (f (s.getOrCreate key cls srcZone dstZone)) }) := by
  have hnote : ∀ s c, s.conns.lookup key = some c →
      (if srcZone ≠ "" then changeConn key (fun c => { c with srcZone := srcZone })
          (if dstZone ≠ "" then changeConn key (fun c => { c with dstZone := dstZone }) rest
            else rest)
        else if dstZone ≠ "" then changeConn key (fun c => { c with dstZone := dstZone }) rest
          else rest).eval s =
      (r,{ s with conns := s.conns.insert key (f (c.noteZones srcZone dstZone)) }) := by
    intro s c hc
    by_cases hsrc : srcZone = "" <;> by_cases hdst : dstZone = "" <;>
      simp [hsrc, hdst, hrest, Stats.change, hc, ConnStat.noteZones]
  rw [getOrCreateBody, Critical.eval_read]
  cases h : s.conns.lookup key with
  | some c =>
    simp only [Stats.getOrCreate, h]
    exact hnote s c h
  | none =>
    simp only [Stats.getOrCreate, h, Critical.eval_write]
    rw [hnote _ _ (Finmap.lookup_insert _)]
    simp only [Finmap.insert_insert]

theorem eval_recordTCPBody (a : FlowArgs) (s : Stats) :
    (recordTCPBody a).eval s = ((),s.recordTCP a) := by
  have hrest : ∀ s : Stats, (changeConn a.key (fun c => { c with count := c.count + 1 }) <|
      changeConn a.key (fun c => { c with lastSeen := a.now }) <| .ret ()).eval s =
      ((),s.change a.key fun c => { c with count := c.count + 1, lastSeen := a.now }) := by
    intro s
    rw [eval_changeConn, eval_changeConn, Stats.change_change]
    rfl
  exact eval_getOrCreateBody hrest a.cls a.srcZone a.dstZone s

theorem eval_recordBytesBody (a : FlowArgs) (n : UInt64) (s : Stats) :
    (recordBytesBody a n).eval s = ((),s.recordBytes a n) := by
  have hrest : ∀ s : Stats, (changeConn a.key (fun c => { c with bytes := c.bytes + n }) <|
      changeConn a.key (fun c => { c with lastSeen := a.now }) <| .ret ()).eval s =
      ((),s.change a.key fun c => { c with bytes := c.bytes + n, lastSeen := a.now }) := by
    intro s
    rw [eval_changeConn, eval_changeConn, Stats.change_change]
    rfl
  exact eval_getOrCreateBody hrest a.cls a.srcZone a.dstZone s

theorem eval_recordExecBody (s : Stats) : recordExecBody.eval s = ((),s.recordExec) := rfl

end Aggregator

section Snapshot

variable {κ ρ : Type} [CostNum κ] (cfg : Config κ)

/-- The loop over the sorted keys. -/
def visitBody (acc : Totals κ) (next : Totals κ → Critical Stats ρ) : List String → Critical Stats ρ
  | [] => next acc
  | k::keys => .read fun s => visitBody (visit cfg s.conns acc k) next keys

/-- `order` is the slice that collecting and sorting the keys of the map comes to. -/
def snapshotBody (now : Time) (order : FiniteMap String ConnStat → List String) :
    Critical Stats (Snapshot κ) :=
  .read fun s =>
  visitBody cfg ⟨0,0,0,[]⟩ (fun t =>
    .read fun s =>
    let snap : Snapshot κ :=
      { timestamp := cfg.rfc3339 now
        execEvents := s.execCnt
        flowCount := t.flows.length
        totalBytes := t.totalBytes
        crossAZBytes := t.crossAZBytes
        totalCostUSD := t.totalCost
        costPerGB := cfg.costPerGB
        flows := t.flows }
    .write (fun s => { s with execCnt := 0 }) <|
    .write (fun s => { s with conns := ∅ }) <|
    .ret snap) (order s.conns)

variable {cfg}

lemma eval_visitBody (next : Totals κ → Critical Stats ρ) (keys : List String) (acc : Totals κ)
    (s : Stats) : (visitBody cfg acc next keys).eval s =
      (next (keys.foldl (visit cfg s.conns) acc)).eval s := by
  induction keys generalizing acc with
  | nil => rfl
  | cons k keys ih => exact ih _

theorem eval_snapshotBody (now : Time) (order : FiniteMap String ConnStat → List String)
    (s : Stats) : (snapshotBody cfg now order).eval s =
      s.snapshotAndReset cfg now (order s.conns) := by
  rw [snapshotBody, Critical.eval_read, eval_visitBody]
  rfl

end Snapshot

section Store

variable {κ : Type} [CostNum κ] (codec : Codec κ)

/-- `Record`, on the file and the store. -/
def recordBody (snap : Snapshot κ) (write : Write) : Critical (Bytes × HistoryStore κ) Unit :=
  let r := snap.toRecord
  let count : Critical (Bytes × HistoryStore κ) Unit :=
    .write (fun x => (x.1,{ x.2 with cumBytes := x.2.cumBytes + r.totalBytes })) <|
    .write (fun x => (x.1,{ x.2 with cumCrossAZ := x.2.cumCrossAZ + r.crossAZBytes })) <|
    .write (fun x => (x.1,{ x.2 with cumCost := x.2.cumCost + r.totalCostUSD })) <|
    .write (fun x => (x.1,{ x.2 with ring := x.2.ring ++ [r] })) <|
    .read fun x =>
      if historyRingCap < x.2.ring.length then
        .write (fun x => (x.1,{ x.2 with ring := x.2.ring.drop 1 })) <| .ret ()
      else .ret ()
  match codec.marshal r with
  | none => count
  | some data =>
    .read fun x =>
      match x.2.file with
      | none => count
      | some _ => .write (fun x => (x.1 ++ write.landed (data ++ [newline]),x.2)) count

theorem eval_recordBody (snap : Snapshot κ) (write : Write) (disk : Bytes) (h : HistoryStore κ) :
    (recordBody codec snap write).eval (disk,h) = ((),h.record codec snap write disk) := by
  rw [recordBody, HistoryStore.record]
  by_cases hring : historyRingCap < h.ring.length + 1
  · cases hdata : codec.marshal snap.toRecord with
    | none => simp [hring]
    | some data => cases hfile : h.file <;> simp [hring, hfile]
  · cases hdata : codec.marshal snap.toRecord with
    | none => simp [hring]
    | some data => cases hfile : h.file <;> simp [hring, hfile]

end Store
end Tracewulf.Ebpf
