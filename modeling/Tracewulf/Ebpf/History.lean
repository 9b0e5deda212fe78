import Tracewulf.Base.Log
import Tracewulf.Ebpf.Stats

/-! The history store: one line of JSON for each reporting interval, appended to a file, and the
totals and recent intervals kept in memory. Opening the store replays the file. -/
namespace Tracewulf.Ebpf
open Tracewulf.Base

structure IntervalRecord (κ : Type) where
  timestamp : String
  totalBytes : UInt64
  crossAZBytes : UInt64
  totalCostUSD : κ
  execEvents : UInt64
  uniqueFlows : ℤ
  deriving DecidableEq

/-- `json.Marshal` and `json.Unmarshal` at interval records; either may fail. -/
structure Codec (κ : Type) where
  marshal : IntervalRecord κ → Option Bytes
  unmarshal : Bytes → Option (IntervalRecord κ)

def historyRingCap : ℕ := 360

structure HistoryStore (κ : Type) where
  /-- the path the append handle is open on -/
  file : Option String
  ring : List (IntervalRecord κ)
  cumBytes : UInt64
  cumCrossAZ : UInt64
  cumCost : κ
  since : String

/-- The byte `'\n'`. -/
def newline : UInt8 := 10

/-- The size `scanner.Buffer` is capped at; a longer line ends the scan. -/
def maxTokenSize : ℕ := 1024*1024

/-- A carriage return before the line break belongs to it. -/
def dropCR (line : Bytes) : Bytes := if line.getLast? = some 13 then line.dropLast else line

/-- The tokens of a `bufio.Scanner` over the text. Its error is never looked at, so a line that
does not fit ends the loop as the end of the text would. -/
def scanner (text : Bytes) : List Bytes := (Lines.scan newline maxTokenSize text).map dropCR

/-- The records `NewHistoryStore` counts when it finds this text in the file. -/
def counted {κ : Type} (codec : Codec κ) (text : Bytes) : List (IntervalRecord κ) :=
  (scanner text).filterMap codec.unmarshal

@[simp] lemma counted_nil {κ : Type} (codec : Codec κ) : counted codec [] = [] := by
  simp [counted, scanner, Lines.scan, Lines.lines, Lines.cut]

section Store

variable {κ : Type} [CostNum κ] (codec : Codec κ)

/-- One turn of the replay loop of `NewHistoryStore`. -/
def HistoryStore.replayLine (h : HistoryStore κ) (line : Bytes) : HistoryStore κ :=
  match codec.unmarshal line with
  | none => h
  | some r =>
    let ring := h.ring ++ [r]
    { h with
      since := if h.since = "" then r.timestamp else h.since
      cumBytes := h.cumBytes + r.totalBytes
      cumCrossAZ := h.cumCrossAZ + r.crossAZBytes
      cumCost := h.cumCost + r.totalCostUSD
      ring := if historyRingCap < ring.length then ring.drop 1 else ring }

/-- `existing` is what `os.Open` and the scanner read, `none` where the open fails; `append` is
the outcome of opening the file for appending. -/
def newHistoryStore (rfc3339 : Time → String) (path : String) (existing : Option Bytes)
    (append : Except String Unit) (now : Time) : Except String (HistoryStore κ) :=
  let empty : HistoryStore κ :=
    { file := none, ring := [], cumBytes := 0, cumCrossAZ := 0, cumCost := 0, since := "" }
  let h := match existing with
    | none => empty
    | some text => (scanner text).foldl (HistoryStore.replayLine codec) empty
  match append with
  | .error err => .error ("open history file " ++ path.quote ++ ": " ++ err)
  | .ok () => .ok
    { h with
      file := some path
      since := if h.since = "" then rfc3339 now else h.since }

def Snapshot.toRecord (snap : Snapshot κ) : IntervalRecord κ where
  timestamp := snap.timestamp
  totalBytes := snap.totalBytes
  crossAZBytes := snap.crossAZBytes
  totalCostUSD := snap.totalCostUSD
  execEvents := snap.execEvents
  uniqueFlows := snap.flowCount

/-- How much of a line a write gets on to the disk. -/
inductive Write
  | full
  | cut (n : ℕ)
  deriving DecidableEq

def Write.landed : Write → Bytes → Bytes
  | full, line => line
  | cut n, line => line.take n

/-- `write` is how much of the line reaches the file: all of it when the append succeeds,
a prefix when it fails or the process dies in it. The code looks at no result of the write. -/
def HistoryStore.record (snap : Snapshot κ) (write : Write) (disk : Bytes)
    (h : HistoryStore κ) : Bytes × HistoryStore κ :=
  let r := snap.toRecord
  let disk := match codec.marshal r, h.file with
    | some data, some _ => disk ++ write.landed (data ++ [newline])
    | _, _ => disk
  let ring := h.ring ++ [r]
  (disk,
    { h with
      cumBytes := h.cumBytes + r.totalBytes
      cumCrossAZ := h.cumCrossAZ + r.crossAZBytes
      cumCost := h.cumCost + r.totalCostUSD
      ring := if historyRingCap < ring.length then ring.drop 1 else ring })

end Store

section Tally

variable {κ : Type} [CostNum κ] {codec : Codec κ}

/-- What the store keeps in memory of a log of records. Costs are added from the left. -/
structure Tallies (log : List (IntervalRecord κ)) (h : HistoryStore κ) : Prop where
  cumBytes : h.cumBytes = (log.map IntervalRecord.totalBytes).sum
  cumCrossAZ : h.cumCrossAZ = (log.map IntervalRecord.crossAZBytes).sum
  cumCost : h.cumCost = log.foldl (fun c r => c + r.totalCostUSD) 0
  ring : h.ring = Window.recent historyRingCap log

variable {log : List (IntervalRecord κ)} {h : HistoryStore κ}

/-- The replay loop counts a line that decodes and skips one that does not. -/
lemma Tallies.replayLine (ht : Tallies log h) (line : Bytes) :
    Tallies (log ++ (codec.unmarshal line).toList) (h.replayLine codec line) := by
  cases hl : codec.unmarshal line with
  | none => simpa [HistoryStore.replayLine, hl] using ht
  | some r =>
    simp only [HistoryStore.replayLine, hl, Option.toList_some]
    constructor
    case cumBytes => simp [ht.cumBytes]
    case cumCrossAZ => simp [ht.cumCrossAZ]
    case cumCost => rw [ht.cumCost, List.foldl_append]; rfl
    case ring => rw [Window.recent_append_singleton, ht.ring]

/-- `Record` counts its snapshot whatever becomes of the write. -/
lemma Tallies.record (ht : Tallies log h) (snap : Snapshot κ) (write : Write)
    (disk : Bytes) : Tallies (log ++ [snap.toRecord]) (h.record codec snap write disk).2 := by
  constructor
  case cumBytes => simp [HistoryStore.record, ht.cumBytes]
  case cumCrossAZ => simp [HistoryStore.record, ht.cumCrossAZ]
  case cumCost => rw [HistoryStore.record, ht.cumCost, List.foldl_append]; rfl
  case ring => rw [HistoryStore.record, Window.recent_append_singleton, ht.ring]

lemma tallies_foldl (codec : Codec κ) (lines : List Bytes) (ht : Tallies log h) :
    Tallies (log ++ lines.filterMap codec.unmarshal)
      (lines.foldl (HistoryStore.replayLine codec) h) := by
  induction lines generalizing log h with
  | nil => simpa using ht
  | cons line lines ih =>
    have hlog : log ++ (line::lines).filterMap codec.unmarshal =
        (log ++ (codec.unmarshal line).toList) ++ lines.filterMap codec.unmarshal := by
      cases hl : codec.unmarshal line <;> simp [hl]
    rw [List.foldl_cons, hlog]
    exact ih (ht.replayLine line)

lemma tallies_nil (since : String) : Tallies (κ := κ) [] ⟨none,[],0,0,0,since⟩ where
  cumBytes := rfl
  cumCrossAZ := rfl
  cumCost := rfl
  ring := by simp [Window.recent]

variable {rfc3339 : Time → String} {path : String} {existing : Option Bytes} {now : Time}

theorem tallies_newHistoryStore
    (hopen : newHistoryStore codec rfc3339 path existing (.ok ()) now = .ok h) :
    Tallies (counted codec (existing.getD [])) h ∧ h.file = some path := by
  have hempty := tallies_nil (κ := κ) ""
  simp only [newHistoryStore, Except.ok.injEq] at hopen
  subst hopen
  cases existing with
  | none =>
    rw [Option.getD_none, counted_nil]
    exact ⟨⟨hempty.cumBytes,hempty.cumCrossAZ,hempty.cumCost,hempty.ring⟩,rfl⟩
  | some text =>
    obtain ⟨hb,hc,hu,hr⟩ := tallies_foldl codec (scanner text) hempty
    exact ⟨⟨hb,hc,hu,hr⟩,rfl⟩

/-- The totals and the ring are functions of the log. -/
lemma Tallies.unique {h' : HistoryStore κ} (ht : Tallies log h) (ht' : Tallies log h') :
    h'.cumBytes = h.cumBytes ∧ h'.cumCrossAZ = h.cumCrossAZ ∧ h'.cumCost = h.cumCost ∧
      h'.ring = h.ring := by
  refine ⟨?_,?_,?_,?_⟩
  · rw [ht.cumBytes, ht'.cumBytes]
  · rw [ht.cumCrossAZ, ht'.cumCrossAZ]
  · rw [ht.cumCost, ht'.cumCost]
  · rw [ht.ring, ht'.ring]

end Tally
end Tracewulf.Ebpf
