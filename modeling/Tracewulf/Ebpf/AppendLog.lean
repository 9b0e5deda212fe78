import Mathlib.Data.List.Forall2
import Tracewulf.Ebpf.History

/-! The history file as an append-only log. Whatever was in the file when the first session
opened, each complete `Record` adds one record to the log, and at every moment the store holds the
totals and the tail of the log that reading the file back would give. -/
namespace Tracewulf.Ebpf
open Tracewulf.Base

section Codec

variable {κ : Type} {codec : Codec κ} {r : IntervalRecord κ} {data : Bytes}

/-- What `encoding/json` is relied on for: the record becomes one JSON object, on one line that
fits the scanner's buffer, and reads back as itself. -/
structure Encodes (codec : Codec κ) (r : IntervalRecord κ) (data : Bytes) : Prop where
  marshal : codec.marshal r = some data
  unmarshal : codec.unmarshal data = some r
  oneLine : newline ∉ data
  short : data.length < maxTokenSize
  /-- an object ends in a brace -/
  object : data.getLast? = some 125

lemma dropCR_append_of_object (hd : data.getLast? = some 125) (pre : Bytes) :
    dropCR (pre ++ data) = pre ++ data := by
  have hne : data ≠ [] := by rintro rfl; simp at hd
  rw [dropCR, List.getLast?_append_of_ne_nil _ hne, hd, if_neg (by decide)]

lemma Encodes.dropCR (he : Encodes codec r data) : dropCR data = data :=
  dropCR_append_of_object he.object []

end Codec

section Text

variable {κ : Type} {codec : Codec κ} {text : Bytes}

/-- The records of a text: its lines in order, without those that do not decode. -/
def decoded (codec : Codec κ) (text : Bytes) : List (IntervalRecord κ) :=
  ((Lines.lines newline text).map dropCR).filterMap codec.unmarshal

def ShortLines (text : Bytes) : Prop := ∀ l ∈ Lines.lines newline text, l.length < maxTokenSize

instance (text : Bytes) : Decidable (ShortLines text) := List.decidableBAll _ _

/-- The text is empty or ends in a newline. -/
def EndsLine (text : Bytes) : Prop := text = [] ∨ text.getLast? = some newline

instance (text : Bytes) : Decidable (EndsLine text) := inferInstanceAs (Decidable (_ ∨ _))

/-- The scanner gets through a text of short lines, so every line is counted. -/
lemma counted_eq_decoded (h : ShortLines text) : counted codec text = decoded codec text := by
  rw [counted, scanner, Lines.scan_eq_lines h, decoded]

/-- A file a line can be appended to: no line is open, and all of them can be read back. -/
structure WellKept (text : Bytes) : Prop where
  closed : Lines.Closed newline text
  short : ShortLines text

lemma wellKept_of_endsLine (he : EndsLine text) (hs : ShortLines text) : WellKept text :=
  ⟨(Lines.closed_iff text).mpr he,hs⟩

lemma decoded_append (h : Lines.Closed newline text) (u : Bytes) :
    decoded codec (text ++ u) = decoded codec text ++ decoded codec u := by
  rw [decoded, h.lines_append, List.map_append, List.filterMap_append]
  rfl

/-- One line, closed or open. -/
lemma decoded_line {l : Bytes} (h : newline ∉ l) :
    decoded codec (l ++ [newline]) = (codec.unmarshal (dropCR l)).toList := by
  rw [decoded, Lines.lines_line h, List.map_singleton]
  cases hl : codec.unmarshal (dropCR l) <;> simp [hl]

lemma decoded_free {l : Bytes} (h : newline ∉ l) (hne : l ≠ []) :
    decoded codec l = (codec.unmarshal (dropCR l)).toList := by
  rw [decoded, Lines.lines_free h, if_neg hne, List.map_singleton]
  cases hl : codec.unmarshal (dropCR l) <;> simp [hl]

variable {r : IntervalRecord κ} {data : Bytes}

lemma WellKept.append (hw : WellKept text) (he : Encodes codec r data) :
    WellKept (text ++ (data ++ [newline])) where
  closed := hw.closed.append (Lines.closed_line he.oneLine)
  short := by
    intro l hl
    rw [hw.closed.lines_append, Lines.lines_line he.oneLine] at hl
    rcases List.mem_append.mp hl with hl | hl
    · exact hw.short l hl
    · rw [List.mem_singleton.mp hl]
      exact he.short

/-- A complete line adds its record to the log. -/
lemma WellKept.decoded_append (hw : WellKept text) (he : Encodes codec r data) :
    decoded codec (text ++ (data ++ [newline])) = decoded codec text ++ [r] := by
  rw [Ebpf.decoded_append hw.closed, decoded_line he.oneLine, he.dropCR, he.unmarshal]
  rfl

/-- A text of complete lines. -/
def joined (ds : List Bytes) : Bytes := (ds.map (· ++ [newline])).flatten

variable {rs : List (IntervalRecord κ)} {ds : List Bytes}

lemma lines_joined_free (hfree : ∀ d ∈ ds, newline ∉ d) :
    Lines.Closed newline (joined ds) ∧ Lines.lines newline (joined ds) = ds := by
  have hcut := Lines.cut_lines_append ds hfree []
  rw [List.append_nil] at hcut
  constructor
  · rw [Lines.Closed, joined, hcut]
    rfl
  · rw [Lines.lines, joined, hcut]
    simp [Lines.cut]

lemma decoded_joined (he : List.Forall₂ (Encodes codec) rs ds) :
    decoded codec (joined ds) = rs := by
  induction he with
  | nil => simp [decoded, joined, Lines.lines, Lines.cut]
  | @cons r d rs ds hd _ ih =>
    have htext : joined (d::ds) = (d ++ [newline]) ++ joined ds := by simp [joined]
    rw [htext, decoded_append (Lines.closed_line hd.oneLine), decoded_line hd.oneLine, hd.dropCR,
      hd.unmarshal, ih]
    rfl

/-- Complete lines added to a well-kept file add their records to its log. -/
lemma WellKept.joined (hw : WellKept text) (he : List.Forall₂ (Encodes codec) rs ds) :
    WellKept (text ++ joined ds) ∧
      decoded codec (text ++ joined ds) = decoded codec text ++ rs := by
  refine ⟨?_,by rw [Ebpf.decoded_append hw.closed, decoded_joined he]⟩
  induction he generalizing text with
  | nil => simpa [Ebpf.joined] using hw
  | @cons r d rs ds hd _ ih =>
    have htext : text ++ Ebpf.joined (d::ds) =
        (text ++ (d ++ [newline])) ++ Ebpf.joined ds := by
      simp [Ebpf.joined]
    rw [htext]
    exact ih (hw.append hd)

end Text

section Sessions

variable {κ : Type} [CostNum κ] {codec : Codec κ} {rfc3339 : Time → String} {path : String}
  {disk₀ : Option Bytes} {disk : Bytes} {h : HistoryStore κ}

/-- The file and the store after any sequence of sessions: each opens the file the last one left,
and makes any number of `Record` calls that marshal and append in full. -/
inductive Reached (codec : Codec κ) (rfc3339 : Time → String) (path : String)
    (disk₀ : Option Bytes) : Bytes → HistoryStore κ → Prop
  | start (now : Time) {s : HistoryStore κ} :
      newHistoryStore codec rfc3339 path disk₀ (.ok ()) now = .ok s →
      Reached codec rfc3339 path disk₀ (disk₀.getD []) s
  | record (snap : Snapshot κ) {d data : Bytes} {s : HistoryStore κ} :
      Reached codec rfc3339 path disk₀ d s → Encodes codec snap.toRecord data →
      Reached codec rfc3339 path disk₀ (s.record codec snap .full d).1
        (s.record codec snap .full d).2
  | restart (now : Time) {d : Bytes} {s t : HistoryStore κ} :
      Reached codec rfc3339 path disk₀ d s →
      newHistoryStore codec rfc3339 path (some d) (.ok ()) now = .ok t →
      Reached codec rfc3339 path disk₀ d t

/-- The invariant of the sessions: the file can be appended to, and the store tallies its log. -/
structure InStep (codec : Codec κ) (disk : Bytes) (h : HistoryStore κ) : Prop where
  kept : WellKept disk
  opened : h.file.isSome
  tallies : Tallies (decoded codec disk) h

/-- Opening a well-kept file tallies its log. -/
lemma inStep_newHistoryStore (existing : Option Bytes) {now : Time}
    (hw : WellKept (existing.getD []))
    (hopen : newHistoryStore codec rfc3339 path existing (.ok ()) now = .ok h) :
    InStep codec (existing.getD []) h := by
  obtain ⟨ht,hfile⟩ := tallies_newHistoryStore hopen
  rw [counted_eq_decoded hw.short] at ht
  exact ⟨hw,by rw [hfile]; rfl,ht⟩

lemma record_disk (disk : Bytes) {snap : Snapshot κ} {data : Bytes} (hfile : h.file.isSome)
    (he : Encodes codec snap.toRecord data) (write : Write) :
    (h.record codec snap write disk).1 = disk ++ write.landed (data ++ [newline]) := by
  obtain ⟨p,hp⟩ := Option.isSome_iff_exists.mp hfile
  simp only [HistoryStore.record, he.marshal, hp]

lemma InStep.record {snap : Snapshot κ} {data : Bytes} (hi : InStep codec disk h)
    (he : Encodes codec snap.toRecord data) :
    InStep codec (h.record codec snap .full disk).1 (h.record codec snap .full disk).2 := by
  have hdisk := record_disk disk hi.opened he .full
  refine ⟨?_,hi.opened,?_⟩
  · rw [hdisk]
    exact hi.kept.append he
  · rw [hdisk, Write.landed, hi.kept.decoded_append he]
    exact hi.tallies.record snap .full disk

lemma Reached.inStep (hw : WellKept (disk₀.getD []))
    (hr : Reached codec rfc3339 path disk₀ disk h) : InStep codec disk h := by
  induction hr with
  | start now hopen => exact inStep_newHistoryStore disk₀ hw hopen
  | record snap _ he ih => exact ih.record he
  | restart now _ hopen ih => exact inStep_newHistoryStore (some _) ih.kept hopen

/-- In every reachable state the store holds the totals and the last intervals of the file's log.
A complete `Record` adds its record to that log, and closing and reopening the store leaves it as
it is. -/
theorem history_refines_log (hend : EndsLine (disk₀.getD [])) (hshort : ShortLines (disk₀.getD []))
    (hr : Reached codec rfc3339 path disk₀ disk h) :
    Tallies (decoded codec disk) h ∧
    (∀ snap data, Encodes codec snap.toRecord data →
      decoded codec (h.record codec snap .full disk).1 =
        decoded codec disk ++ [snap.toRecord]) ∧
    ∀ now, ∃ h',
      newHistoryStore codec rfc3339 path (some disk) (.ok ()) now = .ok h' ∧
      h'.cumBytes = h.cumBytes ∧ h'.cumCrossAZ = h.cumCrossAZ ∧ h'.cumCost = h.cumCost ∧
      h'.ring = h.ring := by
  have hi := hr.inStep (wellKept_of_endsLine hend hshort)
  refine ⟨hi.tallies,fun snap data he => ?_,fun now => ⟨_,rfl,?_⟩⟩
  · rw [record_disk disk hi.opened he .full]
    exact hi.kept.decoded_append he
  · have hopen : newHistoryStore codec rfc3339 path (some disk) (.ok ()) now = .ok _ := rfl
    exact hi.tallies.unique (inStep_newHistoryStore (some disk) hi.kept hopen).tallies

end Sessions

section Demo

def ascii (s : String) : Bytes := s.toList.map fun c => UInt8.ofNat c.toNat

/-- The JSON of a record that cost nothing. -/
def freeLine (r : IntervalRecord Rat) : Bytes :=
  ascii "\x7b\"timestamp\":\"" ++ ascii r.timestamp ++
    ascii "\",\"total_bytes\":" ++ ascii (toString r.totalBytes.toNat) ++
    ascii ",\"cross_az_bytes\":" ++ ascii (toString r.crossAZBytes.toNat) ++
    ascii ",\"total_cost_usd\":0,\"exec_events\":" ++ ascii (toString r.execEvents.toNat) ++
    ascii ",\"unique_flows\":" ++ ascii (toString r.uniqueFlows) ++ ascii "\x7d"

/-- A codec for a known list of records that cost nothing. -/
def tableCodec (known : List (IntervalRecord Rat)) : Codec Rat where
  marshal r := if r ∈ known then some (freeLine r) else none
  unmarshal text := known.find? fun r => freeLine r = text

lemma tableCodec_unmarshal {known : List (IntervalRecord Rat)} {text : Bytes}
    {r : IntervalRecord Rat} (h : (tableCodec known).unmarshal text = some r) :
    r ∈ known ∧ freeLine r = text := by
  have hfind : known.find? (fun r => freeLine r = text) = some r := h
  exact ⟨List.mem_of_find?_eq_some hfind,
    of_decide_eq_true (List.find?_some (p := fun r => decide (freeLine r = text)) hfind)⟩

/-- An interval with one flow inside a zone. -/
def oneFlow (timestamp : String) (n : UInt64) : Snapshot Rat where
  timestamp := timestamp
  execEvents := 0
  flowCount := 1
  totalBytes := n
  crossAZBytes := 0
  totalCostUSD := 0
  costPerGB := 1/100
  flows := [⟨"checkout -> cache:6379","service",1,n,timestamp,"us-east-1a","us-east-1a",false,0⟩]

def morning : Snapshot Rat := oneFlow "2024-05-01T10:00:10Z" 100
def noon : Snapshot Rat := oneFlow "2024-05-01T12:00:10Z" 250

def demoCodec : Codec Rat := tableCodec [morning.toRecord,noon.toRecord]

lemma getLast?_freeLine (r : IntervalRecord Rat) : (freeLine r).getLast? = some 125 := by
  rw [freeLine, List.getLast?_append_of_ne_nil _ (by decide)]
  rfl

lemma demoCodec_morning : Encodes demoCodec morning.toRecord (freeLine morning.toRecord) where
  marshal := by simp [demoCodec, tableCodec]
  unmarshal := by simp [demoCodec, tableCodec]
  oneLine := by decide +kernel
  short := by decide +kernel
  object := getLast?_freeLine _

lemma demoCodec_noon : Encodes demoCodec noon.toRecord (freeLine noon.toRecord) where
  marshal := by simp [demoCodec, tableCodec]
  unmarshal := by decide +kernel
  oneLine := by decide +kernel
  short := by decide +kernel
  object := getLast?_freeLine _

lemma length_freeLine_noon :
    (freeLine noon.toRecord).length = (freeLine morning.toRecord).length := by
  decide +kernel

/-- Two sessions of one `Record` each, on a file that already holds a line that is no JSON. -/
theorem history_refines_log_twoSessions : ∃ disk h,
    Reached demoCodec (fun _ => "") "h" (some (ascii "corrupt\n")) disk h ∧
    decoded demoCodec disk = [morning.toRecord,noon.toRecord] ∧
    Tallies (decoded demoCodec disk) h ∧ ∀ now, ∃ h',
      newHistoryStore demoCodec (fun _ => "") "h" (some disk) (.ok ()) now = .ok h' ∧
      h'.cumBytes = h.cumBytes ∧ h'.cumCrossAZ = h.cumCrossAZ ∧ h'.cumCost = h.cumCost ∧
      h'.ring = h.ring := by
  have hstart : Reached demoCodec (fun _ => "") "h" (some (ascii "corrupt\n")) _ _ := .start 0 rfl
  have hfirst := hstart.record morning demoCodec_morning
  have hagain := hfirst.restart 1 rfl
  have hsecond := hagain.record noon demoCodec_noon
  have hnone : decoded demoCodec (ascii "corrupt\n") = [] := by decide +kernel
  obtain ⟨-,hone,-⟩ := history_refines_log (by decide) (by decide) hstart
  obtain ⟨-,htwo,-⟩ := history_refines_log (by decide) (by decide) hagain
  obtain ⟨htallies,-,hreopen⟩ := history_refines_log (by decide) (by decide) hsecond
  refine ⟨_,_,hsecond,?_,htallies,hreopen⟩
  refine (htwo noon _ demoCodec_noon).trans ?_
  rw [hone morning _ demoCodec_morning, Option.getD_some, hnone]
  rfl

end Demo
end Tracewulf.Ebpf
