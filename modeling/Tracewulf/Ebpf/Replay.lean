import Tracewulf.Ebpf.FailedAppend

/-! What a startup can miss of the history file. The scan ends at the end of the file, at a read
error or at a line that does not fit the scanner's buffer, and nobody asks which it was; a file
that cannot be opened for reading is taken for one that is not there. -/
namespace Tracewulf.Ebpf
open Tracewulf.Base

/-- How opening and reading the file turns out: it is not opened, or the read ends after so many
bytes, at the end of the file or at an error. -/
inductive ReadOutcome
  | openFailed
  | endedAt (n : ℕ)

/-- The bytes the scanner is given. -/
def ReadOutcome.existing (text : Bytes) : ReadOutcome → Option Bytes
  | openFailed => none
  | endedAt n => some (text.take n)

/-- A startup without error has the totals and the ring of every line of the file that decodes. -/
def CompleteReplay {κ : Type} [CostNum κ] (codec : Codec κ) (text : Bytes) (read : ReadOutcome) :
    Prop :=
  ∀ rfc3339 path append now h,
    newHistoryStore codec rfc3339 path (read.existing text) append now = .ok h →
      Counts (decoded codec text) h

/-- How many bytes of the file the scanner is given at most. -/
def ReadOutcome.size : ReadOutcome → ℕ
  | openFailed => 0
  | endedAt n => n

lemma take_endedAt (text : Bytes) : text.take (ReadOutcome.endedAt text.length).size = text :=
  List.take_length

/-- How far the scanner gets in the lines of the file, which is a matter of their lengths: through
the lines that are shorter than its buffer and end within what is read. -/
def ReadOutcome.reading (text : Bytes) (read : ReadOutcome) : Lines.Reading UInt8 :=
  Lines.reading maxTokenSize read.size (Lines.lines newline text)

section Records

variable {κ : Type} {codec : Codec κ} {whole part unread : List (IntervalRecord κ)}

/-- The records in some lines. -/
def recordsOf (codec : Codec κ) (ls : List Bytes) : List (IntervalRecord κ) :=
  (ls.map dropCR).filterMap codec.unmarshal

lemma recordsOf_append (ls ms : List Bytes) :
    recordsOf codec (ls ++ ms) = recordsOf codec ls ++ recordsOf codec ms := by
  rw [recordsOf, List.map_append, List.filterMap_append]
  rfl

lemma length_recordsOf_le (ls : List Bytes) : (recordsOf codec ls).length ≤ ls.length :=
  (List.length_filterMap_le _ _).trans_eq (List.length_map dropCR)

lemma recordsOf_eq_nil_iff (ls : List Bytes) :
    recordsOf codec ls = [] ↔ ∀ l ∈ ls, codec.unmarshal (dropCR l) = none := by
  simp [recordsOf]

/-- What the unread records of a file must be like to make no difference behind those of the lines
read whole, where `part` comes of the piece that was read of the next line: they bring the same
bytes as that part, and they are that part, or the ring is full of the same records with them and
with that part in their place. -/
structure Harmless (whole part unread : List (IntervalRecord κ)) : Prop where
  bytes : (unread.map IntervalRecord.totalBytes).sum = (part.map IntervalRecord.totalBytes).sum
  crossAZ : (unread.map IntervalRecord.crossAZBytes).sum =
    (part.map IntervalRecord.crossAZBytes).sum
  ring : unread = part ∨
    historyRingCap ≤ (whole ++ unread).length ∧ historyRingCap ≤ (whole ++ part).length ∧
    ∀ i < historyRingCap, (whole ++ unread)[(whole ++ unread).length-historyRingCap+i]? =
      (whole ++ part)[(whole ++ part).length-historyRingCap+i]?

lemma harmless_iff_alike :
    Harmless whole part unread ↔ Alike (whole ++ unread) (whole ++ part) := by
  have hring := Window.recent_eq_recent_iff historyRingCap (whole ++ unread) (whole ++ part)
  rw [List.append_cancel_left_eq] at hring
  constructor
  · intro h
    exact ⟨by simp [h.bytes],by simp [h.crossAZ],hring.mpr h.ring⟩
  · intro h
    have hb := h.bytes
    have hx := h.crossAZ
    rw [List.map_append, List.map_append, List.sum_append, List.sum_append] at hb hx
    exact ⟨add_left_cancel hb,add_left_cancel hx,hring.mp h.recent⟩

/-- With room left in the ring every record is seen. -/
lemma harmless_iff_of_room (h : (whole ++ part).length < historyRingCap) :
    Harmless whole part unread ↔ unread = part := by
  constructor
  · intro hh
    exact hh.ring.resolve_right fun hfull => by omega
  · rintro rfl
    exact ⟨rfl,rfl,.inl rfl⟩

/-- The scan counts the lines read whole and the piece of the next one. -/
lemma counted_take (codec : Codec κ) (text : Bytes) (read : ReadOutcome) :
    counted codec (text.take read.size) = recordsOf codec (read.reading text).whole ++
      recordsOf codec (read.reading text).piece := by
  rw [counted, scanner, Lines.scan_take, ← recordsOf_append]
  rfl

/-- The log of the file is that of the lines read whole and of the others. -/
lemma decoded_eq_reading (codec : Codec κ) (text : Bytes) (read : ReadOutcome) :
    decoded codec text = recordsOf codec (read.reading text).whole ++
      recordsOf codec (read.reading text).missed := by
  rw [← recordsOf_append, ReadOutcome.reading, Lines.whole_append_missed]
  rfl

end Records

section Startup

variable {κ : Type} [CostNum κ] {codec : Codec κ} {text : Bytes} {read : ReadOutcome}

lemma completeReplay_iff_alike : CompleteReplay codec text read ↔
    Alike (decoded codec text) (counted codec (text.take read.size)) := by
  have hread : (read.existing text).getD [] = text.take read.size := by
    cases read <;> simp [ReadOutcome.existing, ReadOutcome.size]
  rw [← hread]
  constructor
  · intro hall
    have hopen : newHistoryStore codec (fun _ => "") "" (read.existing text) (.ok ()) 0 = .ok _ :=
      rfl
    exact (tallies_newHistoryStore hopen).1.counts.alike_iff.mp (hall _ _ _ _ _ hopen)
  · intro halike rfc3339 path append now h hopen
    cases append with
    | error err => simp [newHistoryStore] at hopen
    | ok _ => exact (tallies_newHistoryStore hopen).1.counts.alike_iff.mpr halike

/-- A startup is complete exactly when the records of the lines that are not read whole make no
difference behind those of the lines that are. They make none if they are what comes of the piece
that was read of their first line, and only then as long as the ring has room. For a file that is
not opened that means that no line decodes; for one that is read to its end, that no line decodes
from the first one on that does not fit the buffer. -/
theorem completeReplay_iff (codec : Codec κ) (text : Bytes) (read : ReadOutcome) :
    (CompleteReplay codec text read ↔ Harmless (recordsOf codec (read.reading text).whole)
      (recordsOf codec (read.reading text).piece) (recordsOf codec (read.reading text).missed)) ∧
    (recordsOf codec (read.reading text).missed = recordsOf codec (read.reading text).piece →
      CompleteReplay codec text read) ∧
    (read = .openFailed → (CompleteReplay codec text read ↔
      ∀ l ∈ Lines.lines newline text, codec.unmarshal (dropCR l) = none)) ∧
    ((recordsOf codec (read.reading text).whole ++
        recordsOf codec (read.reading text).piece).length < historyRingCap →
      (CompleteReplay codec text read ↔
        recordsOf codec (read.reading text).missed = recordsOf codec (read.reading text).piece)) ∧
    (∀ n, read = .endedAt n → text.length ≤ n →
      (recordsOf codec ((Lines.lines newline text).takeWhile fun l =>
        l.length < maxTokenSize)).length < historyRingCap →
      (CompleteReplay codec text read ↔
        ∀ l ∈ (Lines.lines newline text).dropWhile fun l => l.length < maxTokenSize,
          codec.unmarshal (dropCR l) = none)) := by
  have hiff : CompleteReplay codec text read ↔ Harmless
      (recordsOf codec (read.reading text).whole) (recordsOf codec (read.reading text).piece)
      (recordsOf codec (read.reading text).missed) := by
    rw [completeReplay_iff_alike, counted_take, decoded_eq_reading codec text read,
      harmless_iff_alike]
  refine ⟨hiff,fun hsame => ?_,?_,fun hroom => hiff.trans (harmless_iff_of_room hroom),?_⟩
  · rw [hiff, hsame]
    exact ⟨rfl,rfl,.inl rfl⟩
  · rintro rfl
    have hnone : ReadOutcome.openFailed.reading text = ⟨[],[],Lines.lines newline text⟩ :=
      Lines.reading_zero _
    rw [hnone] at hiff
    rw [hiff, harmless_iff_of_room (by simp [recordsOf, historyRingCap]), ← recordsOf_eq_nil_iff]
    rfl
  · rintro n rfl hn hroom
    have hall : (ReadOutcome.endedAt n).reading text = _ := Lines.reading_of_length_le hn
    rw [hall] at hiff
    rw [hiff, harmless_iff_of_room (by simpa [recordsOf] using hroom), ← recordsOf_eq_nil_iff]
    rfl

end Startup

section Demo

/-- A line of braces that fills the scanner's buffer, and a record behind it. -/
def longLine : Bytes := List.replicate maxTokenSize 125
def behindLongLine : Bytes := (longLine ++ [newline]) ++ (freeLine morning.toRecord ++ [newline])

lemma longLine_free : newline ∉ longLine := by
  intro hmem
  have hbyte := (List.mem_replicate.mp hmem).2
  revert hbyte
  decide

lemma longLine_undecoded : demoCodec.unmarshal (dropCR longLine) = none := by
  have hlast : longLine.getLast? = some 125 := by
    rw [longLine, List.getLast?_replicate, if_neg (by unfold maxTokenSize; omega)]
  have hkept : dropCR longLine = longLine := dropCR_append_of_object hlast []
  by_contra hsome
  obtain ⟨q,hq⟩ := Option.ne_none_iff_exists'.mp hsome
  obtain ⟨hmem,htext⟩ := tableCodec_unmarshal hq
  have hlen : (freeLine q).length = maxTokenSize := by
    rw [htext, hkept, longLine, List.length_replicate]
  rcases List.mem_pair.mp hmem with rfl | rfl
  · exact absurd hlen demoCodec_morning.short.ne
  · exact absurd hlen demoCodec_noon.short.ne

lemma lines_behindLongLine :
    Lines.lines newline behindLongLine = [longLine,freeLine morning.toRecord] := by
  rw [behindLongLine, (Lines.closed_line longLine_free).lines_append,
    Lines.lines_line longLine_free, Lines.lines_line demoCodec_morning.oneLine]
  rfl

/-- The record behind the line is missed, and so is the record of a file that can be appended to
and not read. -/
theorem longLine_hides :
    ¬ CompleteReplay demoCodec behindLongLine (.endedAt behindLongLine.length) ∧
      ¬ CompleteReplay demoCodec (freeLine morning.toRecord ++ [newline]) .openFailed := by
  constructor
  · rw [completeReplay_iff_alike]
    intro halike
    have hseen : counted demoCodec behindLongLine = [] :=
      counted_long_line longLine_free List.length_replicate.ge _
    have hthere : decoded demoCodec behindLongLine = [morning.toRecord] := by
      rw [decoded, lines_behindLongLine, List.map_cons, List.filterMap_cons_none longLine_undecoded,
        List.map_cons, List.map_nil, demoCodec_morning.dropCR,
        List.filterMap_cons_some demoCodec_morning.unmarshal]
      rfl
    have hbytes := halike.bytes
    rw [take_endedAt, hseen, hthere] at hbytes
    revert hbytes
    decide
  · rw [completeReplay_iff_alike]
    intro halike
    have hbytes := halike.bytes
    revert hbytes
    decide +kernel

/-- Two lines are not enough to fill the ring. -/
theorem completeReplay_iff_longLine :
    (CompleteReplay demoCodec behindLongLine (.endedAt behindLongLine.length) ↔
      ∀ l ∈ (Lines.lines newline behindLongLine).dropWhile fun l => l.length < maxTokenSize,
        demoCodec.unmarshal (dropCR l) = none) ∧
    (CompleteReplay demoCodec behindLongLine .openFailed ↔
      ∀ l ∈ Lines.lines newline behindLongLine, demoCodec.unmarshal (dropCR l) = none) := by
  have hfew : (recordsOf demoCodec ((Lines.lines newline behindLongLine).takeWhile fun l =>
      l.length < maxTokenSize)).length < historyRingCap :=
    calc _ ≤ _ := length_recordsOf_le _
      _ ≤ (Lines.lines newline behindLongLine).length := (List.takeWhile_sublist _).length_le
      _ = 2 := congrArg List.length lines_behindLongLine
      _ < historyRingCap := by decide
  exact ⟨(completeReplay_iff demoCodec behindLongLine (.endedAt behindLongLine.length)).2.2.2.2 _ rfl
    Nat.le.refl hfew,(completeReplay_iff demoCodec behindLongLine .openFailed).2.2.1 rfl⟩

end Demo
end Tracewulf.Ebpf
