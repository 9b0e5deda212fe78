import Tracewulf.Ebpf.AppendLog

/-! A crash in the middle of an append leaves an open line, and nothing closes it: the first record
of the next session is written on to it, and the two together are one line that does not decode. -/
namespace Tracewulf.Ebpf
open Tracewulf.Base

section Text

variable {κ : Type} {codec : Codec κ} {text : Bytes}

lemma WellKept.counted_append (hw : WellKept text) (u : Bytes) :
    counted codec (text ++ u) = decoded codec text ++ counted codec u := by
  rw [counted, scanner, hw.closed.scan_append hw.short, List.map_append, List.filterMap_append]
  rfl

variable {rs : List (IntervalRecord κ)} {ds : List Bytes}

lemma lines_joined (he : List.Forall₂ (Encodes codec) rs ds) :
    Lines.lines newline (joined ds) = ds := by
  have hfree : ∀ d ∈ ds, newline ∉ d := by
    intro d hd
    induction he with
    | nil => exact absurd hd List.not_mem_nil
    | cons hr _ ih =>
      rcases List.mem_cons.mp hd with rfl | hd
      · exact hr.oneLine
      · exact ih hd
  exact (lines_joined_free hfree).2

/-- A text is one JSON value: a record's encoding, or a part of it, does not decode when another
encoding follows directly. -/
def Codec.OneValue (codec : Codec κ) : Prop := ∀ (r r' : IntervalRecord κ) (data data' : Bytes),
  Encodes codec r data → Encodes codec r' data' → ∀ n, 0 < n → n ≤ data.length →
    codec.unmarshal (data.take n ++ data') = none

/-- The line a torn line swallows is lost, whatever else follows. -/
lemma length_counted_torn (hone : codec.OneValue) {torn : IntervalRecord κ} {data : Bytes}
    (ht : Encodes codec torn data) {n : ℕ} (hpos : 0 < n) (hn : n ≤ data.length)
    (he : List.Forall₂ (Encodes codec) rs ds) (hne : rs ≠ []) :
    (counted codec (data.take n ++ joined ds)).length < rs.length := by
  cases he with
  | nil => exact absurd rfl hne
  | @cons r d rs ds hd hds =>
    have hglue : codec.unmarshal (dropCR (data.take n ++ d)) = none := by
      rw [dropCR_append_of_object hd.object]
      exact hone torn r data d ht hd n hpos hn
    have hfree : newline ∉ data.take n ++ d := by
      rw [List.mem_append, not_or]
      exact ⟨fun h => ht.oneLine (List.mem_of_mem_take h),hd.oneLine⟩
    have htext : data.take n ++ joined (d::ds) =
        ((data.take n ++ d) ++ [newline]) ++ joined ds := by
      simp [joined]
    have hlines : Lines.lines newline (data.take n ++ joined (d::ds)) = (data.take n ++ d)::ds := by
      rw [htext, (Lines.closed_line hfree).lines_append, Lines.lines_line hfree, lines_joined hds]
      rfl
    have hlen : ds.length = rs.length := hds.length_eq.symm
    rw [counted, scanner, Lines.scan, hlines, List.takeWhile_cons, List.length_cons]
    split_ifs with hshort
    · rw [List.map_cons, List.filterMap_cons_none hglue]
      refine (List.length_filterMap_le _ _).trans_lt ?_
      rw [List.length_map, ← hlen]
      exact Nat.lt_succ_of_le (List.takeWhile_sublist _).length_le
    · simp

end Text

section Op

variable {κ : Type}

/-- What follows the crash: the daemon is started again, or completes a `Record`. -/
inductive Op (κ : Type)
  | restart (now : Time)
  | record (snap : Snapshot κ)

def Op.recorded : Op κ → Option (IntervalRecord κ)
  | restart _ => none
  | record snap => some snap.toRecord

/-- What a step appends to the file. -/
def Op.line (codec : Codec κ) : Op κ → Bytes
  | restart _ => []
  | record snap => (codec.marshal snap.toRecord).elim [] (· ++ [newline])

/-- Some restart comes after a completed `Record`. -/
def RestartAfterRecord (ops : List (Op κ)) : Prop :=
  ∃ pre now, pre ++ [.restart now] <+: ops ∧ pre.filterMap Op.recorded ≠ []

variable {codec : Codec κ}

/-- The records a sequence of steps completes, and the lines it writes for them. -/
lemma exists_lines {ops : List (Op κ)}
    (he : ∀ snap, .record snap ∈ ops → ∃ data, Encodes codec snap.toRecord data) :
    ∃ ds, List.Forall₂ (Encodes codec) (ops.filterMap Op.recorded) ds ∧
      (ops.map (Op.line codec)).flatten = joined ds := by
  induction ops with
  | nil => exact ⟨[],.nil,rfl⟩
  | cons op ops ih =>
    obtain ⟨ds,hds,htext⟩ := ih fun snap hs => he snap (List.mem_cons_of_mem op hs)
    cases op with
    | restart now => exact ⟨ds,hds,htext⟩
    | record snap =>
      obtain ⟨data,hdata⟩ := he snap List.mem_cons_self
      refine ⟨data::ds,.cons hdata hds,?_⟩
      rw [List.map_cons, List.flatten_cons, htext, Op.line, hdata.marshal]
      rfl

lemma encodes_before {after pre : List (Op κ)} {now later : Time}
    (he : ∀ snap, .record snap ∈ after → ∃ data, Encodes codec snap.toRecord data)
    (hp : pre ++ [.restart later] <+: .restart now::after) :
    ∀ snap, .record snap ∈ pre → ∃ data, Encodes codec snap.toRecord data := by
  intro snap hs
  have hmem := hp.subset (List.mem_append_left _ hs)
  exact he snap (by simpa using hmem)

end Op

section Crash

variable {κ : Type} [CostNum κ] (codec : Codec κ) (rfc3339 : Time → String) (path : String)

/-- The history file and the store of the running daemon, `none` while none is running. -/
structure Machine (κ : Type) where
  disk : Bytes
  store : Option (HistoryStore κ)

/-- The process dies when `n` bytes of the line it is appending are on the disk. -/
def Machine.crash (m : Machine κ) (snap : Snapshot κ) (n : ℕ) : Machine κ :=
  match m.store with
  | none => m
  | some h => ⟨(h.record codec snap (.cut n) m.disk).1,none⟩

def Machine.step (m : Machine κ) : Op κ → Machine κ
  | .restart now =>
    match newHistoryStore codec rfc3339 path (some m.disk) (.ok ()) now with
    | .error _ => m
    | .ok h => ⟨m.disk,some h⟩
  | .record snap =>
    match m.store with
    | none => m
    | some h => ⟨(h.record codec snap .full m.disk).1,some (h.record codec snap .full m.disk).2⟩

/-- The file after the steps `ops`, as the next restart reads it. -/
def Machine.diskAfter (m : Machine κ) (ops : List (Op κ)) : Bytes :=
  (ops.foldl (Machine.step codec rfc3339 path) m).disk

/-- The torn record is all that is lost: every restart of the run counts each record whose line
was completed by then, and each record that an earlier restart counted. -/
structure TornTailSafe (complete : List (IntervalRecord κ)) (m : Machine κ) (ops : List (Op κ)) :
    Prop where
  counts : ∀ pre now, pre ++ [.restart now] <+: ops →
    (complete ++ pre.filterMap Op.recorded).Subperm
      (counted codec (m.diskAfter codec rfc3339 path pre))
  lasting : ∀ pre now pre' now', pre ++ [.restart now] <+: pre' →
    pre' ++ [.restart now'] <+: ops →
    (counted codec (m.diskAfter codec rfc3339 path pre)).Subperm
      (counted codec (m.diskAfter codec rfc3339 path pre'))

end Crash

section Run

variable {κ : Type} [CostNum κ] {codec : Codec κ} {rfc3339 : Time → String} {path : String}
  {m : Machine κ}

/-- A daemon is running, with its append handle open. -/
def Machine.Running (m : Machine κ) : Prop := ∃ h, m.store = some h ∧ h.file.isSome

lemma step_restart (codec : Codec κ) (rfc3339 : Time → String) (path : String) (m : Machine κ)
    (now : Time) :
    (m.step codec rfc3339 path (.restart now)).Running ∧
      (m.step codec rfc3339 path (.restart now)).disk = m.disk :=
  ⟨⟨_,rfl,rfl⟩,rfl⟩

lemma Machine.Running.step (codec : Codec κ) (rfc3339 : Time → String) (path : String)
    (hm : m.Running) (op : Op κ) :
    (m.step codec rfc3339 path op).Running ∧
      (m.step codec rfc3339 path op).disk = m.disk ++ op.line codec := by
  cases op with
  | restart now =>
    rw [Op.line, List.append_nil]
    exact step_restart codec rfc3339 path m now
  | record snap =>
    obtain ⟨h,hs,hf⟩ := hm
    obtain ⟨p,hp⟩ := Option.isSome_iff_exists.mp hf
    simp only [Machine.step, hs, Op.line]
    refine ⟨⟨_,rfl,hf⟩,?_⟩
    cases hd : codec.marshal snap.toRecord <;> simp [HistoryStore.record, hd, hp, Write.landed]

lemma Machine.Running.disk_foldl (hm : m.Running) (ops : List (Op κ)) :
    (ops.foldl (Machine.step codec rfc3339 path) m).disk =
      m.disk ++ (ops.map (Op.line codec)).flatten := by
  induction ops generalizing m with
  | nil => simp
  | cons op ops ih =>
    obtain ⟨hrun,hdisk⟩ := hm.step codec rfc3339 path op
    rw [List.foldl_cons, ih hrun, hdisk, List.map_cons, List.flatten_cons, List.append_assoc]

variable {disk₀ : Option Bytes} {disk : Bytes} {h : HistoryStore κ} {torn : Snapshot κ}
  {data : Bytes} {n : ℕ} {after pre : List (Op κ)} {now later : Time}

lemma crash_disk (hfile : h.file.isSome) (ht : Encodes codec torn.toRecord data)
    (hn : n ≤ data.length) :
    (Machine.crash codec ⟨disk,some h⟩ torn n).disk = disk ++ data.take n := by
  have htake : (data ++ [newline]).take n = data.take n := List.take_append_of_le_length hn
  rw [← htake]
  exact record_disk disk hfile ht (.cut n)

/-- The file a restart of the run reads: what was there, what the crash left of its line, and the
lines completed since. -/
lemma diskAfter_crash (hfile : h.file.isSome) (ht : Encodes codec torn.toRecord data)
    (hn : n ≤ data.length) (hp : pre ++ [.restart later] <+: .restart now::after) :
    (Machine.crash codec ⟨disk,some h⟩ torn n).diskAfter codec rfc3339 path pre =
      disk ++ (data.take n ++ (pre.map (Op.line codec)).flatten) := by
  rw [← List.append_assoc, ← crash_disk hfile ht hn]
  cases pre with
  | nil => simp [Machine.diskAfter]
  | cons op pre =>
    obtain ⟨rfl,-⟩ := List.cons_prefix_cons.mp hp
    obtain ⟨hrun,hdisk⟩ := step_restart codec rfc3339 path
      (Machine.crash codec ⟨disk,some h⟩ torn n) now
    rw [Machine.diskAfter, List.foldl_cons, hrun.disk_foldl, hdisk]
    rfl

/-- With nothing of the torn line on the disk the run goes on as if there had been no crash. -/
lemma counted_after_clean_crash (hw : WellKept disk) (hfile : h.file.isSome)
    (ht : Encodes codec torn.toRecord data)
    (he : ∀ snap, .record snap ∈ after → ∃ data, Encodes codec snap.toRecord data)
    (hp : pre ++ [.restart later] <+: .restart now::after) :
    counted codec ((Machine.crash codec ⟨disk,some h⟩ torn 0).diskAfter codec rfc3339 path pre) =
      decoded codec disk ++ pre.filterMap Op.recorded := by
  obtain ⟨ds,hds,htext⟩ := exists_lines (encodes_before he hp)
  obtain ⟨hkept,hlog⟩ := hw.joined hds
  rw [diskAfter_crash hfile ht (Nat.zero_le _) hp, htext, List.take_zero, List.nil_append,
    counted_eq_decoded hkept.short, hlog]

/-- Until a `Record` completes, the torn line hides nothing. -/
lemma diskAfter_without_record (hfile : h.file.isSome) (ht : Encodes codec torn.toRecord data)
    (hn : n ≤ data.length) (hno : ¬ RestartAfterRecord after)
    (he : ∀ snap, .record snap ∈ after → ∃ data, Encodes codec snap.toRecord data)
    (hp : pre ++ [.restart later] <+: .restart now::after) :
    pre.filterMap Op.recorded = [] ∧
      (Machine.crash codec ⟨disk,some h⟩ torn n).diskAfter codec rfc3339 path pre =
        disk ++ data.take n := by
  have hnone : pre.filterMap Op.recorded = [] := by
    cases pre with
    | nil => rfl
    | cons op pre =>
      obtain ⟨rfl,hq⟩ := List.cons_prefix_cons.mp hp
      by_contra hrec
      exact hno ⟨pre,later,hq,hrec⟩
  refine ⟨hnone,?_⟩
  obtain ⟨ds,hds,htext⟩ := exists_lines (encodes_before he hp)
  rw [hnone, List.forall₂_nil_left_iff] at hds
  rw [diskAfter_crash hfile ht hn hp, htext, hds]
  simp [joined]

/-- Once a `Record` has completed on a torn line, a restart misses it. -/
lemma not_counts_of_torn (hone : codec.OneValue) (hw : WellKept disk) (hfile : h.file.isSome)
    (ht : Encodes codec torn.toRecord data) (hpos : 0 < n) (hn : n ≤ data.length)
    (he : ∀ snap, .record snap ∈ after → ∃ data, Encodes codec snap.toRecord data)
    (hp : pre ++ [.restart later] <+: .restart now::after)
    (hrec : pre.filterMap Op.recorded ≠ []) :
    ¬ (decoded codec disk ++ pre.filterMap Op.recorded).Subperm (counted codec
      ((Machine.crash codec ⟨disk,some h⟩ torn n).diskAfter codec rfc3339 path pre)) := by
  intro hsub
  obtain ⟨ds,hds,htext⟩ := exists_lines (encodes_before he hp)
  have hlt := length_counted_torn hone ht hpos hn hds hrec
  have hle := hsub.length_le
  rw [diskAfter_crash hfile ht hn hp, htext, hw.counted_append, List.length_append,
    List.length_append] at hle
  omega

/-- A crash costs at most the record it tore, in every run that follows, exactly when it left
nothing of that record's line or the run has no restart after a completed `Record`. -/
theorem torn_tail_safe_iff (hone : codec.OneValue) (hend : EndsLine (disk₀.getD []))
    (hshort : ShortLines (disk₀.getD [])) (hr : Reached codec rfc3339 path disk₀ disk h)
    (ht : Encodes codec torn.toRecord data) (hn : n ≤ data.length) (now : Time)
    (he : ∀ snap, .record snap ∈ after → ∃ data, Encodes codec snap.toRecord data) :
    TornTailSafe codec rfc3339 path (decoded codec disk)
      (Machine.crash codec ⟨disk,some h⟩ torn n) (.restart now::after) ↔
      n = 0 ∨ ¬ RestartAfterRecord after := by
  obtain ⟨hw,hfile,-⟩ := hr.inStep (wellKept_of_endsLine hend hshort)
  constructor
  · intro hsafe
    by_contra hcon
    rw [not_or, not_not] at hcon
    obtain ⟨hpos,pre,later,hp,hrec⟩ := hcon
    have hp' : (.restart now::pre) ++ [.restart later] <+: .restart now::after :=
      List.cons_prefix_cons.mpr ⟨rfl,hp⟩
    exact not_counts_of_torn hone hw hfile ht (Nat.pos_of_ne_zero hpos) hn he hp' hrec
      (hsafe.counts _ later hp')
  · rintro (rfl | hno)
    · constructor
      · intro pre later hp
        rw [counted_after_clean_crash hw hfile ht he hp]
      · intro pre later pre' later' hpp hp'
        have hp := hpp.trans ((List.prefix_append pre' _).trans hp')
        rw [counted_after_clean_crash hw hfile ht he hp,
          counted_after_clean_crash hw hfile ht he hp']
        have hpre : pre <+: pre' := (List.prefix_append pre _).trans hpp
        exact ((hpre.filterMap Op.recorded).sublist.append_left _).subperm
    · constructor
      · intro pre later hp
        obtain ⟨hnone,hdisk⟩ := diskAfter_without_record hfile ht hn hno he hp
        rw [hnone, List.append_nil, hdisk, hw.counted_append]
        exact (List.sublist_append_left _ _).subperm
      · intro pre later pre' later' hpp hp'
        have hp := hpp.trans ((List.prefix_append pre' _).trans hp')
        obtain ⟨-,hdisk⟩ := diskAfter_without_record hfile ht hn hno he hp
        obtain ⟨-,hdisk'⟩ := diskAfter_without_record hfile ht hn hno he hp'
        rw [hdisk, hdisk']

end Run

section Demo

/-- The encodings of the two records have one length, and a glued line is longer. -/
lemma demoCodec_oneValue : demoCodec.OneValue := by
  have hlen : ∀ text r, demoCodec.unmarshal text = some r →
      text.length = (freeLine morning.toRecord).length := by
    intro text r h
    obtain ⟨hmem,htext⟩ := tableCodec_unmarshal h
    rcases List.mem_pair.mp hmem with rfl | rfl
    · rw [htext]
    · rw [← htext, length_freeLine_noon]
  intro r r' data data' hr hr' n hpos hn
  by_contra hsome
  obtain ⟨q,hq⟩ := Option.ne_none_iff_exists'.mp hsome
  have hglued := hlen _ q hq
  have hsecond := hlen data' r' hr'.unmarshal
  rw [List.length_append, List.length_take] at hglued
  omega

def clock (_ : Time) : String := "2024-05-01T09:59:59Z"

/-- The store of a daemon that found no history file. -/
def firstStore : HistoryStore Rat := ⟨some "h",[],0,0,0,clock 0⟩

/-- Ten bytes of the morning's line reach the disk; the noon record is written out in full. -/
theorem torn_tail_loses_noon :
    newHistoryStore demoCodec clock "h" none (.ok ()) 0 = .ok firstStore ∧
      ¬ TornTailSafe demoCodec clock "h" (decoded demoCodec [])
        (Machine.crash demoCodec ⟨[],some firstStore⟩ morning 10)
        [.restart 1,.record noon,.restart 2] := by
  refine ⟨rfl,fun h => ?_⟩
  have hle := (h.counts [.restart 1,.record noon] 2 (List.prefix_refl _)).length_le
  revert hle
  decide +kernel

theorem torn_tail_safe_iff_noon :
    TornTailSafe demoCodec clock "h" (decoded demoCodec [])
      (Machine.crash demoCodec ⟨[],some firstStore⟩ morning 10)
      [.restart 1,.record noon,.restart 2] ↔
    10 = 0 ∨ ¬ RestartAfterRecord [Op.record noon,.restart 2] := by
  have hstart : Reached demoCodec clock "h" none [] firstStore := .start 0 rfl
  refine torn_tail_safe_iff demoCodec_oneValue (Or.inl rfl) (by decide) hstart demoCodec_morning
    (by decide +kernel) 1 ?_
  intro snap hs
  have hnoon : snap = noon := by simpa using hs
  exact ⟨_,hnoon ▸ demoCodec_noon⟩

end Demo
end Tracewulf.Ebpf
