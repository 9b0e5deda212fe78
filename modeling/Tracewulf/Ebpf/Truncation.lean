import Tracewulf.Ebpf.RecordLine
import Tracewulf.Ebpf.Shutdown

/-! The history file after it has lost its end, at any byte. What is left of it is read back up to
the last record that is there as a whole, with or without its newline. What is appended to it
later is read back too, but for the first line where the cut was inside a line. -/
namespace Tracewulf.Ebpf
open Tracewulf.Base Tracewulf.Json Tracewulf.K8s

section Text

variable {κ : Type} {codec : Codec κ} {text data l : Bytes} {r : IntervalRecord κ}
  {rs rs' : List (IntervalRecord κ)} {ds ds' : List Bytes} {n : ℕ}

/-- No part of a line decodes. -/
def Codec.Whole (codec : Codec κ) : Prop := ∀ (r : IntervalRecord κ) (data : Bytes),
  Encodes codec r data → ∀ n < data.length, codec.unmarshal (data.take n) = none

lemma joined_cons (d : Bytes) (ds : List Bytes) : joined (d::ds) = (d ++ [newline]) ++ joined ds :=
  rfl

/-- A line that is not closed is read all the same. -/
lemma counted_open (hfree : newline ∉ l) (hl : l.length < maxTokenSize) (hne : l ≠ []) :
    counted codec l = (codec.unmarshal (dropCR l)).toList := by
  have hscan : Lines.scan newline maxTokenSize l = [l] := by
    rw [Lines.scan, Lines.lines_free hfree, if_neg hne]
    simp [hl]
  rw [counted, scanner, hscan]
  cases hd : codec.unmarshal (dropCR l) <;> simp [hd]

lemma counted_whole (he : Encodes codec r data) : counted codec data = [r] := by
  have hne : data ≠ [] := by
    rintro rfl
    cases he.object
  rw [counted_open he.oneLine he.short hne, he.dropCR, he.unmarshal]
  rfl

lemma dropCR_take (data : Bytes) (n : ℕ) : ∃ m ≤ n, dropCR (data.take n) = data.take m := by
  unfold dropCR
  split_ifs
  · refine ⟨min n data.length - 1,by omega,?_⟩
    rw [List.dropLast_eq_take, List.length_take, List.take_take]
    congr 1
    omega
  · exact ⟨n,le_rfl,rfl⟩

lemma counted_part (hwhole : codec.Whole) (he : Encodes codec r data) (hn : n < data.length) :
    counted codec (data.take n) = [] := by
  by_cases hne : data.take n = []
  · rw [hne, counted_nil]
  · have hfree : newline ∉ data.take n := fun h => he.oneLine (List.mem_of_mem_take h)
    have hshort := he.short
    obtain ⟨m,hm,hdrop⟩ := dropCR_take data n
    rw [counted_open hfree (by rw [List.length_take]; omega) hne, hdrop,
      hwhole r data he m (by omega)]
    rfl

lemma length_joined_cons (d : Bytes) (ds : List Bytes) :
    (joined (d::ds)).length = d.length + 1 + (joined ds).length := by
  rw [joined_cons, List.length_append, List.length_append, List.length_singleton]

/-- The cut is behind the first line. -/
lemma take_joined_cons_of_le {d : Bytes} (h : d.length + 1 ≤ n) :
    (joined (d::ds)).take n = (d ++ [newline]) ++ (joined ds).take (n - (d.length + 1)) := by
  have hlen : (d ++ [newline]).length = d.length + 1 := by simp
  rw [joined_cons, List.take_append, hlen, List.take_of_length_le (by omega)]

/-- The cut is in the first line, or before its newline. -/
lemma take_joined_cons_of_lt {d : Bytes} (h : n ≤ d.length) :
    (joined (d::ds)).take n = d.take n := by
  rw [joined_cons, List.append_assoc, List.take_append_of_le_length h]

/-- However the file is cut, it reads back up to the last record all of whose line is there but
perhaps the newline. -/
theorem counted_cut (hwhole : codec.Whole) (hw : WellKept text)
    (he : List.Forall₂ (Encodes codec) rs ds) (n : ℕ) : ∃ k ≤ rs.length,
      (∀ i ≤ rs.length, i ≤ k ↔ (joined (ds.take i)).length ≤ n + 1) ∧
      counted codec (text ++ (joined ds).take n) = decoded codec text ++ rs.take k := by
  induction he generalizing text n with
  | nil =>
    refine ⟨0,le_rfl,fun i hi => ?_,?_⟩
    · simp [joined, Nat.le_zero.mp hi]
    · have hnil : (joined ([] : List Bytes)).take n = [] := by simp [joined]
      rw [hnil, List.append_nil, counted_eq_decoded hw.short, List.take_nil, List.append_nil]
  | @cons r d rs ds hd hds ih =>
    by_cases hle : d.length + 1 ≤ n
    · obtain ⟨k,hk,hlast,hcount⟩ := ih (hw.append hd) (n - (d.length + 1))
      refine ⟨k + 1,Nat.succ_le_succ hk,fun i hi => ?_,?_⟩
      · cases i with
        | zero => simp [joined]
        | succ i =>
          have hi' := hlast i (Nat.le_of_succ_le_succ hi)
          rw [List.take_succ_cons, length_joined_cons]
          omega
      · rw [take_joined_cons_of_le hle, ← List.append_assoc, hcount, hw.decoded_append hd,
          List.take_succ_cons, List.append_assoc, List.singleton_append]
    · have hlt : n ≤ d.length := by omega
      rw [take_joined_cons_of_lt hlt, hw.counted_append]
      -- one record if only the newline is missing, and none if more is
      refine ⟨if n = d.length then 1 else 0,?_,fun i hi => ?_,?_⟩
      · split_ifs <;> simp
      · rcases i with _ | _ | i
        · simp [joined]
        · have hnil : (joined (ds.take 0)).length = 0 := by simp [joined]
          rw [List.take_succ_cons, length_joined_cons, hnil]
          split_ifs <;> omega
        · have htwo : 1 ≤ (joined (ds.take (i + 1))).length := by
            have hlen := hds.length_eq
            rw [List.length_cons] at hi
            obtain ⟨d',ds',rfl⟩ : ∃ d' ds', ds = d'::ds' :=
              List.exists_cons_of_length_pos (by omega)
            rw [List.take_succ_cons, length_joined_cons]
            omega
          rw [List.take_succ_cons, length_joined_cons]
          split_ifs <;> omega
      · split_ifs with heq
        · rw [heq, List.take_length, counted_whole hd]
          rfl
        · rw [counted_part hwhole hd (by omega)]
          rfl

/-- A line that is written on to a part of another one is lost, and nothing else. -/
lemma counted_glued (hone : codec.OneValue) (ht : Encodes codec r data) (hpos : 0 < n)
    (hn : n ≤ data.length) (hroom : ∀ d ∈ ds', data.length + d.length < maxTokenSize)
    (he : List.Forall₂ (Encodes codec) rs' ds') (hne : rs' ≠ []) :
    counted codec (data.take n ++ joined ds') = rs'.tail := by
  cases he with
  | nil => exact absurd rfl hne
  | @cons r' d rs' ds' hd hds =>
    have hglue : codec.unmarshal (dropCR (data.take n ++ d)) = none := by
      rw [dropCR_append_of_object hd.object]
      exact hone r r' data d ht hd n hpos hn
    have hfree : newline ∉ data.take n ++ d := by
      rw [List.mem_append, not_or]
      exact ⟨fun h => ht.oneLine (List.mem_of_mem_take h),hd.oneLine⟩
    have hshort : (data.take n ++ d).length < maxTokenSize := by
      have hroom' := hroom d List.mem_cons_self
      rw [List.length_append, List.length_take]
      omega
    have htext : data.take n ++ joined (d::ds') =
        ((data.take n ++ d) ++ [newline]) ++ joined ds' := by
      rw [joined_cons, List.append_assoc, List.append_assoc, List.append_assoc]
    rw [htext, counted_line hfree hshort, hglue, counted_joined hds]
    rfl

/-- What is appended after a cut reads back behind the lines that are closed; the first line does
not where the cut was inside a line. -/
theorem counted_cut_append (hone : codec.OneValue) (hw : WellKept text)
    (he : List.Forall₂ (Encodes codec) rs ds) (he' : List.Forall₂ (Encodes codec) rs' ds')
    (hroom : ∀ d ∈ ds, ∀ d' ∈ ds', d.length + d'.length < maxTokenSize) (hne : rs' ≠ [])
    (hn : n ≤ (joined ds).length) : ∃ j ≤ rs.length,
      (∀ i ≤ rs.length, i ≤ j ↔ (joined (ds.take i)).length ≤ n) ∧
      counted codec (text ++ (joined ds).take n ++ joined ds') = decoded codec text ++
        (rs.take j ++ if (joined (ds.take j)).length = n then rs' else rs'.tail) := by
  induction he generalizing text n with
  | nil =>
    refine ⟨0,le_rfl,fun i hi => ?_,?_⟩
    · simp [joined, Nat.le_zero.mp hi]
    · have hzero : n = 0 := by simpa [joined] using hn
      subst hzero
      rw [List.take_zero, List.append_nil, hw.counted_append, counted_joined he']
      simp [joined]
  | @cons r d rs ds hd hds ih =>
    by_cases hle : d.length + 1 ≤ n
    · have hn' : n - (d.length + 1) ≤ (joined ds).length := by
        rw [length_joined_cons] at hn
        omega
      obtain ⟨j,hj,hlast,hcount⟩ := ih (hw.append hd)
        (fun d hd d' hd' => hroom d (List.mem_cons_of_mem _ hd) d' hd') hn'
      refine ⟨j + 1,Nat.succ_le_succ hj,fun i hi => ?_,?_⟩
      · cases i with
        | zero => simp [joined]
        | succ i =>
          have hi' := hlast i (Nat.le_of_succ_le_succ hi)
          rw [List.take_succ_cons, length_joined_cons]
          omega
      · have hclosed : (joined ((d::ds).take (j + 1))).length = n ↔
            (joined (ds.take j)).length = n - (d.length + 1) := by
          rw [List.take_succ_cons, length_joined_cons]
          omega
        rw [take_joined_cons_of_le hle, ← List.append_assoc, hcount, hw.decoded_append hd,
          List.take_succ_cons, List.append_assoc, List.singleton_append, List.cons_append]
        simp only [hclosed]
    · have hlt : n ≤ d.length := by omega
      rw [take_joined_cons_of_lt hlt, List.append_assoc, hw.counted_append]
      refine ⟨0,Nat.zero_le _,fun i hi => ?_,?_⟩
      · cases i with
        | zero => simp [joined]
        | succ i =>
          rw [List.take_succ_cons, length_joined_cons]
          omega
      · congr 1
        have hnil : (joined ((d::ds).take 0)).length = 0 := by simp [joined]
        rw [hnil, List.take_zero, List.nil_append]
        split_ifs with hzero
        · rw [← hzero, List.take_zero, List.nil_append, counted_joined he']
        · exact counted_glued hone hd (by omega) hlt (hroom d List.mem_cons_self) he' hne

end Text

section Sessions

variable {κ : Type} [CostNum κ] {codec : Codec κ} {floats : FloatCodec κ} {cfg : Config κ}
  {path : String} {opened reopened : Time} {cache cache' : Cache} {existing : Option Bytes}
  {history history' : HistoryStore κ} {acts acts' : List Action} {tr tr' : List (Seen κ)}
  {d d' : Daemon κ} {n : ℕ}

/-- Every append of the session was written in full, and its record can be stored. -/
def FilesAll (floats : FloatCodec κ) (tr : List (Seen κ)) : Prop :=
  ∀ snap write, .recorded snap write ∈ tr → write = .full ∧ Storable floats snap.toRecord

lemma FilesAll.appendsSucceed (hf : floats.Lawful) (h : FilesAll floats tr) :
    AppendsSucceed (jsonCodec floats) tr := by
  intro snap write hmem
  obtain ⟨hfull,hstorable⟩ := h snap write hmem
  exact ⟨hfull,hstorable.exists_encodes hf⟩

omit [CostNum κ] in
lemma FilesAll.storable (h : FilesAll floats tr) : ∀ r ∈ tr.filterMap Seen.filed,
    Storable floats r := by
  intro r hr
  obtain ⟨x,hx,hfiled⟩ := List.mem_filterMap.mp hr
  cases x with
  | recorded snap write =>
    cases hfiled
    exact (h snap write hx).2
  | handled raw call => cases hfiled
  | snapshot snap => cases hfiled

lemma whole_jsonCodec (hf : floats.Lawful) : (jsonCodec floats).Whole :=
  fun _ _ he _ hn => unmarshal_take hf he.marshal hn

/-- Two lines fit the scanner's buffer together. -/
lemma room_of_storable (hf : floats.Lawful) {rs : List (IntervalRecord κ)} {ds : List Bytes}
    (hrs : ∀ r ∈ rs, Storable floats r) (he : List.Forall₂ (Encodes (jsonCodec floats)) rs ds) :
    ∀ d ∈ ds, 2*d.length < maxTokenSize := by
  induction he with
  | nil => exact List.forall_mem_nil _
  | @cons r d rs ds hd hds ih =>
    refine List.forall_mem_cons.mpr ⟨?_,ih fun r hr => hrs r (List.mem_cons_of_mem _ hr)⟩
    have hr := hrs r List.mem_cons_self
    have hlen := length_marshal hf hr.flows hd.marshal
    have htime := hr.timestamp
    have hroom : 2*(6*2^16 + 256) < maxTokenSize := by decide
    omega

/-- Where a session found a file of short lines with none open, and filed all it had: wherever its
file is cut behind what it found there, the next start has the totals and the ring of what was
there and of the records of the session whose lines are left, but perhaps for a newline; and it has
none of a record that is left in part. -/
theorem reopen_after_cut (hf : floats.Lawful) (hend : EndsLine (existing.getD []))
    (hshort : ShortLines (existing.getD []))
    (hopen : newHistoryStore (jsonCodec floats) cfg.rfc3339 path existing (.ok ()) opened =
      .ok history)
    (hrun : (Daemon.start cache history (existing.getD [])).run (jsonCodec floats) cfg acts =
      some (d,tr)) (hall : FilesAll floats tr) :
    ∃ ds, List.Forall₂ (Encodes (jsonCodec floats)) (tr.filterMap Seen.filed) ds ∧
      d.disk = existing.getD [] ++ joined ds ∧
      ∀ n now, ∃ k ≤ ds.length, (∀ i ≤ ds.length, i ≤ k ↔ (joined (ds.take i)).length ≤ n + 1) ∧
        ∃ h, newHistoryStore (jsonCodec floats) cfg.rfc3339 path
            (some (d.disk.take ((existing.getD []).length + n))) (.ok ()) now = .ok h ∧
          Tallies (decoded (jsonCodec floats) (existing.getD []) ++
            (tr.filterMap Seen.filed).take k) h := by
  obtain ⟨ds,hds,hdisk⟩ := (filed_of_run hopen hrun).disk (hall.appendsSucceed hf)
  refine ⟨ds,hds,hdisk,fun n now => ?_⟩
  obtain ⟨k,hk,hlast,hcount⟩ :=
    counted_cut (whole_jsonCodec hf) (wellKept_of_endsLine hend hshort) hds n
  rw [hds.length_eq] at hk hlast
  have hleft : counted (jsonCodec floats) (d.disk.take ((existing.getD []).length + n)) =
      decoded (jsonCodec floats) (existing.getD []) ++ (tr.filterMap Seen.filed).take k := by
    rw [hdisk, List.take_length_add_append, hcount]
  obtain ⟨h,hreopen⟩ : ∃ h, newHistoryStore (jsonCodec floats) cfg.rfc3339 path
      (some (d.disk.take ((existing.getD []).length + n))) (.ok ()) now = .ok h := ⟨_,rfl⟩
  have htallies := (tallies_newHistoryStore hreopen).1
  rw [Option.getD_some, hleft] at htallies
  exact ⟨k,hk,hlast,h,hreopen,htallies⟩

/-- The session after it appends behind the cut, and files all it has. What is read then are the
records whose lines the cut left closed and those of the new session, but for the first of these
where the cut was inside a line. -/
theorem session_after_cut (hf : floats.Lawful) (hend : EndsLine (existing.getD []))
    (hshort : ShortLines (existing.getD []))
    (hopen : newHistoryStore (jsonCodec floats) cfg.rfc3339 path existing (.ok ()) opened =
      .ok history)
    (hrun : (Daemon.start cache history (existing.getD [])).run (jsonCodec floats) cfg acts =
      some (d,tr)) (hall : FilesAll floats tr)
    (hcut : (existing.getD []).length + n ≤ d.disk.length)
    (hopen' : newHistoryStore (jsonCodec floats) cfg.rfc3339 path
      (some (d.disk.take ((existing.getD []).length + n))) (.ok ()) reopened = .ok history')
    (hrun' : (Daemon.start cache' history' (d.disk.take ((existing.getD []).length + n))).run
      (jsonCodec floats) cfg acts' = some (d',tr')) (hall' : FilesAll floats tr')
    (hfiled' : tr'.filterMap Seen.filed ≠ []) :
    ∃ ds, List.Forall₂ (Encodes (jsonCodec floats)) (tr.filterMap Seen.filed) ds ∧
      d.disk = existing.getD [] ++ joined ds ∧
      ∃ j ≤ ds.length, (∀ i ≤ ds.length, i ≤ j ↔ (joined (ds.take i)).length ≤ n) ∧
        counted (jsonCodec floats) d'.disk = decoded (jsonCodec floats) (existing.getD []) ++
          ((tr.filterMap Seen.filed).take j ++
            if (joined (ds.take j)).length = n then tr'.filterMap Seen.filed
            else (tr'.filterMap Seen.filed).tail) := by
  obtain ⟨ds,hds,hdisk⟩ := (filed_of_run hopen hrun).disk (hall.appendsSucceed hf)
  obtain ⟨ds',hds',hdisk'⟩ := (filed_of_run hopen' hrun').disk (hall'.appendsSucceed hf)
  have hroom := room_of_storable hf hall.storable hds
  have hroom' := room_of_storable hf hall'.storable hds'
  have hn : n ≤ (joined ds).length := by
    rw [hdisk, List.length_append] at hcut
    omega
  obtain ⟨j,hj,hlast,hcount⟩ := counted_cut_append (oneValue_jsonCodec hf)
    (wellKept_of_endsLine hend hshort) hds hds' (fun d hd d' hd' => by
      have h₁ := hroom d hd
      have h₂ := hroom' d' hd'
      omega) hfiled' hn
  rw [hds.length_eq] at hj hlast
  refine ⟨ds,hds,hdisk,j,hj,hlast,?_⟩
  rw [hdisk', Option.getD_some, hdisk, List.take_length_add_append, hcount]

end Sessions

section Demo

def filesMorning (tr : List (Seen Rat)) : Bool := tr.all fun x => match x with
  | .recorded snap write => write = .full ∧ snap.toRecord = morning.toRecord
  | _ => true

lemma filesAll_of_filesMorning {tr : List (Seen Rat)} (h : filesMorning tr = true) :
    FilesAll wholeFloats tr := by
  intro snap write hmem
  have h := List.all_eq_true.mp h _ hmem
  simp only [decide_eq_true_eq] at h
  exact ⟨h.1,h.2 ▸ storable_morning⟩

/-- The session of one send. -/
def sendSession (history : HistoryStore Rat) (text : Bytes) :
    Option (Daemon Rat × List (Seen Rat)) :=
  (Daemon.start newCache history text).run (jsonCodec wholeFloats) demoConfig
    (handleSend ++ reportSend)

/-- A session that files one record, and after a cut in the middle of its line another one. -/
def cutSession : Option ((Daemon Rat × List (Seen Rat)) × HistoryStore Rat ×
    (Daemon Rat × List (Seen Rat))) :=
  (sendSession demoStart.history []).bind fun first =>
    (newHistoryStore (jsonCodec wholeFloats) demoConfig.rfc3339 "h" (some (first.1.disk.take 40))
      (.ok ()) 3).toOption.bind fun history =>
        (sendSession history (first.1.disk.take 40)).map fun second => (first,history,second)

lemma cutSession_runs : ∃ d tr history d' tr', sendSession demoStart.history [] = some (d,tr) ∧
    newHistoryStore (jsonCodec wholeFloats) demoConfig.rfc3339 "h" (some (d.disk.take 40)) (.ok ())
      3 = .ok history ∧
    sendSession history (d.disk.take 40) = some (d',tr') ∧ filesMorning tr = true ∧
    filesMorning tr' = true ∧ 40 ≤ d.disk.length ∧ tr'.filterMap Seen.filed ≠ [] := by
  have hview : (cutSession.map fun r => filesMorning r.1.2 && filesMorning r.2.2.2 &&
      40 ≤ r.1.1.disk.length && (r.2.2.2.filterMap Seen.filed).length = 1) = some true := by
    decide +kernel
  obtain ⟨⟨first,history,second⟩,hrun,hall⟩ := Option.map_eq_some_iff.mp hview
  obtain ⟨first',hfirst,hrest⟩ := Option.bind_eq_some_iff.mp hrun
  obtain ⟨history',hopen,hrest⟩ := Option.bind_eq_some_iff.mp hrest
  obtain ⟨second',hsecond,heq⟩ := Option.map_eq_some_iff.mp hrest
  cases heq
  simp only [Bool.and_eq_true, decide_eq_true_eq] at hall
  refine ⟨first.1,first.2,history,second.1,second.2,hfirst,?_,hsecond,hall.1.1.1,hall.1.1.2,
    hall.1.2,?_⟩
  · cases hstore : newHistoryStore (jsonCodec wholeFloats) demoConfig.rfc3339 "h"
        (some (first.1.disk.take 40)) (.ok ()) 3 with
    | error err => rw [hstore] at hopen; cases hopen
    | ok h => rw [hstore] at hopen; cases hopen; rfl
  · exact List.ne_nil_of_length_pos (by rw [hall.2]; exact Nat.one_pos)

lemma demoStart_opens : newHistoryStore (jsonCodec wholeFloats) demoConfig.rfc3339 "h" none (.ok ())
    0 = .ok demoStart.history := rfl

theorem reopen_after_cut_oneSend : ∃ d tr, sendSession demoStart.history [] = some (d,tr) ∧
    ∃ ds, List.Forall₂ (Encodes (jsonCodec wholeFloats)) (tr.filterMap Seen.filed) ds ∧
      d.disk = [] ++ joined ds ∧
      ∀ n now, ∃ k ≤ ds.length, (∀ i ≤ ds.length, i ≤ k ↔ (joined (ds.take i)).length ≤ n + 1) ∧
        ∃ h, newHistoryStore (jsonCodec wholeFloats) demoConfig.rfc3339 "h"
            (some (d.disk.take (0 + n))) (.ok ()) now = .ok h ∧
          Tallies (decoded (jsonCodec wholeFloats) [] ++ (tr.filterMap Seen.filed).take k) h := by
  obtain ⟨d,tr,_,_,_,hrun,-,-,hfiles,-,-,-⟩ := cutSession_runs
  have hend : EndsLine ((none : Option Bytes).getD []) := .inl rfl
  exact ⟨d,tr,hrun,reopen_after_cut wholeFloats_lawful hend (by decide) demoStart_opens hrun
    (filesAll_of_filesMorning hfiles)⟩

theorem session_after_cut_twoSends : ∃ d tr history d' tr',
    sendSession demoStart.history [] = some (d,tr) ∧
    sendSession history (d.disk.take (0 + 40)) = some (d',tr') ∧
    ∃ ds, List.Forall₂ (Encodes (jsonCodec wholeFloats)) (tr.filterMap Seen.filed) ds ∧
      d.disk = [] ++ joined ds ∧
      ∃ j ≤ ds.length, (∀ i ≤ ds.length, i ≤ j ↔ (joined (ds.take i)).length ≤ 40) ∧
        counted (jsonCodec wholeFloats) d'.disk = decoded (jsonCodec wholeFloats) [] ++
          ((tr.filterMap Seen.filed).take j ++
            if (joined (ds.take j)).length = 40 then tr'.filterMap Seen.filed
            else (tr'.filterMap Seen.filed).tail) := by
  obtain ⟨d,tr,history,d',tr',hrun,hopen,hrun',hfiles,hfiles',hlong,hsome⟩ := cutSession_runs
  have hend : EndsLine ((none : Option Bytes).getD []) := .inl rfl
  have hcut : ((none : Option Bytes).getD []).length + 40 ≤ d.disk.length := by simpa using hlong
  exact ⟨d,tr,history,d',tr',hrun,hrun',session_after_cut wholeFloats_lawful hend (by decide)
    demoStart_opens hrun (filesAll_of_filesMorning hfiles) hcut hopen hrun'
    (filesAll_of_filesMorning hfiles') hsome⟩

end Demo
end Tracewulf.Ebpf
