import Tracewulf.Ebpf.TornTail

/-! What a failed append does to the agreement of memory and file. `Record` counts its interval
whatever becomes of the line, so the two part as soon as the line is not there to be replayed, and
a line that is there in part takes the next one with it. -/
namespace Tracewulf.Ebpf
open Tracewulf.Base

section Text

variable {κ : Type} {codec : Codec κ} {text : Bytes}

/-- What JSON passes over before a value. -/
def Blank (t : Bytes) : Prop := ∀ b ∈ t, b = 32 ∨ b = 9 ∨ b = 13

instance (t : Bytes) : Decidable (Blank t) := List.decidableBAll _ _

/-- A line is one JSON value, as `encoding/json` reads it: before a record's encoding blanks are
passed over and anything else is an error, and a line of blanks is no value. -/
structure Codec.LineWise (codec : Codec κ) : Prop where
  blank : ∀ t r data, Blank t → Encodes codec r data → codec.unmarshal (t ++ data) = some r
  foreign : ∀ t r data, ¬ Blank t → newline ∉ t → Encodes codec r data →
    codec.unmarshal (t ++ data) = none
  empty : ∀ t, Blank t → codec.unmarshal t = none
  /-- an object starts with a brace -/
  object : ∀ r data, Encodes codec r data → data.head? = some 123

/-- Records of different sizes can be encoded. -/
def Codec.Varied (codec : Codec κ) : Prop := ∃ r data r' data',
  Encodes codec r data ∧ Encodes codec r' data' ∧ r.totalBytes ≠ r'.totalBytes

/-- A file on which appended lines are read back: its closed lines fit the scanner's buffer, and
after them there are blanks at most, with room for any encoding behind them. -/
structure Ready (codec : Codec κ) (text : Bytes) : Prop where
  short : ShortLines (Lines.body newline text)
  blank : Blank (Lines.rest newline text)
  room : ∀ r data, Encodes codec r data →
    (Lines.rest newline text).length + data.length < maxTokenSize

lemma Blank.dropCR {t : Bytes} (h : Blank t) : Blank (dropCR t) := by
  unfold Ebpf.dropCR
  split_ifs
  · exact fun b hb => h b (List.mem_of_mem_dropLast hb)
  · exact h

lemma wellKept_body (h : ShortLines (Lines.body newline text)) :
    WellKept (Lines.body newline text) := ⟨Lines.closed_body text,h⟩

/-- The closed lines are counted first, if they can be scanned. -/
lemma counted_body (h : ShortLines (Lines.body newline text)) (u : Bytes) :
    counted codec (text ++ u) =
      decoded codec (Lines.body newline text) ++ counted codec (Lines.rest newline text ++ u) := by
  rw [← (wellKept_body h).counted_append, ← List.append_assoc, Lines.body_append_rest]

/-- Behind a line that does not fit nothing is counted. -/
lemma counted_body_of_long (h : ¬ ShortLines (Lines.body newline text)) (u : Bytes) :
    counted codec (text ++ u) = counted codec (Lines.body newline text) := by
  unfold ShortLines at h
  push Not at h
  obtain ⟨l,hl,hlong⟩ := h
  have htext : text ++ u = Lines.body newline text ++ (Lines.rest newline text ++ u) := by
    rw [← List.append_assoc, Lines.body_append_rest]
  rw [counted, scanner, htext, (Lines.closed_body text).scan_append_of_long hl hlong]
  rfl

variable {l : Bytes}

lemma counted_line (hfree : newline ∉ l) (hl : l.length < maxTokenSize) (u : Bytes) :
    counted codec ((l ++ [newline]) ++ u) =
      (codec.unmarshal (dropCR l)).toList ++ counted codec u := by
  rw [counted, scanner, Lines.scan_line hfree hl, List.map_cons]
  cases hd : codec.unmarshal (dropCR l) with
  | none => rw [List.filterMap_cons_none hd]; rfl
  | some r => rw [List.filterMap_cons_some hd]; rfl

lemma counted_long_line (hfree : newline ∉ l) (hl : maxTokenSize ≤ l.length) (u : Bytes) :
    counted codec ((l ++ [newline]) ++ u) = [] := by
  rw [counted, scanner, Lines.scan_long_line hfree hl]
  rfl

lemma counted_undecoded (hfree : newline ∉ l) (hnone : codec.unmarshal (dropCR l) = none) :
    counted codec (l ++ [newline]) = [] := by
  rw [← List.append_nil (l ++ [newline])]
  by_cases hl : l.length < maxTokenSize
  · rw [counted_line hfree hl, hnone, counted_nil]
    rfl
  · exact counted_long_line hfree (Nat.le_of_not_lt hl) []

lemma counted_blank (hc : codec.LineWise) (hfree : newline ∉ l) (hb : Blank l) :
    counted codec l = [] := by
  have hlines : ∀ m ∈ Lines.lines newline l, m = l := by
    rw [Lines.lines_free hfree]
    split_ifs
    · intro m hm; exact absurd hm List.not_mem_nil
    · intro m hm; exact List.mem_singleton.mp hm
  rw [counted, scanner, List.filterMap_eq_nil_iff]
  intro m hm
  obtain ⟨m',hm',rfl⟩ := List.mem_map.mp hm
  rw [hlines m' ((List.takeWhile_sublist _).subset hm')]
  exact hc.empty _ hb.dropCR

variable {rs : List (IntervalRecord κ)} {ds : List Bytes} {r : IntervalRecord κ} {data : Bytes}

lemma free_rest_append (he : Encodes codec r data) (text : Bytes) :
    newline ∉ Lines.rest newline text ++ data := by
  rw [List.mem_append, not_or]
  exact ⟨Lines.not_mem_rest text,he.oneLine⟩

lemma counted_joined (he : List.Forall₂ (Encodes codec) rs ds) :
    counted codec (joined ds) = rs := by
  have hnil : WellKept [] := wellKept_of_endsLine (Or.inl rfl) (by decide)
  obtain ⟨hkept,-⟩ := hnil.joined he
  rw [List.nil_append] at hkept
  rw [counted_eq_decoded hkept.short, decoded_joined he]

/-- On a file that is ready, appended lines are read back behind what it holds. -/
lemma Ready.counted_append (h : Ready codec text) (hc : codec.LineWise)
    (he : List.Forall₂ (Encodes codec) rs ds) :
    counted codec (text ++ joined ds) = counted codec text ++ rs := by
  have hold : counted codec text = decoded codec (Lines.body newline text) := by
    rw [← List.append_nil text, counted_body (by simpa using h.short), List.append_nil,
      List.append_nil, counted_blank hc (Lines.not_mem_rest text) h.blank, List.append_nil]
  cases he with
  | nil => simp [joined]
  | @cons r d rs ds hd hds =>
    have hline : Lines.rest newline text ++ joined (d::ds) =
        ((Lines.rest newline text ++ d) ++ [newline]) ++ joined ds := by
      simp [joined]
    have hroom : (Lines.rest newline text ++ d).length < maxTokenSize := by
      rw [List.length_append]
      exact h.room r d hd
    rw [counted_body h.short, hline, counted_line (free_rest_append hd text) hroom,
      dropCR_append_of_object hd.object, hc.blank _ r d h.blank hd, counted_joined hds, hold]
    rfl

end Text

section Alike

variable {κ : Type} {a b : List (IntervalRecord κ)}

/-- Two logs that leave the same byte totals and the same ring. -/
structure Alike (a b : List (IntervalRecord κ)) : Prop where
  bytes : (a.map IntervalRecord.totalBytes).sum = (b.map IntervalRecord.totalBytes).sum
  crossAZ : (a.map IntervalRecord.crossAZBytes).sum = (b.map IntervalRecord.crossAZBytes).sum
  recent : Window.recent historyRingCap a = Window.recent historyRingCap b

lemma Alike.append (h : Alike a b) (c : List (IntervalRecord κ)) : Alike (a ++ c) (b ++ c) where
  bytes := by simp [h.bytes]
  crossAZ := by simp [h.crossAZ]
  recent := Window.recent_append_congr h.recent c

/-- One more record goes unnoticed only if it is of nothing and the ring is full of its like. -/
lemma alike_append_singleton_iff (log : List (IntervalRecord κ)) (r : IntervalRecord κ) :
    Alike log (log ++ [r]) ↔ r.totalBytes = 0 ∧ r.crossAZBytes = 0 ∧
      Window.recent historyRingCap log = List.replicate historyRingCap r := by
  rw [← Window.recent_append_singleton_eq_iff]
  constructor
  · intro h
    have hb := h.bytes
    have hx := h.crossAZ
    simp only [List.map_append, List.map_singleton, List.sum_append, List.sum_singleton,
      left_eq_add] at hb hx
    exact ⟨hb,hx,h.recent.symm⟩
  · rintro ⟨hb,hx,hr⟩
    exact ⟨by simp [hb],by simp [hx],hr.symm⟩

variable {codec : Codec κ} {text : Bytes} {log rs : List (IntervalRecord κ)} {ds : List Bytes}

/-- Reading the file back after any further records gives the log that goes on with them. -/
def Follows (codec : Codec κ) (text : Bytes) (log : List (IntervalRecord κ)) : Prop :=
  ∀ rs ds, List.Forall₂ (Encodes codec) rs ds →
    Alike (counted codec (text ++ joined ds)) (log ++ rs)

/-- A file in which the last appended record makes no difference follows no log. -/
lemma not_follows_of_blind (hv : codec.Varied) (hds : List.Forall₂ (Encodes codec) rs ds)
    (c : List (IntervalRecord κ))
    (hblind : ∀ r data, Encodes codec r data → counted codec (text ++ joined (ds ++ [data])) = c) :
    ¬ Follows codec text log := by
  obtain ⟨r,data,r',data',he,he',hne⟩ := hv
  intro hf
  have hsum : ∀ r data, Encodes codec r data → (c.map IntervalRecord.totalBytes).sum =
      ((log ++ rs).map IntervalRecord.totalBytes).sum + r.totalBytes := by
    intro r data he
    have h := (hf (rs ++ [r]) (ds ++ [data]) (List.rel_append hds (.cons he .nil))).bytes
    rw [hblind r data he] at h
    simpa [add_assoc] using h
  exact hne (add_left_cancel ((hsum r data he).symm.trans (hsum r' data' he')))

/-- Only a file that is ready follows a log. -/
theorem Follows.ready (hc : codec.LineWise) (hv : codec.Varied) (hf : Follows codec text log) :
    Ready codec text := by
  have hshort : ShortLines (Lines.body newline text) := by
    by_contra hlong
    exact not_follows_of_blind hv .nil _ (fun r data _ => counted_body_of_long hlong _) hf
  have hblank : Blank (Lines.rest newline text) := by
    by_contra hforeign
    refine not_follows_of_blind hv .nil (decoded codec (Lines.body newline text) ++ [])
      (fun r data he => ?_) hf
    have hline : Lines.rest newline text ++ joined ([] ++ [data]) =
        (Lines.rest newline text ++ data) ++ [newline] := by
      simp [joined]
    rw [counted_body hshort, hline, counted_undecoded (free_rest_append he text)]
    rw [dropCR_append_of_object he.object]
    exact hc.foreign _ r data hforeign (Lines.not_mem_rest text) he
  refine ⟨hshort,hblank,fun r data he => ?_⟩
  by_contra hlong
  refine not_follows_of_blind hv (.cons he .nil) (decoded codec (Lines.body newline text) ++ [])
    (fun r' data' _ => ?_) hf
  have hline : Lines.rest newline text ++ joined ([data] ++ [data']) =
      ((Lines.rest newline text ++ data) ++ [newline]) ++ (data' ++ [newline]) := by
    simp [joined]
  rw [counted_body hshort, hline, counted_long_line (free_rest_append he text)]
  rw [List.length_append]
  exact Nat.le_of_not_lt hlong

/-- A file follows a log exactly when it is ready and now gives that log's totals and ring. -/
theorem follows_iff (hc : codec.LineWise) (hv : codec.Varied) :
    Follows codec text log ↔ Ready codec text ∧ Alike (counted codec text) log := by
  constructor
  · intro hf
    have hnow := hf [] [] .nil
    rw [joined, List.map_nil, List.flatten_nil, List.append_nil, List.append_nil] at hnow
    exact ⟨hf.ready hc hv,hnow⟩
  · rintro ⟨hready,halike⟩ rs ds he
    rw [hready.counted_append hc he]
    exact halike.append rs

end Alike

section Store

variable {κ : Type} [CostNum κ] {codec : Codec κ} {disk : Bytes} {h h' : HistoryStore κ}
  {log : List (IntervalRecord κ)}

/-- The store holds the byte totals and the ring of the log. -/
structure Counts (log : List (IntervalRecord κ)) (h : HistoryStore κ) : Prop where
  cumBytes : h.cumBytes = (log.map IntervalRecord.totalBytes).sum
  cumCrossAZ : h.cumCrossAZ = (log.map IntervalRecord.crossAZBytes).sum
  ring : h.ring = Window.recent historyRingCap log

/-- Replaying the file gives the store's byte totals and its ring. -/
def Agrees (codec : Codec κ) (disk : Bytes) (h : HistoryStore κ) : Prop :=
  ∀ rfc3339 path now h', newHistoryStore codec rfc3339 path (some disk) (.ok ()) now = .ok h' →
    h'.cumBytes = h.cumBytes ∧ h'.cumCrossAZ = h.cumCrossAZ ∧ h'.ring = h.ring

lemma Tallies.counts (ht : Tallies log h) : Counts log h := ⟨ht.cumBytes,ht.cumCrossAZ,ht.ring⟩

lemma agrees_iff : Agrees codec disk h ↔ Counts (counted codec disk) h := by
  constructor
  · intro ha
    have hopen : newHistoryStore codec (fun _ => "") "" (some disk) (.ok ()) 0 = .ok _ := rfl
    obtain ⟨hb,hx,hr⟩ := ha _ _ _ _ hopen
    obtain ⟨ht,-⟩ := tallies_newHistoryStore hopen
    exact ⟨hb.symm.trans ht.cumBytes,hx.symm.trans ht.cumCrossAZ,hr.symm.trans ht.ring⟩
  · intro hcounts rfc3339 path now h' hopen
    obtain ⟨ht,-⟩ := tallies_newHistoryStore hopen
    exact ⟨ht.cumBytes.trans hcounts.cumBytes.symm,ht.cumCrossAZ.trans hcounts.cumCrossAZ.symm,
      ht.ring.trans hcounts.ring.symm⟩

omit [CostNum κ] in
lemma Counts.alike_iff {log' : List (IntervalRecord κ)} (hc : Counts log h) :
    Counts log' h ↔ Alike log' log := by
  constructor
  · intro hc'
    exact ⟨hc'.cumBytes.symm.trans hc.cumBytes,hc'.cumCrossAZ.symm.trans hc.cumCrossAZ,
      hc'.ring.symm.trans hc.ring⟩
  · intro ha
    exact ⟨hc.cumBytes.trans ha.bytes.symm,hc.cumCrossAZ.trans ha.crossAZ.symm,
      hc.ring.trans ha.recent.symm⟩

/-- `Record` counts its interval whatever becomes of the line. -/
lemma Counts.record (hc : Counts log h) (snap : Snapshot κ) (write : Write) (disk : Bytes) :
    Counts (log ++ [snap.toRecord]) (h.record codec snap write disk).2 where
  cumBytes := by simp [HistoryStore.record, hc.cumBytes]
  cumCrossAZ := by simp [HistoryStore.record, hc.cumCrossAZ]
  ring := by rw [HistoryStore.record, Window.recent_append_singleton, hc.ring]

/-- Further calls of `Record`, each of which writes its line in full. -/
def recordAll (codec : Codec κ) (m : Bytes × HistoryStore κ) (later : List (Snapshot κ)) :
    Bytes × HistoryStore κ :=
  later.foldl (fun m snap => m.2.record codec snap .full m.1) m

/-- After the call, and after any further calls that succeed, the file still agrees. -/
def StaysAgreed (codec : Codec κ) (disk : Bytes) (h : HistoryStore κ) (snap : Snapshot κ)
    (write : Write) : Prop :=
  ∀ later : List (Snapshot κ), (∀ s ∈ later, ∃ data, Encodes codec s.toRecord data) →
    Agrees codec (recordAll codec (h.record codec snap write disk) later).1
      (recordAll codec (h.record codec snap write disk) later).2

lemma recordAll_spec {m : Bytes × HistoryStore κ} {later : List (Snapshot κ)} {ds : List Bytes}
    (hfile : m.2.file.isSome) (hc : Counts log m.2)
    (he : List.Forall₂ (Encodes codec) (later.map Snapshot.toRecord) ds) :
    (recordAll codec m later).1 = m.1 ++ joined ds ∧
      Counts (log ++ later.map Snapshot.toRecord) (recordAll codec m later).2 := by
  induction later generalizing m log ds with
  | nil =>
    obtain rfl := List.forall₂_nil_left_iff.mp he
    simpa [recordAll, joined] using hc
  | cons snap later ih =>
    obtain ⟨d,ds,hd,hds,rfl⟩ := List.forall₂_cons_left_iff.mp he
    have hdisk := record_disk m.1 hfile hd .full
    obtain ⟨htext,hcounts⟩ := ih (m := m.2.record codec snap .full m.1) hfile
      (hc.record snap .full m.1) hds
    refine ⟨htext.trans ?_,?_⟩
    · rw [hdisk]
      simp [joined, Write.landed]
    · rw [List.append_assoc] at hcounts
      exact hcounts

/-- What reaches the file of a record's line: nothing where it does not marshal. -/
def landed (codec : Codec κ) (r : IntervalRecord κ) (write : Write) : Bytes :=
  (codec.marshal r).elim [] fun data => write.landed (data ++ [newline])

lemma record_fst (codec : Codec κ) (disk : Bytes) (hfile : h.file.isSome) (snap : Snapshot κ)
    (write : Write) :
    (h.record codec snap write disk).1 = disk ++ landed codec snap.toRecord write := by
  obtain ⟨path,hpath⟩ := Option.isSome_iff_exists.mp hfile
  cases hd : codec.marshal snap.toRecord <;> simp [HistoryStore.record, landed, hd, hpath]

/-- Every record is that of some snapshot. -/
def IntervalRecord.toSnapshot (r : IntervalRecord κ) : Snapshot κ where
  timestamp := r.timestamp
  execEvents := r.execEvents
  flowCount := r.uniqueFlows
  totalBytes := r.totalBytes
  crossAZBytes := r.crossAZBytes
  totalCostUSD := r.totalCostUSD
  costPerGB := 0
  flows := []

lemma map_toRecord_toSnapshot (rs : List (IntervalRecord κ)) :
    (rs.map IntervalRecord.toSnapshot).map Snapshot.toRecord = rs := by
  rw [List.map_map]
  exact List.map_id rs

omit [CostNum κ] in
lemma exists_encodings_iff (rs : List (IntervalRecord κ)) :
    (∃ ds, List.Forall₂ (Encodes codec) rs ds) ↔ ∀ r ∈ rs, ∃ data, Encodes codec r data := by
  induction rs with
  | nil => simp
  | cons r rs ih =>
    rw [List.forall_mem_cons, ← ih]
    constructor
    · rintro ⟨_,he⟩
      obtain ⟨data,ds,hd,hds,-⟩ := List.forall₂_cons_left_iff.mp he
      exact ⟨⟨data,hd⟩,ds,hds⟩
    · rintro ⟨⟨data,hd⟩,ds,hds⟩
      exact ⟨data::ds,.cons hd hds⟩

/-- Memory and file stay together exactly when the file goes on as the log in memory does. -/
lemma staysAgreed_iff (hagree : Agrees codec disk h) (hfile : h.file.isSome) (snap : Snapshot κ)
    (write : Write) : StaysAgreed codec disk h snap write ↔
      Follows codec (disk ++ landed codec snap.toRecord write)
        (counted codec disk ++ [snap.toRecord]) := by
  have hcounts : Counts (counted codec disk ++ [snap.toRecord])
      (h.record codec snap write disk).2 := (agrees_iff.mp hagree).record snap write disk
  have hiff : ∀ {later : List (Snapshot κ)} {ds : List Bytes},
      List.Forall₂ (Encodes codec) (later.map Snapshot.toRecord) ds →
      (Agrees codec (recordAll codec (h.record codec snap write disk) later).1
        (recordAll codec (h.record codec snap write disk) later).2 ↔
      Alike (counted codec (disk ++ landed codec snap.toRecord write ++ joined ds))
        (counted codec disk ++ [snap.toRecord] ++ later.map Snapshot.toRecord)) := by
    intro later ds he
    obtain ⟨htext,hc⟩ := recordAll_spec (m := h.record codec snap write disk) hfile hcounts he
    rw [agrees_iff, htext, record_fst codec disk hfile, hc.alike_iff]
  constructor
  · intro hstays rs ds he
    rw [← map_toRecord_toSnapshot rs] at he ⊢
    refine (hiff he).mp (hstays _ fun s hs => ?_)
    exact (exists_encodings_iff _).mp ⟨ds,he⟩ _ (List.mem_map_of_mem hs)
  · intro hf later hlater
    obtain ⟨ds,he⟩ : ∃ ds, List.Forall₂ (Encodes codec) (later.map Snapshot.toRecord) ds :=
      (exists_encodings_iff _).mpr (by simpa using hlater)
    exact (hiff he).mpr (hf _ _ he)

end Store

section Outcomes

variable {κ : Type} {codec : Codec κ} {disk data : Bytes} {r : IntervalRecord κ}

/-- A part of a line leaves something open that is not blank. -/
lemma not_ready_torn (hc : codec.LineWise) (he : Encodes codec r data) {n : ℕ} (hpos : 0 < n)
    (disk : Bytes) : ¬ Ready codec (disk ++ data.take n) := by
  intro hready
  have hfree : newline ∉ data.take n := fun hm => he.oneLine (List.mem_of_mem_take hm)
  have hblank : Blank (Lines.rest newline disk ++ data.take n) := by
    have h := hready.blank
    rwa [Lines.rest, Lines.cut_append_free disk hfree] at h
  obtain ⟨tail,rfl⟩ := List.head?_eq_some_iff.mp (hc.object r data he)
  obtain ⟨m,rfl⟩ := Nat.exists_eq_succ_of_ne_zero hpos.ne'
  have hbrace := hblank 123 (List.mem_append_right _ (by simp))
  revert hbrace
  decide

/-- A whole line leaves a file that is ready exactly when it can be scanned to its end. -/
lemma ready_line_iff (he : Encodes codec r data) (disk : Bytes) :
    Ready codec (disk ++ (data ++ [newline])) ↔ ShortLines (Lines.body newline disk) ∧
      (Lines.rest newline disk).length + data.length < maxTokenSize := by
  have hfree := free_rest_append he disk
  have htext : disk ++ (data ++ [newline]) =
      Lines.body newline disk ++ ((Lines.rest newline disk ++ data) ++ [newline]) := by
    rw [List.append_assoc, ← List.append_assoc (Lines.body newline disk), Lines.body_append_rest]
  have hclosed : Lines.Closed newline (disk ++ (data ++ [newline])) :=
    htext ▸ (Lines.closed_body disk).append (Lines.closed_line hfree)
  have hshort : ShortLines (disk ++ (data ++ [newline])) ↔
      ShortLines (Lines.body newline disk) ∧
        (Lines.rest newline disk).length + data.length < maxTokenSize := by
    unfold ShortLines
    rw [htext, (Lines.closed_body disk).lines_append, Lines.lines_line hfree]
    simp only [List.mem_append, List.mem_singleton, or_imp, forall_and, forall_eq,
      List.length_append]
  constructor
  · intro hready
    rw [← hshort]
    exact hclosed.body ▸ hready.short
  · intro hroom
    refine ⟨?_,?_,?_⟩
    · rw [hclosed.body, hshort]
      exact hroom
    · rw [hclosed.rest]
      simp [Blank]
    · intro r' data' he'
      rw [hclosed.rest, List.length_nil, Nat.zero_add]
      exact he'.short

/-- A whole line is counted behind the closed lines, unless something was open before it. -/
lemma counted_disk (hshort : ShortLines (Lines.body newline disk)) : counted codec disk =
    decoded codec (Lines.body newline disk) ++ counted codec (Lines.rest newline disk) := by
  have h : counted codec (disk ++ []) = decoded codec (Lines.body newline disk) ++
      counted codec (Lines.rest newline disk ++ []) := counted_body hshort []
  rwa [List.append_nil, List.append_nil] at h

lemma counted_line_end (hc : codec.LineWise) (he : Encodes codec r data)
    (hshort : ShortLines (Lines.body newline disk))
    (hroom : (Lines.rest newline disk).length + data.length < maxTokenSize) :
    counted codec (disk ++ (data ++ [newline])) = decoded codec (Lines.body newline disk) ++
      if Blank (Lines.rest newline disk) then [r] else [] := by
  have hfree := free_rest_append he disk
  rw [counted_body hshort, ← List.append_assoc (Lines.rest newline disk)]
  congr 1
  split_ifs with hblank
  · rw [← List.append_nil ((Lines.rest newline disk ++ data) ++ [newline]),
      counted_line hfree (by rwa [List.length_append]), dropCR_append_of_object he.object,
      hc.blank _ r data hblank he, counted_nil]
    rfl
  · apply counted_undecoded hfree
    rw [dropCR_append_of_object he.object]
    exact hc.foreign _ r data hblank (Lines.not_mem_rest disk) he

end Outcomes

section Record

variable {κ : Type} [CostNum κ] {codec : Codec κ} {disk : Bytes} {h : HistoryStore κ}
  {snap : Snapshot κ} {write : Write}

/-- An interval of no bytes, and a ring that holds nothing but its like. -/
def Idle (h : HistoryStore κ) (r : IntervalRecord κ) : Prop :=
  r.totalBytes = 0 ∧ r.crossAZBytes = 0 ∧ h.ring = List.replicate historyRingCap r

/-- Adding the records to the log changes neither its byte totals nor its ring. -/
def Unseen (log rs : List (IntervalRecord κ)) : Prop := Alike log (log ++ rs)

/-- Memory and file stay together when nothing of the line lands exactly if the interval is idle
and the file can be appended to; when a part of it lands, never; and when all of it lands, exactly
if the file can be scanned to its end and the line stands alone on it but for blanks, or what it is
glued to and its own record would have gone unseen. -/
theorem failed_append_iff (hc : codec.LineWise) (hv : codec.Varied) (hagree : Agrees codec disk h)
    (hfile : h.file.isSome)
    (henc : ∀ data, codec.marshal snap.toRecord = some data → Encodes codec snap.toRecord data) :
    (landed codec snap.toRecord write = [] →
      (StaysAgreed codec disk h snap write ↔ Ready codec disk ∧ Idle h snap.toRecord)) ∧
    (∀ data, codec.marshal snap.toRecord = some data →
      landed codec snap.toRecord write ≠ [] →
      landed codec snap.toRecord write ≠ data ++ [newline] →
      ¬ StaysAgreed codec disk h snap write) ∧
    (∀ data, codec.marshal snap.toRecord = some data →
      landed codec snap.toRecord write = data ++ [newline] →
      (StaysAgreed codec disk h snap write ↔
        (ShortLines (Lines.body newline disk) ∧
          (Lines.rest newline disk).length + data.length < maxTokenSize) ∧
        (Blank (Lines.rest newline disk) ∨
          Unseen (decoded codec (Lines.body newline disk))
            (counted codec (Lines.rest newline disk) ++ [snap.toRecord])))) := by
  have hstays := staysAgreed_iff hagree hfile snap write
  have hring := (agrees_iff.mp hagree).ring
  refine ⟨fun hnothing => ?_,fun data hdata hsome hpart => ?_,fun data hdata hwhole => ?_⟩
  · rw [hstays, hnothing, List.append_nil, follows_iff hc hv, alike_append_singleton_iff, Idle,
      hring]
  · have he := henc data hdata
    rw [hstays, follows_iff hc hv]
    rintro ⟨hready,-⟩
    cases write with
    | full => exact hpart (by rw [landed, hdata]; rfl)
    | cut n =>
      have hland : landed codec snap.toRecord (.cut n) = (data ++ [newline]).take n := by
        rw [landed, hdata]
        rfl
      have hn : n ≤ data.length := by
        by_contra hgt
        exact hpart (hland.trans (List.take_of_length_le (by simp; omega)))
      rw [List.take_append_of_le_length hn] at hland
      rw [hland] at hready hsome
      have hpos : 0 < n := Nat.pos_of_ne_zero fun h0 => hsome (by rw [h0, List.take_zero])
      exact not_ready_torn hc he hpos disk hready
  · have he := henc data hdata
    rw [hstays, hwhole, follows_iff hc hv, ready_line_iff he]
    refine and_congr_right fun ⟨hshort,hroom⟩ => ?_
    rw [counted_line_end hc he hshort hroom, counted_disk hshort, List.append_assoc]
    split_ifs with hblank
    · rw [counted_blank hc (Lines.not_mem_rest disk) hblank, List.nil_append]
      exact iff_of_true ⟨rfl,rfl,rfl⟩ (Or.inl hblank)
    · rw [List.append_nil]
      exact (or_iff_right hblank).symm

end Record

section Demo

/-- A codec for known records that passes over blanks before a value. -/
def blanksCodec (known : List (IntervalRecord Rat)) : Codec Rat where
  marshal := (tableCodec known).marshal
  unmarshal text := (tableCodec known).unmarshal
    (text.dropWhile fun b => b = 32 ∨ b = 9 ∨ b = 13)

def lineCodec : Codec Rat := blanksCodec [morning.toRecord,noon.toRecord]

lemma head?_freeLine (r : IntervalRecord Rat) : (freeLine r).head? = some 123 := by
  simp [freeLine, ascii]

lemma dropWhile_freeLine (r : IntervalRecord Rat) :
    (freeLine r).dropWhile (fun b => b = 32 ∨ b = 9 ∨ b = 13) = freeLine r := by
  obtain ⟨tail,htail⟩ := List.head?_eq_some_iff.mp (head?_freeLine r)
  rw [htail, List.dropWhile_cons, if_neg (by decide)]

/-- What the plain codec encodes, this one does. -/
lemma blanksCodec_encodes {known : List (IntervalRecord Rat)} {r : IntervalRecord Rat}
    (he : Encodes (tableCodec known) r (freeLine r)) :
    Encodes (blanksCodec known) r (freeLine r) where
  marshal := he.marshal
  unmarshal := (congrArg (tableCodec known).unmarshal (dropWhile_freeLine r)).trans he.unmarshal
  oneLine := he.oneLine
  short := he.short
  object := he.object

lemma lineCodec_morning : Encodes lineCodec morning.toRecord (freeLine morning.toRecord) :=
  blanksCodec_encodes demoCodec_morning

lemma lineCodec_noon : Encodes lineCodec noon.toRecord (freeLine noon.toRecord) :=
  blanksCodec_encodes demoCodec_noon

/-- What the codec encodes is a record's own line, and both lines have one length. -/
lemma lineCodec_encodes {r : IntervalRecord Rat} {data : Bytes} (he : Encodes lineCodec r data) :
    data = freeLine r ∧ data.length = (freeLine morning.toRecord).length := by
  have hmarshal : (if r ∈ [morning.toRecord,noon.toRecord] then some (freeLine r) else none) =
      some data := he.marshal
  split_ifs at hmarshal with hmem
  obtain rfl := Option.some.inj hmarshal
  refine ⟨rfl,?_⟩
  rcases List.mem_pair.mp hmem with rfl | rfl
  · rfl
  · exact length_freeLine_noon

lemma lineCodec_length {text : Bytes} {r : IntervalRecord Rat}
    (h : lineCodec.unmarshal text = some r) :
    (text.dropWhile fun b => b = 32 ∨ b = 9 ∨ b = 13).length =
      (freeLine morning.toRecord).length := by
  obtain ⟨hmem,htext⟩ := tableCodec_unmarshal h
  rw [← htext]
  rcases List.mem_pair.mp hmem with rfl | rfl
  · rfl
  · exact length_freeLine_noon

lemma dropWhile_blank {t : Bytes} (h : Blank t) (u : Bytes) :
    (t ++ u).dropWhile (fun b => b = 32 ∨ b = 9 ∨ b = 13) =
      u.dropWhile fun b => b = 32 ∨ b = 9 ∨ b = 13 := by
  induction t with
  | nil => rfl
  | cons b t ih =>
    have hb := h b List.mem_cons_self
    rw [List.cons_append, List.dropWhile_cons, if_pos (decide_eq_true hb)]
    exact ih fun x hx => h x (List.mem_cons_of_mem b hx)

lemma lineCodec_lineWise : lineCodec.LineWise where
  object r data he := (lineCodec_encodes he).1 ▸ head?_freeLine r
  blank t r data hb he := by
    have hread : lineCodec.unmarshal (t ++ data) = lineCodec.unmarshal data :=
      congrArg (tableCodec _).unmarshal (dropWhile_blank hb data)
    rw [hread]
    exact he.unmarshal
  empty t hb := by
    by_contra hsome
    obtain ⟨q,hq⟩ := Option.ne_none_iff_exists'.mp hsome
    have hlen := lineCodec_length hq
    have hdrop := dropWhile_blank hb []
    rw [List.append_nil] at hdrop
    rw [hdrop] at hlen
    obtain ⟨tail,htail⟩ := List.head?_eq_some_iff.mp (head?_freeLine morning.toRecord)
    rw [htail] at hlen
    cases hlen
  foreign t r data hb _ he := by
    by_contra hsome
    obtain ⟨q,hq⟩ := Option.ne_none_iff_exists'.mp hsome
    have hlen := lineCodec_length hq
    have hdata := (lineCodec_encodes he).2
    have hrest : (t.dropWhile fun b => b = 32 ∨ b = 9 ∨ b = 13) ≠ [] := by
      intro hnil
      exact hb fun b hmem => of_decide_eq_true (List.dropWhile_eq_nil_iff.mp hnil b hmem)
    have hpos := List.length_pos_of_ne_nil hrest
    rw [List.dropWhile_append, if_neg (by simpa using hrest), List.length_append] at hlen
    omega

lemma lineCodec_varied : lineCodec.Varied :=
  ⟨_,_,_,_,lineCodec_morning,lineCodec_noon,by decide⟩

lemma fullDisk_agrees : Agrees lineCodec [] firstStore := by
  rw [agrees_iff]
  exact ⟨by decide,by decide,by decide⟩

/-- No byte of the noon record reaches the full disk. -/
theorem fullDisk_splits : Agrees lineCodec [] firstStore ∧
    ¬ StaysAgreed lineCodec [] firstStore noon (.cut 0) := by
  refine ⟨fullDisk_agrees,fun hstays => ?_⟩
  have hnow := agrees_iff.mp (hstays [] (by simp))
  have hbytes := hnow.cumBytes
  revert hbytes
  decide +kernel

theorem failed_append_iff_noon :
    (landed lineCodec noon.toRecord (.cut 0) = [] →
      (StaysAgreed lineCodec [] firstStore noon (.cut 0) ↔
        Ready lineCodec [] ∧ Idle firstStore noon.toRecord)) ∧
    (∀ data, lineCodec.marshal noon.toRecord = some data →
      landed lineCodec noon.toRecord (.cut 0) ≠ [] →
      landed lineCodec noon.toRecord (.cut 0) ≠ data ++ [newline] →
      ¬ StaysAgreed lineCodec [] firstStore noon (.cut 0)) ∧
    (∀ data, lineCodec.marshal noon.toRecord = some data →
      landed lineCodec noon.toRecord (.cut 0) = data ++ [newline] →
      (StaysAgreed lineCodec [] firstStore noon (.cut 0) ↔
        (ShortLines (Lines.body newline []) ∧
          (Lines.rest newline ([] : Bytes)).length + data.length < maxTokenSize) ∧
        (Blank (Lines.rest newline []) ∨
          Unseen (decoded lineCodec (Lines.body newline []))
            (counted lineCodec (Lines.rest newline []) ++ [noon.toRecord])))) := by
  refine failed_append_iff lineCodec_lineWise lineCodec_varied fullDisk_agrees rfl ?_
  intro data hdata
  rcases lineCodec_noon.marshal.symm.trans hdata with ⟨⟩
  exact lineCodec_noon

end Demo
end Tracewulf.Ebpf
