import Tracewulf.Ebpf.Conservation

/-! What a clean shutdown leaves behind. The reporter's stop branch returns without a last
snapshot, so what the event loop has recorded since the last tick stays in the live map and goes
with the process. What has been handed over is in the file, unless the file was found with an open
line, which takes the session's first line with it. -/
namespace Tracewulf.Ebpf
open Tracewulf.Base Tracewulf.K8s KeyedFold

section Text

variable {κ : Type} {codec : Codec κ} {opn data : Bytes} {r : IntervalRecord κ}
  {rs : List (IntervalRecord κ)} {ds : List Bytes}

/-- The line of `r` is written on to the open text. Nothing comes of it where there is none, or
where the text is no record and the two together read as `r`. -/
def ReadsBehind (codec : Codec κ) (opn : Bytes) (r : IntervalRecord κ) : Prop :=
  opn = [] ∨ codec.unmarshal (dropCR opn) = none ∧
    ∀ data, codec.marshal r = some data → codec.unmarshal (opn ++ data) = some r

lemma readsBehind_iff (he : Encodes codec r data) (hne : opn ≠ []) : ReadsBehind codec opn r ↔
      (codec.unmarshal (opn ++ data)).toList = (codec.unmarshal (dropCR opn)).toList ++ [r] := by
  have hdata : (∀ data', codec.marshal r = some data' → codec.unmarshal (opn ++ data') = some r) ↔
      codec.unmarshal (opn ++ data) = some r := by
    simp [he.marshal]
  rw [ReadsBehind, hdata]
  cases codec.unmarshal (dropCR opn) <;> cases codec.unmarshal (opn ++ data) <;> simp [hne]

/-- Lines appended to a file are read back behind what it holds exactly when the first of them is,
on the open line that the file may end in. -/
lemma decoded_append_joined_iff (text : Bytes) (he : List.Forall₂ (Encodes codec) rs ds) :
    decoded codec (text ++ joined ds) = decoded codec text ++ rs ↔
      ∀ r ∈ rs.head?, ReadsBehind codec (Lines.rest newline text) r := by
  have hclosed : Lines.Closed newline (Lines.body newline text) := Lines.closed_body text
  have hfree : newline ∉ Lines.rest newline text := Lines.not_mem_rest text
  have htext : Lines.body newline text ++ Lines.rest newline text = text :=
    Lines.body_append_rest text
  generalize Lines.body newline text = done at hclosed htext
  generalize Lines.rest newline text = opn at hfree htext
  subst htext
  cases he with
  | nil => simp [joined]
  | @cons r data rs ds hd hds =>
    have hline : newline ∉ opn ++ data := by
      rw [List.mem_append, not_or]
      exact ⟨hfree,hd.oneLine⟩
    have hshape : (done ++ opn) ++ joined (data::ds) =
        done ++ (((opn ++ data) ++ [newline]) ++ joined ds) := by
      simp [joined]
    rw [hshape, decoded_append hclosed, decoded_append hclosed, decoded_append
      (Lines.closed_line hline), decoded_line hline, dropCR_append_of_object hd.object,
      decoded_joined hds, List.append_assoc, List.append_cancel_left_eq, List.head?_cons]
    by_cases hne : opn = []
    · subst hne
      simp [ReadsBehind, hd.unmarshal, decoded, Lines.lines, Lines.cut]
    · have hmem : (∀ q ∈ some r, ReadsBehind codec opn q) ↔ ReadsBehind codec opn r := by simp
      rw [hmem, readsBehind_iff hd hne, decoded_free hfree hne, ← List.singleton_append,
        ← List.append_assoc, List.append_cancel_right_eq]

end Text

section Log

variable {κ : Type}

/-- The log of calls since the last snapshot, and what one more observation makes of it. -/
def noteCall (log : List Call) : Seen κ → List Call
  | .handled _ call => log ++ call.toList
  | .snapshot _ => []
  | .recorded _ _ => log

def sinceTick (seen : List (Seen κ)) : List Call := seen.foldl noteCall []

/-- The record a snapshot leaves in the history. -/
def Seen.filed : Seen κ → Option (IntervalRecord κ)
  | handled _ _ | snapshot _ => none
  | recorded snap _ => some snap.toRecord

/-- Every append of the session was written in full, as one line. -/
def AppendsSucceed (codec : Codec κ) (seen : List (Seen κ)) : Prop :=
  ∀ snap write, .recorded snap write ∈ seen →
    write = .full ∧ ∃ data, Encodes codec snap.toRecord data

/-- The event loop and the reporter have both returned, on account of the stop signal. -/
def Daemon.stopped (d : Daemon κ) : Bool :=
  match d.loop,d.reporter with
  | .returned none,.returned => true
  | _,_ => false

lemma Daemon.pending_of_stopped {d : Daemon κ} (h : d.stopped) : d.reporter.pending = none := by
  unfold Daemon.stopped at h
  split at h
  · rename_i hreporter
    rw [hreporter]
    rfl
  · cases h

/-- Every byte of the SEND records dealt with is in the history's total and in the records that the
file decodes to behind those it was found with, and the live map holds none. -/
structure NothingLost (codec : Codec κ) (opening : UInt64) (disk₀ : Bytes) (seen : List (Seen κ))
    (d : Daemon κ) : Prop where
  history : d.history.cumBytes = opening + (seen.map Seen.sent).sum
  file : decoded codec d.disk = decoded codec disk₀ ++ seen.filterMap Seen.filed
  filed : ((seen.filterMap Seen.filed).map IntervalRecord.totalBytes).sum =
    (seen.map Seen.sent).sum
  live : ∀ k, (statAt d.stats.conns k).bytes = 0

/-- No flow has bytes reported since the last snapshot. -/
def NothingSinceTick (seen : List (Seen κ)) : Prop :=
  ∀ k, ((onFlow (sinceTick seen) k).map Call.sent).sum = 0

variable {codec : Codec κ} {opening : UInt64} {disk₀ : Bytes} {tr : List (Seen κ)} {d d' : Daemon κ}

/-- The history's total and the file are what the session has handed over. -/
structure Filed (codec : Codec κ) (opening : UInt64) (disk₀ : Bytes) (tr : List (Seen κ))
    (d : Daemon κ) : Prop where
  opened : d.history.file.isSome
  cumBytes : d.history.cumBytes =
    opening + ((tr.filterMap Seen.filed).map IntervalRecord.totalBytes).sum
  disk : AppendsSucceed codec tr → ∃ ds,
    List.Forall₂ (Encodes codec) (tr.filterMap Seen.filed) ds ∧ d.disk = disk₀ ++ joined ds

/-- An observation that files nothing, of a step that leaves history and file alone. -/
lemma Filed.unfiled (h : Filed codec opening disk₀ tr d) {x : Seen κ} (hx : x.filed = none)
    (hhistory : d'.history = d.history) (hdisk : d'.disk = d.disk) :
    Filed codec opening disk₀ (tr ++ [x]) d' := by
  have hfiled : (tr ++ [x]).filterMap Seen.filed = tr.filterMap Seen.filed := by
    rw [List.filterMap_append, List.filterMap_cons_none hx, List.filterMap_nil, List.append_nil]
  refine ⟨?_,?_,fun happ => ?_⟩
  · rw [hhistory]; exact h.opened
  · rw [hhistory, hfiled]; exact h.cumBytes
  · rw [hdisk, hfiled]
    exact h.disk fun snap write hmem => happ snap write (List.mem_append_left _ hmem)

end Log

section Invariant

variable {κ : Type} [CostNum κ] {codec : Codec κ} {cfg : Config κ} {opening : UInt64}
  {disk₀ : Bytes} {tr out : List (Seen κ)} {d d' : Daemon κ}

/-- The live map is the replay of the calls since the last snapshot. -/
def Current (tr : List (Seen κ)) (d : Daemon κ) : Prop :=
  d.stats.conns = (newStats.replay (sinceTick tr)).conns

lemma Current.effect (h : Current tr d) (he : Effect codec cfg d d' out) :
    Current (tr ++ out) d' := by
  have hlog : sinceTick (tr ++ out) = out.foldl noteCall (sinceTick tr) := by
    rw [sinceTick, List.foldl_append]
    rfl
  unfold Current at h ⊢
  rw [hlog]
  cases he with
  | quiet hsame hloop => rw [hsame.conns, h]; rfl
  | finish raw call now hloop hd' =>
    subst hd'
    cases call with
    | none => simpa [noteCall] using h
    | some mk =>
      simp only [Option.map_some, Option.elim_some, List.foldl_cons, List.foldl_nil, noteCall,
        Option.toList_some, Call.conns_apply, h]
      rw [conns_replay, conns_replay, List.foldl_append]
      rfl
  | tick now keys hselect hkeys hd' => subst hd'; rfl
  | record snap write hpub hd' => subst hd'; exact h

/-- A snapshot handed over is one more record and, where the append succeeds, one more line. -/
lemma Filed.record (h : Filed codec opening disk₀ tr d) (snap : Snapshot κ)
    (write : Write) :
    Filed codec opening disk₀ (tr ++ [.recorded snap write])
      { d with disk := (d.history.record codec snap write d.disk).1
               history := (d.history.record codec snap write d.disk).2
               reporter := .selecting } := by
  have hfiled : (tr ++ [Seen.recorded snap write]).filterMap Seen.filed =
      tr.filterMap Seen.filed ++ [snap.toRecord] := by
    rw [List.filterMap_append]
    rfl
  refine ⟨h.opened,?_,fun happ => ?_⟩
  · rw [hfiled]
    simp [HistoryStore.record, h.cumBytes, add_assoc]
  · obtain ⟨ds,hds,hdisk⟩ := h.disk fun snap write hmem =>
      happ snap write (List.mem_append_left _ hmem)
    obtain ⟨rfl,data,hdata⟩ := happ snap write (by simp)
    have hline := record_disk d.disk h.opened hdata .full
    refine ⟨ds ++ [data],?_,?_⟩
    · rw [hfiled]
      exact List.rel_append hds (.cons hdata .nil)
    · refine hline.trans ?_
      rw [hdisk]
      simp [joined, Write.landed]

lemma Filed.effect (h : Filed codec opening disk₀ tr d) (he : Effect codec cfg d d' out) :
    Filed codec opening disk₀ (tr ++ out) d' := by
  cases he with
  | quiet hsame hloop =>
    rw [List.append_nil]
    refine ⟨?_,?_,?_⟩
    · rw [hsame.history]; exact h.opened
    · rw [hsame.history]; exact h.cumBytes
    · rw [hsame.disk]; exact h.disk
  | finish raw call now hloop hd' => subst hd'; exact h.unfiled rfl rfl rfl
  | tick now keys hselect hkeys hd' => subst hd'; exact h.unfiled rfl rfl rfl
  | record snap write hpub hd' => subst hd'; exact h.record snap write

end Invariant

section Stop

variable {κ : Type} [CostNum κ] {codec : Codec κ} {cfg : Config κ} {path : String} {opened : Time}
  {cache : Cache} {disk₀ : Option Bytes} {disk : Bytes} {history : HistoryStore κ}
  {acts : List Action} {tr : List (Seen κ)} {d : Daemon κ}

/-- The live record of a flow holds what its calls reported. -/
lemma statAt_bytes_replay (log : List Call) (k : String) :
    (statAt (newStats.replay log).conns k).bytes = ((onFlow log k).map Call.sent).sum := by
  by_cases hk : ∃ c ∈ log, c.key = some k
  · exact (statAt_replay none log hk).bytes
  · have habsent : (newStats.replay log).conns.lookup k = none :=
      Finmap.lookup_eq_none.mpr (mt (mem_conns_replay none log k).mp hk)
    have hempty : onFlow log k = [] := by
      by_contra hne
      exact hk (onFlow_ne_nil.mp hne)
    rw [statAt, habsent, hempty]
    rfl

/-- The live record of a flow holds what was reported since the last snapshot. -/
lemma statAt_bytes_of_run (hrun : (Daemon.start cache history disk).run codec cfg acts =
    some (d,tr)) (k : String) :
    (statAt d.stats.conns k).bytes = ((onFlow (sinceTick tr) k).map Call.sent).sum := by
  have hfresh : Current (κ := κ) [] (Daemon.start cache history disk) := rfl
  have hcurrent : Current tr d :=
    run_invariant (fun tr s a t seen h hstep => h.effect (effect_of_step hstep)) hfresh hrun
  rw [hcurrent, statAt_bytes_replay]

lemma filed_of_run
    (hopen : newHistoryStore codec cfg.rfc3339 path disk₀ (.ok ()) opened = .ok history)
    (hrun : (Daemon.start cache history (disk₀.getD [])).run codec cfg acts = some (d,tr)) :
    Filed codec history.cumBytes (disk₀.getD []) tr d := by
  obtain ⟨-,hfile⟩ := tallies_newHistoryStore hopen
  have hstart : Filed codec history.cumBytes (disk₀.getD []) []
      (Daemon.start cache history (disk₀.getD [])) := by
    refine ⟨?_,?_,fun _ => ⟨[],.nil,?_⟩⟩
    · rw [Daemon.start, hfile]; rfl
    · simp [Daemon.start]
    · simp [joined, Daemon.start]
  exact run_invariant (fun tr s a t seen h hstep => h.effect (effect_of_step hstep)) hstart hrun

/-- Over every run that the stop signal ends and whose appends succeed, nothing is lost exactly
when no flow had bytes reported after the last tick and the first line appended is read back. A
file that is empty or ends in a newline sees to the latter. -/
theorem clean_shutdown_iff
    (hopen : newHistoryStore codec cfg.rfc3339 path disk₀ (.ok ()) opened = .ok history)
    (hrun : (Daemon.start cache history (disk₀.getD [])).run codec cfg acts = some (d,tr))
    (happ : AppendsSucceed codec tr) (hstop : d.stopped) :
    (NothingLost codec history.cumBytes (disk₀.getD []) tr d ↔ NothingSinceTick tr ∧
      ∀ r ∈ (tr.filterMap Seen.filed).head?,
        ReadsBehind codec (Lines.rest newline (disk₀.getD [])) r) ∧
    (EndsLine (disk₀.getD []) →
      (NothingLost codec history.cumBytes (disk₀.getD []) tr d ↔ NothingSinceTick tr)) := by
  have hbooks := (sound_of_run hrun).balanced.bytes
  have hlive := statAt_bytes_of_run hrun
  have hfiled := filed_of_run hopen hrun
  obtain ⟨ds,hds,hdisk⟩ := hfiled.disk happ
  have hbehind := decoded_append_joined_iff (disk₀.getD []) hds
  rw [← hdisk] at hbehind
  have hiff : NothingLost codec history.cumBytes (disk₀.getD []) tr d ↔ NothingSinceTick tr ∧
      ∀ r ∈ (tr.filterMap Seen.filed).head?,
        ReadsBehind codec (Lines.rest newline (disk₀.getD [])) r := by
    constructor
    · intro hnone
      refine ⟨fun k => ?_,hbehind.mp hnone.file⟩
      rw [← hlive, hnone.live]
    · rintro ⟨hnone,hfirst⟩
      have hzero : ∀ k, (statAt d.stats.conns k).bytes = 0 := fun k => (hlive k).trans (hnone k)
      have hweight : FiniteMap.weight ConnStat.bytes d.stats.conns = 0 := by
        apply Finset.sum_eq_zero
        intro k _
        rw [← statAt_bytes, hzero]
      rw [hweight, Daemon.pending_of_stopped hstop, Option.elim_none, zero_add, zero_add] at hbooks
      have hsum : d.history.cumBytes = history.cumBytes + (tr.map Seen.sent).sum := by
        rw [hbooks, add_sub_cancel]
      exact ⟨hsum,hbehind.mpr hfirst,add_left_cancel (hfiled.cumBytes.symm.trans hsum),hzero⟩
  refine ⟨hiff,fun hend => hiff.trans (and_iff_left fun r _ => .inl ?_)⟩
  exact ((Lines.closed_iff _).mpr hend).rest

end Stop

section Demo

/-- The stop signal is closed, the ring buffer is closed, and both goroutines return. -/
def stopNow : List Action := [.closeStop,.closeReader,.readClosed,.reporterStop]

/-- A hundred bytes are sent and the signal comes before the next tick. -/
theorem lastSend_lost :
    newHistoryStore demoCodec demoConfig.rfc3339 "h" none (.ok ()) 0 = .ok demoStart.history ∧
      ∃ d tr, demoStart.run demoCodec demoConfig (handleSend ++ stopNow) = some (d,tr) ∧
        AppendsSucceed demoCodec tr ∧ d.stopped ∧ ¬ NothingLost demoCodec 0 [] tr d := by
  refine ⟨rfl,?_⟩
  have hview : ((demoStart.run demoCodec demoConfig (handleSend ++ stopNow)).map fun r =>
      (r.1.stopped,r.2.filterMap Seen.filed,r.1.history.cumBytes,(r.2.map Seen.sent).sum)) =
      some (true,[],0,100) := by
    decide +kernel
  obtain ⟨⟨d,tr⟩,hrun,heq⟩ := Option.map_eq_some_iff.mp hview
  simp only [Prod.mk.injEq] at heq
  obtain ⟨hstop,hfiled,hcum,hsent⟩ := heq
  refine ⟨d,tr,hrun,?_,hstop,fun hnone => ?_⟩
  · intro snap write hmem
    have hmem' : snap.toRecord ∈ tr.filterMap Seen.filed :=
      List.mem_filterMap.mpr ⟨_,hmem,rfl⟩
    rw [hfiled] at hmem'
    exact absurd hmem' List.not_mem_nil
  · have h := hnone.history
    rw [hcum, hsent] at h
    revert h
    decide

/-- The same with a tick in between. -/
theorem clean_shutdown_iff_oneSend : ∃ d tr,
    demoStart.run demoCodec demoConfig (handleSend ++ reportSend ++ stopNow) = some (d,tr) ∧
      NothingSinceTick tr ∧ NothingLost demoCodec 0 [] tr d := by
  have hview : ((demoStart.run demoCodec demoConfig (handleSend ++ reportSend ++ stopNow)).map
      fun r => (r.1.stopped,(sinceTick r.2).length,r.2.all fun x => match x with
        | .recorded snap write => write = .full ∧ snap.toRecord = morning.toRecord
        | _ => true)) = some (true,0,true) := by
    decide +kernel
  obtain ⟨⟨d,tr⟩,hrun,heq⟩ := Option.map_eq_some_iff.mp hview
  simp only [Prod.mk.injEq] at heq
  obtain ⟨hstop,hsince,hall⟩ := heq
  have happ : AppendsSucceed demoCodec tr := by
    intro snap write hmem
    have h := List.all_eq_true.mp hall _ hmem
    simp only [decide_eq_true_eq] at h
    exact ⟨h.1,_,h.2 ▸ demoCodec_morning⟩
  have hopen : newHistoryStore demoCodec demoConfig.rfc3339 "h" none (.ok ()) 0 =
      .ok demoStart.history := rfl
  have hnone : NothingSinceTick tr := by
    intro k
    rw [List.length_eq_zero_iff.mp hsince]
    rfl
  exact ⟨d,tr,hrun,hnone,((clean_shutdown_iff hopen hrun happ hstop).2 (.inl rfl)).mpr hnone⟩

end Demo
end Tracewulf.Ebpf
