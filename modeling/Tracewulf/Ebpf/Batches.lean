import Tracewulf.Base.Collector
import Tracewulf.Ebpf.CrossZone
import Tracewulf.Ebpf.Shutdown

/-! The daemon as a collector of calls. Whatever its goroutines do in between, each call on the
aggregator is in the batch of one snapshot, each snapshot is the summary of its batch, and the
history is handed the snapshots one by one. The history file is then a log of the batches. -/
namespace Tracewulf.Ebpf
open Tracewulf.Base Tracewulf.K8s

section Summary

variable {κ : Type}

/-- The snapshot is the fold of the batch, and its totals are those of the batch. -/
structure Summarises (batch : List Call) (snap : Snapshot κ) : Prop
    extends FaithfulSnapshot batch snap where
  sent : snap.totalBytes = (batch.map Call.sent).sum
  flagged : snap.crossAZBytes = sentBy (Call.onFlagged batch) batch

variable [CostNum κ] {cfg : Config κ} {now : Time} {keys : List String} {log : List Call}

lemma weight_bytes_replay (j : Option Bytes) (log : List Call) :
    FiniteMap.weight ConnStat.bytes ((freshStats j).replay log).conns =
      (log.map Call.sent).sum := by
  induction log using List.reverseRecOn with
  | nil => exact FiniteMap.weight_empty _
  | append_singleton log c ih =>
    have hlast : (freshStats j).replay (log ++ [c]) = c.apply ((freshStats j).replay log) :=
      List.foldl_append
    rw [hlast, weight_bytes_apply, ih, sum_map_append]

theorem summarises_snapshot (h : SortedKeys (newStats.replay log).conns keys) :
    Summarises log ((newStats.replay log).snapshotAndReset cfg now keys).1 where
  toFaithfulSnapshot := faithful_snapshot none log h
  sent := by
    rw [totalBytes_snapshot h]
    exact weight_bytes_replay none log
  flagged := by
    rw [snapshotAndReset_fst h]
    exact weight_crossBytes none log

end Summary

section Collects

variable {κ : Type} [CostNum κ] {codec : Codec κ} {cfg : Config κ}

/-- What an observer is told, as an entry of a collector of calls into snapshots. -/
def Seen.entry : Seen κ → Option (Collector.Entry Call (Snapshot κ))
  | handled _ call => call.map .added
  | snapshot snap => some (.closed snap)
  | recorded snap _ => some (.delivered snap)

/-- The live map and the count of commands are the fold of the open batch, and the snapshot on its
way is the one that is pending. -/
structure Collects (d : Daemon κ) (c : Collector Call (Snapshot κ)) : Prop where
  conns : d.stats.conns = (newStats.replay c.live).conns
  execCnt : d.stats.execCnt = (newStats.replay c.live).execCnt
  pending : d.reporter.pending = c.pending.map Prod.snd

/-- A snapshot reads the live map and the count of commands, and nothing else. -/
lemma snapshotAndReset_congr {s s' : Stats} (hconns : s.conns = s'.conns)
    (hexec : s.execCnt = s'.execCnt) (now : Time) (keys : List String) :
    (s.snapshotAndReset cfg now keys).1 = (s'.snapshotAndReset cfg now keys).1 := by
  simp only [Stats.snapshotAndReset, hconns, hexec]

omit [CostNum κ] in
lemma Collects.call {d : Daemon κ} {c : Collector Call (Snapshot κ)} (h : Collects d c)
    (call : Call) (loop : EventLoop) :
    Collects { d with stats := call.apply d.stats, loop := loop }
      { c with live := c.live ++ [call] } where
  conns := by
    have hlast : newStats.replay (c.live ++ [call]) = call.apply (newStats.replay c.live) :=
      List.foldl_append
    rw [hlast, Call.conns_apply, Call.conns_apply, h.conns]
  execCnt := by
    have hlast : newStats.replay (c.live ++ [call]) = call.apply (newStats.replay c.live) :=
      List.foldl_append
    rw [hlast, Call.execCnt_apply, Call.execCnt_apply, h.execCnt]
  pending := h.pending

/-- The daemon carries out a collector, step by step. -/
theorem daemon_simulates_collector : Simulates (Daemon.step codec cfg)
    (Collector.step Summarises) Collects Seen.entry := by
  intro d c a d' seen h hstep
  cases effect_of_step hstep with
  | quiet hsame hloop =>
    refine ⟨[],c,rfl,?_,?_,?_⟩
    · rw [hsame.conns, h.conns]
    · rw [hsame.execCnt, h.execCnt]
    · rw [hsame.pending, h.pending]
  | finish raw call now hloop hd' =>
    subst hd'
    cases call with
    | none => exact ⟨[],c,rfl,h.conns,h.execCnt,h.pending⟩
    | some mk => exact ⟨[.added (mk now)],_,rfl,h.call (mk now) .waiting⟩
  | tick now keys hselect hkeys hd' =>
    subst hd'
    have hnone : c.pending = none := by
      have hpending := h.pending
      rw [hselect] at hpending
      exact Option.map_eq_none_iff.mp hpending.symm
    have hsum : Summarises c.live (d.stats.snapshotAndReset cfg now keys).1 := by
      rw [snapshotAndReset_congr h.conns h.execCnt]
      exact summarises_snapshot (h.conns ▸ hkeys)
    refine ⟨[.closed _],_,run_singleton (if_pos ⟨hnone,hsum⟩),rfl,rfl,rfl⟩
  | record snap write hpub hd' =>
    subst hd'
    have hpending := h.pending
    rw [hpub] at hpending
    obtain ⟨b,hb,hsnap⟩ := Option.map_eq_some_iff.mp hpending.symm
    have hdeliver : c.step Summarises (.delivered snap) =
        some ({ c with delivered := c.delivered ++ [b], pending := none },
          [.delivered snap]) := by
      rw [Collector.step, hb]
      exact if_pos hsnap
    exact ⟨[.delivered snap],_,run_singleton hdeliver,h.conns,h.execCnt,rfl⟩

end Collects

section Run

variable {κ : Type}

namespace Seen

/-- The call on the aggregator. -/
def call? : Seen κ → Option Call
  | handled _ call => call
  | snapshot _ | recorded _ _ => none

/-- The snapshot taken. -/
def taken? : Seen κ → Option (Snapshot κ)
  | snapshot snap => some snap
  | handled _ _ | recorded _ _ => none

/-- The snapshot handed to the history. -/
def handed? : Seen κ → Option (Snapshot κ)
  | recorded snap _ => some snap
  | handled _ _ | snapshot _ => none

end Seen

/-- The entries are the calls, the snapshots taken and the snapshots handed over. -/
lemma filterMap_entry (tr : List (Seen κ)) :
    (tr.filterMap Seen.entry).filterMap Collector.Entry.added? = tr.filterMap Seen.call? ∧
    (tr.filterMap Seen.entry).filterMap Collector.Entry.closed? = tr.filterMap Seen.taken? ∧
    (tr.filterMap Seen.entry).filterMap Collector.Entry.delivered? =
      tr.filterMap Seen.handed? := by
  simp only [List.filterMap_filterMap]
  refine ⟨?_,?_,?_⟩
  all_goals
    apply List.filterMap_congr
    rintro (⟨raw,_ | call⟩ | snap | ⟨snap,write⟩) - <;> rfl

variable [CostNum κ] {codec : Codec κ} {cfg : Config κ} {cache : Cache} {history : HistoryStore κ}
  {disk : Bytes} {acts : List Action} {d : Daemon κ} {tr : List (Seen κ)}

lemma collects_of_run (hrun : (Daemon.start cache history disk).run codec cfg acts = some (d,tr)) :
    ∃ c, Collector.Accounts Summarises (tr.filterMap Seen.entry) c ∧ Collects d c := by
  have hstart : Collects (Daemon.start cache history disk) .empty := ⟨rfl,rfl,rfl⟩
  obtain ⟨es,c,hes,hc⟩ := daemon_simulates_collector.run hstart hrun
  exact ⟨c,Collector.accounts_of_run hes,hc⟩

/-- Over every run: the calls come in batches, one for each snapshot taken, which summarises it;
what is left is live. The snapshots reach the history in order, the last one perhaps not yet. -/
theorem snapshots_batch_calls
    (hrun : (Daemon.start cache history disk).run codec cfg acts = some (d,tr)) :
    ∃ (batches : List (List Call × Snapshot κ)) (live : List Call),
      tr.filterMap Seen.call? = batches.flatMap Prod.fst ++ live ∧
      (∀ b ∈ batches, Summarises b.1 b.2) ∧
      tr.filterMap Seen.taken? = batches.map Prod.snd ∧
      tr.filterMap Seen.handed? ++ d.reporter.pending.toList = batches.map Prod.snd ∧
      d.stats.conns = (newStats.replay live).conns ∧
      d.stats.execCnt = (newStats.replay live).execCnt := by
  obtain ⟨c,haccounts,hc⟩ := collects_of_run hrun
  obtain ⟨hadded,hclosed,hdelivered,hsums⟩ := haccounts
  obtain ⟨hcall,htaken,hhanded⟩ := filterMap_entry tr
  rw [hcall] at hadded
  rw [htaken] at hclosed
  rw [hhanded] at hdelivered
  refine ⟨c.batches,c.live,hadded,hsums,hclosed,?_,hc.conns,hc.execCnt⟩
  rw [hdelivered, hc.pending, Collector.batches, List.map_append]
  cases c.pending <;> rfl

end Run

section File

variable {κ : Type} [CostNum κ] {codec : Codec κ} {cfg : Config κ} {disk₀ : Bytes}
  {tr out : List (Seen κ)} {d d' : Daemon κ}

/-- The record has the totals of the batch. -/
structure Logs (batch : List Call) (r : IntervalRecord κ) : Prop where
  totalBytes : r.totalBytes = (batch.map Call.sent).sum
  crossAZBytes : r.crossAZBytes = sentBy (Call.onFlagged batch) batch
  execEvents : r.execEvents = UInt64.ofNat (batch.countP Call.isExec)
  uniqueFlows : r.uniqueFlows = (batch.filterMap Call.key).dedup.length

omit [CostNum κ] in
lemma Summarises.logs {batch : List Call} {snap : Snapshot κ} (h : Summarises batch snap) :
    Logs batch snap.toRecord := ⟨h.sent,h.flagged,h.execEvents,h.flowCount⟩

/-- As long as appends succeed, the file is a log that the store tallies, and it grows by what is
handed over. -/
def FileGrows (codec : Codec κ) (disk₀ : Bytes) (tr : List (Seen κ)) (d : Daemon κ) : Prop :=
  AppendsSucceed codec tr → InStep codec d.disk d.history ∧
    decoded codec d.disk = decoded codec disk₀ ++ (tr.filterMap Seen.handed?).map Snapshot.toRecord

omit [CostNum κ] in
lemma AppendsSucceed.of_append {tr out : List (Seen κ)} (h : AppendsSucceed codec (tr ++ out)) :
    AppendsSucceed codec tr :=
  fun snap write hmem => h snap write (List.mem_append_left _ hmem)

lemma FileGrows.unfiled (h : FileGrows codec disk₀ tr d) (hout : out.filterMap Seen.handed? = [])
    (hhistory : d'.history = d.history) (hdisk : d'.disk = d.disk) :
    FileGrows codec disk₀ (tr ++ out) d' := by
  intro happ
  obtain ⟨hin,hlog⟩ := h happ.of_append
  rw [hhistory, hdisk, List.filterMap_append, hout, List.append_nil]
  exact ⟨hin,hlog⟩

lemma FileGrows.effect (h : FileGrows codec disk₀ tr d) (he : Effect codec cfg d d' out) :
    FileGrows codec disk₀ (tr ++ out) d' := by
  cases he with
  | quiet hsame hloop => exact h.unfiled rfl hsame.history hsame.disk
  | finish raw call now hloop hd' => exact h.unfiled rfl (by rw [hd']) (by rw [hd'])
  | tick now keys hselect hkeys hd' => exact h.unfiled rfl (by rw [hd']) (by rw [hd'])
  | record snap write hpub hd' =>
    intro happ
    obtain ⟨hin,hlog⟩ := h happ.of_append
    obtain ⟨rfl,data,hdata⟩ := happ snap write (by simp)
    subst hd'
    refine ⟨hin.record hdata,?_⟩
    have hhanded : [Seen.recorded snap .full].filterMap Seen.handed? = [snap] := rfl
    rw [record_disk d.disk hin.opened hdata .full, Write.landed, hin.kept.decoded_append hdata,
      hlog, List.filterMap_append, hhanded, List.map_append, List.append_assoc]
    rfl

variable {cache : Cache} {history : HistoryStore κ} {acts : List Action} {path : String}
  {opened : Time} {existing : Option Bytes}

/-- The calls of the run: those of the batches in the file, those under way, and those that are
live. -/
structure Divided (tr : List (Seen κ)) (d : Daemon κ)
    (batches : List (List Call × IntervalRecord κ)) (underway live : List Call) : Prop where
  calls : tr.filterMap Seen.call? = batches.flatMap Prod.fst ++ underway ++ live
  logs : ∀ b ∈ batches, Logs b.1 b.2
  underway : d.reporter.pending.elim (underway = []) (Summarises underway)
  live : d.stats.conns = (newStats.replay live).conns

/-- Over every run from a file that ends in a newline, whose appends succeed: the file, read back,
is what it was and then one record for each batch that has been handed over, and the store tallies
it. Only the batch under way and the live calls are not in it. -/
theorem file_logs_batches (hend : EndsLine (existing.getD []))
    (hshort : ShortLines (existing.getD []))
    (hopen : newHistoryStore codec cfg.rfc3339 path existing (.ok ()) opened = .ok history)
    (hrun : (Daemon.start cache history (existing.getD [])).run codec cfg acts = some (d,tr))
    (happ : AppendsSucceed codec tr) :
    ∃ batches underway live, Divided tr d batches underway live ∧
      decoded codec d.disk = decoded codec (existing.getD []) ++ batches.map Prod.snd ∧
      Tallies (decoded codec d.disk) d.history := by
  have hstart : FileGrows codec (existing.getD []) []
      (Daemon.start cache history (existing.getD [])) := by
    intro _
    refine ⟨inStep_newHistoryStore existing (wellKept_of_endsLine hend hshort) hopen,?_⟩
    exact (List.append_nil _).symm
  have hgrows : FileGrows codec (existing.getD []) tr d :=
    run_invariant (fun tr s a t seen h hstep => h.effect (effect_of_step hstep)) hstart hrun
  obtain ⟨hin,hlog⟩ := hgrows happ
  obtain ⟨c,haccounts,hc⟩ := collects_of_run hrun
  obtain ⟨hcall,-,hhanded⟩ := filterMap_entry tr
  obtain ⟨hadded,-,hdelivered,hsums⟩ := haccounts
  rw [hcall, Collector.batches, List.flatMap_append] at hadded
  rw [hhanded] at hdelivered
  refine ⟨c.delivered.map fun b => (b.1,b.2.toRecord),c.pending.toList.flatMap Prod.fst,c.live,
    ⟨?_,?_,?_,hc.conns⟩,?_,hin.tallies⟩
  · rw [hadded, List.flatMap_map]
  · intro b hb
    obtain ⟨b₀,hb₀,rfl⟩ := List.mem_map.mp hb
    exact (hsums b₀ (List.mem_append_left _ hb₀)).logs
  · rw [hc.pending]
    cases hp : c.pending with
    | none => rfl
    | some b =>
      have hb : Summarises b.1 b.2 := hsums b (by simp [Collector.batches, hp])
      simpa using hb
  · rw [hlog, hdelivered, List.map_map, List.map_map]
    rfl

end File

section Demo

/-- One send is handled and reported, and the same send once more is handled. -/
def sendTwice : List Action := handleSend ++ reportSend ++ handleSend

lemma sendTwice_runs : ∃ d tr, demoStart.run demoCodec demoConfig sendTwice = some (d,tr) ∧
    AppendsSucceed demoCodec tr := by
  have hview : ((demoStart.run demoCodec demoConfig sendTwice).map fun r =>
      r.2.all fun x => match x with
        | .recorded snap write => write = .full ∧ snap.toRecord = morning.toRecord
        | _ => true) = some true := by
    decide +kernel
  obtain ⟨⟨d,tr⟩,hrun,hall⟩ := Option.map_eq_some_iff.mp hview
  refine ⟨d,tr,hrun,fun snap write hmem => ?_⟩
  have h := List.all_eq_true.mp hall _ hmem
  simp only [decide_eq_true_eq] at h
  exact ⟨h.1,_,h.2 ▸ demoCodec_morning⟩

theorem file_logs_batches_sendTwice : ∃ d tr,
    demoStart.run demoCodec demoConfig sendTwice = some (d,tr) ∧
    ∃ batches underway live, Divided tr d batches underway live ∧
      decoded demoCodec d.disk = decoded demoCodec [] ++ batches.map Prod.snd ∧
      Tallies (decoded demoCodec d.disk) d.history := by
  obtain ⟨d,tr,hrun,happ⟩ := sendTwice_runs
  have hopen : newHistoryStore demoCodec demoConfig.rfc3339 "h" none (.ok ()) 0 =
      .ok demoStart.history := rfl
  have hend : EndsLine ((none : Option Bytes).getD []) := .inl rfl
  exact ⟨d,tr,hrun,file_logs_batches hend (by decide) hopen hrun happ⟩

end Demo
end Tracewulf.Ebpf
