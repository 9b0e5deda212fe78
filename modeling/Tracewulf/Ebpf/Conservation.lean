import Tracewulf.Ebpf.AppendLog
import Tracewulf.Ebpf.Daemon

/-! Conservation along the pipeline. What the event loop has counted is at every moment in exactly
one of three places: the live map, the snapshot on its way, or the history. -/
namespace Tracewulf.Ebpf
open Tracewulf.Base Tracewulf.K8s KeyedFold

/-! The books of the aggregator: what one call adds, and what a snapshot carries away. -/

lemma weight_bytes_apply (s : Stats) (c : Call) :
    FiniteMap.weight ConnStat.bytes (c.apply s).conns =
      FiniteMap.weight ConnStat.bytes s.conns + c.sent := by
  rw [Call.conns_apply, weight_upsert Call.key Call.touch ConnStat.bytes Call.sent s.conns c
    fun o => Call.bytes_touch o c]
  cases c <;> rfl

lemma weight_count_apply (s : Stats) (c : Call) :
    FiniteMap.weight ConnStat.count (c.apply s).conns =
      FiniteMap.weight ConnStat.count s.conns + if c.isTCP then 1 else 0 := by
  rw [Call.conns_apply, weight_upsert Call.key Call.touch ConnStat.count
    (fun c => if c.isTCP then 1 else 0) s.conns c fun o => Call.count_touch o c]
  cases c <;> rfl

section Snapshot

variable {κ : Type} [CostNum κ] {cfg : Config κ} {now : Time} {keys : List String} {s : Stats}

/-- The connections of all the flows of a snapshot. -/
def Snapshot.connects (snap : Snapshot κ) : UInt64 := (snap.flows.map FlowSummary.count).sum

lemma totalBytes_snapshot (h : SortedKeys s.conns keys) :
    (s.snapshotAndReset cfg now keys).1.totalBytes = FiniteMap.weight ConnStat.bytes s.conns := by
  rw [snapshotAndReset_fst h]

lemma connects_snapshot (h : SortedKeys s.conns keys) :
    (s.snapshotAndReset cfg now keys).1.connects = FiniteMap.weight ConnStat.count s.conns := by
  rw [snapshotAndReset_fst h, Snapshot.connects, List.map_map,
    ← FiniteMap.sum_of_keys ConnStat.count s.conns h.nodup h.mem_iff]
  exact congrArg List.sum (List.map_congr_left fun k _ => statAt_count s.conns k)

end Snapshot

section Books

variable {κ : Type}

namespace Seen

/-- The bytes of the SEND record dealt with, if it is one. -/
def sent : Seen κ → UInt64
  | handled raw _ => sendBytes raw
  | snapshot _ | recorded _ _ => 0

def isExec : Seen κ → Bool
  | handled raw _ => OfType eventExec raw
  | snapshot _ | recorded _ _ => false

def isConnect : Seen κ → Bool
  | handled raw _ => OfType eventConnect raw
  | snapshot _ | recorded _ _ => false

/-- The commands and the connections a snapshot carries away. -/
def execs : Seen κ → UInt64
  | snapshot snap => snap.execEvents
  | handled _ _ | recorded _ _ => 0

def connects : Seen κ → UInt64
  | snapshot snap => snap.connects
  | handled _ _ | recorded _ _ => 0

end Seen

lemma sum_map_append {α : Type} (f : α → UInt64) (xs : List α) (x : α) :
    ((xs ++ [x]).map f).sum = (xs.map f).sum + f x := by
  simp

/-- The books balance: everything dealt with is live, on its way, or in the history that held
`opening` bytes when the session began. All sums are modulo `2^64`. -/
structure Balanced (opening : UInt64) (seen : List (Seen κ)) (d : Daemon κ) : Prop where
  bytes : (seen.map Seen.sent).sum = FiniteMap.weight ConnStat.bytes d.stats.conns +
    d.reporter.pending.elim 0 Snapshot.totalBytes + (d.history.cumBytes - opening)
  execs : UInt64.ofNat (seen.countP Seen.isExec) = d.stats.execCnt + (seen.map Seen.execs).sum
  connects : UInt64.ofNat (seen.countP Seen.isConnect) =
    FiniteMap.weight ConnStat.count d.stats.conns + (seen.map Seen.connects).sum

/-- A record in hand is on its way to being counted as what it is. -/
def InHand (l : EventLoop) : Prop :=
  ∀ raw rest, l = .handling raw rest → rest.Ends (Performs raw)

lemma InHand.advances {l l' : EventLoop} (h : InHand l) (ha : Advances l l') : InHand l' := by
  cases ha with
  | same => exact h
  | start raw =>
    rintro raw' rest ⟨⟩
    exact handleRecord_performs raw
  | answer raw q resume x =>
    rintro raw' rest ⟨⟩
    exact h raw _ rfl x
  | leave err => rintro raw' rest ⟨⟩

lemma Balanced.quiet {opening : UInt64} {tr : List (Seen κ)} {d d' : Daemon κ}
    (h : Balanced opening tr d) (hs : SameBooks d d') : Balanced opening tr d' where
  bytes := by rw [h.bytes, hs.conns, hs.pending, hs.history]
  execs := by rw [h.execs, hs.execCnt]
  connects := by rw [h.connects, hs.conns]

/-- A record dealt with enters the live map as what it is. -/
lemma Balanced.finish {opening : UInt64} {tr : List (Seen κ)} {d : Daemon κ}
    (h : Balanced opening tr d) {raw : Bytes} {call : Option (Time → Call)}
    (hp : Performs raw call) (now : Time) :
    Balanced opening (tr ++ [.handled raw (call.map fun mk => mk now)])
      { d with stats := (call.map fun mk => mk now).elim d.stats (Call.apply d.stats)
               loop := .waiting } := by
  have hsent := hp.sent now
  have hexec := hp.isExec now
  have htcp := hp.isTCP now
  constructor
  case bytes =>
    rw [sum_map_append, h.bytes, Seen.sent, ← hsent]
    cases call with
    | none => simp
    | some mk =>
      simp only [Option.map_some, Option.elim_some, weight_bytes_apply]
      abel
  case execs =>
    rw [ofNat_countP_append, h.execs, sum_map_append, Seen.isExec, Seen.execs, ← hexec, add_zero]
    cases call with
    | none => simp
    | some mk =>
      simp only [Option.map_some, Option.elim_some, Call.execCnt_apply]
      abel
  case connects =>
    rw [ofNat_countP_append, h.connects, sum_map_append, Seen.isConnect, Seen.connects, ← htcp,
      add_zero]
    cases call with
    | none => simp
    | some mk =>
      simp only [Option.map_some, Option.elim_some, weight_count_apply]
      abel

end Books

section Run

variable {κ : Type} [CostNum κ] {codec : Codec κ} {cfg : Config κ} {opening : UInt64}
  {tr out : List (Seen κ)} {d d' : Daemon κ}

/-- A snapshot takes everything off the live map. -/
lemma Balanced.tick (h : Balanced opening tr d) (hselect : d.reporter = .selecting) {now : Time}
    {keys : List String} (hkeys : SortedKeys d.stats.conns keys) :
    Balanced opening (tr ++ [.snapshot (d.stats.snapshotAndReset cfg now keys).1])
      { d with stats := (d.stats.snapshotAndReset cfg now keys).2
               reporter := .taken (d.stats.snapshotAndReset cfg now keys).1 } := by
  have hexecs : (d.stats.snapshotAndReset cfg now keys).1.execEvents = d.stats.execCnt := rfl
  constructor
  case bytes =>
    rw [sum_map_append, h.bytes, Seen.sent, snapshotAndReset_snd, hselect]
    simp [Reporter.pending, totalBytes_snapshot hkeys, newStats]
  case execs =>
    rw [ofNat_countP_append, h.execs, sum_map_append, Seen.isExec, Seen.execs, hexecs,
      snapshotAndReset_snd]
    simp only [newStats, Bool.false_eq_true, if_false]
    abel
  case connects =>
    rw [ofNat_countP_append, h.connects, sum_map_append, Seen.isConnect, Seen.connects,
      connects_snapshot hkeys, snapshotAndReset_snd]
    simp only [newStats, FiniteMap.weight_empty, Bool.false_eq_true, if_false]
    abel

/-- The history takes the snapshot in. -/
lemma Balanced.record (h : Balanced opening tr d) {snap : Snapshot κ}
    (hpub : d.reporter = .published snap) (write : Write) :
    Balanced opening (tr ++ [.recorded snap write])
      { d with disk := (d.history.record codec snap write d.disk).1
               history := (d.history.record codec snap write d.disk).2
               reporter := .selecting } := by
  constructor
  case bytes =>
    rw [sum_map_append, h.bytes, Seen.sent, hpub]
    simp only [Reporter.pending, Option.elim_some, Option.elim_none, HistoryStore.record,
      Snapshot.toRecord]
    abel
  case execs =>
    rw [ofNat_countP_append, h.execs, sum_map_append, Seen.isExec, Seen.execs]
    simp
  case connects =>
    rw [ofNat_countP_append, h.connects, sum_map_append, Seen.isConnect, Seen.connects]
    simp

/-- What the run keeps: the books balance, and the record in hand will be counted right. -/
structure Sound (opening : UInt64) (tr : List (Seen κ)) (d : Daemon κ) : Prop where
  balanced : Balanced opening tr d
  inHand : InHand d.loop

lemma Sound.effect (h : Sound opening tr d) (he : Effect codec cfg d d' out) :
    Sound opening (tr ++ out) d' := by
  obtain ⟨hb,hl⟩ := h
  cases he with
  | quiet hsame hloop =>
    rw [List.append_nil]
    exact ⟨hb.quiet hsame,hl.advances hloop⟩
  | finish raw call now hloop hd' =>
    subst hd'
    exact ⟨hb.finish (hl raw _ hloop) now,by rintro raw' rest ⟨⟩⟩
  | tick now keys hselect hkeys hd' =>
    subst hd'
    exact ⟨hb.tick hselect hkeys,hl⟩
  | record snap write hpub hd' =>
    subst hd'
    exact ⟨hb.record hpub write,hl⟩

/-- A record that is passed over leaves the books as they are. -/
lemma sameBooks_of_passedOver (hl : InHand d.loop) (he : Effect codec cfg d d' out)
    (hout : ∀ x ∈ out, ∃ raw call, x = Seen.handled raw call ∧ PassedOver raw) :
    SameBooks d d' := by
  cases he with
  | quiet hsame hloop => exact hsame
  | finish raw call now hloop hd' =>
    obtain ⟨raw',call',heq,hpass⟩ := hout _ List.mem_cons_self
    cases heq
    have hnone : call = none := (hl raw _ hloop).passed hpass
    subst hd'
    rw [hnone]
    exact ⟨rfl,rfl,rfl,rfl,rfl⟩
  | tick now keys hselect hkeys hd' =>
    obtain ⟨raw',call',heq,-⟩ := hout _ List.mem_cons_self
    cases heq
  | record snap write hpub hd' =>
    obtain ⟨raw',call',heq,-⟩ := hout _ List.mem_cons_self
    cases heq

variable {cache : Cache} {history : HistoryStore κ} {disk : Bytes} {acts : List Action}

lemma sound_of_run (hrun : (Daemon.start cache history disk).run codec cfg acts = some (d,tr)) :
    Sound history.cumBytes tr d := by
  have h0 : Sound history.cumBytes [] (Daemon.start cache history disk) := by
    refine ⟨⟨?_,?_,?_⟩,by rintro raw rest ⟨⟩⟩ <;>
      simp [Daemon.start, newStats, Reporter.pending]
  exact run_invariant (fun tr s a t seen hs hstep => hs.effect (effect_of_step hstep)) h0 hrun

/-- Over every run of the daemon, wherever it stops: the books balance, and neither a step that
deals with no record nor one that deals with a record to be passed over changes them. -/
theorem pipeline_conserves
    (hrun : (Daemon.start cache history disk).run codec cfg acts = some (d,tr)) :
    Balanced history.cumBytes tr d ∧ ∀ a d' out, d.step codec cfg a = some (d',out) →
      (∀ x ∈ out, ∃ raw call, x = Seen.handled raw call ∧ PassedOver raw) → SameBooks d d' := by
  have hs := sound_of_run hrun
  refine ⟨hs.balanced,fun a d' out hstep hout => ?_⟩
  exact sameBooks_of_passedOver hs.inHand (effect_of_step hstep) hout

end Run

section Demo

/-- A SEND record of a hundred bytes from 10.0.0.1 to port 443 of 10.0.0.2. -/
def sendRecord : Bytes :=
  List.replicate 20 0 ++ [10,0,0,1,10,0,0,2,0,0,1,187,100,0,0,0,0,0,0,0,2] ++ List.replicate 7 0

def demoConfig : Config Rat := ⟨1/100,fun _ => "2024-05-01T10:00:10Z"⟩

/-- The daemon that found no history file, before any informer has delivered. -/
def demoStart : Daemon Rat := .start newCache ⟨some "h",[],0,0,0,"2024-05-01T10:00:10Z"⟩ []

/-- The record is handled: two lookups for each name, one for each zone, and the call. -/
def handleSend : List Action :=
  [.readRecord sendRecord,.lookup,.lookup,.lookup,.lookup,.lookup,.lookup,.finish 1]

/-- One tick of the reporter with that one flow live. -/
def reportSend : List Action :=
  [.tick 2 ["10.0.0.1 -> 10.0.0.2:443"],.publish none,.record .full]

theorem pipeline_conserves_oneSend : ∃ d tr,
    demoStart.run demoCodec demoConfig (handleSend ++ reportSend) = some (d,tr) ∧
    Balanced 0 tr d ∧ ∀ a d' out, d.step demoCodec demoConfig a = some (d',out) →
      (∀ x ∈ out, ∃ raw call, x = Seen.handled raw call ∧ PassedOver raw) → SameBooks d d' := by
  have hsome : (demoStart.run demoCodec demoConfig (handleSend ++ reportSend)).isSome := by
    decide +kernel
  obtain ⟨⟨d,tr⟩,hrun⟩ := Option.isSome_iff_exists.mp hsome
  exact ⟨d,tr,hrun,pipeline_conserves hrun⟩

end Demo
end Tracewulf.Ebpf
