import Tracewulf.Base.Run
import Tracewulf.Ebpf.History
import Tracewulf.Ebpf.Reader
import Tracewulf.K8s.Informer

/-! The running daemon: the informers writing the cache, the event loop, the reporter, and the
goroutine that closes the ring buffer on shutdown. They share the cache, the aggregator and the
history store, each behind its own lock; every locked call is one step, and steps of the four
come in any order. -/
namespace Tracewulf.Ebpf
open Tracewulf.Base Tracewulf.K8s

/-- Where `ReadEvents` is: waiting for a record, at some lookup of one, or returned. -/
inductive EventLoop
  | waiting
  | handling (raw : Bytes) (rest : Lookups (Option (Time → Call)))
  | returned (err : Option String)

/-- Where the reporter goroutine is: at its `select`, between the three locked calls of a tick, or
gone through the stop branch. -/
inductive Reporter (κ : Type)
  | selecting
  | taken (snap : Snapshot κ)
  | published (snap : Snapshot κ)
  | returned

/-- The snapshot taken and not yet in the history. -/
def Reporter.pending {κ : Type} : Reporter κ → Option (Snapshot κ)
  | taken snap | published snap => some snap
  | selecting | returned => none

structure Daemon (κ : Type) where
  cache : Cache
  stats : Stats
  history : HistoryStore κ
  disk : Bytes
  loop : EventLoop
  reporter : Reporter κ
  stopClosed : Bool
  rdClosed : Bool

/-- What an observer is told: a record has been dealt with, a snapshot has been taken, a snapshot
has been handed to the history store and so much of its line has been written. -/
inductive Seen (κ : Type)
  | handled (raw : Bytes) (call : Option Call)
  | snapshot (snap : Snapshot κ)
  | recorded (snap : Snapshot κ) (write : Write)

inductive Action
  | informer (resource : Resource) (event : Event)
  | readRecord (raw : Bytes)
  | lookup
  | finish (now : Time)
  | readClosed
  | readError (err : String)
  | tick (now : Time) (keys : List String)
  /-- the outcome of `json.Marshal` on the snapshot -/
  | publish (data : Option Bytes)
  | record (write : Write)
  | reporterStop
  | closeStop
  | closeReader

/-- The daemon as `Start` leaves it once the history store is open. -/
def Daemon.start {κ : Type} (cache : Cache) (history : HistoryStore κ) (disk : Bytes) :
    Daemon κ where
  cache := cache
  stats := newStats
  history := history
  disk := disk
  loop := .waiting
  reporter := .selecting
  stopClosed := false
  rdClosed := false

section Step

variable {κ : Type} [CostNum κ] (codec : Codec κ) (cfg : Config κ)

/-- One step of one goroutine; `none` where it cannot be taken. -/
def Daemon.step (d : Daemon κ) : Action → Option (Daemon κ × List (Seen κ))
  | .informer resource event =>
    some ({ d with cache := resource.handlers.handle d.cache event },[])
  | .readRecord raw =>
    match d.loop with
    | .waiting =>
      if d.rdClosed then none else some ({ d with loop := .handling raw (handleRecord raw) },[])
    | _ => none
  | .lookup =>
    match d.loop with
    | .handling raw (.ask q resume) =>
      some ({ d with loop := .handling raw (resume (q.answer d.cache)) },[])
    | _ => none
  | .finish now =>
    match d.loop with
    | .handling raw (.done call) =>
      let call := call.map fun mk => mk now
      some ({ d with stats := call.elim d.stats (Call.apply d.stats), loop := .waiting },
        [.handled raw call])
    | _ => none
  | .readClosed =>
    match d.loop with
    | .waiting => if d.rdClosed then some ({ d with loop := .returned none },[]) else none
    | _ => none
  | .readError err =>
    match d.loop with
    | .waiting => some ({ d with loop := .returned (some ("read ringbuf: " ++ err)) },[])
    | _ => none
  -- `select` picks among the ready branches at random, so a tick may win over a closed stopCh
  | .tick now keys =>
    match d.reporter with
    | .selecting =>
      if SortedKeys d.stats.conns keys then
        let (snap,stats) := d.stats.snapshotAndReset cfg now keys
        some ({ d with stats := stats, reporter := .taken snap },[.snapshot snap])
      else none
    | _ => none
  | .publish data =>
    match d.reporter with
    | .taken snap =>
      let stats := match data with
        | none => d.stats
        | some data => { d.stats with lastJSON := some data }
      some ({ d with stats := stats, reporter := .published snap },[])
    | _ => none
  | .record write =>
    match d.reporter with
    | .published snap =>
      let (disk,history) := d.history.record codec snap write d.disk
      some ({ d with disk := disk, history := history, reporter := .selecting },
        [.recorded snap write])
    | _ => none
  | .reporterStop =>
    match d.reporter with
    | .selecting => if d.stopClosed then some ({ d with reporter := .returned },[]) else none
    | _ => none
  | .closeStop => if d.stopClosed then none else some ({ d with stopClosed := true },[])
  | .closeReader =>
    if d.stopClosed ∧ ¬ d.rdClosed then some ({ d with rdClosed := true },[]) else none

/-- A run of the daemon and what an observer is told on the way. -/
def Daemon.run (d : Daemon κ) (acts : List Action) : Option (Daemon κ × List (Seen κ)) :=
  Base.run (Daemon.step codec cfg) d acts

end Step

section Inversion

variable {κ : Type} [CostNum κ] {codec : Codec κ} {cfg : Config κ} {d d' : Daemon κ} {a : Action}
  {seen : List (Seen κ)}

/-- What each action requires of the state, what it makes of it and what an observer is told. -/
inductive Takes (codec : Codec κ) (cfg : Config κ) (d : Daemon κ) :
    Action → Daemon κ → List (Seen κ) → Prop
  | informer (resource : Resource) (event : Event) : Takes codec cfg d (.informer resource event)
      { d with cache := resource.handlers.handle d.cache event } []
  | readRecord (raw : Bytes) (hloop : d.loop = .waiting) (hopen : ¬ d.rdClosed) :
      Takes codec cfg d (.readRecord raw) { d with loop := .handling raw (handleRecord raw) } []
  | lookup (raw : Bytes) (q : CacheQuery) (resume : q.Answer → Lookups (Option (Time → Call)))
      (hloop : d.loop = .handling raw (.ask q resume)) :
      Takes codec cfg d .lookup { d with loop := .handling raw (resume (q.answer d.cache)) } []
  | finish (raw : Bytes) (call : Option (Time → Call)) (now : Time)
      (hloop : d.loop = .handling raw (.done call)) :
      Takes codec cfg d (.finish now) { d with
        stats := (call.map fun mk => mk now).elim d.stats (Call.apply d.stats)
        loop := .waiting } [.handled raw (call.map fun mk => mk now)]
  | readClosed (hloop : d.loop = .waiting) (hclosed : d.rdClosed) :
      Takes codec cfg d .readClosed { d with loop := .returned none } []
  | readError (err : String) (hloop : d.loop = .waiting) :
      Takes codec cfg d (.readError err)
        { d with loop := .returned (some ("read ringbuf: " ++ err)) } []
  | tick (now : Time) (keys : List String) (hselect : d.reporter = .selecting)
      (hkeys : SortedKeys d.stats.conns keys) :
      Takes codec cfg d (.tick now keys) { d with
        stats := (d.stats.snapshotAndReset cfg now keys).2
        reporter := .taken (d.stats.snapshotAndReset cfg now keys).1 }
        [.snapshot (d.stats.snapshotAndReset cfg now keys).1]
  | publish (data : Option Bytes) (snap : Snapshot κ) (htaken : d.reporter = .taken snap) :
      Takes codec cfg d (.publish data) { d with
        stats := { d.stats with lastJSON := data.or d.stats.lastJSON }
        reporter := .published snap } []
  | record (snap : Snapshot κ) (write : Write) (hpub : d.reporter = .published snap) :
      Takes codec cfg d (.record write) { d with
        disk := (d.history.record codec snap write d.disk).1
        history := (d.history.record codec snap write d.disk).2
        reporter := .selecting } [.recorded snap write]
  | reporterStop (hselect : d.reporter = .selecting) (hstop : d.stopClosed) :
      Takes codec cfg d .reporterStop { d with reporter := .returned } []
  | closeStop (hopen : ¬ d.stopClosed) :
      Takes codec cfg d .closeStop { d with stopClosed := true } []
  | closeReader (hstop : d.stopClosed ∧ ¬ d.rdClosed) :
      Takes codec cfg d .closeReader { d with rdClosed := true } []

/-- A step is taken in one of these ways, and no other. -/
theorem takes_of_step (h : d.step codec cfg a = some (d',seen)) : Takes codec cfg d a d' seen := by
  cases a <;> simp only [Daemon.step] at h
  case informer resource event =>
    cases h
    exact .informer resource event
  case readRecord raw =>
    split at h
    · rename_i hloop
      split_ifs at h with hopen
      cases h
      exact .readRecord raw hloop hopen
    · cases h
  case lookup =>
    split at h
    · rename_i raw q resume hloop
      cases h
      exact .lookup raw q resume hloop
    · cases h
  case finish now =>
    split at h
    · rename_i raw call hloop
      cases h
      exact .finish raw call now hloop
    · cases h
  case readClosed =>
    split at h
    · rename_i hloop
      split_ifs at h with hclosed
      cases h
      exact .readClosed hloop hclosed
    · cases h
  case readError err =>
    split at h
    · rename_i hloop
      cases h
      exact .readError err hloop
    · cases h
  case tick now keys =>
    split at h
    · rename_i hselect
      split_ifs at h with hkeys
      cases h
      exact .tick now keys hselect hkeys
    · cases h
  case publish data =>
    split at h
    · rename_i snap htaken
      cases h
      cases data with
      | none => exact .publish none snap htaken
      | some data => exact .publish (some data) snap htaken
    · cases h
  case record write =>
    split at h
    · rename_i snap hpub
      cases h
      exact .record snap write hpub
    · cases h
  case reporterStop =>
    split at h
    · rename_i hselect
      split_ifs at h with hstop
      cases h
      exact .reporterStop hselect hstop
    · cases h
  case closeStop =>
    split_ifs at h with hopen
    cases h
    exact .closeStop hopen
  case closeReader =>
    split_ifs at h with hstop
    cases h
    exact .closeReader hstop

/-- How the event loop moves between two calls on the aggregator. -/
inductive Advances : EventLoop → EventLoop → Prop
  | same (l : EventLoop) : Advances l l
  | start (raw : Bytes) : Advances .waiting (.handling raw (handleRecord raw))
  | answer (raw : Bytes) (q : CacheQuery) (resume : q.Answer → Lookups (Option (Time → Call)))
      (x : q.Answer) : Advances (.handling raw (.ask q resume)) (.handling raw (resume x))
  | leave (err : Option String) : Advances .waiting (.returned err)

/-- What the books hold: the live map, the count of commands, the snapshot on its way, and the
history. -/
structure SameBooks (d d' : Daemon κ) : Prop where
  conns : d'.stats.conns = d.stats.conns
  execCnt : d'.stats.execCnt = d.stats.execCnt
  pending : d'.reporter.pending = d.reporter.pending
  history : d'.history = d.history
  disk : d'.disk = d.disk

/-- What a step may do to the books: nothing, record one call, take a snapshot, or add the
snapshot to the history. -/
inductive Effect (codec : Codec κ) (cfg : Config κ) (d d' : Daemon κ) : List (Seen κ) → Prop
  | quiet (hsame : SameBooks d d') (hloop : Advances d.loop d'.loop) : Effect codec cfg d d' []
  | finish (raw : Bytes) (call : Option (Time → Call)) (now : Time)
      (hloop : d.loop = .handling raw (.done call))
      (hd' : d' = { d with
        stats := (call.map fun mk => mk now).elim d.stats (Call.apply d.stats)
        loop := .waiting }) :
      Effect codec cfg d d' [.handled raw (call.map fun mk => mk now)]
  | tick (now : Time) (keys : List String) (hselect : d.reporter = .selecting)
      (hkeys : SortedKeys d.stats.conns keys)
      (hd' : d' = { d with
        stats := (d.stats.snapshotAndReset cfg now keys).2
        reporter := .taken (d.stats.snapshotAndReset cfg now keys).1 }) :
      Effect codec cfg d d' [.snapshot (d.stats.snapshotAndReset cfg now keys).1]
  | record (snap : Snapshot κ) (write : Write) (hpub : d.reporter = .published snap)
      (hd' : d' = { d with
        disk := (d.history.record codec snap write d.disk).1
        history := (d.history.record codec snap write d.disk).2
        reporter := .selecting }) :
      Effect codec cfg d d' [.recorded snap write]

/-- Every step has one of the four effects. -/
theorem effect_of_step (h : d.step codec cfg a = some (d',seen)) : Effect codec cfg d d' seen := by
  cases takes_of_step h with
  | informer resource event => exact .quiet ⟨rfl,rfl,rfl,rfl,rfl⟩ (.same _)
  | readRecord raw hloop hopen => exact .quiet ⟨rfl,rfl,rfl,rfl,rfl⟩ (hloop ▸ .start raw)
  | lookup raw q resume hloop =>
    exact .quiet ⟨rfl,rfl,rfl,rfl,rfl⟩ (hloop ▸ .answer raw q resume _)
  | finish raw call now hloop => exact .finish raw call now hloop rfl
  | readClosed hloop hclosed => exact .quiet ⟨rfl,rfl,rfl,rfl,rfl⟩ (hloop ▸ .leave none)
  | readError err hloop => exact .quiet ⟨rfl,rfl,rfl,rfl,rfl⟩ (hloop ▸ .leave _)
  | tick now keys hselect hkeys => exact .tick now keys hselect hkeys rfl
  | publish data snap htaken => exact .quiet ⟨rfl,rfl,by rw [htaken]; rfl,rfl,rfl⟩ (.same _)
  | record snap write hpub => exact .record snap write hpub rfl
  | reporterStop hselect hstop => exact .quiet ⟨rfl,rfl,by rw [hselect]; rfl,rfl,rfl⟩ (.same _)
  | closeStop hopen => exact .quiet ⟨rfl,rfl,rfl,rfl,rfl⟩ (.same _)
  | closeReader hstop => exact .quiet ⟨rfl,rfl,rfl,rfl,rfl⟩ (.same _)

/-- What an action does to the cache: only the informers write it. -/
def Action.onCache (c : Cache) : Action → Cache
  | .informer resource event => resource.handlers.handle c event
  | _ => c

lemma cache_of_step (h : d.step codec cfg a = some (d',seen)) : d'.cache = a.onCache d.cache := by
  cases takes_of_step h <;> rfl

/-- What an action does to the record in hand: its lookups and its end move the event loop, the
other goroutines leave it where it is. -/
def Action.Moves (d d' : Daemon κ) (raw : Bytes) (rest : Lookups (Option (Time → Call))) :
    Action → Prop
  | .lookup => ∃ q resume, rest = .ask q resume ∧
      d'.loop = .handling raw (resume (q.answer d.cache))
  | .finish _ => ∃ call, rest = .done call ∧ d'.loop = .waiting
  | .readRecord _ | .readClosed | .readError _ => False
  | _ => d'.loop = .handling raw rest

lemma moves_of_step {raw : Bytes} {rest : Lookups (Option (Time → Call))}
    (hloop : d.loop = .handling raw rest) (h : d.step codec cfg a = some (d',seen)) :
    a.Moves d d' raw rest := by
  cases takes_of_step h with
  | lookup raw₀ q resume hask =>
    cases hloop.symm.trans hask
    exact ⟨q,resume,rfl,rfl⟩
  | finish raw₀ call now hdone =>
    cases hloop.symm.trans hdone
    exact ⟨call,rfl,rfl⟩
  | readRecord raw₀ hwait hopen => cases hloop.symm.trans hwait
  | readClosed hwait hclosed => cases hloop.symm.trans hwait
  | readError err hwait => cases hloop.symm.trans hwait
  | _ => exact hloop

/-- A record comes into hand at its first lookup. -/
lemma eq_handleRecord_of_step {raw : Bytes} {rest : Lookups (Option (Time → Call))}
    (hidle : ∀ raw rest, d.loop ≠ .handling raw rest) (h : d.step codec cfg a = some (d',seen))
    (hloop : d'.loop = .handling raw rest) : rest = handleRecord raw := by
  cases takes_of_step h with
  | readRecord raw₀ hwait hopen =>
    cases hloop
    rfl
  | lookup raw₀ q resume hask => exact absurd hask (hidle _ _)
  | finish raw₀ call now hdone => cases hloop
  | readClosed hwait hclosed => cases hloop
  | readError err hwait => cases hloop
  | _ => exact absurd hloop (hidle _ _)

/-- What an observer is told of an action. -/
def Action.Shows (cfg : Config κ) (d : Daemon κ) : Action → List (Seen κ) → Prop
  | .finish now, seen => ∃ raw call, d.loop = .handling raw (.done call) ∧
      seen = [.handled raw (call.map fun mk => mk now)]
  | .tick now keys, seen => SortedKeys d.stats.conns keys ∧
      seen = [.snapshot (d.stats.snapshotAndReset cfg now keys).1]
  | .record write, seen => ∃ snap, seen = [.recorded snap write]
  | _, seen => seen = []

lemma shows_of_step (h : d.step codec cfg a = some (d',seen)) : a.Shows cfg d seen := by
  cases takes_of_step h with
  | finish raw call now hloop => exact ⟨raw,call,hloop,rfl⟩
  | tick now keys hselect hkeys => exact ⟨hkeys,rfl⟩
  | record snap write hpub => exact ⟨snap,rfl⟩
  | _ => exact rfl

/-- The reporter at its `select` can always take a tick: some order of the keys is sorted. -/
theorem exists_tick (h : d.reporter = .selecting) (now : Time) :
    ∃ keys, (d.step codec cfg (.tick now keys)).isSome := by
  obtain ⟨keys,hkeys⟩ := exists_sortedKeys d.stats.conns
  exact ⟨keys,by simp [Daemon.step, h, hkeys]⟩

/-- A record in hand never gets stuck: there is a lookup to make or a call to finish with. -/
theorem handling_progresses {raw : Bytes} {rest : Lookups (Option (Time → Call))}
    (h : d.loop = .handling raw rest) (now : Time) :
    (d.step codec cfg .lookup).isSome ∨ (d.step codec cfg (.finish now)).isSome := by
  cases rest with
  | done call => right; simp [Daemon.step, h]
  | ask q resume => left; simp [Daemon.step, h]

end Inversion
end Tracewulf.Ebpf
