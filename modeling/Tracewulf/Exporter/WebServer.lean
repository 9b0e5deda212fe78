import Tracewulf.Ebpf.AppendLog
import Tracewulf.Ebpf.Batches

/-! The pages of the web server. A handler takes the lock of the aggregator or that of the history
store, so a request falls between any two steps of the daemon. The snapshot page shows the last
snapshot that could be marshalled; the history page counts what is on the log, which lags behind
the published snapshots by one at most. -/
namespace Tracewulf.Ebpf
open Tracewulf.Base

section Json

variable {κ : Type}

structure HistorySummary (κ : Type) where
  since : String
  cumulativeBytes : UInt64
  cumulativeCrossAZ : UInt64
  cumulativeCostUSD : κ
  intervals : List (IntervalRecord κ)

/-- `json.Marshal` at the two values the pages are made of; either may fail. -/
structure PageCodec (κ : Type) where
  snapshot : Snapshot κ → Option Bytes
  summary : HistorySummary κ → Option Bytes

/-- What is served as long as there is no snapshot. -/
def noSnapshot : Bytes :=
  ascii "\x7b\"timestamp\":\"\",\"exec_events\":0,\"unique_flows\":0,\"total_bytes\":0," ++
    ascii "\"cross_az_bytes\":0,\"total_cost_usd\":0,\"cost_per_gb_usd\":0,\"flows\":[]\x7d"

def Stats.latestJSON (s : Stats) : Bytes := s.lastJSON.getD noSnapshot

/-- What is served where the history cannot be marshalled. -/
def historyError : Bytes := ascii "\x7b\"error\":\"failed to marshal history\"\x7d"

def HistoryStore.summary (h : HistoryStore κ) : HistorySummary κ where
  since := h.since
  cumulativeBytes := h.cumBytes
  cumulativeCrossAZ := h.cumCrossAZ
  cumulativeCostUSD := h.cumCost
  intervals := h.ring

def HistoryStore.historyJSON (pages : PageCodec κ) (h : HistoryStore κ) : Bytes :=
  (pages.summary h.summary).getD historyError

variable [CostNum κ] {log : List (IntervalRecord κ)} {h : HistoryStore κ}

/-- What a summary says of a log of records. -/
structure SumsUp (since : String) (log : List (IntervalRecord κ)) (s : HistorySummary κ) :
    Prop where
  since : s.since = since
  cumulativeBytes : s.cumulativeBytes = (log.map IntervalRecord.totalBytes).sum
  cumulativeCrossAZ : s.cumulativeCrossAZ = (log.map IntervalRecord.crossAZBytes).sum
  cumulativeCostUSD : s.cumulativeCostUSD = log.foldl (fun c r => c + r.totalCostUSD) 0
  intervals : s.intervals = Window.recent historyRingCap log

lemma Tallies.sumsUp (ht : Tallies log h) : SumsUp h.since log h.summary :=
  ⟨rfl,ht.cumBytes,ht.cumCrossAZ,ht.cumCost,ht.ring⟩

end Json

/-- The snapshot taken and not yet on the snapshot page. -/
def Reporter.unpublished {κ : Type} : Reporter κ → Option (Snapshot κ)
  | taken snap => some snap
  | published _ | selecting | returned => none

/-- The snapshot on the snapshot page and not yet in the history. -/
def Reporter.unrecorded {κ : Type} : Reporter κ → Option (Snapshot κ)
  | published snap => some snap
  | taken _ | selecting | returned => none

end Tracewulf.Ebpf

namespace Tracewulf.Exporter
open Tracewulf.Base Tracewulf.Ebpf Tracewulf.K8s

/-- The requests that read something; any other path gets the dashboard, which is a constant. -/
inductive Request
  | snapshot
  | history
  deriving DecidableEq

/-- The daemon takes a step of its own, other than publishing; the reporter publishes what
`json.Marshal` makes of the snapshot; a handler answers a request. -/
inductive Turn
  | daemon (a : Action)
  | publish
  | handle (r : Request)

inductive Shown (κ : Type)
  | daemon (x : Seen κ)
  | published (snap : Snapshot κ)
  | response (r : Request) (body : Bytes)

namespace Shown

variable {κ : Type}

def daemon? : Shown κ → Option (Seen κ)
  | daemon x => some x
  | published _ | response _ _ => none

def published? : Shown κ → Option (Snapshot κ)
  | published snap => some snap
  | daemon _ | response _ _ => none

end Shown

def isPublish : Action → Bool
  | .publish _ => true
  | _ => false

section Step

variable {κ : Type} (pages : PageCodec κ)

/-- The handlers of `Start`. -/
def handler (d : Daemon κ) : Request → Bytes
  | .snapshot => d.stats.latestJSON
  | .history => d.history.historyJSON pages

variable [CostNum κ] (codec : Codec κ) (cfg : Config κ)

def step (d : Daemon κ) : Turn → Option (Daemon κ × List (Shown κ))
  | .daemon a =>
    if isPublish a then none
    else (d.step codec cfg a).map fun r => (r.1,r.2.map .daemon)
  | .publish =>
    match d.reporter with
    | .taken snap =>
      (d.step codec cfg (.publish (pages.snapshot snap))).map fun r => (r.1,[.published snap])
    | _ => none
  | .handle r => some (d,[.response r (handler pages d r)])

end Step

section Inversion

variable {κ : Type} [CostNum κ] {pages : PageCodec κ} {codec : Codec κ} {cfg : Config κ}
  {d d' : Daemon κ} {t : Turn} {out : List (Shown κ)}

/-- How a step is taken, and what it shows. -/
inductive Serves (pages : PageCodec κ) (codec : Codec κ) (cfg : Config κ) (d : Daemon κ) :
    Turn → Daemon κ → List (Shown κ) → Prop
  | daemon (a : Action) (d' : Daemon κ) (seen : List (Seen κ)) (hown : isPublish a = false)
      (hstep : d.step codec cfg a = some (d',seen)) :
      Serves pages codec cfg d (.daemon a) d' (seen.map .daemon)
  | publish (snap : Snapshot κ) (htaken : d.reporter = .taken snap) :
      Serves pages codec cfg d .publish { d with
        stats := { d.stats with lastJSON := (pages.snapshot snap).or d.stats.lastJSON }
        reporter := .published snap } [.published snap]
  | handle (r : Request) :
      Serves pages codec cfg d (.handle r) d [.response r (handler pages d r)]

theorem serves_of_step (h : step pages codec cfg d t = some (d',out)) :
    Serves pages codec cfg d t d' out := by
  cases t with
  | daemon a =>
    simp only [step] at h
    split_ifs at h with hown
    obtain ⟨⟨d₁,seen⟩,hstep,heq⟩ := Option.map_eq_some_iff.mp h
    cases heq
    exact .daemon a d₁ seen (by simpa using hown) hstep
  | publish =>
    simp only [step] at h
    split at h
    · rename_i snap htaken
      obtain ⟨⟨d₁,seen⟩,hstep,heq⟩ := Option.map_eq_some_iff.mp h
      cases heq
      cases takes_of_step hstep with
      | publish data snap₁ htaken₁ =>
        cases htaken.symm.trans htaken₁
        exact .publish snap htaken
    · cases h
  | handle r =>
    cases h
    exact .handle r

/-- Without the requests, the server is the daemon. -/
theorem server_simulates_daemon :
    Simulates (step pages codec cfg) (Daemon.step codec cfg) Eq Shown.daemon? := by
  rintro d _ t d' out rfl hstep
  cases t with
  | daemon a =>
    cases serves_of_step hstep with
    | daemon _ _ seen hown hown' =>
      refine ⟨[a],d',?_,rfl⟩
      rw [List.filterMap_map]
      have hall : seen.filterMap (Shown.daemon? ∘ Shown.daemon) = seen := List.filterMap_some
      rw [hall]
      exact run_singleton hown'
  | publish =>
    cases serves_of_step hstep with
    | publish snap htaken =>
      have hpublish : d.step codec cfg (.publish (pages.snapshot snap)) = some ({ d with
          stats := { d.stats with lastJSON := (pages.snapshot snap).or d.stats.lastJSON }
          reporter := .published snap },[]) := by
        simp only [Daemon.step, htaken]
        cases pages.snapshot snap <;> rfl
      exact ⟨[_],_,run_singleton hpublish,rfl⟩
  | handle r =>
    cases hstep
    exact ⟨[],d,rfl,rfl⟩

end Inversion

section Pages

variable {κ : Type} {pages : PageCodec κ} {history : HistoryStore κ}
  {tr out : List (Shown κ)} {d d' : Daemon κ}

/-- The snapshots published, in order. -/
def published (tr : List (Shown κ)) : List (Snapshot κ) := tr.filterMap Shown.published?

/-- What the daemon shows. -/
def ofDaemon (tr : List (Shown κ)) : List (Seen κ) := tr.filterMap Shown.daemon?

lemma ofDaemon_append (tr : List (Shown κ)) (seen : List (Seen κ)) :
    ofDaemon (tr ++ seen.map .daemon) = ofDaemon tr ++ seen := by
  have hall : (seen.map Shown.daemon).filterMap Shown.daemon? = seen := by
    rw [List.filterMap_map]
    exact List.filterMap_some
  rw [ofDaemon, List.filterMap_append, hall, ofDaemon]

lemma published_append (tr : List (Shown κ)) (seen : List (Seen κ)) :
    published (tr ++ seen.map .daemon) = published tr := by
  have hnone : (seen.map Shown.daemon).filterMap Shown.published? = [] := by
    rw [List.filterMap_map]
    exact List.filterMap_eq_nil_iff.mpr fun _ _ => rfl
  rw [published, List.filterMap_append, hnone, List.append_nil, published]

variable [CostNum κ]

/-- What the pages hold: the JSON of the last snapshot that was published and could be marshalled,
and the log the store held at the start with the snapshots handed to it. Snapshots are published
in the order they are taken and handed over in the order they are published. -/
structure Pages (pages : PageCodec κ) (history : HistoryStore κ) (tr : List (Shown κ))
    (d : Daemon κ) : Prop where
  latest : d.stats.lastJSON = ((published tr).filterMap pages.snapshot).getLast?
  taken : (ofDaemon tr).filterMap Seen.taken? = published tr ++ d.reporter.unpublished.toList
  handed : published tr =
    (ofDaemon tr).filterMap Seen.handed? ++ d.reporter.unrecorded.toList
  tallies : ∀ log, Tallies log history →
    Tallies (log ++ ((ofDaemon tr).filterMap Seen.handed?).map Snapshot.toRecord) d.history
  since : d.history.since = history.since

/-- The history and the JSON being served stay as they are, and so does the reporter as far as the
pages go. -/
lemma Pages.daemon_quiet (h : Pages pages history tr d) {seen : List (Seen κ)}
    (htaken : seen.filterMap Seen.taken? = []) (hhanded : seen.filterMap Seen.handed? = [])
    (hjson : d'.stats.lastJSON = d.stats.lastJSON) (hhistory : d'.history = d.history)
    (hreporter : d'.reporter.unpublished = d.reporter.unpublished ∧
      d'.reporter.unrecorded = d.reporter.unrecorded) :
    Pages pages history (tr ++ seen.map .daemon) d' := by
  obtain ⟨hlatest,htook,hhand,htallies,hsince⟩ := h
  constructor
  case latest => rw [published_append, hjson, hlatest]
  case taken =>
    rw [published_append, ofDaemon_append, List.filterMap_append, htaken, List.append_nil,
      hreporter.1, htook]
  case handed =>
    rw [published_append, ofDaemon_append, List.filterMap_append, hhanded, List.append_nil,
      hreporter.2, hhand]
  case tallies =>
    rw [ofDaemon_append, List.filterMap_append, hhanded, List.append_nil, hhistory]
    exact htallies
  case since => rw [hhistory, hsince]

lemma lastJSON_apply (c : Call) (s : Stats) : (c.apply s).lastJSON = s.lastJSON := by
  cases c <;> rfl

lemma Pages.tick {cfg : Config κ} (h : Pages pages history tr d)
    (hselect : d.reporter = .selecting) (now : Time) (keys : List String) :
    Pages pages history
      (tr ++ [Seen.snapshot (d.stats.snapshotAndReset cfg now keys).1].map .daemon)
      { d with
        stats := (d.stats.snapshotAndReset cfg now keys).2
        reporter := .taken (d.stats.snapshotAndReset cfg now keys).1 } := by
  obtain ⟨hlatest,htook,hhand,htallies,hsince⟩ := h
  rw [hselect] at htook hhand
  constructor
  case latest => rw [published_append, ← hlatest]; rfl
  case taken =>
    rw [published_append, ofDaemon_append, List.filterMap_append, htook]
    simp [Reporter.unpublished, Seen.taken?]
  case handed =>
    rw [published_append, ofDaemon_append, List.filterMap_append, hhand]
    simp [Reporter.unrecorded, Seen.handed?]
  case tallies =>
    have hnone : [Seen.snapshot (d.stats.snapshotAndReset cfg now keys).1].filterMap
        Seen.handed? = [] := rfl
    rw [ofDaemon_append, List.filterMap_append, hnone, List.append_nil]
    exact htallies
  case since => exact hsince

lemma Pages.record {codec : Codec κ} (h : Pages pages history tr d) {snap : Snapshot κ}
    (hpub : d.reporter = .published snap) (write : Write) :
    Pages pages history (tr ++ [Seen.recorded snap write].map .daemon)
      { d with
        disk := (d.history.record codec snap write d.disk).1
        history := (d.history.record codec snap write d.disk).2
        reporter := .selecting } := by
  obtain ⟨hlatest,htook,hhand,htallies,hsince⟩ := h
  rw [hpub] at htook hhand
  constructor
  case latest => rw [published_append, hlatest]
  case taken =>
    rw [published_append, ofDaemon_append, List.filterMap_append, htook]
    simp [Reporter.unpublished, Seen.taken?]
  case handed =>
    rw [published_append, ofDaemon_append, List.filterMap_append, hhand]
    simp [Reporter.unrecorded, Seen.handed?]
  case tallies =>
    intro log hlog
    rw [ofDaemon_append, List.filterMap_append, List.map_append, ← List.append_assoc]
    have hnext : Tallies _ (d.history.record codec snap write d.disk).2 :=
      (htallies log hlog).record snap write d.disk
    exact hnext
  case since => exact hsince

lemma Pages.publish (h : Pages pages history tr d) {snap : Snapshot κ}
    (htaken : d.reporter = .taken snap) :
    Pages pages history (tr ++ [.published snap])
      { d with
        stats := { d.stats with lastJSON := (pages.snapshot snap).or d.stats.lastJSON }
        reporter := .published snap } := by
  obtain ⟨hlatest,htook,hhand,htallies,hsince⟩ := h
  rw [htaken] at htook hhand
  have hpub : published (tr ++ [.published snap]) = published tr ++ [snap] := by
    simp [published, Shown.published?]
  have hown : ofDaemon (tr ++ [.published snap]) = ofDaemon tr := by
    simp [ofDaemon, Shown.daemon?]
  constructor
  case latest =>
    rw [hpub, List.filterMap_append]
    cases hdata : pages.snapshot snap with
    | none => simp [hdata, hlatest]
    | some data => simp [hdata]
  case taken =>
    rw [hpub, hown, htook]
    simp [Reporter.unpublished]
  case handed =>
    rw [hpub, hown, hhand]
    simp [Reporter.unrecorded]
  case tallies => rw [hown]; exact htallies
  case since => exact hsince

variable {codec : Codec κ} {cfg : Config κ} {t : Turn}

lemma Pages.step (h : Pages pages history tr d)
    (hstep : step pages codec cfg d t = some (d',out)) : Pages pages history (tr ++ out) d' := by
  cases serves_of_step hstep with
  | publish snap htaken => exact h.publish htaken
  | handle r =>
    have hpub : published (tr ++ [.response r (handler pages d r)]) = published tr := by
      simp [published, Shown.published?]
    have hown : ofDaemon (tr ++ [.response r (handler pages d r)]) = ofDaemon tr := by
      simp [ofDaemon, Shown.daemon?]
    exact ⟨hpub ▸ h.latest,hpub ▸ hown ▸ h.taken,hpub ▸ hown ▸ h.handed,hown ▸ h.tallies,h.since⟩
  | daemon a d₁ seen hown hstep' =>
    cases takes_of_step hstep' with
    | publish data snap htaken => cases hown
    | tick now keys hselect hkeys => exact h.tick hselect now keys
    | record snap write hpub => exact h.record hpub write
    | finish raw call now hloop =>
      refine h.daemon_quiet rfl rfl ?_ rfl ⟨rfl,rfl⟩
      cases call with
      | none => rfl
      | some mk => exact lastJSON_apply _ _
    | reporterStop hselect hstop =>
      exact h.daemon_quiet rfl rfl rfl rfl (by rw [hselect]; exact ⟨rfl,rfl⟩)
    | _ => exact h.daemon_quiet rfl rfl rfl rfl ⟨rfl,rfl⟩

end Pages

section Responses

variable {κ : Type} [CostNum κ] {pages : PageCodec κ} {codec : Codec κ} {cfg : Config κ}
  {cache : Cache} {history : HistoryStore κ} {disk : Bytes} {turns : List Turn} {d : Daemon κ}
  {tr pre mid post : List (Shown κ)} {body body₁ body₂ : Bytes}

lemma pages_of_run
    (hrun : run (step pages codec cfg) (Daemon.start cache history disk) turns = some (d,tr)) :
    Pages pages history tr d := by
  have hstart : Pages pages history [] (Daemon.start cache history disk) :=
    ⟨rfl,rfl,rfl,fun log hlog => (List.append_nil log).symm ▸ hlog,rfl⟩
  exact run_invariant (P := Pages pages history) (fun _ _ _ _ _ h hstep => h.step hstep) hstart
    hrun

/-- A response is what the handler reads where the steps before have led. -/
lemma handled_of_run {r : Request} {s : Daemon κ}
    (hrun : run (step pages codec cfg) s turns = some (d,pre ++ .response r body::post)) :
    ∃ before t, run (step pages codec cfg) s before = some (t,pre) ∧
      body = handler pages t r := by
  obtain ⟨before,turn,t,t',seen,one,after,hbefore,hstep,rfl⟩ := exists_step_of_run hrun
  generalize hout : one ++ Shown.response r body::after = out at hstep
  cases serves_of_step hstep with
  | daemon a _ shown hown hown' =>
    have hmem : Shown.response r body ∈ shown.map .daemon := by rw [← hout]; simp
    obtain ⟨x,-,hx⟩ := List.mem_map.mp hmem
    cases hx
  | publish snap htaken =>
    have hmem : Shown.response r body ∈ [Shown.published snap] := by rw [← hout]; simp
    cases List.mem_singleton.mp hmem
  | handle r₁ =>
    cases one with
    | nil =>
      cases hout
      exact ⟨before,t,by rwa [List.append_nil],rfl⟩
    | cons x one => simp at hout

/-- Over every run: a response to `/snapshot` is made of the last published snapshot that could be
marshalled. The snapshots published are the summaries of the batches of calls, one by one; of what
has been counted before the response, only the open batch and at most one that is closed and not
yet published cannot be on the page. -/
theorem snapshot_response
    (hrun : run (step pages codec cfg) (Daemon.start cache history disk) turns =
      some (d,pre ++ .response .snapshot body::post)) :
    ∃ (batches closed : List (List Call × Snapshot κ)) (live : List Call),
      (ofDaemon pre).filterMap Seen.call? = (batches ++ closed).flatMap Prod.fst ++ live ∧
      (∀ b ∈ batches ++ closed, Summarises b.1 b.2) ∧ closed.length ≤ 1 ∧
      published pre = batches.map Prod.snd ∧
      body = ((batches.map Prod.snd).filterMap pages.snapshot).getLast?.getD noSnapshot := by
  obtain ⟨before,t,hbefore,rfl⟩ := handled_of_run hrun
  obtain ⟨acts,t',hacts,rfl⟩ := server_simulates_daemon.run rfl hbefore
  obtain ⟨all,live,hcalls,hsums,htaken,-⟩ := snapshots_batch_calls hacts
  have hpages := pages_of_run hbefore
  obtain ⟨batches,closed,rfl,hpub,hclosed⟩ :=
    List.map_eq_append_iff.mp (htaken.symm.trans hpages.taken)
  refine ⟨batches,closed,live,hcalls,hsums,?_,hpub.symm,?_⟩
  · have hlen : closed.length = t.reporter.unpublished.toList.length := by
      rw [← hclosed, List.length_map]
    rw [hlen]
    cases t.reporter.unpublished <;> simp
  · rw [handler, Stats.latestJSON, hpages.latest, hpub]

/-- Over every run: a response to `/history` reports the log the store was opened on and then the
snapshots published, in order, all but at most the last. -/
theorem history_response {rfc3339 : Time → String} {path : String} {existing : Option Bytes}
    {opened : Time}
    (hopen : newHistoryStore codec rfc3339 path existing (.ok ()) opened = .ok history)
    (hrun : run (step pages codec cfg) (Daemon.start cache history disk) turns =
      some (d,pre ++ .response .history body::post)) :
    ∃ (recorded late : List (Snapshot κ)) (s : HistorySummary κ),
      published pre = recorded ++ late ∧ late.length ≤ 1 ∧
      SumsUp history.since
        (counted codec (existing.getD []) ++ recorded.map Snapshot.toRecord) s ∧
      body = (pages.summary s).getD historyError := by
  obtain ⟨before,t,hbefore,rfl⟩ := handled_of_run hrun
  have hpages := pages_of_run hbefore
  obtain ⟨htallies,-⟩ := tallies_newHistoryStore hopen
  refine ⟨_,_,t.history.summary,hpages.handed,?_,?_,rfl⟩
  · cases t.reporter.unrecorded <;> simp
  · rw [← hpages.since]
    exact (hpages.tallies _ htallies).sumsUp

lemma toNat_sum {l : List UInt64} (h : (l.map UInt64.toNat).sum < 2^64) :
    l.sum.toNat = (l.map UInt64.toNat).sum := by
  induction l with
  | nil => rfl
  | cons n l ih =>
    rw [List.map_cons, List.sum_cons] at h
    rw [List.sum_cons, List.map_cons, List.sum_cons, UInt64.toNat_add, ih (by omega),
      Nat.mod_eq_of_lt h]

omit [CostNum κ] in
/-- A total that does not wrap around does not go down as the log grows. -/
lemma sum_le_of_prefix {log₁ log₂ : List (IntervalRecord κ)} (hpre : log₁ <+: log₂)
    (f : IntervalRecord κ → UInt64) (h : (log₂.map fun r => (f r).toNat).sum < 2^64) :
    (log₁.map f).sum ≤ (log₂.map f).sum := by
  obtain ⟨more,rfl⟩ := hpre
  rw [UInt64.le_iff_toNat_le]
  have hall : (((log₁ ++ more).map f).map UInt64.toNat).sum < 2^64 := by
    rwa [List.map_map]
  have hfirst : ((log₁.map f).map UInt64.toNat).sum ≤
      (((log₁ ++ more).map f).map UInt64.toNat).sum := by
    rw [List.map_append, List.map_append, List.sum_append]
    exact Nat.le_add_right _ _
  rw [toNat_sum hall, toNat_sum (hfirst.trans_lt hall)]
  exact hfirst

/-- Over every run: of two responses to `/history`, the later one reports a log that goes on where
that of the earlier one ends, so what it sums up does not go down until it wraps around. -/
theorem history_responses_grow
    {rfc3339 : Time → String} {path : String} {existing : Option Bytes} {opened : Time}
    (hopen : newHistoryStore codec rfc3339 path existing (.ok ()) opened = .ok history)
    (hrun : run (step pages codec cfg) (Daemon.start cache history disk) turns =
      some (d,pre ++ .response .history body₁::(mid ++ .response .history body₂::post))) :
    ∃ (log₁ log₂ : List (IntervalRecord κ)) (s₁ s₂ : HistorySummary κ), log₁ <+: log₂ ∧
      log₂.length ≤ log₁.length + (published mid).length + 1 ∧
      SumsUp history.since log₁ s₁ ∧ body₁ = (pages.summary s₁).getD historyError ∧
      SumsUp history.since log₂ s₂ ∧ body₂ = (pages.summary s₂).getD historyError ∧
      ((log₂.map fun r => r.totalBytes.toNat).sum < 2^64 →
        s₁.cumulativeBytes ≤ s₂.cumulativeBytes) ∧
      ((log₂.map fun r => r.crossAZBytes.toNat).sum < 2^64 →
        s₁.cumulativeCrossAZ ≤ s₂.cumulativeCrossAZ) := by
  have hsplit : pre ++ Shown.response .history body₁::(mid ++ .response .history body₂::post) =
      (pre ++ .response .history body₁::mid) ++ .response .history body₂::post := by simp
  obtain ⟨before₂,t₂,hbefore₂,rfl⟩ := handled_of_run (hsplit ▸ hrun)
  obtain ⟨before₁,t₁,hbefore₁,rfl⟩ := handled_of_run hbefore₂
  have hpages₁ := pages_of_run hbefore₁
  have hpages₂ := pages_of_run hbefore₂
  obtain ⟨htallies,-⟩ := tallies_newHistoryStore hopen
  have hsums₁ := (hpages₁.tallies _ htallies).sumsUp
  have hsums₂ := (hpages₂.tallies _ htallies).sumsUp
  rw [hpages₁.since] at hsums₁
  rw [hpages₂.since] at hsums₂
  have hpub := hpages₂.handed
  have howned : ofDaemon (pre ++ .response .history (handler pages t₁ .history)::mid) =
      ofDaemon pre ++ ofDaemon mid := by
    rw [ofDaemon, List.filterMap_append]
    rfl
  have hboth : published (pre ++ .response .history (handler pages t₁ .history)::mid) =
      published pre ++ published mid := by
    rw [published, List.filterMap_append]
    rfl
  rw [howned, List.filterMap_append] at hpub hsums₂
  rw [hboth] at hpub
  rw [List.map_append, ← List.append_assoc] at hsums₂
  refine ⟨_,_,t₁.history.summary,t₂.history.summary,List.prefix_append _ _,?_,hsums₁,rfl,
    hsums₂,rfl,fun hwrap => ?_,fun hwrap => ?_⟩
  · have hlate : t₁.reporter.unrecorded.toList.length ≤ 1 := by
      cases t₁.reporter.unrecorded <;> simp
    have hlen₁ := congrArg List.length hpages₁.handed
    have hlen₂ := congrArg List.length hpub
    simp only [List.length_append, List.length_map] at hlen₁ hlen₂ ⊢
    omega
  · rw [hsums₁.cumulativeBytes, hsums₂.cumulativeBytes]
    exact sum_le_of_prefix (List.prefix_append _ _) _ hwrap
  · rw [hsums₁.cumulativeCrossAZ, hsums₂.cumulativeCrossAZ]
    exact sum_le_of_prefix (List.prefix_append _ _) _ hwrap

end Responses

section Demo

/-- `json.Marshal` writes a bracket that could end a script as a code point. -/
def jsonText (s : String) : Bytes :=
  s.toList.flatMap fun c => if c = '>' then ascii "\\u003e" else ascii c.toString

/-- The JSON of a flow between addresses of no known zone, which costs nothing. -/
def freeFlow (f : FlowSummary Rat) : Bytes :=
  ascii "\x7b\"flow\":\"" ++ jsonText f.flow ++ ascii "\",\"class\":\"" ++ ascii f.cls ++
    ascii "\",\"count\":" ++ ascii (toString f.count.toNat) ++
    ascii ",\"bytes\":" ++ ascii (toString f.bytes.toNat) ++
    ascii ",\"last_seen\":\"" ++ ascii f.lastSeen ++
    ascii "\",\"cross_az\":false,\"cost_usd\":0\x7d"

/-- The JSON of a snapshot of such flows, at a cent for each gigabyte. -/
def freeSnapshot (s : Snapshot Rat) : Bytes :=
  ascii "\x7b\"timestamp\":\"" ++ ascii s.timestamp ++
    ascii "\",\"exec_events\":" ++ ascii (toString s.execEvents.toNat) ++
    ascii ",\"unique_flows\":" ++ ascii (toString s.flowCount) ++
    ascii ",\"total_bytes\":" ++ ascii (toString s.totalBytes.toNat) ++
    ascii ",\"cross_az_bytes\":" ++ ascii (toString s.crossAZBytes.toNat) ++
    ascii ",\"total_cost_usd\":0,\"cost_per_gb_usd\":0.01,\"flows\":[" ++
    (ascii ",").intercalate (s.flows.map freeFlow) ++ ascii "]\x7d"

def freeSummary (h : HistorySummary Rat) : Bytes :=
  ascii "\x7b\"since\":\"" ++ ascii h.since ++
    ascii "\",\"cumulative_bytes\":" ++ ascii (toString h.cumulativeBytes.toNat) ++
    ascii ",\"cumulative_cross_az_bytes\":" ++ ascii (toString h.cumulativeCrossAZ.toNat) ++
    ascii ",\"cumulative_cost_usd\":0,\"intervals\":[" ++
    (ascii ",").intercalate (h.intervals.map freeLine) ++ ascii "]\x7d"

def demoPages : PageCodec Rat := ⟨fun s => some (freeSnapshot s),fun h => some (freeSummary h)⟩

/-- A send is handled and reported, with requests before, within and after the report. -/
def serveSend : List Turn :=
  handleSend.map .daemon ++ [.handle .history,.daemon (.tick 2 ["10.0.0.1 -> 10.0.0.2:443"]),
    .publish,.handle .snapshot,.daemon (.record .full),.handle .history]

def Shown.request? {κ : Type} : Shown κ → Option Request
  | response r _ => some r
  | daemon _ | published _ => none

lemma exists_response {κ : Type} {tr : List (Shown κ)} {r : Request}
    {before after : List (Option Request)} (h : tr.map Shown.request? = before ++ some r::after) :
    ∃ pre body post, tr = pre ++ .response r body::post ∧ pre.map Shown.request? = before ∧
      post.map Shown.request? = after := by
  obtain ⟨pre,rest,rfl,hpre,hrest⟩ := List.map_eq_append_iff.mp h
  obtain ⟨x,post,rfl,hx,hpost⟩ := List.map_eq_cons_iff.mp hrest
  cases x with
  | response r₁ body =>
    cases hx
    exact ⟨pre,body,post,rfl,hpre,hpost⟩
  | daemon x => cases hx
  | published snap => cases hx

lemma serveSend_runs : ∃ d tr,
    run (step demoPages demoCodec demoConfig) demoStart serveSend = some (d,tr) ∧
      tr.map Shown.request? =
        [none,some .history,none,none,some .snapshot,none,some .history] := by
  have hview : ((run (step demoPages demoCodec demoConfig) demoStart serveSend).map fun r =>
      r.2.map Shown.request?) =
      some [none,some .history,none,none,some .snapshot,none,some .history] := by
    decide +kernel
  obtain ⟨⟨d,tr⟩,hrun,heq⟩ := Option.map_eq_some_iff.mp hview
  exact ⟨d,tr,hrun,heq⟩

theorem snapshot_response_serveSend : ∃ d pre body post,
    run (step demoPages demoCodec demoConfig) demoStart serveSend =
      some (d,pre ++ .response .snapshot body::post) ∧
    ∃ (batches closed : List (List Call × Snapshot Rat)) (live : List Call),
      (ofDaemon pre).filterMap Seen.call? = (batches ++ closed).flatMap Prod.fst ++ live ∧
      (∀ b ∈ batches ++ closed, Summarises b.1 b.2) ∧ closed.length ≤ 1 ∧
      published pre = batches.map Prod.snd ∧
      body = ((batches.map Prod.snd).filterMap demoPages.snapshot).getLast?.getD noSnapshot := by
  obtain ⟨d,tr,hrun,hshape⟩ := serveSend_runs
  have hsplit : tr.map Shown.request? =
      [none,some .history,none,none] ++ some .snapshot::[none,some .history] := hshape
  obtain ⟨pre,body,post,rfl,-,-⟩ := exists_response hsplit
  exact ⟨d,pre,body,post,hrun,snapshot_response hrun⟩

lemma demoStart_opened : newHistoryStore demoCodec demoConfig.rfc3339 "h" none (.ok ()) 0 =
    .ok demoStart.history := rfl

theorem history_response_serveSend : ∃ d pre body post,
    run (step demoPages demoCodec demoConfig) demoStart serveSend =
      some (d,pre ++ .response .history body::post) ∧
    ∃ (recorded late : List (Snapshot Rat)) (s : HistorySummary Rat),
      published pre = recorded ++ late ∧ late.length ≤ 1 ∧
      SumsUp demoStart.history.since
        (counted demoCodec [] ++ recorded.map Snapshot.toRecord) s ∧
      body = (demoPages.summary s).getD historyError := by
  obtain ⟨d,tr,hrun,hshape⟩ := serveSend_runs
  have hsplit : tr.map Shown.request? =
      [none,some .history,none,none,some .snapshot,none] ++ some .history::[] := hshape
  obtain ⟨pre,body,post,rfl,-,-⟩ := exists_response hsplit
  exact ⟨d,pre,body,post,hrun,history_response demoStart_opened hrun⟩

theorem history_responses_grow_serveSend : ∃ d pre body₁ mid body₂ post,
    run (step demoPages demoCodec demoConfig) demoStart serveSend =
      some (d,pre ++ .response .history body₁::(mid ++ .response .history body₂::post)) ∧
    ∃ (log₁ log₂ : List (IntervalRecord Rat)) (s₁ s₂ : HistorySummary Rat), log₁ <+: log₂ ∧
      log₂.length ≤ log₁.length + (published mid).length + 1 ∧
      SumsUp demoStart.history.since log₁ s₁ ∧
      body₁ = (demoPages.summary s₁).getD historyError ∧
      SumsUp demoStart.history.since log₂ s₂ ∧
      body₂ = (demoPages.summary s₂).getD historyError ∧
      ((log₂.map fun r => r.totalBytes.toNat).sum < 2^64 →
        s₁.cumulativeBytes ≤ s₂.cumulativeBytes) ∧
      ((log₂.map fun r => r.crossAZBytes.toNat).sum < 2^64 →
        s₁.cumulativeCrossAZ ≤ s₂.cumulativeCrossAZ) := by
  obtain ⟨d,tr,hrun,hshape⟩ := serveSend_runs
  have hsplit : tr.map Shown.request? =
      [none] ++ some .history::([none,none,some .snapshot,none] ++ some .history::[]) := hshape
  obtain ⟨pre,body₁,rest,rfl,-,hrest⟩ := exists_response hsplit
  obtain ⟨mid,body₂,post,rfl,-,-⟩ := exists_response hrest
  exact ⟨d,pre,body₁,mid,body₂,post,hrun,history_responses_grow demoStart_opened hrun⟩

end Demo
end Tracewulf.Exporter
