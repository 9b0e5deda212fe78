import Tracewulf.Ebpf.Critical
import Tracewulf.Exporter.WebServer

/-! The daemon and the web server with the locks of the aggregator and of the history store. A
method takes its lock, makes its accesses one at a time and gives the lock back, and the other
goroutines go on in between. An observer cannot tell this from the server in which every locked
call is one step. -/
namespace Tracewulf.Ebpf
open Tracewulf.Base

/-- The method of the aggregator that the event loop calls. -/
def Call.body : Call → Critical Stats Unit
  | recordTCP a => recordTCPBody a
  | recordBytes a n => recordBytesBody a n
  | recordExec => recordExecBody

lemma Call.eval_body (c : Call) (s : Stats) : c.body.eval s = ((),c.apply s) := by
  cases c with
  | recordTCP a => exact eval_recordTCPBody a s
  | recordBytes a n => exact eval_recordBytesBody a n s
  | recordExec => exact eval_recordExecBody s

def latestJSONBody : Critical Stats Bytes :=
  .read fun s =>
    match s.lastJSON with
    | none => .ret noSnapshot
    | some _ => .read fun s => .ret (s.lastJSON.getD [])

lemma eval_latestJSONBody (s : Stats) : latestJSONBody.eval s = (s.latestJSON,s) := by
  rw [latestJSONBody, Critical.eval_read, Stats.latestJSON]
  cases h : s.lastJSON with
  | none => rfl
  | some data => simp [h]

/-- What the reporter does with the JSON of a snapshot. -/
def setLastJSONBody (data : Bytes) : Critical Stats Unit :=
  .write (fun s => { s with lastJSON := some data }) <| .ret ()

lemma eval_setLastJSONBody (data : Bytes) (s : Stats) :
    (setLastJSONBody data).eval s = ((),{ s with lastJSON := some data }) := rfl

section History

variable {κ : Type} (pages : PageCodec κ)

def historyJSONBody : Critical (Bytes × HistoryStore κ) Bytes :=
  .read fun x =>
  let since := x.2.since
  .read fun x =>
  let cumBytes := x.2.cumBytes
  .read fun x =>
  let cumCrossAZ := x.2.cumCrossAZ
  .read fun x =>
  let cumCost := x.2.cumCost
  .read fun x =>
  let summary : HistorySummary κ :=
    { since := since
      cumulativeBytes := cumBytes
      cumulativeCrossAZ := cumCrossAZ
      cumulativeCostUSD := cumCost
      intervals := x.2.ring }
  match pages.summary summary with
  | none => .ret historyError
  | some data => .ret data

lemma eval_historyJSONBody (x : Bytes × HistoryStore κ) :
    (historyJSONBody pages).eval x = (x.2.historyJSON pages,x) := by
  simp only [historyJSONBody, Critical.eval_read, HistoryStore.historyJSON, HistoryStore.summary]
  split <;> rename_i h <;> rw [h] <;> rfl

end History
end Tracewulf.Ebpf

namespace Tracewulf.Exporter
open Tracewulf.Base Tracewulf.Ebpf Tracewulf.K8s

/-- The goroutines that are in one call at a time. Informers, handlers and the goroutine that
shuts the daemon down never wait for themselves. -/
inductive Goroutine
  | eventLoop
  | reporter
  | other
  deriving DecidableEq

def Goroutine.clashes (g g' : Goroutine) : Bool := g = g' ∧ g ≠ other

def Turn.goroutine : Turn → Goroutine
  | .daemon (.readRecord _) | .daemon .lookup | .daemon (.finish _) | .daemon .readClosed
  | .daemon (.readError _) => .eventLoop
  | .daemon (.tick _ _) | .daemon (.publish _) | .daemon (.record _) | .daemon .reporterStop
  | .publish => .reporter
  | .daemon (.informer _ _) | .daemon .closeStop | .daemon .closeReader | .handle _ => .other

/-- The calls that take the lock of the aggregator. -/
inductive StatsCall
  | record (now : Time)
  | snapshotAndReset (now : Time)
      (order : (conns : FiniteMap String ConnStat) → { keys // SortedKeys conns keys })
  | setLastJSON
  | latestJSON

def StatsCall.goroutine : StatsCall → Goroutine
  | record _ => .eventLoop
  | snapshotAndReset _ _ | setLastJSON => .reporter
  | latestJSON => .other

abbrev StatsCall.Result (κ : Type) : StatsCall → Type
  | record _ | setLastJSON => Unit
  | snapshotAndReset _ _ => Snapshot κ
  | latestJSON => Bytes

/-- The calls that take the lock of the history store. -/
inductive HistoryCall
  | record (write : Write)
  | historyJSON

def HistoryCall.goroutine : HistoryCall → Goroutine
  | record _ => .reporter
  | historyJSON => .other

abbrev HistoryCall.Result : HistoryCall → Type
  | record _ => Unit
  | historyJSON => Bytes

section StatsLock

variable {κ : Type} (pages : PageCodec κ)

/-- A step that does without the lock of the aggregator. -/
def besideStats (d : Daemon κ) : Turn → Bool
  | .daemon (.finish _) =>
    match d.loop with
    | .handling _ (.done (some _)) => false
    | _ => true
  | .daemon (.tick _ _) => false
  | .publish =>
    match d.reporter with
    | .taken snap => (pages.snapshot snap).isNone
    | _ => true
  | .handle .snapshot => false
  | _ => true

/-- Gives the lock back: the caller goes on with what the call has returned. -/
def leaveStats (d : Daemon κ) : (c : StatsCall) → c.Result κ → Daemon κ × List (Shown κ)
  | .record now, _ =>
    match d.loop with
    | .handling raw (.done call) =>
      ({ d with loop := .waiting },[.daemon (.handled raw (call.map fun mk => mk now))])
    | _ => (d,[])
  | .snapshotAndReset _ _, snap =>
    ({ d with reporter := .taken snap },[.daemon (.snapshot snap)])
  | .setLastJSON, _ =>
    match d.reporter with
    | .taken snap => ({ d with reporter := .published snap },[.published snap])
    | _ => (d,[])
  | .latestJSON, body => (d,[.response .snapshot body])

variable [CostNum κ] (codec : Codec κ) (cfg : Config κ)

/-- Takes the lock for a call, where its caller has come to it. -/
def enterStats (d : Daemon κ) : (c : StatsCall) → Option (Critical Stats (c.Result κ))
  | .record now =>
    match d.loop with
    | .handling _ (.done (some mk)) => some (mk now).body
    | _ => none
  | .snapshotAndReset now order =>
    match d.reporter with
    | .selecting => some (snapshotBody cfg now fun conns => (order conns).1)
    | _ => none
  | .setLastJSON =>
    match d.reporter with
    | .taken snap => (pages.snapshot snap).map setLastJSONBody
    | _ => none
  | .latestJSON => some latestJSONBody

variable {pages} {codec} {cfg} {d d' : Daemon κ} {t : Turn} {out : List (Shown κ)}

lemma step_putStats (s : Stats) (h : besideStats pages d t) :
    step pages codec cfg { d with stats := s } t =
      (step pages codec cfg d t).map fun r => ({ r.1 with stats := s },r.2) := by
  cases t with
  | publish =>
    cases hrep : d.reporter with
    | taken snap =>
      have hnone : pages.snapshot snap = none := by
        simpa [besideStats, hrep] using h
      simp [step, Daemon.step, hrep, hnone]
    | _ => simp [step, hrep]
  | handle r =>
    cases r with
    | snapshot => cases h
    | history => rfl
  | daemon a =>
    cases a with
    | informer resource event => rfl
    | tick now keys => cases h
    | publish data => rfl
    | finish now =>
      cases hloop : d.loop with
      | handling raw rest =>
        cases rest with
        | done call =>
          cases call with
          | none => simp [step, isPublish, Daemon.step, hloop]
          | some mk => simp [besideStats, hloop] at h
        | ask q resume => simp [step, isPublish, Daemon.step, hloop]
      | _ => simp [step, isPublish, Daemon.step, hloop]
    | readRecord raw =>
      cases hloop : d.loop <;> cases hclosed : d.rdClosed <;>
        simp [step, isPublish, Daemon.step, hloop, hclosed]
    | lookup =>
      cases hloop : d.loop with
      | handling raw rest => cases rest <;> simp [step, isPublish, Daemon.step, hloop]
      | _ => simp [step, isPublish, Daemon.step, hloop]
    | readClosed =>
      cases hloop : d.loop <;> cases hclosed : d.rdClosed <;>
        simp [step, isPublish, Daemon.step, hloop, hclosed]
    | readError err => cases hloop : d.loop <;> simp [step, isPublish, Daemon.step, hloop]
    | record write => cases hrep : d.reporter <;> simp [step, isPublish, Daemon.step, hrep]
    | reporterStop =>
      cases hrep : d.reporter <;> cases hstop : d.stopClosed <;>
        simp [step, isPublish, Daemon.step, hrep, hstop]
    | closeStop => cases hstop : d.stopClosed <;> simp [step, isPublish, Daemon.step, hstop]
    | closeReader =>
      cases hstop : d.stopClosed <;> cases hclosed : d.rdClosed <;>
        simp [step, isPublish, Daemon.step, hstop, hclosed]

/-- Only its own steps move the event loop. -/
lemma loop_of_step (h : step pages codec cfg d t = some (d',out))
    (hother : t.goroutine ≠ .eventLoop) : d'.loop = d.loop := by
  cases serves_of_step h with
  | publish snap htaken => rfl
  | handle r => rfl
  | daemon a d₁ seen hown hstep =>
    cases takes_of_step hstep with
    | readRecord | lookup | finish | readClosed | readError => exact absurd rfl hother
    | _ => rfl

/-- Only its own steps move the reporter. -/
lemma reporter_of_step (h : step pages codec cfg d t = some (d',out))
    (hother : t.goroutine ≠ .reporter) : d'.reporter = d.reporter := by
  cases serves_of_step h with
  | publish snap htaken => exact absurd rfl hother
  | handle r => rfl
  | daemon a d₁ seen hown hstep =>
    cases takes_of_step hstep with
    | tick | publish | record | reporterStop => exact absurd rfl hother
    | _ => rfl

/-- Whether a call may be made depends on where its caller is. -/
lemma enterStats_congr {c : StatsCall} (hloop : c.goroutine = .eventLoop → d'.loop = d.loop)
    (hreporter : c.goroutine = .reporter → d'.reporter = d.reporter) :
    enterStats pages cfg d' c = enterStats pages cfg d c := by
  cases c with
  | record now => simp only [enterStats, hloop rfl]
  | snapshotAndReset now order => simp only [enterStats, hreporter rfl]
  | setLastJSON => simp only [enterStats, hreporter rfl]
  | latestJSON => rfl

variable (pages codec cfg) in
/-- The lock of the aggregator, among the steps of the server. -/
def statsLock : Guarded (Daemon κ) Stats (Shown κ) where
  get := Daemon.stats
  put d s := { d with stats := s }
  Beside := Turn
  beside d t := if besideStats pages d t then step pages codec cfg d t else none
  Call := StatsCall
  Result := StatsCall.Result κ
  enter := enterStats pages cfg
  leave := leaveStats
  clash t c := t.goroutine.clashes c.goroutine
  get_put _ _ := rfl
  put_get _ := rfl
  put_put _ _ _ := rfl
  beside_put d s t := by
    have hsame : besideStats pages { d with stats := s } t = besideStats pages d t := rfl
    rw [hsame]
    split_ifs with h
    · exact step_putStats s h
    · rfl
  enter_put d s c := enterStats_congr (fun _ => rfl) fun _ => rfl
  enter_beside d t d' out c body hbeside hclash henter := by
    split_ifs at hbeside
    have hother : ∀ g, g ≠ .other → c.goroutine = g → t.goroutine ≠ g := by
      rintro g hg rfl ht
      simp [Goroutine.clashes, ht, hg] at hclash
    rw [← henter]
    exact enterStats_congr (fun h => loop_of_step hbeside (hother _ (by decide) h))
      fun h => reporter_of_step hbeside (hother _ (by decide) h)

/-- The step of the server that a call is. -/
def StatsCall.turn (d : Daemon κ) : StatsCall → Turn
  | record now => .daemon (.finish now)
  | snapshotAndReset now order => .daemon (.tick now (order d.stats.conns).1)
  | setLastJSON => .publish
  | latestJSON => .handle .snapshot

/-- Every locked call of the aggregator does at once what it does access by access. -/
theorem performs_statsLock {c : StatsCall} : (statsLock pages codec cfg).Performs d c d' out ↔
    besideStats pages d (c.turn d) = false ∧ step pages codec cfg d (c.turn d) = some (d',out) := by
  cases c with
  | record now =>
    by_cases h : ∃ raw mk, d.loop = .handling raw (.done (some mk))
    · obtain ⟨raw,mk,hloop⟩ := h
      have henter : (statsLock pages codec cfg).enter d (.record now) = some (mk now).body := by
        simp [statsLock, enterStats, hloop]
      rw [Guarded.performs_iff henter ((mk now).eval_body d.stats)]
      simp [statsLock, leaveStats, StatsCall.turn, besideStats, step, isPublish, Daemon.step,
        hloop]
    · have henter : (statsLock pages codec cfg).enter d (.record now) = none := by
        simp only [statsLock, enterStats]
        split
        · rename_i raw mk hloop
          exact absurd ⟨raw,mk,hloop⟩ h
        · rfl
      have hbeside : besideStats pages d (.daemon (.finish now)) = true := by
        simp only [besideStats]
        split
        · rename_i raw mk hloop
          exact absurd ⟨raw,mk,hloop⟩ h
        · rfl
      simp [Guarded.not_performs henter, StatsCall.turn, hbeside]
  | snapshotAndReset now order =>
    cases hselect : d.reporter with
    | selecting =>
      have henter : (statsLock pages codec cfg).enter d (.snapshotAndReset now order) =
          some (snapshotBody cfg now fun conns => (order conns).1) := by
        simp [statsLock, enterStats, hselect]
      rw [Guarded.performs_iff henter (eval_snapshotBody now _ d.stats)]
      simp [statsLock, leaveStats, StatsCall.turn, besideStats, step, isPublish, Daemon.step,
        hselect, (order d.stats.conns).2, Stats.snapshotAndReset]
    | _ =>
      have henter : (statsLock pages codec cfg).enter d (.snapshotAndReset now order) = none := by
        simp [statsLock, enterStats, hselect]
      simp [Guarded.not_performs henter, StatsCall.turn, step, isPublish, Daemon.step, hselect]
  | setLastJSON =>
    by_cases h : ∃ snap data, d.reporter = .taken snap ∧ pages.snapshot snap = some data
    · obtain ⟨snap,data,htaken,hdata⟩ := h
      have henter : (statsLock pages codec cfg).enter d .setLastJSON =
          some (setLastJSONBody data) := by
        simp [statsLock, enterStats, htaken, hdata]
      rw [Guarded.performs_iff henter (eval_setLastJSONBody data d.stats)]
      simp [statsLock, leaveStats, StatsCall.turn, besideStats, step, Daemon.step, htaken, hdata]
    · have hnone : ∀ snap, d.reporter = .taken snap → pages.snapshot snap = none := by
        intro snap htaken
        by_contra hsome
        obtain ⟨data,hdata⟩ := Option.ne_none_iff_exists'.mp hsome
        exact h ⟨snap,data,htaken,hdata⟩
      have henter : (statsLock pages codec cfg).enter d .setLastJSON = none := by
        cases hrep : d.reporter with
        | taken snap => simp [statsLock, enterStats, hrep, hnone snap hrep]
        | _ => simp [statsLock, enterStats, hrep]
      have hbeside : besideStats pages d .publish = true := by
        cases hrep : d.reporter with
        | taken snap => simp [besideStats, hrep, hnone snap hrep]
        | _ => simp [besideStats, hrep]
      simp [Guarded.not_performs henter, StatsCall.turn, hbeside]
  | latestJSON =>
    have henter : (statsLock pages codec cfg).enter d .latestJSON = some latestJSONBody := rfl
    rw [Guarded.performs_iff henter (eval_latestJSONBody d.stats)]
    simp [statsLock, leaveStats, StatsCall.turn, besideStats, step, handler]

/-- A step that takes the lock is a call. -/
lemma exists_statsCall (hcall : besideStats pages d t = false)
    (hstep : step pages codec cfg d t = some (d',out)) : ∃ c : StatsCall, c.turn d = t := by
  cases t with
  | publish => exact ⟨.setLastJSON,rfl⟩
  | handle r =>
    cases r with
    | snapshot => exact ⟨.latestJSON,rfl⟩
    | history => cases hcall
  | daemon a =>
    cases a with
    | finish now => exact ⟨.record now,rfl⟩
    | tick now keys =>
      have hkeys : SortedKeys d.stats.conns keys := by
        cases serves_of_step hstep with
        | daemon _ _ _ _ htick =>
          cases takes_of_step htick with
          | tick _ _ _ hkeys => exact hkeys
      let order (conns : FiniteMap String ConnStat) : { keys // SortedKeys conns keys } :=
        if h : SortedKeys conns keys then ⟨keys,h⟩
        else ⟨_,(exists_sortedKeys conns).choose_spec⟩
      have horder : (order d.stats.conns).1 = keys := by
        simp only [order, dif_pos hkeys]
      refine ⟨.snapshotAndReset now order,?_⟩
      rw [StatsCall.turn, horder]
    | _ => cases hcall

theorem statsLock_divides : (statsLock pages codec cfg).Divides (step pages codec cfg) where
  beside d t d' out h := by
    change (if besideStats pages d t then step pages codec cfg d t else none) = _ at h
    split_ifs at h
    exact ⟨t,h⟩
  call d c d' out h := ⟨c.turn d,(performs_statsLock.mp h).2⟩
  step d t d' out h := by
    cases hbeside : besideStats pages d t with
    | true =>
      have hturn : (statsLock pages codec cfg).beside d t = some (d',out) := by
        change (if besideStats pages d t then step pages codec cfg d t else none) = _
        rw [hbeside, if_pos rfl, h]
      exact .inl ⟨t,hturn⟩
    | false =>
      obtain ⟨c,rfl⟩ := exists_statsCall hbeside h
      exact .inr ⟨c,performs_statsLock.mpr ⟨hbeside,h⟩⟩

end StatsLock

section HistoryLock

variable {κ : Type} [CostNum κ] (pages : PageCodec κ) (codec : Codec κ) (cfg : Config κ)

/-- The server with the lock of the aggregator. -/
abbrev StatsLocked : Type := Daemon κ × (statsLock pages codec cfg).Holder

variable {pages codec cfg}

/-- A move that does without the lock of the history store. -/
def besideHistory : (statsLock pages codec cfg).Move → Bool
  | .beside (Turn.daemon (.record _)) | .beside (Turn.handle .history) => false
  | _ => true

/-- The goroutine that makes a move; of a call under way it is not said. -/
def moveGoroutine : (statsLock pages codec cfg).Move → Goroutine
  | .beside t => Turn.goroutine t
  | .enter c => StatsCall.goroutine c
  | .access | .leave => .other

def enterHistory (s : StatsLocked pages codec cfg) :
    (c : HistoryCall) → Option (Critical (Bytes × HistoryStore κ) c.Result)
  | .record write =>
    match s.1.reporter with
    | .published snap =>
      if s.2.all fun h => StatsCall.goroutine h.1 ≠ .reporter then
        some (recordBody codec snap write)
      else none
    | _ => none
  | .historyJSON => some (historyJSONBody pages)

def leaveHistory (s : StatsLocked pages codec cfg) :
    (c : HistoryCall) → c.Result → StatsLocked pages codec cfg × List (Shown κ)
  | .record write, _ =>
    match s.1.reporter with
    | .published snap =>
      (({ s.1 with reporter := .selecting },s.2),[.daemon (.recorded snap write)])
    | _ => (s,[])
  | .historyJSON, body => (s,[.response .history body])

variable {d d' : Daemon κ} {t : Turn} {out : List (Shown κ)}

def putHistory (d : Daemon κ) (x : Bytes × HistoryStore κ) : Daemon κ :=
  { d with disk := x.1, history := x.2 }

lemma step_putHistory (x : Bytes × HistoryStore κ)
    (h : besideHistory (.beside t : (statsLock pages codec cfg).Move)) :
    step pages codec cfg (putHistory d x) t =
      (step pages codec cfg d t).map fun r => (putHistory r.1 x,r.2) := by
  cases t with
  | publish =>
    cases hrep : d.reporter with
    | taken snap =>
      cases hdata : pages.snapshot snap <;> simp [step, Daemon.step, putHistory, hrep, hdata]
    | _ => simp [step, putHistory, hrep]
  | handle r =>
    cases r with
    | snapshot => rfl
    | history => cases h
  | daemon a =>
    cases a with
    | informer resource event => rfl
    | record write => cases h
    | publish data => rfl
    | finish now =>
      cases hloop : d.loop with
      | handling raw rest =>
        cases rest <;> simp [step, isPublish, Daemon.step, putHistory, hloop]
      | _ => simp [step, isPublish, Daemon.step, putHistory, hloop]
    | tick now keys =>
      cases hrep : d.reporter <;> by_cases hkeys : SortedKeys d.stats.conns keys <;>
        simp [step, isPublish, Daemon.step, putHistory, hrep, hkeys]
    | readRecord raw =>
      cases hloop : d.loop <;> cases hclosed : d.rdClosed <;>
        simp [step, isPublish, Daemon.step, putHistory, hloop, hclosed]
    | lookup =>
      cases hloop : d.loop with
      | handling raw rest => cases rest <;> simp [step, isPublish, Daemon.step, putHistory, hloop]
      | _ => simp [step, isPublish, Daemon.step, putHistory, hloop]
    | readClosed =>
      cases hloop : d.loop <;> cases hclosed : d.rdClosed <;>
        simp [step, isPublish, Daemon.step, putHistory, hloop, hclosed]
    | readError err =>
      cases hloop : d.loop <;> simp [step, isPublish, Daemon.step, putHistory, hloop]
    | reporterStop =>
      cases hrep : d.reporter <;> cases hstop : d.stopClosed <;>
        simp [step, isPublish, Daemon.step, putHistory, hrep, hstop]
    | closeStop =>
      cases hstop : d.stopClosed <;> simp [step, isPublish, Daemon.step, putHistory, hstop]
    | closeReader =>
      cases hstop : d.stopClosed <;> cases hclosed : d.rdClosed <;>
        simp [step, isPublish, Daemon.step, putHistory, hstop, hclosed]

omit [CostNum κ] in
lemma leaveStats_putHistory (d : Daemon κ) (x : Bytes × HistoryStore κ) (c : StatsCall)
    (r : c.Result κ) : leaveStats (putHistory d x) c r =
      (putHistory (leaveStats d c r).1 x,(leaveStats d c r).2) := by
  cases c with
  | record now =>
    cases hloop : d.loop with
    | handling raw rest => cases rest <;> simp [leaveStats, putHistory, hloop]
    | _ => simp [leaveStats, putHistory, hloop]
  | setLastJSON => cases hrep : d.reporter <;> simp [leaveStats, putHistory, hrep]
  | snapshotAndReset now order => rfl
  | latestJSON => rfl

lemma statsLock_step_putHistory (s : StatsLocked pages codec cfg)
    (m : (statsLock pages codec cfg).Move) (x : Bytes × HistoryStore κ) (h : besideHistory m) :
    (statsLock pages codec cfg).step (putHistory s.1 x,s.2) m =
      ((statsLock pages codec cfg).step s m).map fun r => ((putHistory r.1.1 x,r.1.2),r.2) := by
  refine Guarded.step_frame (f := fun d => putHistory d x) (fun _ => rfl) (fun _ _ => rfl)
    (fun d c => enterStats_congr (fun _ => rfl) fun _ => rfl)
    (fun d c r => leaveStats_putHistory d x c r) s m ?_
  rintro t rfl
  have hsame : besideStats pages (putHistory s.1 x) t = besideStats pages s.1 t := rfl
  change (if besideStats pages (putHistory s.1 x) t then _ else none) =
    (if besideStats pages s.1 t then _ else none : Option _).map _
  rw [hsame]
  split_ifs
  · exact step_putHistory x h
  · rfl

omit [CostNum κ] in
lemma reporter_leaveStats (d : Daemon κ) (c : StatsCall) (r : c.Result κ)
    (h : c.goroutine ≠ .reporter) : (leaveStats d c r).1.reporter = d.reporter := by
  cases c with
  | record now =>
    simp only [leaveStats]
    split <;> rfl
  | snapshotAndReset now order => exact absurd rfl h
  | setLastJSON => exact absurd rfl h
  | latestJSON => rfl

/-- A move of another goroutine leaves the reporter where it is and out of the calls on the
aggregator. -/
lemma reporter_of_move {s s' : StatsLocked pages codec cfg} {m : (statsLock pages codec cfg).Move}
    (h : (statsLock pages codec cfg).step s m = some (s',out))
    (hother : moveGoroutine m ≠ .reporter)
    (hidle : s.2.all fun h => StatsCall.goroutine h.1 ≠ .reporter) :
    s'.1.reporter = s.1.reporter ∧ s'.2.all fun h => StatsCall.goroutine h.1 ≠ .reporter := by
  cases Guarded.moves_of_step h with
  | beside d holder t d' out hclash hbeside =>
    refine ⟨?_,hidle⟩
    change (if besideStats pages d t then step pages codec cfg d t else none) = _ at hbeside
    split_ifs at hbeside
    exact reporter_of_step hbeside hother
  | enter d c body henter => exact ⟨rfl,decide_eq_true hother⟩
  | access d c write next => exact ⟨rfl,hidle⟩
  | leave d c r => exact ⟨reporter_leaveStats d c r (of_decide_eq_true hidle),rfl⟩

variable (pages codec cfg) in
/-- The lock of the history store, among the moves of the server with the lock of the
aggregator. -/
def historyLock : Guarded (StatsLocked pages codec cfg) (Bytes × HistoryStore κ) (Shown κ) where
  get s := (s.1.disk,s.1.history)
  put s x := (putHistory s.1 x,s.2)
  Beside := (statsLock pages codec cfg).Move
  beside s m := if besideHistory m then (statsLock pages codec cfg).step s m else none
  Call := HistoryCall
  Result := HistoryCall.Result
  enter := enterHistory
  leave := leaveHistory
  clash m c := (moveGoroutine m).clashes c.goroutine
  get_put _ _ := rfl
  put_get _ := rfl
  put_put _ _ _ := rfl
  beside_put s x m := by
    split_ifs with h
    · exact statsLock_step_putHistory s m x h
    · rfl
  enter_put s x c := by cases c <;> rfl
  enter_beside s m s' out c body hbeside hclash henter := by
    split_ifs at hbeside
    cases c with
    | historyJSON => exact henter
    | record write =>
      have hother : moveGoroutine m ≠ .reporter := by
        intro hm
        simp [hm, Goroutine.clashes, HistoryCall.goroutine] at hclash
      simp only [enterHistory] at henter ⊢
      split at henter
      · rename_i snap hpub
        split_ifs at henter with hidle
        obtain ⟨hrep,hidle'⟩ := reporter_of_move hbeside hother hidle
        rw [hrep, hpub]
        simp only [hidle', if_pos]
        exact henter
      · cases henter

/-- The step of the server that a call is. -/
def HistoryCall.turn : HistoryCall → Turn
  | record write => .daemon (.record write)
  | historyJSON => .handle .history

lemma statsLock_step_beside (d : Daemon κ) (holder : (statsLock pages codec cfg).Holder)
    (t : Turn) : (statsLock pages codec cfg).step (d,holder) (.beside t) =
      if holder.all fun h => !t.goroutine.clashes (StatsCall.goroutine h.1) then
        (if besideStats pages d t then step pages codec cfg d t else none).map fun r =>
          ((r.1,holder),r.2)
      else none := rfl

lemma clashes_reporter (g : Goroutine) :
    (!Goroutine.reporter.clashes g) = decide (g ≠ .reporter) := by
  cases g <;> rfl

lemma clashes_other (g : Goroutine) : Goroutine.other.clashes g = false := by
  cases g <;> rfl

/-- Every locked call of the history store does at once what it does access by access. -/
theorem performs_historyLock {s s' : StatsLocked pages codec cfg} {c : HistoryCall} :
    (historyLock pages codec cfg).Performs s c s' out ↔
      (statsLock pages codec cfg).step s (.beside c.turn) = some (s',out) := by
  obtain ⟨d,holder⟩ := s
  cases c with
  | historyJSON =>
    have henter : (historyLock pages codec cfg).enter (d,holder) .historyJSON =
        some (historyJSONBody pages) := rfl
    have hstep : (statsLock pages codec cfg).step (d,holder) (.beside (Turn.handle .history)) =
        some ((d,holder),[.response .history (d.history.historyJSON pages)]) := by
      rw [statsLock_step_beside]
      simp [Turn.goroutine, clashes_other, besideStats, step, handler]
    rw [Guarded.performs_iff henter (eval_historyJSONBody pages (d.disk,d.history))]
    simp only [HistoryCall.turn, hstep, Option.some.injEq]
    rfl
  | record write =>
    by_cases h : ∃ snap, d.reporter = .published snap ∧
        holder.all fun h => StatsCall.goroutine h.1 ≠ .reporter
    · obtain ⟨snap,hpub,hidle⟩ := h
      have henter : (historyLock pages codec cfg).enter (d,holder) (.record write) =
          some (recordBody codec snap write) := by
        change enterHistory (d,holder) (.record write) = _
        simp only [enterHistory, hpub, hidle, if_pos]
      have hstep : (statsLock pages codec cfg).step (d,holder)
          (.beside (Turn.daemon (.record write))) = some (({ d with
            disk := (d.history.record codec snap write d.disk).1
            history := (d.history.record codec snap write d.disk).2
            reporter := .selecting },holder),[.daemon (.recorded snap write)]) := by
        rw [statsLock_step_beside]
        simp only [Turn.goroutine, clashes_reporter, hidle, if_pos]
        simp [besideStats, step, isPublish, Daemon.step, hpub]
      rw [Guarded.performs_iff henter (eval_recordBody codec snap write d.disk d.history)]
      simp only [HistoryCall.turn, hstep, Option.some.injEq]
      change leaveHistory (putHistory d _,holder) (.record write) () = (s',out) ↔ _
      simp [leaveHistory, putHistory, hpub]
    · have henter : (historyLock pages codec cfg).enter (d,holder) (.record write) = none := by
        change enterHistory (d,holder) (.record write) = _
        simp only [enterHistory]
        split
        · rename_i snap hpub
          exact if_neg fun hidle => h ⟨snap,hpub,hidle⟩
        · rfl
      have hstep : (statsLock pages codec cfg).step (d,holder)
          (.beside (Turn.daemon (.record write))) = none := by
        rw [statsLock_step_beside]
        simp only [Turn.goroutine, clashes_reporter]
        by_cases hidle : holder.all fun h => StatsCall.goroutine h.1 ≠ .reporter
        · rw [if_pos hidle]
          cases hrep : d.reporter with
          | published snap => exact absurd ⟨snap,hrep,hidle⟩ h
          | _ => simp [step, isPublish, Daemon.step, hrep]
        · exact if_neg hidle
      simp [Guarded.not_performs henter, HistoryCall.turn, hstep]

theorem historyLock_divides :
    (historyLock pages codec cfg).Divides (statsLock pages codec cfg).step where
  beside s m s' out h := by
    change (if besideHistory m then (statsLock pages codec cfg).step s m else none) = _ at h
    split_ifs at h
    exact ⟨m,h⟩
  call s c s' out h := ⟨.beside c.turn,performs_historyLock.mp h⟩
  step s m s' out h := by
    cases hbeside : besideHistory m with
    | true =>
      have hmove : (historyLock pages codec cfg).beside s m = some (s',out) := by
        change (if besideHistory m then (statsLock pages codec cfg).step s m else none) = _
        rw [hbeside, if_pos rfl, h]
      exact .inl ⟨m,hmove⟩
    | false =>
      have hcall : ∃ c : HistoryCall, .beside c.turn = m := by
        match m with
        | .beside (Turn.daemon (.record write)) => exact ⟨.record write,rfl⟩
        | .beside (Turn.handle .history) => exact ⟨.historyJSON,rfl⟩
      obtain ⟨c,rfl⟩ := hcall
      exact .inr ⟨c,performs_historyLock.mpr h⟩

end HistoryLock

section Atomic

variable {κ : Type} [CostNum κ] (pages : PageCodec κ) (codec : Codec κ) (cfg : Config κ)

/-- The server with both locks. -/
abbrev Locked : Type := StatsLocked pages codec cfg × (historyLock pages codec cfg).Holder

abbrev lockedStep : Locked pages codec cfg → (historyLock pages codec cfg).Move →
    Option (Locked pages codec cfg × List (Shown κ)) := (historyLock pages codec cfg).step

/-- The server before any call is made. -/
def unlocked (d : Daemon κ) : Locked pages codec cfg := ((d,none),none)

variable {pages codec cfg}

/-- What a state with calls under way has in common with one in which each of them is still to be
made: everything but the object whose lock is taken. -/
structure Agrees (s : Locked pages codec cfg) (d : Daemon κ) : Prop where
  cache : s.1.1.cache = d.cache
  loop : s.1.1.loop = d.loop
  reporter : s.1.1.reporter = d.reporter
  stopClosed : s.1.1.stopClosed = d.stopClosed
  rdClosed : s.1.1.rdClosed = d.rdClosed
  stats : s.1.2 = none → s.1.1.stats = d.stats
  history : s.2 = none → s.1.1.history = d.history
  disk : s.2 = none → s.1.1.disk = d.disk

lemma agrees_of_stands {s : Locked pages codec cfg} {u : StatsLocked pages codec cfg}
    {d : Daemon κ} (hhistory : (historyLock pages codec cfg).Stands s u)
    (hstats : (statsLock pages codec cfg).Stands u d) : Agrees s d := by
  obtain ⟨s,held⟩ := s
  obtain ⟨u,holder⟩ := u
  obtain ⟨hu,hfree⟩ : u = { d with stats := u.stats } ∧ (holder = none → u = d) := by
    cases holder with
    | none =>
      obtain rfl : u = d := hstats
      exact ⟨rfl,fun _ => rfl⟩
    | some h => exact ⟨hstats.1,fun h => nomatch h⟩
  obtain ⟨hs,hfree'⟩ : s = (putHistory u (s.1.disk,s.1.history),holder) ∧
      (held = none → s = (u,holder)) := by
    cases held with
    | none =>
      obtain rfl : s = (u,holder) := hhistory
      exact ⟨rfl,fun _ => rfl⟩
    | some h => exact ⟨hhistory.1,fun h => nomatch h⟩
  have hholder : s.2 = holder := congrArg Prod.snd hs
  constructor
  case cache => exact (congrArg (fun s => s.1.cache) hs).trans (congrArg Daemon.cache hu)
  case loop => exact (congrArg (fun s => s.1.loop) hs).trans (congrArg Daemon.loop hu)
  case reporter =>
    exact (congrArg (fun s => s.1.reporter) hs).trans (congrArg Daemon.reporter hu)
  case stopClosed =>
    exact (congrArg (fun s => s.1.stopClosed) hs).trans (congrArg Daemon.stopClosed hu)
  case rdClosed =>
    exact (congrArg (fun s => s.1.rdClosed) hs).trans (congrArg Daemon.rdClosed hu)
  case stats =>
    intro hnone
    exact (congrArg (fun s => s.1.stats) hs).trans
      (congrArg Daemon.stats (hfree (hholder.symm.trans hnone)))
  case history =>
    intro hnone
    exact (congrArg (fun s => s.1.history) (hfree' hnone)).trans (congrArg Daemon.history hu)
  case disk =>
    intro hnone
    exact (congrArg (fun s => s.1.disk) (hfree' hnone)).trans (congrArg Daemon.disk hu)

variable {d d' : Daemon κ} {s : Locked pages codec cfg} {out : List (Shown κ)}
  {moves : List (historyLock pages codec cfg).Move} {turns : List Turn}

/-- Over every run with the locks, stopped anywhere: a run in which every call is one step shows
the same, and ends where the calls under way are still to be made. -/
theorem locked_calls_atomic
    (hrun : run (lockedStep pages codec cfg) (unlocked pages codec cfg d) moves = some (s,out)) :
    ∃ turns d', run (step pages codec cfg) d turns = some (d',out) ∧ Agrees s d' := by
  have hfree : (historyLock pages codec cfg).Stands (unlocked pages codec cfg d) (d,none) := rfl
  have hfree' : (statsLock pages codec cfg).Stands (d,none) d := rfl
  obtain ⟨moves',u,hmoves,hstands⟩ := historyLock_divides.simulates.run hfree hrun
  rw [List.filterMap_some] at hmoves
  obtain ⟨turns,d',hturns,hstands'⟩ := statsLock_divides.simulates.run hfree' hmoves
  rw [List.filterMap_some] at hturns
  exact ⟨turns,d',hturns,agrees_of_stands hstands hstands'⟩

/-- Over every run in which every call is one step: the server with the locks can show the same
and come to the same state. -/
theorem atomic_calls_locked (hrun : run (step pages codec cfg) d turns = some (d',out)) :
    ∃ moves, run (lockedStep pages codec cfg) (unlocked pages codec cfg d) moves =
      some (unlocked pages codec cfg d',out) := by
  obtain ⟨moves,u,hmoves,hu⟩ := statsLock_divides.simulated.run rfl hrun
  rw [List.filterMap_some] at hmoves
  obtain ⟨moves',s,hmoves',hs⟩ := historyLock_divides.simulated.run rfl hmoves
  rw [List.filterMap_some] at hmoves'
  subst hu hs
  exact ⟨moves',hmoves'⟩

end Atomic

section Demo

abbrev DemoMove : Type := (historyLock demoPages demoCodec demoConfig).Move

/-- The event loop comes as far as its call on the aggregator. -/
def reachCall : List DemoMove :=
  (handleSend.take 7).map fun a => .beside (.beside (Turn.daemon a))

/-- A history page is made while a send is being counted, and a snapshot page after that. A second
send is left with the call under way. -/
def interleavedSends : List DemoMove :=
  reachCall ++ [.beside (.enter (.record 1)),.beside .access,.beside .access,
    .enter .historyJSON,.access,.beside .access,.beside .access,.access,.access,.access,
    .beside .access,.access,.leave,.beside .access,.beside .leave,
    .beside (.enter .latestJSON),.beside .access,.beside .leave] ++
  reachCall ++ [.beside (.enter (.record 2)),.beside .access,.beside .access]

theorem locked_calls_atomic_interleavedSends : ∃ s out,
    run (lockedStep demoPages demoCodec demoConfig) (unlocked demoPages demoCodec demoConfig
      demoStart) interleavedSends = some (s,out) ∧
    ∃ turns d', run (step demoPages demoCodec demoConfig) demoStart turns = some (d',out) ∧
      Agrees s d' := by
  have hsome : (run (lockedStep demoPages demoCodec demoConfig) (unlocked demoPages demoCodec
      demoConfig demoStart) interleavedSends).isSome := by
    decide +kernel
  obtain ⟨⟨s,out⟩,hrun⟩ := Option.isSome_iff_exists.mp hsome
  exact ⟨s,out,hrun,locked_calls_atomic hrun⟩

theorem atomic_calls_locked_serveSend : ∃ d' out,
    run (step demoPages demoCodec demoConfig) demoStart serveSend = some (d',out) ∧
    ∃ moves, run (lockedStep demoPages demoCodec demoConfig) (unlocked demoPages demoCodec
      demoConfig demoStart) moves = some (unlocked demoPages demoCodec demoConfig d',out) := by
  obtain ⟨d',out,hrun,-⟩ := serveSend_runs
  exact ⟨d',out,hrun,atomic_calls_locked hrun⟩

end Demo
end Tracewulf.Exporter
