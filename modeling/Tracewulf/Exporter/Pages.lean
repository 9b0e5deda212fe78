import Tracewulf.Ebpf.RecordLine
import Tracewulf.Exporter.WebServer

/-! The two pages as `json.Marshal` writes them, with the scanner that says what they are. Whatever
the names of the flows are and whatever has been recorded, a page that is served is one value of
JSON, an object with the members of its type. -/
namespace Tracewulf.Exporter
open Tracewulf.Base Tracewulf.Ebpf Tracewulf.Json Tracewulf.K8s

section Encoding

variable {κ : Type} (floats : FloatCodec κ)

/-- A `string` with `omitempty`. -/
def omitEmpty (name value : String) : List (Bytes × Bytes) :=
  if value = "" then [] else [(escaped name,appendString value)]

def boolWord (b : Bool) : Word := if b then .true else .false

/-- The members of a flow as they are written. -/
def flowMembers (f : FlowSummary κ) (cost : Bytes) : List (Bytes × Bytes) :=
  (escaped "flow",appendString f.flow)::
   ([(escaped "class",appendString f.cls),
     (escaped "count",appendUint f.count.toNat),
     (escaped "bytes",appendUint f.bytes.toNat),
     (escaped "last_seen",appendString f.lastSeen)] ++
    omitEmpty "src_zone" f.srcZone ++ omitEmpty "dst_zone" f.dstZone ++
    [(escaped "cross_az",(boolWord f.crossAZ).letters),
     (escaped "cost_usd",cost)])

/-- What is written of a value with the tokens it is read as. -/
abbrev Written := Bytes × List Token

def writeStruct (ms : List (Bytes × Bytes)) : Written :=
  (structEncoder ms,.mark .beginObject::objectTokens ms)

def writeFlow (f : FlowSummary κ) : Option Written :=
  (floats.format f.costUSD).map fun cost => writeStruct (flowMembers f cost)

def writeRecord (r : IntervalRecord κ) : Option Written :=
  (floats.format r.totalCostUSD).map fun cost => writeStruct (recordMembers r cost)

/-- The members of a snapshot before its flows. -/
def snapshotMembers (s : Snapshot κ) (total rate : Bytes) : List (Bytes × Bytes) :=
  [(escaped "timestamp",appendString s.timestamp),
   (escaped "exec_events",appendUint s.execEvents.toNat),
   (escaped "unique_flows",appendInt s.flowCount),
   (escaped "total_bytes",appendUint s.totalBytes.toNat),
   (escaped "cross_az_bytes",appendUint s.crossAZBytes.toNat),
   (escaped "total_cost_usd",total),
   (escaped "cost_per_gb_usd",rate)]

/-- The members of a summary before its intervals. -/
def summaryMembers (h : HistorySummary κ) (cost : Bytes) : List (Bytes × Bytes) :=
  [(escaped "since",appendString h.since),
   (escaped "cumulative_bytes",appendUint h.cumulativeBytes.toNat),
   (escaped "cumulative_cross_az_bytes",appendUint h.cumulativeCrossAZ.toNat),
   (escaped "cumulative_cost_usd",cost)]

/-- A struct whose last field is a slice of structs. -/
def writeWithSlice (ms : List (Bytes × Bytes)) (name : String) (xs : List Written) : Written :=
  (structEncoder (ms ++ [(escaped name,arrayEncoder (xs.map Prod.fst))]),
   .mark .beginObject::objectTokensBy
    (fun m => if m.1 = escaped name then arrayTokens (xs.map Prod.snd) else [.literal m.2])
    (ms ++ [(escaped name,arrayEncoder (xs.map Prod.fst))]))

def writeSnapshot (s : Snapshot κ) : Option Written := do
  let total ← floats.format s.totalCostUSD
  let rate ← floats.format s.costPerGB
  let flows ← s.flows.mapM (writeFlow floats)
  return writeWithSlice (snapshotMembers s total rate) "flows" flows

def writeSummary (h : HistorySummary κ) : Option Written := do
  let cost ← floats.format h.cumulativeCostUSD
  let intervals ← h.intervals.mapM (writeRecord floats)
  return writeWithSlice (summaryMembers h cost) "intervals" intervals

/-- `json.Marshal` at the two pages. -/
def jsonPages : PageCodec κ where
  snapshot s := (writeSnapshot floats s).map Prod.fst
  summary h := (writeSummary floats h).map Prod.fst

end Encoding

section Valid

variable {κ : Type} {floats : FloatCodec κ} {ms : List (Bytes × Bytes)} {name : String}
  {xs : List Written} {w : Written} {cost : Bytes}

lemma plain_string (name value : String) : Plain (escaped name,appendString value) :=
  ⟨inString_escaped _,isLiteral_appendString _⟩

lemma plain_uint (name : String) (n : ℕ) : Plain (escaped name,appendUint n) :=
  ⟨inString_escaped _,(isNumber_appendUint n).isLiteral⟩

lemma plain_int (name : String) (n : ℤ) : Plain (escaped name,appendInt n) :=
  ⟨inString_escaped _,(isNumber_appendInt n).isLiteral⟩

lemma plain_number (name : String) (h : IsNumber cost) : Plain (escaped name,cost) :=
  ⟨inString_escaped _,h.isLiteral⟩

lemma plain_omitEmpty (name value : String) : ∀ m ∈ omitEmpty name value, Plain m := by
  rw [omitEmpty]
  split_ifs
  · exact List.forall_mem_nil _
  · exact List.forall_mem_singleton.mpr (plain_string name value)

lemma plain_flowMembers (f : FlowSummary κ) (h : IsNumber cost) :
    ∀ m ∈ flowMembers f cost, Plain m := by
  have hbool : Plain (escaped "cross_az",(boolWord f.crossAZ).letters) :=
    ⟨inString_escaped _,isLiteral_letters _⟩
  simp only [flowMembers, List.forall_mem_cons, List.forall_mem_append, List.not_mem_nil,
    false_imp_iff, implies_true, and_true]
  exact ⟨plain_string _ _,⟨⟨⟨plain_string _ _,plain_uint _ _,plain_uint _ _,plain_string _ _⟩,
    plain_omitEmpty _ _⟩,plain_omitEmpty _ _⟩,hbool,plain_number _ h⟩

/-- A text that begins with a brace, and the value it is read as. -/
structure IsObject (depth : ℕ) (w : Written) : Prop where
  value : IsValue depth w.1 w.2
  first : ∃ rest, w.1 = 123::rest

lemma isObject_writeStruct {m : Bytes × Bytes} (h : ∀ x ∈ m::ms, Plain x) :
    IsObject 1 (writeStruct (m::ms)) :=
  ⟨isValue_structEncoder fun x hx => (h x hx).valued,_,rfl⟩

/-- A struct is an object where its slice is one of objects. -/
lemma isObject_writeWithSlice {m : Bytes × Bytes} {depth : ℕ} (h : ∀ x ∈ m::ms, Plain x)
    (hname : ∀ x ∈ m::ms, x.1 ≠ escaped name) (hxs : ∀ x ∈ xs, IsObject depth x) :
    IsObject (depth + 2) (writeWithSlice (m::ms) name xs) := by
  refine ⟨isValue_structEncoder fun x hx => ?_,_,rfl⟩
  have hmem : x ∈ (m::ms) ++ [(escaped name,arrayEncoder (xs.map Prod.fst))] := hx
  rcases List.mem_append.mp hmem with hx | hx
  · refine ⟨(h x hx).1,?_⟩
    dsimp only
    rw [if_neg (hname x hx)]
    exact (h x hx).2.isValue _
  · obtain rfl := List.mem_singleton.mp hx
    refine ⟨inString_escaped name,?_⟩
    dsimp only
    rw [if_pos rfl]
    refine isValue_arrayEncoder (fun x hx => (hxs x hx).value) fun x hx => ?_
    obtain ⟨rest,hrest⟩ := (hxs x hx).first
    exact ⟨123,rest,hrest,rfl⟩

lemma isObject_writeFlow (hf : floats.Lawful) {f : FlowSummary κ}
    (h : writeFlow floats f = some w) : IsObject 1 w := by
  obtain ⟨cost,hcost,rfl⟩ := Option.map_eq_some_iff.mp h
  exact isObject_writeStruct (plain_flowMembers f (hf.number _ _ hcost))

lemma isObject_writeRecord (hf : floats.Lawful) {r : IntervalRecord κ}
    (h : writeRecord floats r = some w) : IsObject 1 w := by
  obtain ⟨cost,hcost,rfl⟩ := Option.map_eq_some_iff.mp h
  exact isObject_writeStruct (plain_recordMembers (hf.number _ _ hcost))

lemma forall_of_mapM {α : Type} {write : α → Option Written} {as : List α} {ws : List Written}
    {P : Written → Prop} (hP : ∀ a w, write a = some w → P w) (h : as.mapM write = some ws) :
    ∀ w ∈ ws, P w := by
  induction as generalizing ws with
  | nil =>
    cases h
    exact List.forall_mem_nil _
  | cons a as ih =>
    rw [List.mapM_cons] at h
    obtain ⟨w,hw,hrest⟩ := Option.bind_eq_some_iff.mp h
    obtain ⟨ws',hws,heq⟩ := Option.bind_eq_some_iff.mp hrest
    cases heq
    exact List.forall_mem_cons.mpr ⟨hP a w hw,ih hws⟩

theorem isObject_writeSnapshot (hf : floats.Lawful) {s : Snapshot κ}
    (h : writeSnapshot floats s = some w) : IsObject 3 w := by
  obtain ⟨total,htotal,hrest⟩ := Option.bind_eq_some_iff.mp h
  obtain ⟨rate,hrate,hrest⟩ := Option.bind_eq_some_iff.mp hrest
  obtain ⟨flows,hflows,heq⟩ := Option.bind_eq_some_iff.mp hrest
  cases heq
  refine isObject_writeWithSlice ?_ ?_
    (forall_of_mapM (fun f w hw => isObject_writeFlow hf hw) hflows)
  · simp only [List.forall_mem_cons, List.not_mem_nil, false_imp_iff, implies_true, and_true]
    exact ⟨plain_string _ _,plain_uint _ _,plain_int _ _,plain_uint _ _,plain_uint _ _,
      plain_number _ (hf.number _ _ htotal),plain_number _ (hf.number _ _ hrate)⟩
  · simp only [List.forall_mem_cons, List.not_mem_nil, false_imp_iff, implies_true, and_true]
    decide

theorem isObject_writeSummary (hf : floats.Lawful) {h : HistorySummary κ}
    (hw : writeSummary floats h = some w) : IsObject 3 w := by
  obtain ⟨cost,hcost,hrest⟩ := Option.bind_eq_some_iff.mp hw
  obtain ⟨intervals,hintervals,heq⟩ := Option.bind_eq_some_iff.mp hrest
  cases heq
  refine isObject_writeWithSlice ?_ ?_
    (forall_of_mapM (fun r w hw => isObject_writeRecord hf hw) hintervals)
  · simp only [List.forall_mem_cons, List.not_mem_nil, false_imp_iff, implies_true, and_true]
    exact ⟨plain_string _ _,plain_uint _ _,plain_uint _ _,plain_number _ (hf.number _ _ hcost)⟩
  · simp only [List.forall_mem_cons, List.not_mem_nil, false_imp_iff, implies_true, and_true]
    decide

/-- A page that was written is one value, with the tokens of the object that was written. -/
lemma IsObject.checkValid {depth : ℕ} (h : IsObject depth w) (hdepth : depth ≤ maxNestingDepth) :
    checkValid w.1 = some w.2 := h.value.checkValid hdepth

lemma checkValid_noSnapshot : (checkValid noSnapshot).isSome := by decide +kernel

lemma checkValid_historyError : (checkValid historyError).isSome := by decide +kernel

end Valid

section Responses

variable {κ : Type} [CostNum κ] {floats : FloatCodec κ} {codec : Codec κ} {cfg : Config κ}
  {cache : Cache} {history : HistoryStore κ} {disk : Bytes} {turns : List Turn} {d : Daemon κ}
  {pre post : List (Shown κ)} {r : Request} {body : Bytes}

/-- A summary of the log the store was opened on and of the snapshots published, in order, all but
at most the last. -/
def Reports (since : String) (found : List (IntervalRecord κ)) (shown : List (Snapshot κ))
    (h : HistorySummary κ) : Prop :=
  ∃ recorded late, shown = recorded ++ late ∧ late.length ≤ 1 ∧
    SumsUp since (found ++ recorded.map Snapshot.toRecord) h

/-- What is served to a request, and what it is read as, once the snapshots `shown` have been
published: the last of them that could be marshalled, or the history with them. -/
inductive Serving (floats : FloatCodec κ) (since : String) (found : List (IntervalRecord κ))
    (shown : List (Snapshot κ)) : Request → Bytes → List Token → Prop
  | noSnapshot (toks : List Token) (hnone : ∀ s ∈ shown, writeSnapshot floats s = none) :
      Serving floats since found shown .snapshot noSnapshot toks
  | snapshot (w : Written) (hlast : (shown.filterMap (writeSnapshot floats)).getLast? = some w) :
      Serving floats since found shown .snapshot w.1 w.2
  | historyError (toks : List Token) (h : HistorySummary κ) (hh : Reports since found shown h)
      (hnone : writeSummary floats h = none) :
      Serving floats since found shown .history historyError toks
  | summary (h : HistorySummary κ) (hh : Reports since found shown h) (w : Written)
      (hw : writeSummary floats h = some w) : Serving floats since found shown .history w.1 w.2

/-- In every run of the daemon with its server, whatever was recorded under whatever names: a body
that is served is one value of JSON. It is read as the object that was written of the last published
snapshot that could be marshalled, or of a summary of the history; where there is none to be had it
is one of the two constants. -/
theorem responses_valid {rfc3339 : Time → String} {path : String} {existing : Option Bytes}
    {opened : Time} (hf : floats.Lawful)
    (hopen : newHistoryStore codec rfc3339 path existing (.ok ()) opened = .ok history)
    (hrun : run (step (jsonPages floats) codec cfg) (Daemon.start cache history disk) turns =
      some (d,pre ++ .response r body::post)) :
    ∃ toks, checkValid body = some toks ∧ Serving floats history.since
      (counted codec (existing.getD [])) (published pre) r body toks := by
  obtain ⟨before,t,hbefore,rfl⟩ := handled_of_run hrun
  have hpages := pages_of_run hbefore
  cases r with
  | snapshot =>
    have hwritten : (published pre).filterMap (jsonPages floats).snapshot =
        ((published pre).filterMap (writeSnapshot floats)).map Prod.fst :=
      List.map_filterMap.symm
    rw [handler, Stats.latestJSON, hpages.latest, hwritten, List.getLast?_map]
    cases hlast : ((published pre).filterMap (writeSnapshot floats)).getLast? with
    | none =>
      obtain ⟨toks,htoks⟩ := Option.isSome_iff_exists.mp checkValid_noSnapshot
      have hnone := List.filterMap_eq_nil_iff.mp (List.getLast?_eq_none_iff.mp hlast)
      exact ⟨toks,htoks,.noSnapshot toks hnone⟩
    | some w =>
      obtain ⟨s,-,hw⟩ := List.mem_filterMap.mp (List.mem_of_getLast? hlast)
      exact ⟨w.2,(isObject_writeSnapshot hf hw).checkValid (by decide),.snapshot w hlast⟩
  | history =>
    obtain ⟨htallies,-⟩ := tallies_newHistoryStore hopen
    have hreports : Reports history.since (counted codec (existing.getD [])) (published pre)
        t.history.summary := by
      refine ⟨_,_,hpages.handed,?_,?_⟩
      · cases t.reporter.unrecorded <;> simp
      · rw [← hpages.since]
        exact (hpages.tallies _ htallies).sumsUp
    rw [handler, HistoryStore.historyJSON]
    cases hsummary : writeSummary floats t.history.summary with
    | none =>
      obtain ⟨toks,htoks⟩ := Option.isSome_iff_exists.mp checkValid_historyError
      refine ⟨toks,?_,?_⟩
      · simpa [jsonPages, hsummary] using htoks
      · simpa [jsonPages, hsummary] using .historyError toks _ hreports hsummary
    | some w =>
      refine ⟨w.2,?_,?_⟩
      · simpa [jsonPages, hsummary] using
          (isObject_writeSummary hf hsummary).checkValid (by decide)
      · simpa [jsonPages, hsummary] using .summary _ hreports w hsummary

lemma serveSend_runs_json : ∃ d tr,
    run (step (jsonPages wholeFloats) demoCodec demoConfig) demoStart serveSend = some (d,tr) ∧
      tr.map Shown.request? =
        [none,some .history,none,none,some .snapshot,none,some .history] := by
  have hview : ((run (step (jsonPages wholeFloats) demoCodec demoConfig) demoStart serveSend).map
      fun r => r.2.map Shown.request?) =
      some [none,some .history,none,none,some .snapshot,none,some .history] := by
    decide +kernel
  obtain ⟨⟨d,tr⟩,hrun,heq⟩ := Option.map_eq_some_iff.mp hview
  exact ⟨d,tr,hrun,heq⟩

theorem responses_valid_serveSend : ∃ d pre body post,
    run (step (jsonPages wholeFloats) demoCodec demoConfig) demoStart serveSend =
      some (d,pre ++ .response .history body::post) ∧
    ∃ toks, checkValid body = some toks ∧ Serving wholeFloats demoStart.history.since
      (counted demoCodec []) (published pre) .history body toks := by
  obtain ⟨d,tr,hrun,hshape⟩ := serveSend_runs_json
  have hsplit : tr.map Shown.request? =
      [none,some .history,none,none,some .snapshot,none] ++ some .history::[] := hshape
  obtain ⟨pre,body,post,rfl,-,-⟩ := exists_response hsplit
  exact ⟨d,pre,body,post,hrun,responses_valid wholeFloats_lawful demoStart_opened hrun⟩

end Responses
end Tracewulf.Exporter
