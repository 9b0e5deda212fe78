import Tracewulf.Bpf.Tracer

/-! Entry and exit probes of unboundedly many threads, interleaved at will. A thread's key is
touched by that thread's own probes of that function only, so at an exit it holds the socket of
the entry before it or, when the map was full, nothing at all. -/
namespace Tracewulf.Bpf
open Tracewulf.Base

namespace Probe

/-- The watched function a probe belongs to. -/
def watched : Probe → Option Watched
  | tcpConnectEntry _ | tcpConnectExit _ => some .connect
  | tcpRecvmsgEntry _ | tcpRecvmsgExit _ => some .recvmsg
  | execve | tcpSendmsg _ _ => none

def entry? : Probe → Option (Watched × Sock)
  | tcpConnectEntry sk => some (.connect,sk)
  | tcpRecvmsgEntry sk => some (.recvmsg,sk)
  | _ => none

def exit? : Probe → Option (Watched × Int32)
  | tcpConnectExit ret => some (.connect,ret)
  | tcpRecvmsgExit ret => some (.recvmsg,ret)
  | _ => none

end Probe

/-- The hit is on thread `tid` and belongs to `fn`. -/
def Hit.On (h : Hit) (tid : UInt64) (fn : Watched) : Prop :=
  h.ctx.pidTgid = tid ∧ h.probe.watched = some fn

/-- Before `x`, the last hit on its thread belonging to `fn` is the entry with socket `sk`. -/
structure OwnEntry (pre : List Hit) (x : Hit) (fn : Watched) (before : List Hit) (entry : Hit)
    (sk : Sock) (between : List Hit) : Prop where
  split : pre = before ++ entry::between
  thread : entry.ctx.pidTgid = x.ctx.pidTgid
  isEntry : entry.probe.entry? = some (fn,sk)
  none_between : ∀ h ∈ between, ¬ h.On x.ctx.pidTgid fn

/-- Every exit seen is directly preceded, among its thread's hits of that function, by an entry.
Entries whose exit is never seen are allowed. -/
def Paired (hits : List Hit) : Prop :=
  ∀ pre x post fn ret, hits = pre ++ x::post → x.probe.exit? = some (fn,ret) →
    ∃ before entry sk between, OwnEntry pre x fn before entry sk between

def Watched.eventType : Watched → UInt8
  | .connect => EventType.connect
  | .recvmsg => EventType.recv

/-- The return values that make the exit probe report the call. -/
def Watched.Succeeded : Watched → Int32 → Prop
  | .connect, ret => ret = 0
  | .recvmsg, ret => 0 < ret

/-- `e` reports the call of `fn` on `sk` that returned `ret` on the thread of `ctx`. -/
structure Reports (fn : Watched) (ctx : Ctx) (sk : Sock) (ret : Int32) (e : Event) : Prop where
  pid : e.pid = (ctx.pidTgid >>> 32).toUInt32
  srcIp : e.srcIp = (ctx.sockCommon sk).skcRcvSaddr
  dstIp : e.dstIp = (ctx.sockCommon sk).skcDaddr
  srcPort : e.srcPort = (ctx.sockCommon sk).skcNum
  dstPort : e.dstPort = (ctx.sockCommon sk).skcDport
  succeeded : fn.Succeeded ret
  bytes : fn = .recvmsg → (e.bytes.toNat : ℤ) = ret.toInt

/-- The return values on which each exit probe gives up. -/
def Watched.failed : Watched → Int32 → Bool
  | .connect => fun ret => ret != 0
  | .recvmsg => fun ret => ret ≤ 0

/-- The byte count each exit probe reports. -/
def Watched.bytes : Watched → Int32 → UInt64
  | .connect => fun _ => 0
  | .recvmsg => fun ret => ret.toInt64.toUInt64

lemma fire_entry {h : Hit} {fn : Watched} {sk : Sock} (he : h.probe.entry? = some (fn,sk))
    (k : Kernel) : fire k h = handleEntry fn h.ctx sk k := by
  obtain ⟨ctx,probe⟩ := h
  cases probe <;> cases he <;> rfl

lemma fire_exit {h : Hit} {fn : Watched} {ret : Int32} (hx : h.probe.exit? = some (fn,ret))
    (k : Kernel) :
    fire k h = handleExit fn fn.failed fn.bytes fn.eventType h.ctx ret k := by
  obtain ⟨ctx,probe⟩ := h
  cases probe <;> cases hx <;> rfl

lemma Watched.succeeded_of_not_failed {fn : Watched} {ret : Int32} (h : fn.failed ret = false) :
    fn.Succeeded ret := by
  cases fn <;> simpa [Watched.failed, Watched.Succeeded] using h

/-- A positive `int` keeps its value when widened to `__u64`. -/
lemma toNat_widen {ret : Int32} (h : 0 < ret) : (ret.toInt64.toUInt64.toNat : ℤ) = ret.toInt := by
  have hpos : 0 < ret.toInt := by simpa [Int32.lt_iff_toInt_lt] using h
  have hwide : ret.toInt64.toBitVec.toInt = ret.toInt := Int32.toInt_toInt64 ret
  have hlt := ret.toInt64.toBitVec.isLt
  change (ret.toInt64.toBitVec.toNat : ℤ) = ret.toInt
  rw [← hwide, BitVec.toInt_eq_toNat_cond] at hpos ⊢
  split_ifs at hpos ⊢ <;> omega

section Exit

variable (fn : Watched) (failed : Int32 → Bool) (bytes : Int32 → UInt64) (type : UInt8)
  (ctx : Ctx) (ret : Int32) (k : Kernel)

/-- The exit reports the socket it finds under the thread's id, and nothing otherwise. -/
lemma handleExit_events : (handleExit fn failed bytes type ctx ret k).events = k.events ++
    ((k.map fn).lookup ctx.pidTgid).elim [] fun sk =>
      if failed ret = false ∧ ctx.reserved = true then [sockEvent ctx sk (bytes ret) type]
      else [] := by
  unfold handleExit
  cases (k.map fn).lookup ctx.pidTgid with
  | none => simp
  | some sk =>
    cases failed ret <;> cases hr : ctx.reserved <;> simp [hr, Kernel.submit]

lemma handleExit_lookup_self :
    ((handleExit fn failed bytes type ctx ret k).map fn).lookup ctx.pidTgid = none := by
  unfold handleExit
  cases hl : (k.map fn).lookup ctx.pidTgid with
  | none => exact hl
  | some sk => cases failed ret <;> simp

lemma handleExit_lookup_other {gn : Watched} {tid : UInt64} (h : gn ≠ fn ∨ tid ≠ ctx.pidTgid) :
    ((handleExit fn failed bytes type ctx ret k).map gn).lookup tid = (k.map gn).lookup tid := by
  have hmap : ((k.setMap ((k.map fn).delete ctx.pidTgid) fn).map gn).lookup tid =
      (k.map gn).lookup tid := by
    by_cases hg : gn = fn
    · subst hg
      rw [Kernel.map_setMap_self, BoundedMap.lookup_delete_of_ne _ (h.resolve_left (by simp))]
    · rw [Kernel.map_setMap_of_ne k _ hg]
  unfold handleExit
  cases (k.map fn).lookup ctx.pidTgid with
  | none => rfl
  | some sk => cases failed ret <;> simpa using hmap

end Exit

lemma handleEntry_lookup_other (fn : Watched) (ctx : Ctx) (sk : Sock) (k : Kernel) {gn : Watched}
    {tid : UInt64} (h : gn ≠ fn ∨ tid ≠ ctx.pidTgid) :
    ((handleEntry fn ctx sk k).map gn).lookup tid = (k.map gn).lookup tid := by
  unfold handleEntry
  by_cases hg : gn = fn
  · subst hg
    rw [Kernel.map_setMap_self, BoundedMap.lookup_update_of_ne _ _ (h.resolve_left (by simp))]
  · rw [Kernel.map_setMap_of_ne k _ hg]

/-- After an entry the thread's key holds the socket just passed, or was refused by a full map. -/
lemma handleEntry_lookup_self (fn : Watched) (ctx : Ctx) (sk : Sock) (k : Kernel) :
    ((handleEntry fn ctx sk k).map fn).lookup ctx.pidTgid = some sk ∨
      ((handleEntry fn ctx sk k).map fn).lookup ctx.pidTgid = none := by
  unfold handleEntry
  rw [Kernel.map_setMap_self]
  exact BoundedMap.lookup_update_self _ _ sk

/-- No other thread's probe, and no probe of another function, touches the key. -/
lemma fire_lookup_of_not_on (k : Kernel) (h : Hit) {tid : UInt64} {fn : Watched}
    (ho : ¬ h.On tid fn) : ((fire k h).map fn).lookup tid = (k.map fn).lookup tid := by
  have hne : ∀ gn, h.probe.watched = some gn → fn ≠ gn ∨ tid ≠ h.ctx.pidTgid := by
    intro gn hg
    by_contra hc
    obtain ⟨rfl,rfl⟩ := not_or.mp hc |>.imp not_not.mp not_not.mp
    exact ho ⟨rfl,hg⟩
  obtain ⟨ctx,probe⟩ := h
  cases probe with
  | execve => simp [fire, handleExec]
  | tcpConnectEntry sk => exact handleEntry_lookup_other _ _ _ k (hne _ rfl)
  | tcpConnectExit ret => exact handleExit_lookup_other _ _ _ _ _ _ k (hne _ rfl)
  | tcpSendmsg sk size => simp [fire, handleTcpSendmsg]
  | tcpRecvmsgEntry sk => exact handleEntry_lookup_other _ _ _ k (hne _ rfl)
  | tcpRecvmsgExit ret => exact handleExit_lookup_other _ _ _ _ _ _ k (hne _ rfl)

lemma trace_lookup_of_not_on (k : Kernel) (hits : List Hit) {tid : UInt64} {fn : Watched}
    (ho : ∀ h ∈ hits, ¬ h.On tid fn) :
    ((trace k hits).map fn).lookup tid = (k.map fn).lookup tid := by
  induction hits generalizing k with
  | nil => rfl
  | cons h hits ih =>
    have htail := ih (fire k h) (fun g hg => ho g (List.mem_cons_of_mem h hg))
    exact htail.trans (fire_lookup_of_not_on k h (ho h List.mem_cons_self))

/-- At an exit the thread's key holds the socket of its own entry, or nothing. -/
lemma OwnEntry.lookup {pre between before : List Hit} {x entry : Hit} {fn : Watched} {sk : Sock}
    (o : OwnEntry pre x fn before entry sk between) (k : Kernel) :
    ((trace k pre).map fn).lookup x.ctx.pidTgid = some sk ∨
      ((trace k pre).map fn).lookup x.ctx.pidTgid = none := by
  have hsplit : trace k pre = trace (fire (trace k before) entry) between := by
    rw [o.split]
    simp [trace]
  rw [hsplit, trace_lookup_of_not_on _ _ o.none_between, ← o.thread, fire_entry o.isEntry]
  exact handleEntry_lookup_self fn entry.ctx sk _

/-- What an exit probe would report about the call is a true report of it. -/
lemma sockEvent_reports (fn : Watched) (ctx : Ctx) (sk : Sock) {ret : Int32}
    (h : fn.failed ret = false) :
    Reports fn ctx sk ret (sockEvent ctx sk (fn.bytes ret) fn.eventType) where
  pid := rfl
  srcIp := rfl
  dstIp := rfl
  srcPort := rfl
  dstPort := rfl
  succeeded := Watched.succeeded_of_not_failed h
  bytes := by
    rintro rfl
    exact toNat_widen (Watched.succeeded_of_not_failed h)

lemma exec_ne_eventType (fn : Watched) : EventType.exec ≠ fn.eventType := by cases fn <;> decide

lemma send_ne_eventType (fn : Watched) : EventType.send ≠ fn.eventType := by cases fn <;> decide

lemma eventType_injective : Function.Injective Watched.eventType := by
  intro fn gn h
  cases fn <;> cases gn <;> first | rfl | exact absurd h (by decide)

/-- What one hit adds to the ring buffer: nothing at an entry, at most one event anywhere, and a
connect or recvmsg event only at an exit of that function, read from the socket parked under the
thread's id. -/
structure Adds (k : Kernel) (h : Hit) (out : List Event) : Prop where
  events : (fire k h).events = k.events ++ out
  length_le : out.length ≤ 1
  entry : ∀ fn sk, h.probe.entry? = some (fn,sk) → out = []
  reports : ∀ e ∈ out, ∀ fn : Watched, e.type = fn.eventType → ∃ ret sk,
    h.probe.exit? = some (fn,ret) ∧ (k.map fn).lookup h.ctx.pidTgid = some sk ∧
      Reports fn h.ctx sk ret e

lemma adds_entry (k : Kernel) {h : Hit} {fn : Watched} {sk : Sock}
    (he : h.probe.entry? = some (fn,sk)) : Adds k h [] where
  events := by rw [fire_entry he, handleEntry, Kernel.events_setMap, List.append_nil]
  length_le := by simp
  entry := fun _ _ _ => rfl
  reports := by simp

lemma adds_exit (k : Kernel) {h : Hit} {fn : Watched} {ret : Int32}
    (hx : h.probe.exit? = some (fn,ret)) : ∃ out, Adds k h out := by
  have hev := handleExit_events fn fn.failed fn.bytes fn.eventType h.ctx ret k
  rw [← fire_exit hx] at hev
  refine ⟨_,hev,?_,?_,?_⟩
  · cases (k.map fn).lookup h.ctx.pidTgid with
    | none => simp
    | some sk => simp only [Option.elim_some]; split_ifs <;> simp
  · intro gn sk he
    obtain ⟨ctx,probe⟩ := h
    cases probe <;> simp [Probe.entry?, Probe.exit?] at he hx
  · intro e he gn hg
    cases hl : (k.map fn).lookup h.ctx.pidTgid with
    | none => simp [hl] at he
    | some sk =>
      simp only [hl, Option.elim_some] at he
      split_ifs at he with hc
      · obtain rfl : e = sockEvent h.ctx sk (fn.bytes ret) fn.eventType := by simpa using he
        obtain rfl : fn = gn := eventType_injective hg
        exact ⟨ret,sk,hx,hl,sockEvent_reports fn h.ctx sk hc.1⟩
      · simp at he

/-- A hit outside the watched functions reports itself, under a type that is not theirs. -/
lemma adds_submit (k : Kernel) {h : Hit} {e : Event} (hf : fire k h = k.submit h.ctx e)
    (hn : h.probe.entry? = none) (he : ∀ fn : Watched, e.type ≠ fn.eventType) :
    ∃ out, Adds k h out := by
  refine ⟨_,by rw [hf, Kernel.events_submit],?_,?_,?_⟩
  · split_ifs <;> simp
  · intro fn sk hs
    rw [hn] at hs
    cases hs
  · intro e' he' fn ht
    split_ifs at he' with hr
    · obtain rfl : e' = e := by simpa using he'
      exact absurd ht (he fn)
    · simp at he'

theorem exists_adds (k : Kernel) (h : Hit) : ∃ out, Adds k h out := by
  obtain ⟨ctx,probe⟩ := h
  cases probe with
  | execve => exact adds_submit k rfl rfl exec_ne_eventType
  | tcpConnectEntry sk => exact ⟨[],adds_entry k rfl⟩
  | tcpConnectExit ret => exact adds_exit k rfl
  | tcpSendmsg sk size => exact adds_submit k rfl rfl send_ne_eventType
  | tcpRecvmsgEntry sk => exact ⟨[],adds_entry k rfl⟩
  | tcpRecvmsgExit ret => exact adds_exit k rfl

/-- What pairing promises about the hit `x` after the hits `pre`, from the maps of `k₀`. -/
structure PairedHit (k₀ : Kernel) (pre : List Hit) (x : Hit) : Prop where
  /-- at most one event, none at an entry, and reports of the exiting call alone -/
  emits : ∃ out : List Event, (fire (trace k₀ pre) x).events = (trace k₀ pre).events ++ out ∧
    out.length ≤ 1 ∧ (∀ fn sk, x.probe.entry? = some (fn,sk) → out = []) ∧
    ∀ e ∈ out, ∀ fn : Watched, e.type = fn.eventType →
      ∃ ret before entry sk between, x.probe.exit? = some (fn,ret) ∧
        OwnEntry pre x fn before entry sk between ∧ Reports fn x.ctx sk ret e
  /-- an exit clears its thread's key from its function's map -/
  clears : ∀ fn ret, x.probe.exit? = some (fn,ret) →
    ((fire (trace k₀ pre) x).map fn).lookup x.ctx.pidTgid = none
  /-- and leaves every other key of both maps as it was -/
  frame : ∀ fn ret, x.probe.exit? = some (fn,ret) → ∀ gn tid, gn ≠ fn ∨ tid ≠ x.ctx.pidTgid →
    ((fire (trace k₀ pre) x).map gn).lookup tid = ((trace k₀ pre).map gn).lookup tid

/-- In every interleaving whose exits have their own entries, from any content of the maps and
whatever reservations fail, a connect or recvmsg event is added by that function's exit alone, on
the exiting thread, from the socket its own entry was given, and for a successful call only. -/
theorem probe_pairing (k₀ : Kernel) (hits : List Hit) (hp : Paired hits) (pre : List Hit) (x : Hit)
    (post : List Hit) (hsplit : hits = pre ++ x::post) : PairedHit k₀ pre x where
  emits := by
    obtain ⟨out,ha⟩ := exists_adds (trace k₀ pre) x
    refine ⟨out,ha.events,ha.length_le,ha.entry,fun e he fn ht => ?_⟩
    obtain ⟨ret,sk,hx,hl,hr⟩ := ha.reports e he fn ht
    obtain ⟨before,entry,own,between,ho⟩ := hp pre x post fn ret hsplit hx
    -- the key holds the own entry's socket or nothing, and a socket was found
    rcases ho.lookup k₀ with hown | hnone
    · obtain rfl : own = sk := Option.some.inj (hown.symm.trans hl)
      exact ⟨ret,before,entry,own,between,hx,ho,hr⟩
    · rw [hnone] at hl
      cases hl
  clears fn ret hx := by
    rw [fire_exit hx]
    exact handleExit_lookup_self _ _ _ _ _ _ _
  frame fn ret hx gn tid h := by
    rw [fire_exit hx]
    exact handleExit_lookup_other _ _ _ _ _ _ _ h

/-- A thread whose socket memory shows the socket's own number as its peer. -/
def plainCtx (tid : UInt64) : Ctx where
  pidTgid := tid
  comm := fun _ => 0
  sockCommon sk := ⟨0,sk.toUInt32,0,0⟩
  reserved := true

/-- Two threads inside connect at once; the first to enter returns first. -/
def overlappingConnects : List Hit :=
  [⟨plainCtx 1,.tcpConnectEntry 100⟩,⟨plainCtx 2,.tcpConnectEntry 200⟩,
   ⟨plainCtx 1,.tcpConnectExit 0⟩]

lemma overlappingConnects_paired : Paired overlappingConnects := by
  intro pre x post fn ret h hx
  rcases pre with _ | ⟨a,_ | ⟨b,_ | ⟨c,pre⟩⟩⟩ <;>
    simp only [overlappingConnects, List.nil_append, List.cons_append, List.cons.injEq] at h
  · obtain ⟨rfl,-⟩ := h
    cases hx
  · obtain ⟨-,rfl,-⟩ := h
    cases hx
  · obtain ⟨rfl,rfl,rfl,-⟩ := h
    cases hx
    refine ⟨[],_,100,_,rfl,rfl,rfl,?_⟩
    simp [Hit.On, plainCtx]
  · simp at h

theorem probe_pairing_overlapping :
    PairedHit ⟨.empty,.empty,[]⟩ (overlappingConnects.take 2)
      ⟨plainCtx 1,.tcpConnectExit 0⟩ :=
  probe_pairing _ overlappingConnects overlappingConnects_paired _ _ [] rfl

end Tracewulf.Bpf
