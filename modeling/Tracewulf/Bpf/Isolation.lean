import Tracewulf.Base.Projection
import Tracewulf.Bpf.Submission

/-! Threads keep out of each other's way. What a thread's probes submit depends on its own keys of
the two maps; another thread can only keep a key out, by filling the map. As long as no more
threads are inside a watched function than the map has room for, not even that happens, and the
map holds just the calls in progress. -/
namespace Tracewulf.Bpf
open Tracewulf.Base

/-- The maps of the programs when they are loaded. -/
def Kernel.loaded : Kernel := ⟨.empty,.empty,[]⟩

def Hit.onThread (tid : UInt64) (h : Hit) : Bool := h.ctx.pidTgid = tid

/-- What a hit is to one of the watched functions. -/
inductive Role (fn : Watched) (h : Hit) : Prop
  | entry (sk : Sock) (he : h.probe.entry? = some (fn,sk))
  | exit (ret : Int32) (hx : h.probe.exit? = some (fn,ret))
  | other (hw : h.probe.watched ≠ some fn)

lemma role (fn : Watched) (h : Hit) : Role fn h := by
  obtain ⟨ctx,probe⟩ := h
  cases probe <;> cases fn
  case tcpConnectEntry.connect sk => exact .entry sk rfl
  case tcpConnectExit.connect ret => exact .exit ret rfl
  case tcpRecvmsgEntry.recvmsg sk => exact .entry sk rfl
  case tcpRecvmsgExit.recvmsg ret => exact .exit ret rfl
  all_goals exact .other (by simp [Probe.watched])

def enters (fn : Watched) (h : Hit) : Bool := h.probe.entry?.map Prod.fst = some fn
def leaves (fn : Watched) (h : Hit) : Bool := h.probe.exit?.map Prod.fst = some fn

def progress (fn : Watched) (threads : Finset UInt64) (h : Hit) : Finset UInt64 :=
  if enters fn h then insert h.ctx.pidTgid threads
  else if leaves fn h then threads.erase h.ctx.pidTgid
  else threads

/-- The threads that have entered the function and not come out of it. -/
def inProgress (fn : Watched) (hits : List Hit) : Finset UInt64 := hits.foldl (progress fn) ∅

section Progress

variable {fn : Watched} {h : Hit} {threads : Finset UInt64}

lemma progress_entry {sk : Sock} (he : h.probe.entry? = some (fn,sk)) :
    progress fn threads h = insert h.ctx.pidTgid threads := by
  simp [progress, enters, he]

lemma progress_exit {ret : Int32} (hx : h.probe.exit? = some (fn,ret)) :
    progress fn threads h = threads.erase h.ctx.pidTgid := by
  have hentry : h.probe.entry? = none := by
    obtain ⟨ctx,probe⟩ := h
    cases probe <;> cases hx <;> rfl
  simp [progress, enters, leaves, hentry, hx]

lemma progress_other (hw : h.probe.watched ≠ some fn) : progress fn threads h = threads := by
  have henters : enters fn h = false := by
    obtain ⟨ctx,probe⟩ := h
    cases probe <;> simp_all [enters, Probe.entry?, Probe.watched]
  have hleaves : leaves fn h = false := by
    obtain ⟨ctx,probe⟩ := h
    cases probe <;> simp_all [leaves, Probe.exit?, Probe.watched]
  simp [progress, henters, hleaves]

variable {k : Kernel}

lemma map_fire_entry {sk : Sock} (he : h.probe.entry? = some (fn,sk)) :
    (fire k h).map fn = (k.map fn).update h.ctx.pidTgid sk := by
  rw [fire_entry he, handleEntry, Kernel.map_setMap_self]

lemma keys_fire_exit {ret : Int32} (hx : h.probe.exit? = some (fn,ret)) :
    ((fire k h).map fn).keys = (k.map fn).keys.erase h.ctx.pidTgid := by
  ext tid
  rw [fire_exit hx, Finset.mem_erase, BoundedMap.mem_keys_iff, BoundedMap.mem_keys_iff]
  by_cases ht : tid = h.ctx.pidTgid
  · subst ht
    simp [handleExit_lookup_self]
  · rw [handleExit_lookup_other _ _ _ _ _ _ _ (.inr ht)]
    simp [ht]

lemma keys_fire_other (hw : h.probe.watched ≠ some fn) :
    ((fire k h).map fn).keys = (k.map fn).keys := by
  ext tid
  rw [BoundedMap.mem_keys_iff, BoundedMap.mem_keys_iff,
    fire_lookup_of_not_on k h (fun ho => hw ho.2)]

lemma keys_fire_subset (hk : (k.map fn).keys ⊆ threads) :
    ((fire k h).map fn).keys ⊆ progress fn threads h := by
  cases role fn h with
  | entry sk he =>
    rw [map_fire_entry he, progress_entry he]
    exact (BoundedMap.keys_update_subset _ _ _).trans (Finset.insert_subset_insert _ hk)
  | exit ret hx =>
    rw [keys_fire_exit hx, progress_exit hx]
    exact Finset.erase_subset_erase _ hk
  | other hw =>
    rw [keys_fire_other hw, progress_other hw]
    exact hk

/-- With room for all threads inside the function, its map has each of them and no other. -/
lemma keys_fire_eq (hk : (k.map fn).keys = threads)
    (hroom : (progress fn threads h).card ≤ 10240) :
    ((fire k h).map fn).keys = progress fn threads h := by
  cases role fn h with
  | entry sk he =>
    rw [progress_entry he] at hroom
    have hadmits : (k.map fn).Admits h.ctx.pidTgid :=
      BoundedMap.admits_of_card_insert_le (by rwa [hk])
    rw [map_fire_entry he, progress_entry he, BoundedMap.keys_update_of_admits hadmits, hk]
  | exit ret hx => rw [keys_fire_exit hx, progress_exit hx, hk]
  | other hw => rw [keys_fire_other hw, progress_other hw, hk]

end Progress

lemma keys_loaded (fn : Watched) : (Kernel.loaded.map fn).keys = ∅ := by
  cases fn <;> exact Finmap.keys_empty

/-- No more threads are ever inside a watched function than its map has room for. -/
def Few (hits : List Hit) : Prop :=
  ∀ fn pre, pre <+: hits → (inProgress fn pre).card ≤ 10240

lemma Few.mono {pre hits : List Hit} (h : Few hits) (hpre : pre <+: hits) : Few pre :=
  fun fn pre' hpre' => h fn pre' (hpre'.trans hpre)

lemma trace_append (hits : List Hit) (h : Hit) :
    trace .loaded (hits ++ [h]) = fire (trace .loaded hits) h := by
  simp [trace]

lemma inProgress_append (fn : Watched) (hits : List Hit) (h : Hit) :
    inProgress fn (hits ++ [h]) = progress fn (inProgress fn hits) h := by
  simp [inProgress]

lemma keys_subset_inProgress (fn : Watched) (hits : List Hit) :
    ((trace .loaded hits).map fn).keys ⊆ inProgress fn hits := by
  induction hits using List.reverseRecOn with
  | nil => exact (keys_loaded fn).subset
  | append_singleton hits h ih =>
    rw [trace_append, inProgress_append]
    exact keys_fire_subset ih

lemma keys_eq_inProgress {hits : List Hit} (fn : Watched) (hfew : Few hits) :
    ((trace .loaded hits).map fn).keys = inProgress fn hits := by
  induction hits using List.reverseRecOn with
  | nil => exact keys_loaded fn
  | append_singleton hits h ih =>
    have hroom := hfew fn _ List.prefix_rfl
    rw [inProgress_append] at hroom
    rw [trace_append, inProgress_append]
    exact keys_fire_eq (ih (hfew.mono (List.prefix_append _ _))) hroom

/-- After any hits, a map holds keys of calls in progress only, so it is empty when all calls have
returned; as long as there are not too many of them, it holds the keys of them all. -/
theorem maps_hold_calls_in_progress (fn : Watched) (hits : List Hit) :
    ((trace .loaded hits).map fn).keys ⊆ inProgress fn hits ∧
    (Few hits → ((trace .loaded hits).map fn).keys = inProgress fn hits) :=
  ⟨keys_subset_inProgress fn hits,keys_eq_inProgress fn⟩

section Threads

variable {k l : Kernel} {h : Hit} {tid : UInt64}

/-- What a hit submits, from what its thread's keys hold. -/
lemma submittedBy_cases (h : Hit) : (∃ out, ∀ k, submittedBy k h = out) ∨
    ∃ fn, ∃ report : Sock → List Event, ∀ k,
      submittedBy k h = ((k.map fn).lookup h.ctx.pidTgid).elim [] report := by
  have hsubmit : ∀ e, (∀ k, fire k h = k.submit h.ctx e) →
      ∀ k, submittedBy k h = if h.ctx.reserved then [e] else [] := by
    intro e hfire k
    rw [submittedBy, hfire, Kernel.events_submit, List.drop_left]
  have hentry : ∀ {fn sk}, h.probe.entry? = some (fn,sk) → ∀ k, submittedBy k h = [] :=
    fun he k => (adds_entry k he).submittedBy_eq
  have hexit : ∀ {fn ret}, h.probe.exit? = some (fn,ret) → ∃ report : Sock → List Event, ∀ k,
      submittedBy k h = ((k.map fn).lookup h.ctx.pidTgid).elim [] report := by
    intro fn ret hx
    refine ⟨fun sk => if fn.failed ret = false ∧ h.ctx.reserved = true then
      [sockEvent h.ctx sk (fn.bytes ret) fn.eventType] else [],fun k => ?_⟩
    rw [submittedBy, fire_exit hx, handleExit_events, List.drop_left]
  obtain ⟨ctx,probe⟩ := h
  cases probe with
  | execve => exact .inl ⟨_,hsubmit _ fun _ => rfl⟩
  | tcpConnectEntry sk => exact .inl ⟨_,hentry rfl⟩
  | tcpConnectExit ret => exact .inr ⟨.connect,hexit rfl⟩
  | tcpSendmsg sk size => exact .inl ⟨_,hsubmit _ fun _ => rfl⟩
  | tcpRecvmsgEntry sk => exact .inl ⟨_,hentry rfl⟩
  | tcpRecvmsgExit ret => exact .inr ⟨.recvmsg,hexit rfl⟩

/-- The maps have no keys but this thread's. -/
def Alone (tid : UInt64) (l : Kernel) : Prop := ∀ fn, (l.map fn).keys ⊆ {tid}

lemma Alone.admits (h : Alone tid l) (fn : Watched) : (l.map fn).Admits tid := by
  have hinsert : insert tid (l.map fn).keys ⊆ {tid} :=
    Finset.insert_subset (Finset.mem_singleton_self tid) (h fn)
  have hcard := Finset.card_le_card hinsert
  rw [Finset.card_singleton] at hcard
  exact BoundedMap.admits_of_card_insert_le (hcard.trans (by decide))

lemma Alone.after (ha : Alone h.ctx.pidTgid l) : Alone h.ctx.pidTgid (fire l h) := by
  intro fn
  have hkeys := keys_fire_subset (h := h) (ha fn)
  refine hkeys.trans ?_
  cases role fn h with
  | entry sk he =>
    rw [progress_entry he]
    simp
  | exit ret hx =>
    rw [progress_exit hx]
    exact Finset.erase_subset _ _
  | other hw => rw [progress_other hw]

/-- A key of the thread holds what it would hold were the thread alone, or nothing. -/
structure Behind (tid : UInt64) (k l : Kernel) : Prop where
  lookup : ∀ fn, (k.map fn).lookup tid = (l.map fn).lookup tid ∨ (k.map fn).lookup tid = none
  alone : Alone tid l

/-- The keys of the thread hold what they would hold were the thread alone. -/
structure Level (tid : UInt64) (k l : Kernel) : Prop where
  lookup : ∀ fn, (k.map fn).lookup tid = (l.map fn).lookup tid
  alone : Alone tid l

lemma lookup_fire_of_ne (fn : Watched) (hne : h.ctx.pidTgid ≠ tid) :
    ((fire k h).map fn).lookup tid = (k.map fn).lookup tid :=
  fire_lookup_of_not_on k h fun ho => hne ho.1

lemma lookup_fire_exit {fn : Watched} {ret : Int32} (hx : h.probe.exit? = some (fn,ret)) :
    ((fire k h).map fn).lookup h.ctx.pidTgid = none := by
  rw [fire_exit hx]
  exact handleExit_lookup_self _ _ _ _ _ _ _

lemma lookup_fire_other {fn : Watched} (hw : h.probe.watched ≠ some fn) :
    ((fire k h).map fn).lookup tid = (k.map fn).lookup tid :=
  fire_lookup_of_not_on k h fun ho => hw ho.2

lemma Alone.lookup_entry {fn : Watched} {sk : Sock} (ha : Alone h.ctx.pidTgid l)
    (he : h.probe.entry? = some (fn,sk)) :
    ((fire l h).map fn).lookup h.ctx.pidTgid = some sk := by
  rw [map_fire_entry he]
  exact BoundedMap.lookup_update_of_admits (ha.admits fn) sk

lemma Behind.own (hb : Behind h.ctx.pidTgid k l) :
    Behind h.ctx.pidTgid (fire k h) (fire l h) ∧
      (submittedBy k h = submittedBy l h ∨ submittedBy k h = []) := by
  refine ⟨⟨fun fn => ?_,hb.alone.after⟩,?_⟩
  · cases role fn h with
    | entry sk he =>
      rw [hb.alone.lookup_entry he, fire_entry he]
      exact handleEntry_lookup_self fn h.ctx sk k
    | exit ret hx => exact .inr (lookup_fire_exit hx)
    | other hw =>
      rw [lookup_fire_other hw, lookup_fire_other hw]
      exact hb.lookup fn
  · rcases submittedBy_cases h with ⟨out,hout⟩ | ⟨fn,report,hreport⟩
    · exact .inl ((hout k).trans (hout l).symm)
    · rw [hreport k, hreport l]
      rcases hb.lookup fn with heq | hnone
      · exact .inl (by rw [heq])
      · exact .inr (by rw [hnone]; rfl)

/-- The map has room for the thread where the hit is an entry. -/
def Fits (k : Kernel) (h : Hit) : Prop :=
  ∀ fn sk, h.probe.entry? = some (fn,sk) → (k.map fn).Admits h.ctx.pidTgid

lemma Level.own (hl : Level h.ctx.pidTgid k l) (hfits : Fits k h) :
    Level h.ctx.pidTgid (fire k h) (fire l h) ∧ submittedBy k h = submittedBy l h := by
  refine ⟨⟨fun fn => ?_,hl.alone.after⟩,?_⟩
  · cases role fn h with
    | entry sk he =>
      rw [hl.alone.lookup_entry he, map_fire_entry he]
      exact BoundedMap.lookup_update_of_admits (hfits fn sk he) sk
    | exit ret hx => rw [lookup_fire_exit hx, lookup_fire_exit hx]
    | other hw => rw [lookup_fire_other hw, lookup_fire_other hw, hl.lookup fn]
  · rcases submittedBy_cases h with ⟨out,hout⟩ | ⟨fn,report,hreport⟩
    · exact (hout k).trans (hout l).symm
    · rw [hreport k, hreport l, hl.lookup fn]

lemma alone_loaded (tid : UInt64) : Alone tid .loaded := by
  intro fn
  rw [keys_loaded]
  exact Finset.empty_subset _

/-- With few calls in progress, every entry finds room. -/
lemma Few.everyStep {hits : List Hit} (hfew : Few hits) : EveryStep fire Fits .loaded hits := by
  intro pre h hpre fn sk he
  have hkeys := keys_eq_inProgress fn (hfew.mono ((List.prefix_append _ _).trans hpre))
  have hroom := hfew fn _ hpre
  have hprogress : inProgress fn (pre ++ [h]) = insert h.ctx.pidTgid (inProgress fn pre) := by
    rw [← progress_entry he, inProgress_append]
  rw [hprogress, ← hkeys] at hroom
  exact BoundedMap.admits_of_card_insert_le hroom

/-- However threads interleave, hit by hit a thread's probes submit what they would submit were the
thread alone on the machine, or nothing; and no less, as long as there are not too many threads
inside one of the watched functions at once. -/
theorem threads_isolated (tid : UInt64) (hits : List Hit) :
    List.Forall₂ (fun x y => x.1 = y.1 ∧ (x.2 = y.2 ∨ x.2 = []))
      ((outputs fire submittedBy .loaded hits).filter fun x => x.1.onThread tid)
      (outputs fire submittedBy .loaded (hits.filter (Hit.onThread tid))) ∧
    (Few hits → ((outputs fire submittedBy .loaded hits).filter fun x => x.1.onThread tid) =
      outputs fire submittedBy .loaded (hits.filter (Hit.onThread tid))) := by
  have hother : ∀ h : Hit, h.onThread tid = false → h.ctx.pidTgid ≠ tid := by
    intro h ho
    simpa [Hit.onThread] using ho
  have hown : ∀ h : Hit, h.onThread tid = true → h.ctx.pidTgid = tid := by
    intro h ho
    simpa [Hit.onThread] using ho
  constructor
  · have hsafe : EveryStep fire (fun _ _ => True) .loaded hits := fun _ _ _ => trivial
    refine forall₂_outputs (R := Behind tid) (Q := fun a b => a = b ∨ a = []) ?_ ?_
      ⟨fun _ => .inl rfl,alone_loaded tid⟩ hsafe
    · intro k l h hb ho
      exact ⟨fun fn => by rw [lookup_fire_of_ne fn (hother h ho)]; exact hb.lookup fn,hb.alone⟩
    · intro k l h hb ho _
      obtain rfl := hown h ho
      exact hb.own
  · intro hfew
    refine outputs_filter_eq (R := Level tid) ?_ ?_ ⟨fun _ => rfl,alone_loaded tid⟩
      hfew.everyStep
    · intro k l h hl ho
      exact ⟨fun fn => by rw [lookup_fire_of_ne fn (hother h ho)]; exact hl.lookup fn,hl.alone⟩
    · intro k l h hl ho hfits
      obtain rfl := hown h ho
      exact hl.own hfits

end Threads

end Tracewulf.Bpf
