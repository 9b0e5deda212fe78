import Tracewulf.Base.Simulation

/-! Collecting in batches. What comes in is added to the batch that is open. Closing the batch
makes a summary of it and opens the next; the summary is delivered before another batch can be
closed. Every entry is then in one batch, in the order in which they came. -/
namespace Tracewulf.Base

/-- The batches delivered with their summaries, the one that is closed and not yet delivered, and
the open one. -/
structure Collector (α β : Type*) where
  delivered : List (List α × β)
  pending : Option (List α × β)
  live : List α

namespace Collector

variable {α β : Type*}

inductive Entry (α β : Type*)
  | added (x : α)
  | closed (s : β)
  | delivered (s : β)

namespace Entry

def added? : Entry α β → Option α
  | added x => some x
  | closed _ | delivered _ => none

def closed? : Entry α β → Option β
  | closed s => some s
  | added _ | delivered _ => none

def delivered? : Entry α β → Option β
  | delivered s => some s
  | added _ | closed _ => none

end Entry

def empty : Collector α β := ⟨[],none,[]⟩

/-- All batches that were closed, with their summaries. -/
def batches (c : Collector α β) : List (List α × β) := c.delivered ++ c.pending.toList

/-- A step takes an entry and shows it; a batch is closed with a summary of it. -/
noncomputable def step (sums : List α → β → Prop) (c : Collector α β) :
    Entry α β → Option (Collector α β × List (Entry α β))
  | .added x => some ({ c with live := c.live ++ [x] },[.added x])
  | .closed s =>
    open Classical in
    if c.pending = none ∧ sums c.live s then
      some ({ c with pending := some (c.live,s), live := [] },[.closed s])
    else none
  | .delivered s =>
    open Classical in
    match c.pending with
    | some b =>
      if b.2 = s then
        some ({ c with delivered := c.delivered ++ [b], pending := none },[.delivered s])
      else none
    | none => none

/-- What was added is in the batches, in order, and then in the open one; what was closed are the
summaries of the batches, and what was delivered those of all but the last, if any. -/
structure Accounts (sums : List α → β → Prop) (tr : List (Entry α β)) (c : Collector α β) :
    Prop where
  added : tr.filterMap Entry.added? = c.batches.flatMap Prod.fst ++ c.live
  closed : tr.filterMap Entry.closed? = c.batches.map Prod.snd
  delivered : tr.filterMap Entry.delivered? = c.delivered.map Prod.snd
  sums : ∀ b ∈ c.batches, sums b.1 b.2

variable {sums : List α → β → Prop} {tr : List (Entry α β)} {c c' : Collector α β}
  {e : Entry α β} {seen : List (Entry α β)}

lemma accounts_empty : Accounts sums [] (empty : Collector α β) :=
  ⟨rfl,rfl,rfl,fun _ h => absurd h List.not_mem_nil⟩

lemma Accounts.added_step (h : Accounts sums tr c) (x : α) :
    Accounts sums (tr ++ [.added x]) { c with live := c.live ++ [x] } where
  added := by
    rw [List.filterMap_append, h.added, List.append_assoc]
    rfl
  closed := by rw [List.filterMap_append, h.closed]; exact List.append_nil _
  delivered := by rw [List.filterMap_append, h.delivered]; exact List.append_nil _
  sums := h.sums

lemma Accounts.closed_step (h : Accounts sums tr c) (hnone : c.pending = none) {s : β}
    (hs : sums c.live s) : Accounts sums (tr ++ [.closed s])
      { c with pending := some (c.live,s), live := [] } := by
  have hold : c.batches = c.delivered := by rw [batches, hnone]; exact List.append_nil _
  obtain ⟨hadded,hclosed,hdelivered,hsums⟩ := h
  rw [hold] at hadded hclosed hsums
  refine ⟨?_,?_,?_,fun b hb => ?_⟩
  · rw [List.filterMap_append, hadded]
    simp [batches, Entry.added?]
  · rw [List.filterMap_append, hclosed]
    simp [batches, Entry.closed?]
  · rw [List.filterMap_append, hdelivered]
    exact List.append_nil _
  · rcases List.mem_append.mp hb with hb | hb
    · exact hsums b hb
    · obtain rfl := List.mem_singleton.mp hb
      exact hs

lemma Accounts.delivered_step (h : Accounts sums tr c) {b : List α × β}
    (hb : c.pending = some b) : Accounts sums (tr ++ [.delivered b.2])
      { c with delivered := c.delivered ++ [b], pending := none } := by
  have hsame : Collector.batches { c with delivered := c.delivered ++ [b], pending := none } =
      c.batches := by
    rw [batches, batches, hb]
    exact List.append_nil _
  obtain ⟨hadded,hclosed,hdelivered,hsums⟩ := h
  refine ⟨?_,?_,?_,by rwa [hsame]⟩
  · rw [hsame, List.filterMap_append, hadded]
    exact List.append_nil _
  · rw [hsame, List.filterMap_append, hclosed]
    exact List.append_nil _
  · rw [List.filterMap_append, hdelivered, List.map_append]
    rfl

lemma Accounts.step (h : Accounts sums tr c) (hstep : c.step sums e = some (c',seen)) :
    Accounts sums (tr ++ seen) c' := by
  cases e with
  | added x =>
    cases hstep
    exact h.added_step x
  | closed s =>
    rw [Collector.step] at hstep
    split_ifs at hstep with hclose
    cases hstep
    exact h.closed_step hclose.1 hclose.2
  | delivered s =>
    simp only [Collector.step] at hstep
    split at hstep
    · rename_i b hb
      split_ifs at hstep with hs
      cases hstep
      subst hs
      exact h.delivered_step hb
    · cases hstep

/-- However a collector is used, its batches account for everything. -/
theorem accounts_of_run {es : List (Entry α β)}
    (h : run (Collector.step sums) empty es = some (c,tr)) : Accounts sums tr c :=
  run_invariant (P := Accounts sums) (fun _ _ _ _ _ hc hstep => hc.step hstep) accounts_empty h

end Collector
end Tracewulf.Base
