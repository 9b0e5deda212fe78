import Mathlib.Data.List.Basic

/-! Texts joined by separators and taken apart again. A part without the separator's first symbol
cannot hide the separator, so what was joined there is what comes apart. -/
namespace Tracewulf.Base
namespace Split

variable {α : Type*}

/-- A text with its first symbol `x` standing alone before `b` has only one reading. -/
lemma cons_inj_left {x : α} {a a' b b' : List α} (ha : x ∉ a) (ha' : x ∉ a') :
    a ++ x::b = a' ++ x::b' ↔ a = a' ∧ b = b' := by
  constructor
  · intro h
    induction a generalizing a' with
    | nil =>
      cases a' with
      | nil => exact ⟨rfl,(List.cons.inj h).2⟩
      | cons y a' => exact absurd ((List.cons.inj h).1 ▸ List.mem_cons_self) ha'
    | cons y a ih =>
      cases a' with
      | nil => exact absurd ((List.cons.inj h).1 ▸ List.mem_cons_self) ha
      | cons z a' =>
        obtain ⟨rfl,htail⟩ := List.cons.inj h
        obtain ⟨rfl,rfl⟩ := ih (fun hx => ha (List.mem_cons_of_mem _ hx))
          (fun hx => ha' (List.mem_cons_of_mem _ hx)) htail
        exact ⟨rfl,rfl⟩
  · rintro ⟨rfl,rfl⟩
    rfl

/-- The same with the last `x` of the text. -/
lemma cons_inj_right {x : α} {a a' b b' : List α} (hb : x ∉ b) (hb' : x ∉ b') :
    a ++ x::b = a' ++ x::b' ↔ a = a' ∧ b = b' := by
  constructor
  · intro h
    have hrev := congrArg List.reverse h
    simp only [List.reverse_append, List.reverse_cons, List.append_assoc,
      List.singleton_append] at hrev
    obtain ⟨hb,ha⟩ := (cons_inj_left (by simpa using hb) (by simpa using hb')).mp hrev
    exact ⟨List.reverse_injective ha,List.reverse_injective hb⟩
  · rintro ⟨rfl,rfl⟩
    rfl

variable [DecidableEq α]

/-- The parts of a text between the occurrences of `sep`, found from the left and not overlapping;
`n` symbols of the last one found are still to be passed over. -/
def parts (sep : List α) : ℕ → List α → List (List α)
  | _, [] => [[]]
  | n+1, _::xs => parts sep n xs
  | 0, x::xs =>
    if sep.isPrefixOf (x::xs) then []::parts sep (sep.length-1) xs
    else match parts sep 0 xs with
      | [] => [[x]]
      | p::ps => (x::p)::ps

variable {x : α} {s a b : List α}

lemma parts_skip (sep a b : List α) : parts sep a.length (a ++ b) = parts sep 0 b := by
  induction a with
  | nil => rfl
  | cons y a ih => exact ih

lemma parts_cons_of_ne {y : α} (hy : y ≠ x) (t : List α) : parts (x::s) 0 (y::t) =
    match parts (x::s) 0 t with
    | [] => [[y]]
    | p::ps => (y::p)::ps := by
  have hno : (x::s).isPrefixOf (y::t) = false := by
    rw [List.isPrefixOf_cons_cons, beq_false_of_ne (Ne.symm hy), Bool.false_and]
  rw [parts, hno]
  rfl

/-- A text without the separator's first symbol is one part. -/
lemma parts_of_notMem (ha : x ∉ a) : parts (x::s) 0 a = [a] := by
  induction a with
  | nil => rfl
  | cons y a ih =>
    rw [List.mem_cons, not_or] at ha
    rw [parts_cons_of_ne (Ne.symm ha.1), ih ha.2]

/-- The first part ends at the first separator. -/
lemma parts_append (ha : x ∉ a) (b : List α) :
    parts (x::s) 0 (a ++ (x::s ++ b)) = a::parts (x::s) 0 b := by
  induction a with
  | nil =>
    have hyes : (x::s).isPrefixOf (x::(s ++ b)) = true := by simp
    rw [List.nil_append, List.cons_append, parts, if_pos hyes]
    exact congrArg ([]::·) (parts_skip (x::s) s b)
  | cons y a ih =>
    rw [List.mem_cons, not_or] at ha
    rw [List.cons_append, parts_cons_of_ne (Ne.symm ha.1), ih ha.2]

/-- Two texts joined by the separator come apart into the two. -/
theorem parts_join (ha : x ∉ a) (hb : x ∉ b) :
    parts (x::s) 0 (a ++ (x::s ++ b)) = [a,b] := by
  rw [parts_append ha, parts_of_notMem hb]

end Split
end Tracewulf.Base
