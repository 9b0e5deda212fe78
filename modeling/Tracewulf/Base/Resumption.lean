import Mathlib.Data.List.Induction
import Tracewulf.Base.Run

/-! Programs that ask questions. A program is done, or it asks one question and goes on with the
answer. What answers may change between two questions, so a run is a sequence of single answers
that other steps can come between: each answer is that of its own moment, and the answers together
are those of one moment only if nothing that was asked about changed. -/
namespace Tracewulf.Base

/-- A program with result `ρ` that asks questions `Q`, each with its own type of answers. -/
inductive Resumption (Q : Type) (A : Q → Type) (ρ : Type)
  | done (r : ρ)
  | ask (q : Q) (resume : A q → Resumption Q A ρ)

namespace Resumption

variable {Q : Type} {A : Q → Type} {ρ τ : Type}

def bind : Resumption Q A ρ → (ρ → Resumption Q A τ) → Resumption Q A τ
  | done r, f => f r
  | ask q k, f => ask q fun a => (k a).bind f

instance : Monad (Resumption Q A) where
  pure := done
  bind := bind

/-- Every result the program can come to satisfies `P`, whatever the answers. -/
def Ends (P : ρ → Prop) : Resumption Q A ρ → Prop
  | done r => P r
  | ask _ k => ∀ a, (k a).Ends P

variable {P : ρ → Prop}

@[simp] lemma ends_pure (r : ρ) : (pure r : Resumption Q A ρ).Ends P ↔ P r := Iff.rfl

/-- What every continuation guarantees, the whole guarantees. -/
theorem ends_bind {p : Resumption Q A τ} {f : τ → Resumption Q A ρ} (hf : ∀ r, (f r).Ends P) :
    (p >>= f).Ends P := by
  induction p with
  | done r => exact hf r
  | ask q k ih => exact fun a => ih a

/-- The same, from what the first part guarantees of its results. -/
theorem ends_bind_of {p : Resumption Q A τ} {f : τ → Resumption Q A ρ} {G : τ → Prop}
    (hp : p.Ends G) (hf : ∀ r, G r → (f r).Ends P) : (p >>= f).Ends P := by
  induction p with
  | done r => exact hf r hp
  | ask q k ih => exact fun a => ih a (hp a)

theorem Ends.imp {p : Resumption Q A ρ} {G : ρ → Prop} (hp : p.Ends G) (h : ∀ r, G r → P r) :
    p.Ends P := by
  induction p with
  | done r => exact h r hp
  | ask q k ih => exact fun a => ih a (hp a)

/-- The program asks no more than `n` questions, whatever the answers. -/
def Within : ℕ → Resumption Q A ρ → Prop
  | _, done _ => True
  | 0, ask _ _ => False
  | n+1, ask _ k => ∀ a, (k a).Within n

@[simp] lemma within_pure (n : ℕ) (r : ρ) : (pure r : Resumption Q A ρ).Within n := by
  cases n <;> trivial

lemma Within.mono {p : Resumption Q A ρ} {m n : ℕ} (h : p.Within m) (hmn : m ≤ n) :
    p.Within n := by
  induction p generalizing m n with
  | done r => cases n <;> trivial
  | ask q k ih =>
    cases m with
    | zero => exact h.elim
    | succ m =>
      obtain ⟨n,rfl⟩ := Nat.exists_eq_add_of_le' (Nat.one_le_of_lt hmn)
      exact fun a => ih a (h a) (Nat.le_of_succ_le_succ hmn)

/-- Questions of the parts add up. -/
theorem within_bind {p : Resumption Q A τ} {f : τ → Resumption Q A ρ} {m n : ℕ}
    (hp : p.Within m) (hf : ∀ r, (f r).Within n) : (p >>= f).Within (m+n) := by
  induction p generalizing m with
  | done r => exact (hf r).mono (Nat.le_add_left n m)
  | ask q k ih =>
    cases m with
    | zero => exact hp.elim
    | succ m =>
      rw [Nat.succ_add]
      exact fun a => ih a (hp a)

/-- Every result the program can come to by answers that satisfy `R` satisfies `P`. -/
def EndsUnder (R : (q : Q) → A q → Prop) (P : ρ → Prop) : Resumption Q A ρ → Prop
  | done r => P r
  | ask q k => ∀ a, R q a → (k a).EndsUnder R P

section Under

variable {R : (q : Q) → A q → Prop}

/-- A guarantee about the first part is what the second may start from. -/
theorem endsUnder_bind {p : Resumption Q A τ} {f : τ → Resumption Q A ρ} {G : τ → Prop}
    (hp : p.EndsUnder R G) (hf : ∀ r, G r → (f r).EndsUnder R P) :
    (p >>= f).EndsUnder R P := by
  induction p with
  | done r => exact hf r hp
  | ask q k ih => exact fun a ha => ih a (hp a ha)

lemma endsUnder_true (p : Resumption Q A ρ) : p.EndsUnder R fun _ => True := by
  induction p with
  | done r => trivial
  | ask q k ih => exact fun a _ => ih a

end Under

section Eval

/-- The result when every question is answered by `answer`. -/
def eval (answer : (q : Q) → A q) : Resumption Q A ρ → ρ
  | done r => r
  | ask q k => (k (answer q)).eval answer

/-- The result when each question is answered by the next answerer in the list. -/
def evalInTurn : Resumption Q A ρ → List ((q : Q) → A q) → Option ρ
  | done r, [] => some r
  | ask q k, f::fs => (k (f q)).evalInTurn fs
  | done _, _::_ | ask _ _, [] => none

@[simp] lemma eval_pure (answer : (q : Q) → A q) (r : ρ) :
    (pure r : Resumption Q A ρ).eval answer = r := rfl

@[simp] lemma eval_bind (answer : (q : Q) → A q) (p : Resumption Q A τ)
    (f : τ → Resumption Q A ρ) : (p >>= f).eval answer = (f (p.eval answer)).eval answer := by
  induction p with
  | done r => rfl
  | ask q k ih => exact ih (answer q)

/-- Answerers that keep to `R`, one for each question, come to what all such answers come to. -/
lemma EndsUnder.of_evalInTurn {R : (q : Q) → A q → Prop} {p : Resumption Q A ρ} {r : ρ}
    (hp : p.EndsUnder R P) {fs : List ((q : Q) → A q)} (hfs : ∀ f ∈ fs, ∀ q, R q (f q))
    (h : p.evalInTurn fs = some r) : P r := by
  induction p generalizing fs with
  | done r₀ =>
    cases fs with
    | nil =>
      obtain rfl := Option.some.inj h
      exact hp
    | cons f fs => cases h
  | ask q k ih =>
    cases fs with
    | nil => cases h
    | cons f fs =>
      have hq : R q (f q) := hfs f List.mem_cons_self q
      exact ih (f q) (hp (f q) hq) (fun g hg => hfs g (List.mem_cons_of_mem f hg)) h

end Eval

section Transcript

/-- The questions asked so far, with their answers. -/
abbrev Transcript (Q : Type) (A : Q → Type) := List ((q : Q) × A q)

variable {p p' : Resumption Q A ρ} {t : Transcript Q A}

/-- By these answers the program comes to the program that is left. -/
inductive Follows : Resumption Q A ρ → Transcript Q A → Resumption Q A ρ → Prop
  | refl (p : Resumption Q A ρ) : Follows p [] p
  | ask (q : Q) (k : A q → Resumption Q A ρ) (a : A q) {t : Transcript Q A}
      {p' : Resumption Q A ρ} (h : Follows (k a) t p') : Follows (ask q k) (⟨q,a⟩::t) p'

lemma Follows.answer {q : Q} {k : A q → Resumption Q A ρ}
    (h : Follows p t (Resumption.ask q k)) (a : A q) : Follows p (t ++ [⟨q,a⟩]) (k a) := by
  generalize hrest : Resumption.ask q k = rest at h
  induction h with
  | refl p =>
    subst hrest
    exact .ask q k a (.refl _)
  | ask q₀ k₀ a₀ _ ih => exact .ask q₀ k₀ a₀ (ih hrest)

/-- Every result, with the transcript that leads to it, satisfies `P`. -/
def Comes : Resumption Q A ρ → (Transcript Q A → ρ → Prop) → Prop
  | done r, P => P [] r
  | ask q k, P => ∀ a, (k a).Comes fun t r => P (⟨q,a⟩::t) r

/-- What comes after the first part comes with the first part's transcript before it. -/
theorem comes_bind {p : Resumption Q A τ} {f : τ → Resumption Q A ρ}
    {P : Transcript Q A → ρ → Prop} :
    (p >>= f).Comes P ↔ p.Comes fun t r => (f r).Comes fun u => P (t ++ u) := by
  induction p generalizing P with
  | done r => rfl
  | ask q k ih => exact forall_congr' fun a => ih a

variable {P : Transcript Q A → ρ → Prop}

theorem Comes.imp {G : Transcript Q A → ρ → Prop} (hp : p.Comes G) (h : ∀ t r, G t r → P t r) :
    p.Comes P := by
  induction p generalizing P G with
  | done r => exact h [] r hp
  | ask q k ih => exact fun a => ih a (hp a) fun t r => h (⟨q,a⟩::t) r

lemma Comes.and {G : Transcript Q A → ρ → Prop} (hp : p.Comes P) (hg : p.Comes G) :
    p.Comes fun t r => P t r ∧ G t r := by
  induction p generalizing P G with
  | done r => exact ⟨hp,hg⟩
  | ask q k ih => exact fun a => ih a (hp a) (hg a)

lemma Comes.follows (hp : p.Comes P) (h : Follows p t p') :
    p'.Comes fun u => P (t ++ u) := by
  induction h generalizing P with
  | refl p => exact hp
  | ask q k a _ ih => exact ih (hp a)

/-- What every result satisfies, the one that was come to does. -/
lemma Comes.result {r : ρ} (hp : p.Comes P) (h : Follows p t (done r)) : P t r := by
  have hend : P (t ++ []) r := hp.follows h
  rwa [List.append_nil] at hend

/-- Where every question has an answer, there is a result to come to. -/
lemma Comes.exists [∀ q, Inhabited (A q)] (hp : p.Comes P) : ∃ t r, P t r := by
  induction p generalizing P with
  | done r => exact ⟨[],r,hp⟩
  | ask q k ih =>
    obtain ⟨t,r,h⟩ := ih default (hp default)
    exact ⟨⟨q,default⟩::t,r,h⟩

end Transcript

section Interpret

variable {Q' : Type} {A' : Q' → Type} {f : (q : Q) → Resumption Q' A' (A q)}
  {p : Resumption Q A ρ} {P : Transcript Q A → ρ → Prop}

/-- Every question is put by a program of other questions, whose result is the answer. -/
def interpret (f : (q : Q) → Resumption Q' A' (A q)) :
    Resumption Q A ρ → Resumption Q' A' ρ
  | done r => done r
  | ask q k => (f q).bind fun a => (k a).interpret f

/-- The transcript is put together of those of the questions. -/
theorem Comes.interpret {G : ((q : Q) × A q) → Transcript Q' A' → Prop} (hp : p.Comes P)
    (hf : ∀ q, (f q).Comes fun t a => G ⟨q,a⟩ t) : (p.interpret f).Comes fun t r =>
      ∃ u ts, t = ts.flatten ∧ List.Forall₂ G u ts ∧ P u r := by
  induction p generalizing P with
  | done r => exact ⟨[],[],rfl,.nil,hp⟩
  | ask q k ih =>
    refine comes_bind.mpr ((hf q).imp fun t a ht => ?_)
    refine (ih a (hp a)).imp ?_
    rintro _ r ⟨u,ts,rfl,hts,hu⟩
    exact ⟨⟨q,a⟩::u,t::ts,rfl,.cons ht hts,hu⟩

end Interpret

section Interleaved

variable {S W : Type} (put : S → W → S) (answer : S → (q : Q) → A q)

/-- Someone else writes the state, or the program's next question is answered from it. -/
inductive Turn (W : Type)
  | write (w : W)
  | read
  deriving DecidableEq

/-- One turn, and the question it answers, if it does. -/
def turn (s : S × Resumption Q A ρ) :
    Turn W → Option ((S × Resumption Q A ρ) × List ((q : Q) × A q))
  | .write w => some ((put s.1 w,s.2),[])
  | .read =>
    match s.2 with
    | done _ => none
    | ask q k => some ((s.1,k (answer s.1 q)),[⟨q,answer s.1 q⟩])

/-- The state after some turns; only writes change it. -/
def stateAfter (s : S) (ts : List (Turn W)) : S :=
  ts.foldl (fun s t => match t with | .write w => put s w | .read => s) s

/-- The states that the reads among some turns find, in order. -/
def readStates : S → List (Turn W) → List S
  | _, [] => []
  | s, .write w::ts => readStates (put s w) ts
  | s, .read::ts => s::readStates s ts

variable {put answer} {s t : S × Resumption Q A ρ} {u : S} {r : ρ} {ts : List (Turn W)}
  {made : List ((q : Q) × A q)}

/-- What a turn requires and what it comes to. -/
inductive Turns (put : S → W → S) (answer : S → (q : Q) → A q) :
    S × Resumption Q A ρ → Turn W → S × Resumption Q A ρ → Transcript Q A → Prop
  | write (c : S) (p : Resumption Q A ρ) (w : W) :
      Turns put answer (c,p) (.write w) (put c w,p) []
  | read (c : S) (q : Q) (k : A q → Resumption Q A ρ) :
      Turns put answer (c,ask q k) .read (c,k (answer c q)) [⟨q,answer c q⟩]

lemma turns_of_turn {x : Turn W} (h : turn put answer s x = some (t,made)) :
    Turns put answer s x t made := by
  obtain ⟨c,p⟩ := s
  cases x with
  | write w =>
    cases h
    exact .write c p w
  | read =>
    cases p with
    | done r => cases h
    | ask q k =>
      cases h
      exact .read c q k

/-- Each question is answered by the state of its own moment. -/
theorem evalInTurn_of_run (h : run (turn put answer) s ts = some ((u,done r),made)) :
    s.2.evalInTurn ((readStates put s.1 ts).map answer) = some r := by
  induction ts generalizing s made with
  | nil =>
    simp only [run, Option.some.injEq, Prod.mk.injEq] at h
    rw [h.1]
    rfl
  | cons x ts ih =>
    obtain ⟨v,seen,later,hstep,hrun,-⟩ := run_cons_eq_some h
    cases turns_of_turn hstep with
    | write c p w => exact ih hrun
    | read c q k => exact ih hrun

/-- An answerer that gives all the answers that were given comes to the same result. -/
theorem eval_of_run (h : run (turn put answer) s ts = some ((u,done r),made))
    {f : (q : Q) → A q} (hf : ∀ x ∈ made, f x.1 = x.2) : s.2.eval f = r := by
  induction ts generalizing s made with
  | nil =>
    simp only [run, Option.some.injEq, Prod.mk.injEq] at h
    rw [h.1]
    rfl
  | cons x ts ih =>
    obtain ⟨v,seen,later,hstep,hrun,rfl⟩ := run_cons_eq_some h
    have hlater : ∀ x ∈ later, f x.1 = x.2 := fun x hx => hf x (List.mem_append_right _ hx)
    have htail := ih hrun hlater
    cases turns_of_turn hstep with
    | write c p w => exact htail
    | read c q k =>
      have hq : f q = answer c q := hf ⟨q,answer c q⟩ (by simp)
      simpa only [eval, hq] using htail

/-- Every answer given is that of a state some turns lead to. -/
lemma exists_state_of_mem (h : run (turn put answer) s ts = some (t,made))
    {x : (q : Q) × A q} (hx : x ∈ made) :
    ∃ pre, pre <+: ts ∧ x.2 = answer (stateAfter put s.1 pre) x.1 := by
  induction ts generalizing s made with
  | nil =>
    simp only [run, Option.some.injEq, Prod.mk.injEq] at h
    rw [← h.2] at hx
    exact absurd hx List.not_mem_nil
  | cons y ts ih =>
    obtain ⟨v,seen,later,hstep,hrun,rfl⟩ := run_cons_eq_some h
    cases turns_of_turn hstep with
    | write c p w =>
      obtain ⟨pre,hpre,heq⟩ := ih hrun hx
      exact ⟨.write w::pre,List.cons_prefix_cons.mpr ⟨rfl,hpre⟩,heq⟩
    | read c q k =>
      rcases List.mem_append.mp hx with hx | hx
      · obtain rfl := List.mem_singleton.mp hx
        exact ⟨[],List.nil_prefix,rfl⟩
      · obtain ⟨pre,hpre,heq⟩ := ih hrun hx
        exact ⟨.read::pre,List.cons_prefix_cons.mpr ⟨rfl,hpre⟩,heq⟩

/-- A question that no write changes the answer to has the same answer all along. -/
lemma answer_stateAfter {q : Q} (c : S)
    (hq : ∀ pre w, pre ++ [.write w] <+: ts →
      answer (put (stateAfter put c pre) w) q = answer (stateAfter put c pre) q)
    {pre : List (Turn W)} (hpre : pre <+: ts) : answer (stateAfter put c pre) q = answer c q := by
  induction pre using List.reverseRecOn with
  | nil => rfl
  | append_singleton pre x ih =>
    rw [← ih ((List.prefix_append _ _).trans hpre)]
    cases x with
    | write w =>
      rw [← hq pre w hpre, stateAfter, List.foldl_append]
      rfl
    | read =>
      rw [stateAfter, List.foldl_append]
      rfl

end Interleaved

end Resumption
end Tracewulf.Base
