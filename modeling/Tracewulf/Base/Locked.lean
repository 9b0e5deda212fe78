import Tracewulf.Base.Simulation

/-! Calls under a lock. An object is a part of a larger state. A call takes the lock of the object,
makes its accesses one by one and gives the lock back; between two accesses anything may happen
that keeps its hands off the object. A machine with such calls shows nothing that is not shown by
the one in which every call is a single step. -/
namespace Tracewulf.Base

/-- The body of a call: it returns, or it makes an access and goes on with what it has read. -/
inductive Critical (σ ρ : Type)
  | ret (r : ρ)
  | access (write : σ → σ) (next : σ → Critical σ ρ)

/-- The call as one step. -/
def Critical.eval {σ ρ : Type} : Critical σ ρ → σ → ρ × σ
  | ret r, x => (r,x)
  | access write next, x => (next x).eval (write x)

namespace Critical

variable {σ ρ : Type}

def read (next : σ → Critical σ ρ) : Critical σ ρ := access id next

def write (f : σ → σ) (rest : Critical σ ρ) : Critical σ ρ := access f fun _ => rest

@[simp] lemma eval_ret (r : ρ) (x : σ) : (ret r : Critical σ ρ).eval x = (r,x) := rfl

@[simp] lemma eval_read (next : σ → Critical σ ρ) (x : σ) :
    (read next).eval x = (next x).eval x := rfl

@[simp] lemma eval_write (f : σ → σ) (rest : Critical σ ρ) (x : σ) :
    (write f rest).eval x = rest.eval (f x) := rfl

end Critical

/-- An object with a lock, the steps beside it and the calls on it. A step beside the object may
be one of the thread that is in a call; then it has to wait. -/
structure Guarded (S σ ω : Type) where
  get : S → σ
  put : S → σ → S
  Beside : Type
  beside : S → Beside → Option (S × List ω)
  Call : Type
  Result : Call → Type
  enter : S → (c : Call) → Option (Critical σ (Result c))
  leave : S → (c : Call) → Result c → S × List ω
  clash : Beside → Call → Bool
  get_put : ∀ s x, get (put s x) = x
  put_get : ∀ s, put s (get s) = s
  put_put : ∀ s x y, put (put s x) y = put s y
  beside_put : ∀ s x b, beside (put s x) b = (beside s b).map fun r => (put r.1 x,r.2)
  enter_put : ∀ s x c, enter (put s x) c = enter s c
  enter_beside : ∀ s b s' out c body, beside s b = some (s',out) → clash b c = false →
    enter s c = some body → enter s' c = some body

namespace Guarded

variable {S σ ω B : Type}

/-- The call that holds the lock, and what is left of it. -/
abbrev Holder (G : Guarded S σ ω) := Option ((c : G.Call) × Critical σ (G.Result c))

inductive Move (G : Guarded S σ ω)
  | beside (b : G.Beside)
  | enter (c : G.Call)
  | access
  | leave

variable (G : Guarded S σ ω)

def step (s : S × G.Holder) : G.Move → Option ((S × G.Holder) × List ω)
  | .beside b =>
    if s.2.all fun h => !G.clash b h.1 then (G.beside s.1 b).map fun r => ((r.1,s.2),r.2)
    else none
  | .enter c =>
    match s.2 with
    | none => (G.enter s.1 c).map fun body => ((s.1,some ⟨c,body⟩),[])
    | some _ => none
  | .access =>
    match s.2 with
    | some ⟨c,.access write next⟩ =>
      some ((G.put s.1 (write (G.get s.1)),some ⟨c,next (G.get s.1)⟩),[])
    | _ => none
  | .leave =>
    match s.2 with
    | some ⟨c,.ret r⟩ => some (((G.leave s.1 c r).1,none),(G.leave s.1 c r).2)
    | _ => none

/-- The call as a single step. -/
def Performs (s : S) (c : G.Call) (s' : S) (out : List ω) : Prop :=
  ∃ body r x, G.enter s c = some body ∧ body.eval (G.get s) = (r,x) ∧
    G.leave (G.put s x) c r = (s',out)

/-- The steps of a machine are the steps beside the object and the calls. -/
structure Divides (step : S → B → Option (S × List ω)) : Prop where
  beside : ∀ s b s' out, G.beside s b = some (s',out) → ∃ a, step s a = some (s',out)
  call : ∀ s c s' out, G.Performs s c s' out → ∃ a, step s a = some (s',out)
  step : ∀ s a s' out, step s a = some (s',out) →
    (∃ b, G.beside s b = some (s',out)) ∨ ∃ c, G.Performs s c s' out

/-- A state of the machine with single steps for one with a call under way: the object is as the
call found it, and the call, done at once, comes to what is left of it comes to. -/
def Stands (s : S × G.Holder) (t : S) : Prop :=
  match s.2 with
  | none => s.1 = t
  | some ⟨c,body⟩ => s.1 = G.put t (G.get s.1) ∧
      ∃ whole, G.enter t c = some whole ∧ whole.eval (G.get t) = body.eval (G.get s.1)

variable {G} {step : S → B → Option (S × List ω)} {s s' : S} {c : G.Call} {out : List ω}

lemma performs_iff {body : Critical σ (G.Result c)} {r : G.Result c} {x : σ}
    (henter : G.enter s c = some body) (hbody : body.eval (G.get s) = (r,x)) :
    G.Performs s c s' out ↔ G.leave (G.put s x) c r = (s',out) := by
  constructor
  · rintro ⟨body',r',x',henter',hbody',hleave⟩
    cases henter.symm.trans henter'
    cases hbody.symm.trans hbody'
    exact hleave
  · exact fun hleave => ⟨body,r,x,henter,hbody,hleave⟩

lemma not_performs (henter : G.enter s c = none) : ¬ G.Performs s c s' out := by
  rintro ⟨body,-,-,henter',-⟩
  cases henter.symm.trans henter'

lemma get_beside {b : G.Beside} (h : G.beside s b = some (s',out)) :
    G.get s' = G.get s := by
  have hput := G.beside_put s (G.get s) b
  rw [G.put_get, h] at hput
  have hs' : s' = G.put s' (G.get s) := by
    simpa using hput
  rw [hs', G.get_put]

/-- How a move is made. -/
inductive Moves (G : Guarded S σ ω) :
    S × G.Holder → G.Move → S × G.Holder → List ω → Prop
  | beside (s : S) (holder : G.Holder) (b : G.Beside) (s' : S) (out : List ω)
      (hclash : ∀ h, holder = some h → G.clash b h.1 = false)
      (hstep : G.beside s b = some (s',out)) : Moves G (s,holder) (.beside b) (s',holder) out
  | enter (s : S) (c : G.Call) (body : Critical σ (G.Result c))
      (henter : G.enter s c = some body) : Moves G (s,none) (.enter c) (s,some ⟨c,body⟩) []
  | access (s : S) (c : G.Call) (write : σ → σ) (next : σ → Critical σ (G.Result c)) :
      Moves G (s,some ⟨c,.access write next⟩) .access
        (G.put s (write (G.get s)),some ⟨c,next (G.get s)⟩) []
  | leave (s : S) (c : G.Call) (r : G.Result c) :
      Moves G (s,some ⟨c,.ret r⟩) .leave ((G.leave s c r).1,none) (G.leave s c r).2

theorem moves_of_step {s s' : S × G.Holder} {move : G.Move}
    (h : G.step s move = some (s',out)) : Moves G s move s' out := by
  obtain ⟨s,holder⟩ := s
  cases move with
  | beside b =>
    simp only [Guarded.step] at h
    split_ifs at h with hclash
    obtain ⟨⟨u,seen⟩,hbeside,heq⟩ := Option.map_eq_some_iff.mp h
    cases heq
    refine .beside s holder b u _ (fun h hholder => ?_) hbeside
    subst hholder
    simpa using hclash
  | enter c =>
    cases holder with
    | some h' => cases h
    | none =>
      obtain ⟨body,henter,heq⟩ := Option.map_eq_some_iff.mp h
      cases heq
      exact .enter s c body henter
  | access =>
    match holder with
    | none => cases h
    | some ⟨c,.ret r⟩ => cases h
    | some ⟨c,.access write next⟩ =>
      cases h
      exact .access s c write next
  | leave =>
    match holder with
    | none => cases h
    | some ⟨c,.access write next⟩ => cases h
    | some ⟨c,.ret r⟩ =>
      cases h
      exact .leave s c r

/-- The machine with the lock is carried out by the one with single steps: a call is done when it
gives the lock back. -/
theorem Divides.simulates (hdiv : G.Divides step) : Simulates G.step step G.Stands some := by
  rintro s t move s' out hstands hstep
  rw [List.filterMap_some]
  cases moves_of_step hstep with
  | beside s holder b s' out hclash hbeside =>
    cases holder with
    | none =>
      obtain rfl : s = t := hstands
      obtain ⟨a,ha⟩ := hdiv.beside s b s' out hbeside
      exact ⟨[a],s',run_singleton ha,rfl⟩
    | some h =>
      obtain ⟨c,body⟩ := h
      obtain ⟨hs,whole,henter,heval⟩ := hstands
      dsimp only at hs henter heval
      -- the step does not see how far the call has got
      have ht : t = G.put s (G.get t) := by rw [hs, G.put_put, G.put_get]
      have hbeside' : G.beside t b = some (G.put s' (G.get t),out) := by
        rw [ht, G.beside_put, hbeside, G.get_put]
        rfl
      obtain ⟨a,ha⟩ := hdiv.beside t b _ out hbeside'
      have hkept : G.get s' = G.get s := get_beside hbeside
      refine ⟨[a],_,run_singleton ha,?_,whole,?_,?_⟩
      · dsimp only
        rw [G.put_put, G.put_get]
      · exact G.enter_beside t b _ out c whole hbeside' (hclash _ rfl) henter
      · dsimp only
        rw [G.get_put, hkept, heval]
  | enter s c body henter =>
    obtain rfl : s = t := hstands
    exact ⟨[],s,rfl,(G.put_get s).symm,body,henter,rfl⟩
  | access s c write next =>
    obtain ⟨hs,whole,henter,heval⟩ := hstands
    dsimp only at hs henter heval
    refine ⟨[],t,rfl,?_,whole,henter,?_⟩
    · dsimp only
      rw [G.get_put, hs, G.put_put]
    · dsimp only
      rw [G.get_put, heval]
      rfl
  | leave s c r =>
    obtain ⟨hs,whole,henter,heval⟩ := hstands
    dsimp only at hs henter heval
    have hdone : G.Performs t c (G.leave s c r).1 (G.leave s c r).2 :=
      ⟨whole,r,G.get s,henter,heval,by rw [← hs]⟩
    obtain ⟨a,ha⟩ := hdiv.call t c _ _ hdone
    exact ⟨[a],_,run_singleton ha,rfl⟩

/-- A change that neither the object nor its callers see is there after a move if it was before. -/
theorem step_frame {f : S → S} (hget : ∀ s, G.get (f s) = G.get s)
    (hput : ∀ s x, G.put (f s) x = f (G.put s x)) (henter : ∀ s c, G.enter (f s) c = G.enter s c)
    (hleave : ∀ s c r, G.leave (f s) c r = (f (G.leave s c r).1,(G.leave s c r).2))
    (s : S × G.Holder) (m : G.Move) (hbeside : ∀ b, m = .beside b →
      G.beside (f s.1) b = (G.beside s.1 b).map fun r => (f r.1,r.2)) :
    G.step (f s.1,s.2) m = (G.step s m).map fun r => ((f r.1.1,r.1.2),r.2) := by
  obtain ⟨s,holder⟩ := s
  cases m with
  | beside b =>
    simp only [Guarded.step, hbeside b rfl]
    split_ifs <;> simp [Function.comp_def]
  | enter c =>
    cases holder with
    | some held => rfl
    | none => simp [Guarded.step, henter, Function.comp_def]
  | access =>
    match holder with
    | none | some ⟨c,.ret r⟩ => rfl
    | some ⟨c,.access write next⟩ => simp [Guarded.step, hget, hput]
  | leave =>
    match holder with
    | none | some ⟨c,.access write next⟩ => rfl
    | some ⟨c,.ret r⟩ => simp [Guarded.step, hleave]

/-- A call under way is brought to its end by its own moves alone. -/
theorem run_body (body : Critical σ (G.Result c)) {r : G.Result c} {x : σ}
    (hbody : body.eval (G.get s) = (r,x)) : ∃ moves, run G.step (s,some ⟨c,body⟩) moves =
      some (((G.leave (G.put s x) c r).1,none),(G.leave (G.put s x) c r).2) := by
  induction body generalizing s with
  | ret r' =>
    obtain ⟨rfl,rfl⟩ := Prod.mk.inj hbody
    rw [G.put_get]
    exact ⟨[.leave],run_singleton rfl⟩
  | access write next ih =>
    have hnext : (next (G.get s)).eval (G.get (G.put s (write (G.get s)))) = (r,x) := by
      rw [G.get_put]
      exact hbody
    have haccess : G.step (s,some ⟨c,.access write next⟩) .access =
        some ((G.put s (write (G.get s)),some ⟨c,next (G.get s)⟩),[]) := rfl
    obtain ⟨moves,hrun⟩ := ih (G.get s) hnext
    rw [G.put_put] at hrun
    exact ⟨.access::moves,run_cons_of_eq_some haccess hrun⟩

/-- The machine with single steps is carried out by the one with the lock. -/
theorem Divides.simulated (hdiv : G.Divides step) :
    Simulates step G.step (fun s t => t = (s,none)) some := by
  rintro s _ a s' out rfl ha
  rw [List.filterMap_some]
  rcases hdiv.step s a s' out ha with ⟨b,hbeside⟩ | ⟨c,body,r,x,henter,hbody,hleave⟩
  · have hmove : G.step (s,none) (.beside b) = some ((s',none),out) := by
      simp [Guarded.step, hbeside]
    exact ⟨[.beside b],_,run_singleton hmove,rfl⟩
  · have hmove : G.step (s,none) (.enter c) = some ((s,some ⟨c,body⟩),[]) := by
      simp [Guarded.step, henter]
    obtain ⟨moves,hrun⟩ := run_body body hbody
    rw [hleave] at hrun
    exact ⟨.enter c::moves,_,run_cons_of_eq_some hmove hrun,rfl⟩

end Guarded
end Tracewulf.Base
