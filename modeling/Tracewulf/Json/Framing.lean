import Tracewulf.Json.Reading

/-! Where an object begins and ends. A part of an object is no valid text, and neither is an object
with anything but blanks before it: the scanner is then inside something that the object does not
close, or its first member shows that it is not where a value may stand. -/
namespace Tracewulf.Json
open Tracewulf.Base

section Inversion

variable {s t : Scanner} {stack : List Frame} {c : UInt8} {op : Op}

/-- What the byte after a value can lead to. -/
inductive Ended : List Frame → Scanner → Prop
  | top : Ended [] ⟨.endTop,[]⟩
  | blank (frame : Frame) (outer : List Frame) : Ended (frame::outer) ⟨.endValue,frame::outer⟩
  | onward (frame frame' : Frame) (outer : List Frame) (q : State)
      (hq : q = .beginValue ∨ q = .beginString) : Ended (frame::outer) ⟨q,frame'::outer⟩
  | pop (frame : Frame) (outer : List Frame) : Ended (frame::outer) (popParseState outer)

lemma ended_of_stateEndValue (h : stateEndValue stack c = some (t,op)) : Ended stack t := by
  cases stack with
  | nil =>
    rw [stateEndValue, stateEndTop] at h
    split_ifs at h
    cases h
    exact .top
  | cons frame outer =>
    simp only [stateEndValue] at h
    split at h
    · cases h
      exact .blank frame outer
    · cases frame with
      | objectKey =>
        dsimp only at h
        split at h <;> cases h
        exact .onward _ _ _ _ (.inl rfl)
      | objectValue =>
        dsimp only at h
        split at h
        · cases h
          exact .onward _ _ _ _ (.inr rfl)
        · split at h <;> cases h
          exact .pop _ _
      | arrayValue =>
        dsimp only at h
        split at h
        · cases h
          exact .onward _ _ _ _ (.inl rfl)
        · split at h <;> cases h
          exact .pop _ _

/-- The states inside a literal, and the one after a string or a word. -/
def State.InLiteral : State → Prop
  | .inString | .inStringEsc | .inStringEscU _ | .neg | .one | .zero | .dot | .dot0 | .e | .eSign
  | .e0 | .word _ _ | .endValue => True
  | .beginValueOrEmpty | .beginValue | .beginStringOrEmpty | .beginString | .endTop => False

/-- What a byte can do to the scanner. -/
inductive Moves (s : Scanner) (c : UInt8) : Scanner → Prop
  | blank (hspace : isSpace c = true) : Moves s c s
  | push (frame : Frame) (q : State) : Moves s c ⟨q,frame::s.parseState⟩
  | literal (hs : s.state ≠ .endTop) (q : State) (hq : q.InLiteral) : Moves s c ⟨q,s.parseState⟩
  | ended (stack : List Frame) (t : Scanner)
      (hstack : stack = s.parseState ∨ stack = .objectValue::s.parseState.tail)
      (hended : Ended stack t) : Moves s c t

lemma moves_of_stateEndValue (h : stateEndValue s.parseState c = some (t,op)) : Moves s c t :=
  .ended _ t (.inl rfl) (ended_of_stateEndValue h)

lemma moves_of_stateZero (h : stateZero s.parseState c = some (t,op)) (hs : s.state ≠ .endTop) :
    Moves s c t := by
  rw [stateZero] at h
  split at h
  · cases h
    exact .literal hs _ trivial
  split at h
  · cases h
    exact .literal hs _ trivial
  · exact moves_of_stateEndValue h

lemma moves_of_stateESign (h : stateESign s.parseState c = some (t,op)) (hs : s.state ≠ .endTop) :
    Moves s c t := by
  rw [stateESign] at h
  split at h <;> cases h
  exact .literal hs _ trivial

lemma moves_of_pushParseState {frame : Frame} {q : State} {op' : Op}
    (h : pushParseState s.parseState frame q op' = some (t,op)) : Moves s c t := by
  rw [pushParseState] at h
  split at h <;> cases h
  exact .push frame q

lemma moves_of_stateBeginValue (h : stateBeginValue s.parseState c = some (t,op))
    (hs : isSpace c = false ∨ s.state = .beginValue) (hn : s.state ≠ .endTop) : Moves s c t := by
  rw [stateBeginValue] at h
  split at h
  · rename_i hspace
    cases h
    rcases hs with hs | hs
    · rw [hs] at hspace
      cases hspace
    · exact hs ▸ .blank hspace
  iterate 2
    split at h
    · exact moves_of_pushParseState h
  iterate 7
    split at h
    · cases h
      exact .literal hn _ trivial
  cases h

lemma moves_of_stateBeginString (h : stateBeginString s.parseState c = some (t,op))
    (hs : isSpace c = false ∨ s.state = .beginString) (hn : s.state ≠ .endTop) : Moves s c t := by
  rw [stateBeginString] at h
  split at h
  · rename_i hspace
    cases h
    rcases hs with hs | hs
    · rw [hs] at hspace
      cases hspace
    · exact hs ▸ .blank hspace
  · split at h <;> cases h
    exact .literal hn _ trivial

theorem moves_of_step (h : s.step c = some (t,op)) : Moves s c t := by
  obtain ⟨state,stack⟩ := s
  cases state with
  | beginValueOrEmpty =>
    simp only [Scanner.step] at h
    split at h
    · rename_i hspace
      cases h
      exact .blank hspace
    · rename_i hspace
      split at h
      · exact moves_of_stateEndValue h
      · exact moves_of_stateBeginValue h (.inl (by simpa using hspace)) (by simp)
  | beginValue => exact moves_of_stateBeginValue h (.inr rfl) (by simp)
  | beginStringOrEmpty =>
    simp only [Scanner.step] at h
    split at h
    · rename_i hspace
      cases h
      exact .blank hspace
    · rename_i hspace
      split at h
      · exact .ended _ t (.inr rfl) (ended_of_stateEndValue h)
      · exact moves_of_stateBeginString h (.inl (by simpa using hspace)) (by simp)
  | beginString => exact moves_of_stateBeginString h (.inr rfl) (by simp)
  | endValue => exact moves_of_stateEndValue h
  | endTop =>
    simp only [Scanner.step, stateEndTop] at h
    split at h <;> cases h
    rename_i hspace
    exact .blank hspace
  | inString =>
    simp only [Scanner.step, stateInString] at h
    split at h
    · cases h
      exact .literal (by simp) _ trivial
    split at h
    · cases h
      exact .literal (by simp) _ trivial
    split at h <;> cases h
    exact .literal (by simp) _ trivial
  | inStringEsc =>
    simp only [Scanner.step, stateInStringEsc] at h
    split at h
    · cases h
      exact .literal (by simp) _ trivial
    split at h <;> cases h
    exact .literal (by simp) _ trivial
  | inStringEscU missing =>
    simp only [Scanner.step, stateInStringEscU] at h
    split at h <;> cases h
    split <;> exact .literal (by simp) _ trivial
  | neg =>
    simp only [Scanner.step] at h
    split at h
    · cases h
      exact .literal (by simp) _ trivial
    split at h <;> cases h
    exact .literal (by simp) _ trivial
  | one =>
    simp only [Scanner.step] at h
    split at h
    · cases h
      exact .literal (by simp) _ trivial
    · exact moves_of_stateZero h (by simp)
  | zero => exact moves_of_stateZero h (by simp)
  | dot =>
    simp only [Scanner.step] at h
    split at h <;> cases h
    exact .literal (by simp) _ trivial
  | dot0 =>
    simp only [Scanner.step] at h
    split at h
    · cases h
      exact .literal (by simp) _ trivial
    split at h
    · cases h
      exact .literal (by simp) _ trivial
    · exact moves_of_stateEndValue h
  | e =>
    simp only [Scanner.step] at h
    split at h
    · cases h
      exact .literal (by simp) _ trivial
    · exact moves_of_stateESign h (by simp)
  | eSign => exact moves_of_stateESign h (by simp)
  | e0 =>
    simp only [Scanner.step] at h
    split at h
    · cases h
      exact .literal (by simp) _ trivial
    · exact moves_of_stateEndValue h
  | word w read =>
    simp only [Scanner.step] at h
    split at h <;> cases h
    split <;> exact .literal (by simp) _ trivial

end Inversion

section Inside

variable {s t : Scanner} {stack : List Frame} {c : UInt8} {text : Bytes}
  {ops : List (Op × UInt8)}

/-- Something is open, or the top-level value has been closed. -/
def Inside (s : Scanner) : Prop := s.parseState ≠ [] ∨ s.state = .endTop

lemma inside_of_ended {frame : Frame} {outer : List Frame} (h : Ended (frame::outer) t) :
    Inside t := by
  cases h with
  | blank frame outer => exact .inl (List.cons_ne_nil _ _)
  | onward frame frame' outer q hq => exact .inl (List.cons_ne_nil _ _)
  | pop frame outer =>
    by_cases h : outer = []
    · exact .inr (if_pos h)
    · exact .inl h

lemma Inside.moves (hs : Inside s) (h : Moves s c t) : Inside t := by
  cases h with
  | blank hspace => exact hs
  | push frame q => exact .inl (List.cons_ne_nil _ _)
  | literal hn q hq => exact .inl (hs.resolve_right hn)
  | ended stack t hstack hended =>
    cases stack with
    | nil =>
      cases hended
      exact .inr rfl
    | cons frame outer => exact inside_of_ended hended

/-- The only way to complete a value once something is open is to close it. -/
lemma Inside.eof (hs : Inside s) (heof : s.eof = true) : s.state = .endTop := by
  by_contra hn
  have hopen : s.parseState ≠ [] := hs.resolve_right hn
  obtain ⟨state,stack⟩ := s
  obtain ⟨frame,outer,rfl⟩ := List.exists_cons_of_ne_nil hopen
  cases state with
  | endTop => exact hn rfl
  | word w read =>
    simp only [Scanner.eof, Scanner.step] at heof
    split_ifs at heof <;> simp at heof
  | _ => simp [Scanner.eof, Scanner.step, stateBeginValue, stateBeginString, stateEndValue,
      stateInString, stateInStringEsc, stateInStringEscU, stateZero, stateESign, isSpace, isDigit,
      isHex] at heof

lemma Inside.run (hs : Inside s) (hrun : run Scanner.next s text = some (t,ops)) : Inside t := by
  refine run_preserves (P := Inside) (fun s c t seen hs hnext => ?_) hs hrun
  obtain ⟨⟨t,op⟩,hstep,heq⟩ := Option.map_eq_some_iff.mp hnext
  cases heq
  exact hs.moves (moves_of_step hstep)

/-- Blanks are all that may follow the top-level value. -/
lemma spaces_of_run_endTop (hs : s.state = .endTop)
    (hrun : run Scanner.next s text = some (t,ops)) : ∀ c ∈ text, isSpace c = true := by
  induction text generalizing s ops with
  | nil => simp
  | cons c text ih =>
    obtain ⟨u,seen,later,hnext,hrest,-⟩ := run_cons_eq_some hrun
    obtain ⟨⟨v,op⟩,hstep,heq⟩ := Option.map_eq_some_iff.mp hnext
    cases heq
    simp only [Scanner.step, hs, stateEndTop] at hstep
    split at hstep <;> cases hstep
    rename_i hspace
    exact List.forall_mem_cons.mpr ⟨hspace,ih rfl hrest⟩

lemma checkValid_eq_some {toks : List Token} (h : checkValid text = some toks) :
    ∃ s ops, run Scanner.next .reset text = some (s,ops) ∧ s.eof = true ∧
      toks = (group ops).2 := by
  rw [checkValid] at h
  split at h
  · rename_i s ops hrun
    split at h <;> cases h
    rename_i heof
    exact ⟨s,ops,hrun,heof,rfl⟩
  · cases h

/-- Blanks are no value. -/
lemma checkValid_spaces (h : text.all isSpace) : checkValid text = none := by
  obtain ⟨ops,hrun,-⟩ := reads_spaces (List.all_eq_true.mp h) []
  have heof : Scanner.eof ⟨.beginValue,[]⟩ = false := rfl
  have hrun' : run Scanner.next .reset text = some (⟨.beginValue,[]⟩,ops) := hrun
  simp [checkValid, hrun', heof]

/-- A part of an object is no value. -/
theorem checkValid_take_of_object (hopen : text.head? = some 123)
    (hclose : ∀ c, text.getLast? = some c → isSpace c = false)
    (hvalid : (checkValid text).isSome) {n : ℕ} (hn : n < text.length) :
    checkValid (text.take n) = none := by
  by_contra hpart
  obtain ⟨toks,htoks⟩ := Option.ne_none_iff_exists'.mp hpart
  obtain ⟨s,ops,hrun,heof,-⟩ := checkValid_eq_some htoks
  obtain ⟨whole,hwhole⟩ := Option.isSome_iff_exists.mp hvalid
  obtain ⟨u,uops,hall,-,-⟩ := checkValid_eq_some hwhole
  -- the part has read the brace and is complete, so the brace has been closed
  have hinside : Inside s := by
    cases n with
    | zero =>
      cases hrun
      cases heof
    | succ n =>
      obtain ⟨rest,rfl⟩ : ∃ rest, text = 123::rest := by
        cases text with
        | nil => cases hopen
        | cons c rest => cases hopen; exact ⟨rest,rfl⟩
      obtain ⟨v,seen,later,hnext,hrest,-⟩ := run_cons_eq_some hrun
      cases hnext
      exact Inside.run (.inl (List.cons_ne_nil _ _)) hrest
  have htop := hinside.eof heof
  -- what is left of the object are blanks then, yet its last byte is none
  rw [← List.take_append_drop n text] at hall
  obtain ⟨v,seen,later,htake,hdrop,-⟩ := run_append_eq_some hall
  cases hrun.symm.trans htake
  have hspaces := spaces_of_run_endTop htop hdrop
  have hne : text.drop n ≠ [] := by simpa using hn
  have hlast : text.getLast? = some ((text.drop n).getLast hne) := by
    conv_lhs => rw [← List.take_append_drop n text]
    rw [List.getLast?_append_of_ne_nil _ hne, List.getLast?_eq_getLast_of_ne_nil hne]
  have hblank := hspaces _ (List.getLast_mem hne)
  rw [hclose _ hlast] at hblank
  cases hblank

end Inside

section Foreign

variable {s t : Scanner} {c : UInt8} {op : Op} {text : Bytes} {ops : List (Op × UInt8)}

/-- As long as nothing is open and a value is expected, there have been blanks only; an array that
may be empty is open. -/
def Fresh (ops : List (Op × UInt8)) (s : Scanner) : Prop :=
  (s.parseState = [] → s.state = .beginValue → ∀ x ∈ ops, isSpace x.2 = true) ∧
    (s.state = .beginValueOrEmpty → s.parseState ≠ [])

lemma Fresh.moves (hs : Fresh ops s) (h : Moves s c t) : Fresh (ops ++ [(op,c)]) t := by
  cases h with
  | blank hspace =>
    refine ⟨fun hstack hbegin x hx => ?_,hs.2⟩
    rcases List.mem_append.mp hx with hx | hx
    · exact hs.1 hstack hbegin x hx
    · rw [List.mem_singleton.mp hx]
      exact hspace
  | push frame q => exact ⟨fun hstack => absurd hstack (by simp),fun _ => by simp⟩
  | literal hn q hq =>
    refine ⟨fun _ hbegin => ?_,fun hbegin => ?_⟩
    all_goals
      cases hbegin
      cases hq
  | ended stack t hstack hended =>
    cases hended with
    | top => exact ⟨nofun,nofun⟩
    | blank frame outer => exact ⟨fun hstack => absurd hstack (by simp),fun _ => by simp⟩
    | onward frame frame' outer q hq =>
      exact ⟨fun hstack => absurd hstack (by simp),fun _ => by simp⟩
    | pop frame outer =>
      refine ⟨fun _ hbegin => ?_,fun hbegin => ?_⟩
      all_goals
        simp only [popParseState] at hbegin
        split at hbegin <;> cases hbegin

lemma fresh_of_run (hrun : run Scanner.next .reset text = some (t,ops)) : Fresh ops t := by
  have hstart : Fresh [] .reset := ⟨fun _ _ => List.forall_mem_nil _,nofun⟩
  refine run_invariant (P := Fresh) (fun tr s c t seen hs hnext => ?_) hstart hrun
  obtain ⟨⟨t,op⟩,hstep,heq⟩ := Option.map_eq_some_iff.mp hnext
  cases heq
  exact hs.moves (moves_of_step hstep)

lemma bytes_of_run (hrun : run Scanner.next s text = some (t,ops)) :
    ops.map Prod.snd = text := by
  induction text generalizing s ops with
  | nil => cases hrun; rfl
  | cons c text ih =>
    obtain ⟨u,seen,later,hnext,hrest,rfl⟩ := run_cons_eq_some hrun
    obtain ⟨⟨v,op⟩,hstep,heq⟩ := Option.map_eq_some_iff.mp hnext
    cases heq
    rw [List.map_append, ih hrest]
    rfl

/-- A byte that cannot follow a value. -/
def Foreign (c : UInt8) : Prop := isSpace c = false ∧ c ≠ 58 ∧ c ≠ 44 ∧ c ≠ 125 ∧ c ≠ 93

lemma Foreign.stateEndValue (h : Foreign c) (stack : List Frame) :
    stateEndValue stack c = none := by
  obtain ⟨hspace,hcolon,hcomma,hbrace,hbracket⟩ := h
  cases stack with
  | nil => simp [Json.stateEndValue, stateEndTop, hspace]
  | cons frame outer => cases frame <;> simp [Json.stateEndValue, *]

lemma stateEndValue_brace (stack : List Frame) : stateEndValue stack 123 = none :=
  Foreign.stateEndValue ⟨rfl,by decide,by decide,by decide,by decide⟩ stack

/-- An opening brace begins an object, or it is in a string. -/
lemma step_brace (h : s.step 123 = some (t,op)) :
    ((s.state = .beginValue ∨ s.state = .beginValueOrEmpty) ∧
      Scanner.step ⟨.beginValue,s.parseState⟩ 123 = some (t,op)) ∨
    (s.state = .inString ∧ t = s) := by
  obtain ⟨state,stack⟩ := s
  cases state with
  | beginValue => exact .inl ⟨.inl rfl,h⟩
  | beginValueOrEmpty => exact .inl ⟨.inr rfl,h⟩
  | inString => cases h; exact .inr ⟨rfl,rfl⟩
  | word w read =>
    simp only [Scanner.step] at h
    split at h <;> cases h
    rename_i hletter
    have hmem : (123 : UInt8) ∈ w.letters := List.mem_of_getElem? hletter
    cases w <;> simp [Word.letters] at hmem
  | _ => simp [Scanner.step, stateBeginString, stateEndValue_brace, stateEndTop, stateInStringEsc,
      stateInStringEscU, stateZero, stateESign, isSpace, isDigit, isHex] at h

/-- An object whose first byte after the first quote cannot follow a value is read as a value or
not at all, wherever it stands. -/
structure ObjectText (obj : Bytes) (toks : List Token) : Prop where
  shape : ∃ c rest, obj = 123::34::c::rest ∧ Foreign c
  reads : ∀ stack, stack.length < maxNestingDepth →
    Reads ⟨.beginValue,stack⟩ obj toks (popParseState stack)

variable {obj : Bytes} {toks : List Token}

lemma ObjectText.not_run_inString (h : ObjectText obj toks) (stack : List Frame)
    (r : Scanner × List (Op × UInt8)) : run Scanner.next ⟨.inString,stack⟩ obj ≠ some r := by
  obtain ⟨c,rest,rfl,hc⟩ := h.shape
  intro hrun
  obtain ⟨s₁,_,_,hbrace,hrun₁,-⟩ := run_cons_eq_some hrun
  cases hbrace
  obtain ⟨s₂,_,_,hquote,hrun₂,-⟩ := run_cons_eq_some hrun₁
  cases hquote
  obtain ⟨s₃,_,_,hnext,-,-⟩ := run_cons_eq_some hrun₂
  obtain ⟨⟨t,op⟩,hstep,-⟩ := Option.map_eq_some_iff.mp hnext
  have hnone : Scanner.step ⟨.endValue,stack⟩ c = none := hc.stateEndValue stack
  rw [hnone] at hstep
  cases hstep

/-- Inside something that is open, the object leaves it open. -/
lemma ObjectText.not_eof (h : ObjectText obj toks) {stack : List Frame} (hopen : stack ≠ [])
    (hrun : run Scanner.next ⟨.beginValue,stack⟩ obj = some (t,ops)) : t.eof = false := by
  by_cases hdeep : stack.length < maxNestingDepth
  · obtain ⟨ops',hrun',-⟩ := h.reads stack hdeep
    cases hrun.symm.trans hrun'
    rw [popParseState, if_neg hopen]
    obtain ⟨frame,outer,rfl⟩ := List.exists_cons_of_ne_nil hopen
    rfl
  · obtain ⟨c,rest,rfl,-⟩ := h.shape
    obtain ⟨s₁,_,_,hbrace,-,-⟩ := run_cons_eq_some hrun
    have hnone : Scanner.next ⟨.beginValue,stack⟩ 123 = none := by
      have hpush : ¬ stack.length + 1 ≤ maxNestingDepth := hdeep
      simp [Scanner.next, Scanner.step, stateBeginValue, isSpace, pushParseState, hpush]
    rw [hnone] at hbrace
    cases hbrace

/-- What stands before an object is blanks, or the text is not valid. -/
theorem ObjectText.checkValid_append (h : ObjectText obj toks) (text : Bytes) :
    checkValid (text ++ obj) = if text.all isSpace then some toks else none := by
  split_ifs with hblank
  · have hspaces := reads_spaces (List.all_eq_true.mp hblank) []
    exact (hspaces.append (h.reads [] (by decide))).checkValid rfl
  · by_contra hsome
    obtain ⟨toks',htoks⟩ := Option.ne_none_iff_exists'.mp hsome
    obtain ⟨t,ops,hrun,heof,-⟩ := checkValid_eq_some htoks
    obtain ⟨s,before,after,htext,hobj,-⟩ := run_append_eq_some hrun
    have hfresh := fresh_of_run htext
    obtain ⟨c,rest,hshape,-⟩ := h.shape
    have hrun' := hobj
    rw [hshape] at hrun'
    obtain ⟨s₁,seen,later,hbrace,hrest,-⟩ := run_cons_eq_some hrun'
    obtain ⟨⟨v,op⟩,hstep,heq⟩ := Option.map_eq_some_iff.mp hbrace
    cases heq
    rcases step_brace hstep with ⟨hbegin,hvalue⟩ | ⟨hstring,rfl⟩
    · -- a value is expected inside something that is open
      have hopen : s.parseState ≠ [] := by
        rcases hbegin with hbegin | hbegin
        · intro hnil
          refine hblank (List.all_eq_true.mpr fun x hx => ?_)
          rw [← bytes_of_run htext] at hx
          obtain ⟨y,hy,rfl⟩ := List.mem_map.mp hx
          exact hfresh.1 hnil hbegin y hy
        · exact hfresh.2 hbegin
      have hrun₁ := run_cons_of_eq_some (next_of_step hvalue) hrest
      rw [← hshape] at hrun₁
      rw [h.not_eof hopen hrun₁] at heof
      cases heof
    · obtain ⟨state,stack⟩ := v
      cases hstring
      exact h.not_run_inString stack _ hobj

end Foreign

section Newlines

variable {s t : Scanner} {op : Op} {text l : Bytes} {ops : List (Op × UInt8)} {toks : List Token}

/-- A newline is a blank wherever it is allowed. -/
lemma step_newline (h : s.step 10 = some (t,op)) : op = .skipSpace ∨ op = .endTop := by
  obtain ⟨state,stack⟩ := s
  cases state with
  | word w read =>
    simp only [Scanner.step] at h
    split at h <;> cases h
    rename_i hletter
    have hmem : (10 : UInt8) ∈ w.letters := List.mem_of_getElem? hletter
    cases w <;> simp [Word.letters] at hmem
  | endValue | one | zero | dot0 | e0 => cases stack <;> cases h <;> simp
  | _ => simp [Scanner.step, stateBeginValue, stateBeginString, stateEndTop, stateInString,
      stateInStringEsc, stateInStringEscU, stateESign, isSpace, isDigit, isHex] at h <;> simp [← h]

/-- The bytes of the literals are bytes that were said to begin or to continue one. -/
lemma notMem_group {c : UInt8}
    (h : ∀ x ∈ ops, x.2 = c → x.1 = .skipSpace ∨ x.1 = .endTop) :
    c ∉ (group ops).1 ∧ ∀ l, .literal l ∈ (group ops).2 → c ∉ l := by
  induction ops with
  | nil => simp [group]
  | cons x ops ih =>
    obtain ⟨op,b⟩ := x
    obtain ⟨hopen,hclosed⟩ := ih fun x hx => h x (List.mem_cons_of_mem _ hx)
    have hfirst := h (op,b) List.mem_cons_self
    cases op with
    | continued =>
      have hb : c ≠ b := by rintro rfl; simp at hfirst
      exact ⟨by simp [group, hb, hopen],hclosed⟩
    | beginLiteral =>
      have hb : c ≠ b := by rintro rfl; simp at hfirst
      refine ⟨List.not_mem_nil,fun l hl => ?_⟩
      rcases List.mem_cons.mp hl with heq | hl
      · cases heq
        simp [hb, hopen]
      · exact hclosed l hl
    | _ => exact ⟨List.not_mem_nil,fun l hl => hclosed l (by simpa [group] using hl)⟩

lemma newline_notMem_literal (h : checkValid text = some toks) (hl : .literal l ∈ toks) :
    (10 : UInt8) ∉ l := by
  obtain ⟨s,ops,hrun,-,rfl⟩ := checkValid_eq_some h
  have hkeep : ∀ seen s c t op, (∀ x ∈ seen, x.2 = 10 → x.1 = .skipSpace ∨ x.1 = .endTop) →
      Scanner.next s c = some (t,op) →
      ∀ x ∈ seen ++ op, x.2 = 10 → x.1 = Op.skipSpace ∨ x.1 = Op.endTop := by
    intro seen s c t op hseen hnext
    obtain ⟨⟨t,op⟩,hstep,heq⟩ := Option.map_eq_some_iff.mp hnext
    cases heq
    refine List.forall_mem_append.mpr ⟨hseen,List.forall_mem_singleton.mpr ?_⟩
    rintro rfl
    exact step_newline hstep
  have hops := run_invariant hkeep (List.forall_mem_nil _) hrun
  exact (notMem_group hops).2 l hl

/-- A struct is written on one line. -/
theorem newline_notMem_structEncoder {m : Bytes × Bytes} {ms : List (Bytes × Bytes)}
    (h : ∀ x ∈ m::ms, Plain x) : (10 : UInt8) ∉ structEncoder (m::ms) := by
  have hvalid := checkValid_structEncoder h
  have hmember : ∀ x ∈ m::ms, (10 : UInt8) ∉ member x := by
    intro x hx
    have htokens : ∀ l, .literal l ∈ memberTokens x → (10 : UInt8) ∉ l := by
      refine fun l hl => newline_notMem_literal hvalid (List.mem_cons_of_mem _ ?_)
      rcases List.mem_cons.mp hx with rfl | hx
      · simp only [objectTokens, objectTokensBy, List.mem_append]
        exact .inl (.inl hl)
      · simp only [objectTokens, objectTokensBy, List.mem_append, List.mem_flatMap]
        exact .inl (.inr ⟨x,hx,List.mem_cons_of_mem _ hl⟩)
    have hname := htokens (quoted x.1) (by simp [memberTokens, memberTokensBy])
    have hvalue := htokens x.2 (by simp [memberTokens, memberTokensBy])
    simp [member, hname, hvalue]
  have hfirst := hmember m List.mem_cons_self
  have hrest : ∀ x ∈ ms, (10 : UInt8) ∉ member x := fun x hx =>
    hmember x (List.mem_cons_of_mem m hx)
  simp only [structEncoder, List.mem_cons, List.mem_append, List.mem_flatMap, List.not_mem_nil]
  rintro (hbrace | (hm | ⟨x,hx,hcomma | hm⟩) | hbrace | hnone)
  · cases hbrace
  · exact hfirst hm
  · cases hcomma
  · exact hrest x hx hm
  · cases hbrace
  · exact hnone

end Newlines

section Structs

variable {m : Bytes × Bytes} {ms : List (Bytes × Bytes)} {c : UInt8} {name : Bytes}

lemma objectText_structEncoder (h : ∀ x ∈ m::ms, Plain x) (hname : m.1 = c::name)
    (hc : Foreign c) :
    ObjectText (structEncoder (m::ms)) (.mark .beginObject::objectTokens (m::ms)) := by
  have hshape : ∃ rest, structEncoder (m::ms) = 123::34::c::rest := by
    rw [structEncoder, member, quoted, hname]
    exact ⟨_,rfl⟩
  obtain ⟨rest,hrest⟩ := hshape
  exact ⟨⟨c,rest,hrest,hc⟩,fun stack hdeep =>
    reads_structEncoder (fun x hx => (h x hx).valued) hdeep⟩

lemma getLast?_structEncoder : ∀ ms, (structEncoder ms).getLast? = some 125
  | [] => rfl
  | m::ms => by rw [structEncoder, ← List.cons_append, List.getLast?_concat]

lemma head?_structEncoder : ∀ ms, (structEncoder ms).head? = some 123
  | [] => rfl
  | _::_ => rfl

theorem checkValid_append_structEncoder (h : ∀ x ∈ m::ms, Plain x) (hname : m.1 = c::name)
    (hc : Foreign c) (text : Bytes) : checkValid (text ++ structEncoder (m::ms)) =
      if text.all isSpace then some (.mark .beginObject::objectTokens (m::ms)) else none :=
  (objectText_structEncoder h hname hc).checkValid_append text

theorem checkValid_take_structEncoder (h : ∀ x ∈ m::ms, Plain x) {n : ℕ}
    (hn : n < (structEncoder (m::ms)).length) :
    checkValid ((structEncoder (m::ms)).take n) = none := by
  refine checkValid_take_of_object (head?_structEncoder _) (fun c hc => ?_) ?_ hn
  · cases (getLast?_structEncoder _).symm.trans hc
    rfl
  · rw [checkValid_structEncoder h]
    rfl

end Structs

end Tracewulf.Json
