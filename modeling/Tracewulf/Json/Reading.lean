import Tracewulf.Base.Simulation
import Tracewulf.Json.Scanner

/-! How the scanner gets through texts that are put together from others: literals, and arrays and
structs of values. -/
namespace Tracewulf.Json
open Tracewulf.Base

section Reads

variable {s t u : Scanner} {a b text : Bytes} {as bs : List Token} {c : UInt8} {op : Op}

/-- The scanner gets through the text and makes these tokens of it, whatever follows. -/
def Reads (s : Scanner) (text : Bytes) (toks : List Token) (t : Scanner) : Prop :=
  ∃ ops, run Scanner.next s text = some (t,ops) ∧
    ∀ tail, (group tail).1 = [] → group (ops ++ tail) = ([],toks ++ (group tail).2)

/-- The scanner gets through the text as a part of the literal it is in. -/
def Continues (s : Scanner) (text : Bytes) (t : Scanner) : Prop :=
  run Scanner.next s text = some (t,text.map (Op.continued,·))

lemma next_of_step (h : s.step c = some (t,op)) : s.next c = some (t,[(op,c)]) := by
  rw [Scanner.next, h]
  rfl

lemma Reads.nil (s : Scanner) : Reads s [] [] s :=
  ⟨[],rfl,fun tail htail => by rw [← htail]; rfl⟩

lemma Continues.nil (s : Scanner) : Continues s [] s := rfl

lemma Continues.cons (h : s.step c = some (t,.continued)) (ha : Continues t a u) :
    Continues s (c::a) u := run_cons_of_eq_some (next_of_step h) ha

lemma Continues.append (ha : Continues s a t) (hb : Continues t b u) :
    Continues s (a ++ b) u := by
  rw [Continues, List.map_append]
  exact run_append ha hb

lemma Reads.append (ha : Reads s a as t) (hb : Reads t b bs u) :
    Reads s (a ++ b) (as ++ bs) u := by
  obtain ⟨aops,harun,hagroup⟩ := ha
  obtain ⟨bops,hbrun,hbgroup⟩ := hb
  refine ⟨aops ++ bops,run_append harun hbrun,fun tail htail => ?_⟩
  have hmid := hbgroup tail htail
  rw [List.append_assoc, hagroup _ (by rw [hmid]), hmid, List.append_assoc]

/-- A byte that is a token of its own. -/
lemma reads_mark (h : s.step c = some (t,op))
    (hop : op ≠ .continued ∧ op ≠ .beginLiteral ∧ op ≠ .skipSpace ∧ op ≠ .endTop) :
    Reads s [c] [.mark op] t := by
  obtain ⟨hcontinued,hliteral,hspace,htop⟩ := hop
  refine ⟨[(op,c)],run_singleton (next_of_step h),fun tail _ => ?_⟩
  cases op with
  | continued => exact absurd rfl hcontinued
  | beginLiteral => exact absurd rfl hliteral
  | skipSpace => exact absurd rfl hspace
  | endTop => exact absurd rfl htop
  | _ => rfl

lemma group_continued (text : Bytes) (tail : List (Op × UInt8)) :
    group (text.map (Op.continued,·) ++ tail) = (text ++ (group tail).1,(group tail).2) := by
  induction text with
  | nil => rfl
  | cons c text ih => rw [List.map_cons, List.cons_append, group, ih]; rfl

lemma reads_literal (h : s.step c = some (t,.beginLiteral)) (ha : Continues t a u) :
    Reads s (c::a) [.literal (c::a)] u := by
  refine ⟨_,run_cons_of_eq_some (next_of_step h) ha,fun tail htail => ?_⟩
  rw [List.cons_append, List.nil_append, List.cons_append, group, group_continued, htail,
    List.append_nil]
  rfl

/-- Blanks before a value are passed over. -/
lemma reads_spaces (h : ∀ c ∈ text, isSpace c = true) (stack : List Frame) :
    Reads ⟨.beginValue,stack⟩ text [] ⟨.beginValue,stack⟩ := by
  induction text with
  | nil => exact .nil _
  | cons c text ih =>
    obtain ⟨ops,hrun,hgroup⟩ := ih fun x hx => h x (List.mem_cons_of_mem c hx)
    have hspace := h c List.mem_cons_self
    have hstep : Scanner.step ⟨.beginValue,stack⟩ c = some (⟨.beginValue,stack⟩,.skipSpace) := by
      simp only [Scanner.step, stateBeginValue, hspace, if_true]
    refine ⟨_,run_cons_of_eq_some (next_of_step hstep) hrun,fun tail htail => ?_⟩
    rw [List.cons_append, List.nil_append, List.cons_append, group, hgroup tail htail]

/-- A value that was read to the end of the text. -/
lemma Reads.checkValid (h : Reads .reset text as t) (heof : t.eof = true) :
    checkValid text = some as := by
  obtain ⟨ops,hrun,hgroup⟩ := h
  have hall := hgroup [] rfl
  simp only [List.append_nil, group] at hall
  simp only [Json.checkValid, hrun, heof, if_true, hall]

end Reads

section Literals

/-- The inside of a string. -/
def InString (body : Bytes) : Prop :=
  ∀ stack, Continues ⟨.inString,stack⟩ body ⟨.inString,stack⟩

/-- A string with this inside. -/
def quoted (body : Bytes) : Bytes := 34::(body ++ [34])

/-- A state that a literal may end in: what is no part of a number ends the value. -/
def EndsLiteral (q : State) : Prop := ∀ stack c, isDigit c = false → c ≠ 46 → c ≠ 101 → c ≠ 69 →
  Scanner.step ⟨q,stack⟩ c = stateEndValue stack c

/-- A text that is read as one literal where a value is expected. -/
def IsLiteral (text : Bytes) : Prop := ∀ stack, ∃ q, EndsLiteral q ∧
  Reads ⟨.beginValue,stack⟩ text [.literal text] ⟨q,stack⟩

lemma endsLiteral_endValue : EndsLiteral .endValue := fun _ _ _ _ _ _ => rfl

lemma endsLiteral_zero : EndsLiteral .zero := by
  intro stack c _ hpoint he hE
  simp [Scanner.step, stateZero, hpoint, he, hE]

lemma endsLiteral_one : EndsLiteral .one := by
  intro stack c hdigit hpoint he hE
  simp [Scanner.step, stateZero, hdigit, hpoint, he, hE]

lemma endsLiteral_dot0 : EndsLiteral .dot0 := by
  intro stack c hdigit _ he hE
  simp [Scanner.step, hdigit, he, hE]

lemma endsLiteral_e0 : EndsLiteral .e0 := by
  intro stack c hdigit _ _ _
  simp [Scanner.step, hdigit]

/-- `true`, `false` and `null`. -/
lemma isLiteral_letters (w : Word) : IsLiteral w.letters := by
  intro stack
  refine ⟨.endValue,endsLiteral_endValue,?_⟩
  cases w with
  | true => exact reads_literal rfl (.cons rfl (.cons rfl (.cons rfl (.nil _))))
  | false => exact reads_literal rfl (.cons rfl (.cons rfl (.cons rfl (.cons rfl (.nil _)))))
  | null => exact reads_literal rfl (.cons rfl (.cons rfl (.cons rfl (.nil _))))

lemma InString.append {a b : Bytes} (ha : InString a) (hb : InString b) : InString (a ++ b) :=
  fun stack => (ha stack).append (hb stack)

lemma inString_nil : InString [] := fun _ => .nil _

/-- A byte that stands for itself in a string. -/
lemma inString_singleton {c : UInt8} (hquote : c ≠ 34) (hslash : c ≠ 92) (hcontrol : 32 ≤ c) :
    InString [c] := by
  intro stack
  refine .cons ?_ (.nil _)
  simp only [Scanner.step, stateInString, hquote, hslash, UInt8.not_lt.mpr hcontrol, if_false]

lemma inString_of_forall {body : Bytes} (h : ∀ c ∈ body, c ≠ 34 ∧ c ≠ 92 ∧ 32 ≤ c) :
    InString body := by
  induction body with
  | nil => exact inString_nil
  | cons c body ih =>
    obtain ⟨hquote,hslash,hcontrol⟩ := h c List.mem_cons_self
    have hrest := ih fun x hx => h x (List.mem_cons_of_mem c hx)
    exact (inString_singleton hquote hslash hcontrol).append hrest

/-- A string is read as one literal wherever a string may begin. -/
lemma InString.reads {body : Bytes} (h : InString body) {s : Scanner}
    (hbegin : s.step 34 = some (⟨.inString,s.parseState⟩,.beginLiteral)) :
    Reads s (quoted body) [.literal (quoted body)] ⟨.endValue,s.parseState⟩ :=
  reads_literal hbegin ((h s.parseState).append (.cons rfl (.nil _)))

lemma InString.isLiteral {body : Bytes} (h : InString body) : IsLiteral (quoted body) :=
  fun stack => ⟨.endValue,endsLiteral_endValue,h.reads (s := ⟨.beginValue,stack⟩) rfl⟩

end Literals

section Values

/-- The scanner has got through a value: what follows is read by the frame that the value is in. -/
def Ends (stack : List Frame) (t : Scanner) : Prop :=
  t = popParseState stack ∨ ∃ q, EndsLiteral q ∧ t = ⟨q,stack⟩

/-- A text that is read as one value, wherever there is room for what is nested in it. -/
def IsValue (depth : ℕ) (text : Bytes) (toks : List Token) : Prop :=
  ∀ stack, stack.length + depth ≤ maxNestingDepth →
    ∃ t, Ends stack t ∧ Reads ⟨.beginValue,stack⟩ text toks t

variable {depth : ℕ} {text : Bytes} {toks : List Token} {c : UInt8} {t : Scanner}
  {frame : Frame} {outer : List Frame}

lemma Ends.step (h : Ends (frame::outer) t) (hdigit : isDigit c = false) (hpoint : c ≠ 46)
    (he : c ≠ 101) (hE : c ≠ 69) : t.step c = stateEndValue (frame::outer) c := by
  rcases h with rfl | ⟨q,hq,rfl⟩
  · rfl
  · exact hq _ _ hdigit hpoint he hE

lemma Ends.eof (h : Ends [] t) : t.eof = true := by
  rcases h with rfl | ⟨q,hq,rfl⟩
  · rfl
  · have hblank := hq [] 32 rfl (by decide) (by decide) (by decide)
    rw [Scanner.eof, hblank]
    simp [stateEndValue, stateEndTop, isSpace]

theorem IsValue.checkValid (h : IsValue depth text toks) (hdepth : depth ≤ maxNestingDepth) :
    checkValid text = some toks := by
  obtain ⟨t,hend,hreads⟩ := h [] (by simpa using hdepth)
  exact Reads.checkValid hreads hend.eof

lemma IsLiteral.isValue (h : IsLiteral text) (depth : ℕ) :
    IsValue depth text [.literal text] := by
  intro stack _
  obtain ⟨q,hq,hreads⟩ := h stack
  exact ⟨_,.inr ⟨q,hq,rfl⟩,hreads⟩

end Values

section Arrays

/-- `arrayEncoder.encode` on the encoded elements. -/
def arrayEncoder : List Bytes → Bytes
  | [] => [91,93]
  | x::xs => 91::(x ++ xs.flatMap (fun x => 44::x) ++ [93])

/-- The tokens of an array, by those of its elements. -/
def arrayTokens : List (List Token) → List Token
  | [] => [.mark .beginArray,.mark .endArray]
  | v::vs => .mark .beginArray::(v ++ vs.flatMap (fun v => .mark .arrayValue::v) ++
      [.mark .endArray])

variable {depth : ℕ} {x : Bytes} {xs : List (Bytes × List Token)} {c : UInt8} {t : Scanner}
  {stack outer : List Frame} {toks : List Token}

/-- What is no blank and no closing bracket begins the first element as any other. -/
lemma Reads.orEmpty (h : Reads ⟨.beginValue,stack⟩ (c::x) toks t) (hspace : isSpace c = false) :
    Reads ⟨.beginValueOrEmpty,stack⟩ (c::x) toks t := by
  obtain ⟨ops,hrun,hgroup⟩ := h
  obtain ⟨u,seen,later,hnext,hrest,rfl⟩ := run_cons_eq_some hrun
  have hclose : c ≠ 93 := by
    rintro rfl
    cases hnext
  have hsame : Scanner.step ⟨.beginValueOrEmpty,stack⟩ c = Scanner.step ⟨.beginValue,stack⟩ c := by
    simp only [Scanner.step, hspace, hclose, if_false, Bool.false_eq_true]
  have hnext' : Scanner.next ⟨.beginValueOrEmpty,stack⟩ c = some (u,seen) := by
    rw [Scanner.next, hsame]
    exact hnext
  exact ⟨_,run_cons_of_eq_some hnext' hrest,hgroup⟩

lemma reads_elements (h : ∀ x ∈ xs, IsValue depth x.1 x.2)
    (hroom : outer.length + 1 + depth ≤ maxNestingDepth) (ht : Ends (.arrayValue::outer) t) :
    ∃ t', Ends (.arrayValue::outer) t' ∧ Reads t ((xs.map Prod.fst).flatMap fun x => 44::x)
      ((xs.map Prod.snd).flatMap fun v => .mark .arrayValue::v) t' := by
  induction xs generalizing t with
  | nil => exact ⟨t,ht,.nil _⟩
  | cons x xs ih =>
    have hcomma : Reads t [44] [.mark .arrayValue] ⟨.beginValue,.arrayValue::outer⟩ :=
      reads_mark (ht.step rfl (by decide) (by decide) (by decide)) (by simp)
    obtain ⟨t₁,ht₁,hvalue⟩ := h x List.mem_cons_self (.arrayValue::outer) hroom
    obtain ⟨t₂,ht₂,hrest⟩ := ih (fun x hx => h x (List.mem_cons_of_mem _ hx)) ht₁
    exact ⟨t₂,ht₂,hcomma.append (hvalue.append hrest)⟩

/-- An array of values that do not begin with blanks is a value. -/
theorem isValue_arrayEncoder (h : ∀ x ∈ xs, IsValue depth x.1 x.2)
    (hspace : ∀ x ∈ xs, ∃ c rest, x.1 = c::rest ∧ isSpace c = false) :
    IsValue (depth + 1) (arrayEncoder (xs.map Prod.fst)) (arrayTokens (xs.map Prod.snd)) := by
  have hopen : ∀ stack : List Frame, stack.length + (depth + 1) ≤ maxNestingDepth →
      Reads ⟨.beginValue,stack⟩ [91] [.mark .beginArray]
        ⟨.beginValueOrEmpty,.arrayValue::stack⟩ := by
    intro stack hroom
    refine reads_mark ?_ (by simp)
    have hpush : stack.length + 1 ≤ maxNestingDepth := by omega
    simp [Scanner.step, stateBeginValue, isSpace, pushParseState, hpush]
  cases xs with
  | nil =>
    refine fun stack hroom => ⟨_,.inl rfl,?_⟩
    have hclose : Reads ⟨.beginValueOrEmpty,.arrayValue::stack⟩ [93] [.mark .endArray]
        (popParseState stack) := reads_mark rfl (by simp)
    exact (hopen stack hroom).append hclose
  | cons x xs =>
    refine fun stack hroom => ⟨_,.inl rfl,?_⟩
    have hinner : stack.length + 1 + depth ≤ maxNestingDepth := by omega
    obtain ⟨t₁,ht₁,hfirst⟩ := h x List.mem_cons_self (.arrayValue::stack) hinner
    obtain ⟨c,rest,hshape,hc⟩ := hspace x List.mem_cons_self
    obtain ⟨t₂,ht₂,hrest⟩ := reads_elements
      (fun x hx => h x (List.mem_cons_of_mem _ hx)) hinner ht₁
    have hclose : Reads t₂ [93] [.mark .endArray] (popParseState stack) :=
      reads_mark (ht₂.step rfl (by decide) (by decide) (by decide)) (by simp)
    rw [hshape] at hfirst
    rw [List.map_cons, List.map_cons, arrayEncoder, arrayTokens, hshape]
    exact (hopen stack hroom).append (((hfirst.orEmpty hc).append hrest).append hclose)

end Arrays

section Objects

/-- The members of a struct as they are written, the name and the colon first. -/
def member (m : Bytes × Bytes) : Bytes := quoted m.1 ++ 58::m.2

/-- `structEncoder.encode` on the names and the encoded values. -/
def structEncoder : List (Bytes × Bytes) → Bytes
  | [] => [123,125]
  | m::ms => 123::(member m ++ ms.flatMap (fun m => 44::member m) ++ [125])

variable (value : Bytes × Bytes → List Token)

/-- The tokens of a member, by those of its value. -/
def memberTokensBy (m : Bytes × Bytes) : List Token :=
  .literal (quoted m.1)::.mark .objectKey::value m

def objectTokensBy : List (Bytes × Bytes) → List Token
  | [] => [.mark .endObject]
  | m::ms => memberTokensBy value m ++
      ms.flatMap (fun m => .mark .objectValue::memberTokensBy value m) ++ [.mark .endObject]

variable {value} {m : Bytes × Bytes} {ms : List (Bytes × Bytes)} {s t : Scanner} {depth : ℕ}
  {outer stack : List Frame}

/-- A member whose name is a string and whose value is one. -/
def Valued (value : Bytes × Bytes → List Token) (depth : ℕ) (m : Bytes × Bytes) : Prop :=
  InString m.1 ∧ IsValue depth m.2 (value m)

/-- After a member a comma or the closing brace is expected. -/
lemma Valued.reads (h : Valued value depth m) (hstack : s.parseState = .objectKey::outer)
    (hbegin : s.step 34 = some (⟨.inString,s.parseState⟩,.beginLiteral))
    (hroom : outer.length + 1 + depth ≤ maxNestingDepth) :
    ∃ t, Ends (.objectValue::outer) t ∧ Reads s (member m) (memberTokensBy value m) t := by
  obtain ⟨t,ht,hvalue⟩ := h.2 (.objectValue::outer) hroom
  have hname := h.1.reads hbegin
  rw [hstack] at hname
  have hcolon : Reads ⟨.endValue,.objectKey::outer⟩ [58] [.mark .objectKey]
      ⟨.beginValue,.objectValue::outer⟩ := reads_mark rfl (by simp)
  exact ⟨t,ht,hname.append (hcolon.append hvalue)⟩

lemma reads_members (h : ∀ m ∈ ms, Valued value depth m)
    (hroom : outer.length + 1 + depth ≤ maxNestingDepth) (ht : Ends (.objectValue::outer) t) :
    ∃ t', Ends (.objectValue::outer) t' ∧ Reads t (ms.flatMap fun m => 44::member m)
      (ms.flatMap fun m => .mark .objectValue::memberTokensBy value m) t' := by
  induction ms generalizing t with
  | nil => exact ⟨t,ht,.nil _⟩
  | cons m ms ih =>
    have hcomma : Reads t [44] [.mark .objectValue] ⟨.beginString,.objectKey::outer⟩ :=
      reads_mark (ht.step rfl (by decide) (by decide) (by decide)) (by simp)
    obtain ⟨t₁,ht₁,hmember⟩ := (h m List.mem_cons_self).reads
      (s := ⟨.beginString,.objectKey::outer⟩) rfl rfl hroom
    obtain ⟨t₂,ht₂,hrest⟩ := ih (fun x hx => h x (List.mem_cons_of_mem m hx)) ht₁
    exact ⟨t₂,ht₂,hcomma.append (hmember.append hrest)⟩

/-- A struct of values is read as one value wherever there is room for it. -/
theorem reads_structEncoder (h : ∀ x ∈ m::ms, Valued value depth x)
    (hroom : stack.length + (depth + 1) ≤ maxNestingDepth) :
    Reads ⟨.beginValue,stack⟩ (structEncoder (m::ms))
      (.mark .beginObject::objectTokensBy value (m::ms)) (popParseState stack) := by
  have hinner : stack.length + 1 + depth ≤ maxNestingDepth := by omega
  have hopen : Reads ⟨.beginValue,stack⟩ [123] [.mark .beginObject]
      ⟨.beginStringOrEmpty,.objectKey::stack⟩ := by
    refine reads_mark ?_ (by simp)
    have hpush : stack.length + 1 ≤ maxNestingDepth := by omega
    simp [Scanner.step, stateBeginValue, isSpace, pushParseState, hpush]
  obtain ⟨t₁,ht₁,hfirst⟩ := (h m List.mem_cons_self).reads
    (s := ⟨.beginStringOrEmpty,.objectKey::stack⟩) rfl rfl hinner
  obtain ⟨t₂,ht₂,hrest⟩ :=
    reads_members (fun x hx => h x (List.mem_cons_of_mem m hx)) hinner ht₁
  have hclose : Reads t₂ [125] [.mark .endObject] (popParseState stack) :=
    reads_mark (ht₂.step rfl (by decide) (by decide) (by decide)) (by simp)
  exact hopen.append ((hfirst.append hrest).append hclose)

theorem isValue_structEncoder (h : ∀ x ∈ m::ms, Valued value depth x) :
    IsValue (depth + 1) (structEncoder (m::ms))
      (.mark .beginObject::objectTokensBy value (m::ms)) :=
  fun _ hroom => ⟨_,.inl rfl,reads_structEncoder h hroom⟩

end Objects

section Plain

/-! Structs whose values are literals. -/

def memberTokens (m : Bytes × Bytes) : List Token := memberTokensBy (fun m => [.literal m.2]) m

def objectTokens (ms : List (Bytes × Bytes)) : List Token :=
  objectTokensBy (fun m => [.literal m.2]) ms

/-- Members whose names are strings and whose values are literals. -/
def Plain (m : Bytes × Bytes) : Prop := InString m.1 ∧ IsLiteral m.2

variable {m : Bytes × Bytes} {ms : List (Bytes × Bytes)}

lemma Plain.valued (h : Plain m) : Valued (fun m => [.literal m.2]) 0 m := ⟨h.1,h.2.isValue 0⟩

theorem checkValid_structEncoder (h : ∀ x ∈ m::ms, Plain x) :
    checkValid (structEncoder (m::ms)) = some (.mark .beginObject::objectTokens (m::ms)) :=
  (isValue_structEncoder fun x hx => (h x hx).valued).checkValid (by decide)

end Plain

end Tracewulf.Json
