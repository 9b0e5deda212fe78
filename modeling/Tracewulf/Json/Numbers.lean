import Tracewulf.Base.Decimal
import Tracewulf.Json.Reading

/-! Numbers in JSON: what `strconv` writes for an integer and reads back, and that a number is one
literal. -/
namespace Tracewulf.Json
open Tracewulf.Base

/-- `strconv.AppendUint` in base ten. -/
def appendUint (n : ℕ) : Bytes := (Nat.toDigits 10 n).map fun c => UInt8.ofNat c.toNat

/-- `strconv.AppendInt` in base ten. -/
def appendInt : ℤ → Bytes
  | .ofNat n => appendUint n
  | .negSucc n => 45::appendUint (n+1)

/-- The value of a text of digits. -/
def digits (text : Bytes) : Option ℕ :=
  if text ≠ [] ∧ text.all isDigit then
    some (text.foldl (fun n c => 10*n + (c.toNat - 48)) 0)
  else none

/-- `strconv.ParseUint` in base ten with 64 bits. -/
def parseUint (text : Bytes) : Option ℕ := (digits text).filter (· < 2^64)

/-- `strconv.ParseInt` in base ten with 64 bits. -/
def parseInt : Bytes → Option ℤ
  -- a minus
  | 45::text => ((digits text).filter (· ≤ 2^63)).map fun n : ℕ => -(n : ℤ)
  -- a plus
  | 43::text => ((digits text).filter (· < 2^63)).map Int.ofNat
  | text => ((digits text).filter (· < 2^63)).map Int.ofNat

section Integers

variable {n : ℕ} {c : Char}

lemma byte_toNat (hc : c.isDigit = true) : (UInt8.ofNat c.toNat).toNat = c.toNat := by
  simp only [Char.isDigit, Bool.and_eq_true, decide_eq_true_eq] at hc
  have hle : c.toNat ≤ 57 := hc.2
  rw [UInt8.toNat_ofNat']
  omega

lemma isDigit_byte (hc : c.isDigit = true) : isDigit (UInt8.ofNat c.toNat) = true := by
  have hbyte := byte_toNat hc
  simp only [Char.isDigit, Bool.and_eq_true, decide_eq_true_eq] at hc
  have hge : 48 ≤ c.toNat := hc.1
  have hle : c.toNat ≤ 57 := hc.2
  simp only [isDigit, Bool.and_eq_true, decide_eq_true_eq, UInt8.le_iff_toNat_le, hbyte]
  exact ⟨hge,hle⟩

lemma isDigit_of_mem_appendUint {x : UInt8} (hx : x ∈ appendUint n) : isDigit x = true := by
  obtain ⟨c,hc,rfl⟩ := List.mem_map.mp hx
  exact isDigit_byte (Nat.isDigit_of_mem_toDigits (by decide) (by decide) hc)

lemma digits_appendUint (n : ℕ) : digits (appendUint n) = some n := by
  have hne : appendUint n ≠ [] := by simp [appendUint, Nat.toDigits_ne_nil]
  have hall : (appendUint n).all isDigit = true :=
    List.all_eq_true.mpr fun x hx => isDigit_of_mem_appendUint hx
  have hstep : ∀ (cs : List Char), (∀ c ∈ cs, c.isDigit = true) → ∀ m,
      (cs.map fun c => UInt8.ofNat c.toNat).foldl (fun n c => 10*n + (c.toNat - 48)) m =
        Nat.ofDigitChars 10 cs m := by
    intro cs hcs
    induction cs with
    | nil => exact fun m => rfl
    | cons c cs ih =>
      intro m
      rw [List.map_cons, List.foldl_cons, Nat.ofDigitChars_cons,
        ih (fun x hx => hcs x (List.mem_cons_of_mem c hx)), byte_toNat (hcs c List.mem_cons_self)]
      rfl
  rw [digits, if_pos ⟨hne,hall⟩, appendUint,
    hstep _ (fun c hc => Nat.isDigit_of_mem_toDigits (by decide) (by decide) hc),
    Nat.ofDigitChars_ten_toDigits]

theorem parseUint_appendUint (hn : n < 2^64) : parseUint (appendUint n) = some n := by
  rw [parseUint, digits_appendUint]
  exact Option.filter_some_pos (decide_eq_true hn)

theorem parseInt_appendUint (hn : n < 2^63) : parseInt (appendUint n) = some (n : ℤ) := by
  have hdigits := digits_appendUint n
  unfold parseInt
  split
  · rename_i text heq
    have hmem : (45 : UInt8) ∈ appendUint n := heq ▸ List.mem_cons_self
    exact absurd (isDigit_of_mem_appendUint hmem) (by decide)
  · rename_i text heq
    have hmem : (43 : UInt8) ∈ appendUint n := heq ▸ List.mem_cons_self
    exact absurd (isDigit_of_mem_appendUint hmem) (by decide)
  · have hfits : Option.filter (fun n : ℕ => n < 2^63) (some n) = some n :=
      Option.filter_some_pos (decide_eq_true hn)
    rw [hdigits, hfits]
    rfl

theorem parseInt_appendInt {n : ℤ} (hlow : -2^63 ≤ n) (hhigh : n < 2^63) :
    parseInt (appendInt n) = some n := by
  cases n with
  | ofNat n => exact parseInt_appendUint (by rw [Int.ofNat_eq_natCast] at hhigh; omega)
  | negSucc n =>
    have hfits : Option.filter (fun n : ℕ => n ≤ 2^63) (some (n+1)) = some (n+1) :=
      Option.filter_some_pos (decide_eq_true (by omega))
    simp only [appendInt, parseInt, digits_appendUint, hfits, Option.map_some]
    rfl

lemma length_appendUint_le {k : ℕ} (hk : 0 < k) (hn : n < 10^k) : (appendUint n).length ≤ k := by
  rw [appendUint, List.length_map]
  exact Nat.toDigits_length 10 n k hk hn

/-- At most twenty digits. -/
lemma length_appendUint (hn : n < 2^64) : (appendUint n).length ≤ 20 :=
  length_appendUint_le (by decide) (by omega)

/-- At most a sign and nineteen digits. -/
lemma length_appendInt {n : ℤ} (hlow : -2^63 ≤ n) (hhigh : n < 2^63) :
    (appendInt n).length ≤ 20 := by
  cases n with
  | ofNat n => exact length_appendUint (by rw [Int.ofNat_eq_natCast] at hhigh; omega)
  | negSucc n =>
    have hdigits : (appendUint (n+1)).length ≤ 19 := length_appendUint_le (by decide) (by omega)
    exact Nat.succ_le_succ hdigits

end Integers

section Scanning

variable {q : State} {stack : List Frame} {c : UInt8} {text : Bytes}

lemma digit_cases (h : isDigit c = true) : c = 48 ∨ c = 49 ∨ c = 50 ∨ c = 51 ∨ c = 52 ∨ c = 53 ∨
    c = 54 ∨ c = 55 ∨ c = 56 ∨ c = 57 := by
  simp only [isDigit, Bool.and_eq_true, decide_eq_true_eq, UInt8.le_iff_toNat_le] at h
  have hge : 48 ≤ c.toNat := h.1
  have hle : c.toNat ≤ 57 := h.2
  simp only [← UInt8.toNat_inj]
  simp only [UInt8.reduceToNat]
  omega

/-- Digits leave a state alone that digits may follow. -/
lemma continues_digits (hq : ∀ c, isDigit c = true →
    Scanner.step ⟨q,stack⟩ c = some (⟨q,stack⟩,.continued)) (h : text.all isDigit = true) :
    Continues ⟨q,stack⟩ text ⟨q,stack⟩ := by
  induction text with
  | nil => exact .nil _
  | cons c text ih =>
    rw [List.all_cons, Bool.and_eq_true] at h
    exact .cons (hq c h.1) (ih h.2)

lemma step_one (hc : isDigit c = true) :
    Scanner.step ⟨.one,stack⟩ c = some (⟨.one,stack⟩,.continued) := by
  simp [Scanner.step, hc]

/-- A whole number without a zero in front. -/
def IsInteger (text : Bytes) : Prop :=
  text = [48] ∨ ∃ c ds, text = c::ds ∧ isDigit c = true ∧ c ≠ 48 ∧ ds.all isDigit = true

/-- Nothing, or a point and digits. -/
def IsFraction (text : Bytes) : Prop :=
  text = [] ∨ ∃ c ds, text = 46::c::ds ∧ isDigit c = true ∧ ds.all isDigit = true

/-- Nothing, or a letter, perhaps a sign, and digits. -/
def IsExponent (text : Bytes) : Prop :=
  text = [] ∨ ∃ letter sign c ds, text = letter::(sign ++ c::ds) ∧ (letter = 101 ∨ letter = 69) ∧
    (sign = [] ∨ sign = [43] ∨ sign = [45]) ∧ isDigit c = true ∧ ds.all isDigit = true

/-- A number of JSON. -/
inductive IsNumber : Bytes → Prop
  | positive (int frac exp : Bytes) (hint : IsInteger int) (hfrac : IsFraction frac)
      (hexp : IsExponent exp) : IsNumber (int ++ (frac ++ exp))
  | negative (int frac exp : Bytes) (hint : IsInteger int) (hfrac : IsFraction frac)
      (hexp : IsExponent exp) : IsNumber (45::(int ++ (frac ++ exp)))

/-- The states between the parts of a number. -/
def AfterInteger (q : State) : Prop := q = .zero ∨ q = .one

def AfterFraction (q : State) : Prop := AfterInteger q ∨ q = .dot0

lemma step_letter (hq : AfterFraction q) {letter : UInt8} (h : letter = 101 ∨ letter = 69) :
    Scanner.step ⟨q,stack⟩ letter = some (⟨.e,stack⟩,.continued) := by
  rcases hq with (rfl | rfl) | rfl <;> rcases h with rfl | rfl <;> rfl

lemma step_digit_eSign (hc : isDigit c = true) (hq : q = .e ∨ q = .eSign) :
    Scanner.step ⟨q,stack⟩ c = some (⟨.e0,stack⟩,.continued) := by
  rcases hq with rfl | rfl
  · have hsign : ¬ (c = 43 ∨ c = 45) := by rintro (rfl | rfl) <;> cases hc
    simp [Scanner.step, stateESign, hsign, hc]
  · simp [Scanner.step, stateESign, hc]

lemma continues_fraction (stack : List Frame) (h : IsFraction text) (hq : AfterInteger q) :
    ∃ q', AfterFraction q' ∧ Continues ⟨q,stack⟩ text ⟨q',stack⟩ := by
  rcases h with rfl | ⟨c,ds,rfl,hc,hds⟩
  · exact ⟨q,.inl hq,.nil _⟩
  · have hpoint : Scanner.step ⟨q,stack⟩ 46 = some (⟨.dot,stack⟩,.continued) := by
      rcases hq with rfl | rfl <;> rfl
    have hfirst : Scanner.step ⟨.dot,stack⟩ c = some (⟨.dot0,stack⟩,.continued) := by
      simp [Scanner.step, hc]
    have hrest : Continues ⟨.dot0,stack⟩ ds ⟨.dot0,stack⟩ :=
      continues_digits (fun c hc => by simp [Scanner.step, hc]) hds
    exact ⟨.dot0,.inr rfl,.cons hpoint (.cons hfirst hrest)⟩

lemma continues_exponent (stack : List Frame) (h : IsExponent text) (hq : AfterFraction q) :
    ∃ q', EndsLiteral q' ∧ Continues ⟨q,stack⟩ text ⟨q',stack⟩ := by
  rcases h with rfl | ⟨letter,sign,c,ds,rfl,hletter,hsign,hc,hds⟩
  · refine ⟨q,?_,.nil _⟩
    rcases hq with (rfl | rfl) | rfl
    · exact endsLiteral_zero
    · exact endsLiteral_one
    · exact endsLiteral_dot0
  · have hrest : Continues ⟨.e0,stack⟩ ds ⟨.e0,stack⟩ :=
      continues_digits (fun c hc => by simp [Scanner.step, hc]) hds
    refine ⟨.e0,endsLiteral_e0,.cons (step_letter hq hletter) ?_⟩
    rcases hsign with rfl | rfl | rfl
    · exact .cons (step_digit_eSign hc (.inl rfl)) hrest
    · exact .cons (t := ⟨.eSign,stack⟩) rfl (.cons (step_digit_eSign hc (.inr rfl)) hrest)
    · exact .cons (t := ⟨.eSign,stack⟩) rfl (.cons (step_digit_eSign hc (.inr rfl)) hrest)

lemma step_first (stack : List Frame) (hc : isDigit c = true) (hzero : c ≠ 48) :
    Scanner.step ⟨.beginValue,stack⟩ c = some (⟨.one,stack⟩,.beginLiteral) ∧
      Scanner.step ⟨.neg,stack⟩ c = some (⟨.one,stack⟩,.continued) := by
  rcases (digit_cases hc).resolve_left hzero with
    rfl | rfl | rfl | rfl | rfl | rfl | rfl | rfl | rfl
  all_goals exact ⟨rfl,rfl⟩

/-- The first byte of a whole number begins the literal or goes on after a minus. -/
lemma continues_integer (stack : List Frame) (h : IsInteger text) :
    ∃ c ds q, text = c::ds ∧ AfterInteger q ∧
    Scanner.step ⟨.beginValue,stack⟩ c = some (⟨q,stack⟩,.beginLiteral) ∧
    Scanner.step ⟨.neg,stack⟩ c = some (⟨q,stack⟩,.continued) ∧
    Continues ⟨q,stack⟩ ds ⟨q,stack⟩ := by
  rcases h with rfl | ⟨c,ds,rfl,hc,hzero,hds⟩
  · exact ⟨48,[],.zero,rfl,.inl rfl,rfl,rfl,.nil _⟩
  · obtain ⟨hbegin,hneg⟩ := step_first stack hc hzero
    exact ⟨c,ds,.one,rfl,.inr rfl,hbegin,hneg,continues_digits (fun c hc => step_one hc) hds⟩

theorem IsNumber.isLiteral (h : IsNumber text) : IsLiteral text := by
  intro stack
  cases h with
  | positive int frac exp hint hfrac hexp =>
    obtain ⟨c,ds,q,rfl,hq,hbegin,-,hds⟩ := continues_integer stack hint
    obtain ⟨q₁,hq₁,hfrac⟩ := continues_fraction stack hfrac hq
    obtain ⟨q₂,hq₂,hexp⟩ := continues_exponent stack hexp hq₁
    exact ⟨q₂,hq₂,reads_literal hbegin (hds.append (hfrac.append hexp))⟩
  | negative int frac exp hint hfrac hexp =>
    obtain ⟨c,ds,q,rfl,hq,-,hneg,hds⟩ := continues_integer stack hint
    obtain ⟨q₁,hq₁,hfrac⟩ := continues_fraction stack hfrac hq
    obtain ⟨q₂,hq₂,hexp⟩ := continues_exponent stack hexp hq₁
    have hminus : Scanner.step ⟨.beginValue,stack⟩ 45 = some (⟨.neg,stack⟩,.beginLiteral) := rfl
    exact ⟨q₂,hq₂,reads_literal hminus (.cons hneg (hds.append (hfrac.append hexp)))⟩

lemma isInteger_appendUint (n : ℕ) : IsInteger (appendUint n) := by
  rcases Nat.eq_zero_or_pos n with rfl | hpos
  · exact .inl rfl
  · obtain ⟨d,ds,hds⟩ := List.exists_cons_of_ne_nil (Nat.toDigits_ne_nil (n := n) (b := 10))
    have hall : ∀ x ∈ d::ds, x.isDigit = true := fun x hx =>
      Nat.isDigit_of_mem_toDigits (by decide) (by decide) (hds ▸ hx)
    have hd := hall d List.mem_cons_self
    refine .inr ⟨UInt8.ofNat d.toNat,ds.map fun c => UInt8.ofNat c.toNat,?_,isDigit_byte hd,?_,?_⟩
    · rw [appendUint, hds, List.map_cons]
    · intro hzero
      have hhead := head?_toDigits_ne hpos
      rw [hds, List.head?_cons] at hhead
      have hval : d.toNat = 48 := by rw [← byte_toNat hd, hzero]; rfl
      exact hhead (congrArg some (Char.toNat_inj.mp hval))
    · rw [List.all_map, List.all_eq_true]
      exact fun x hx => isDigit_byte (hall x (List.mem_cons_of_mem d hx))

/-- An integer is written as a number, with a minus in front where it is negative. -/
theorem isNumber_appendUint (n : ℕ) : IsNumber (appendUint n) := by
  have hnumber := IsNumber.positive _ [] [] (isInteger_appendUint n) (.inl rfl) (.inl rfl)
  rwa [List.append_nil, List.append_nil] at hnumber

theorem isNumber_appendInt (n : ℤ) : IsNumber (appendInt n) := by
  cases n with
  | ofNat n => exact isNumber_appendUint n
  | negSucc n =>
    have hnumber := IsNumber.negative _ [] [] (isInteger_appendUint (n+1)) (.inl rfl) (.inl rfl)
    rwa [List.append_nil, List.append_nil] at hnumber

end Scanning
end Tracewulf.Json
