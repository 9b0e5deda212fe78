import Tracewulf.Json.Reading

/-! Strings in JSON: what `appendString` writes for a text and `unquote` makes of it again. The
characters that HTML gives a meaning are escaped too. -/
namespace Tracewulf.Json
open Tracewulf.Base

section Writing

/-- A digit of `hex`. -/
def hexDigit (n : ℕ) : UInt8 := UInt8.ofNat (if n < 10 then 48 + n else 87 + n)

/-- `htmlSafeSet`. -/
def htmlSafe (n : ℕ) : Bool := 32 ≤ n && n < 128 && n ≠ 34 && n ≠ 38 && n ≠ 60 && n ≠ 62 && n ≠ 92

/-- What `appendString` adds for a character. A text is made of characters, so there is no byte
to replace. -/
def escape (c : Char) : Bytes :=
  let n := c.toNat
  if n < 128 then
    if htmlSafe n then [UInt8.ofNat n]
    -- a quote, a backslash, and the control characters that have a letter
    else if n = 34 || n = 92 then [92,UInt8.ofNat n]
    else if n = 8 then [92,98]
    else if n = 12 then [92,102]
    else if n = 10 then [92,110]
    else if n = 13 then [92,114]
    else if n = 9 then [92,116]
    else [92,117,48,48,hexDigit (n/16),hexDigit (n%16)]
  -- the two line separators
  else if n = 8232 || n = 8233 then [92,117,50,48,50,hexDigit (n%16)]
  else String.utf8EncodeChar c

/-- `appendString` between its quotes. -/
def escaped (s : String) : Bytes := s.toList.flatMap escape

def appendString (s : String) : Bytes := quoted (escaped s)

end Writing

section Reading

def hexVal (c : UInt8) : Option ℕ :=
  if isDigit c then some (c.toNat - 48)
  else if 97 ≤ c && c ≤ 102 then some (c.toNat - 87)
  else if 65 ≤ c && c ≤ 70 then some (c.toNat - 55)
  else none

/-- The code point of an escape `\uXXXX` at the beginning of the text. -/
def getu4 : Bytes → Option ℕ
  | 92::117::a::b::c::d::_ => do
    let a ← hexVal a
    let b ← hexVal b
    let c ← hexVal c
    let d ← hexVal d
    some (((a*16 + b)*16 + c)*16 + d)
  | _ => none

def isSurrogate (n : ℕ) : Bool := 55296 ≤ n && n < 57344

/-- `utf16.DecodeRune`, `none` where the two are no pair. -/
def decodePair (hi lo : ℕ) : Option Char :=
  if 55296 ≤ hi && hi < 56320 && 56320 ≤ lo && lo < 57344 then
    some (Char.ofNat ((hi - 55296)*1024 + (lo - 56320) + 65536))
  else none

/-- `utf8.DecodeRune`: the first character and its size, or the replacement character for a byte
that begins none. -/
def decodeRune (s : Bytes) : Char × ℕ :=
  match s.toByteArray.utf8DecodeChar? 0 with
  | some c => (c,c.utf8Size)
  | none => (Char.ofNat 65533,1)

/-- The escapes of one letter. -/
def unescape (e : UInt8) : Option Char :=
  if e = 34 || e = 92 || e = 47 || e = 39 then some (Char.ofNat e.toNat)
  else if e = 98 then some (Char.ofNat 8)
  else if e = 102 then some (Char.ofNat 12)
  else if e = 110 then some (Char.ofNat 10)
  else if e = 114 then some (Char.ofNat 13)
  else if e = 116 then some (Char.ofNat 9)
  else none

/-- The loop of `unquoteBytes`; `skip` bytes belong to the character before. -/
def unquoteFrom : ℕ → Bytes → Option (List Char)
  | _, [] => some []
  | skip + 1, _::s => unquoteFrom skip s
  | 0, c::s =>
    if c = 92 then
      if s.head? = some 117 then
        match getu4 (c::s) with
        | none => none
        | some n =>
          if isSurrogate n then
            match (getu4 (s.drop 5)).bind (decodePair n) with
            | some r => (unquoteFrom 11 s).map (r::·)
            | none => (unquoteFrom 5 s).map (Char.ofNat 65533::·)
          else (unquoteFrom 5 s).map (Char.ofNat n::·)
      else
        match s.head?.bind unescape with
        | none => none
        | some r => (unquoteFrom 1 s).map (r::·)
    else if c = 34 || c < 32 then none
    else if c < 128 then (unquoteFrom 0 s).map (Char.ofNat c.toNat::·)
    else (unquoteFrom ((decodeRune (c::s)).2 - 1) s).map ((decodeRune (c::s)).1::·)

/-- A string literal without its quotes, `none` where it is none. -/
def unquote (text : Bytes) : Option String :=
  if 2 ≤ text.length ∧ text.head? = some 34 ∧ text.getLast? = some 34 then
    (unquoteFrom 0 (text.tail.dropLast)).map String.ofList
  else none

end Reading

section Escapes

/-- The forms a character is written in. -/
inductive Escaped (c : Char) : Bytes → Prop
  | plain (b : UInt8) (hb : 32 ≤ b ∧ b < 128 ∧ b ≠ 34 ∧ b ≠ 92) (hc : Char.ofNat b.toNat = c) :
      Escaped c [b]
  | letter (e : UInt8) (he : e ≠ 117) (hc : unescape e = some c) (h39 : e ≠ 39) : Escaped c [92,e]
  | hex (x y z w : UInt8) (n : ℕ) (hn : getu4 [92,117,x,y,z,w] = some n)
      (hc : isSurrogate n = false ∧ Char.ofNat n = c) : Escaped c [92,117,x,y,z,w]
  | utf8 (hc : c.utf8Size ≠ 1) : Escaped c (String.utf8EncodeChar c)

lemma hexVal_hexDigit : ∀ n < 16, hexVal (hexDigit n) = some n := by decide

lemma getu4_hexDigit {n : ℕ} (hn : n < 256) :
    getu4 [92,117,48,48,hexDigit (n/16),hexDigit (n%16)] = some n := by
  have hhigh := hexVal_hexDigit (n/16) (by omega)
  have hlow := hexVal_hexDigit (n%16) (by omega)
  have hzero : hexVal 48 = some 0 := rfl
  simp only [getu4, hhigh, hlow, hzero, Option.bind_eq_bind, Option.bind_some]
  congr 1
  omega

theorem escaped_escape (c : Char) : Escaped c (escape c) := by
  have hself : Char.ofNat c.toNat = c := Char.ofNat_toNat c
  have hletter : ∀ e n, c.toNat = n → e ≠ 117 → unescape e = some (Char.ofNat n) → e ≠ 39 →
      Escaped c [92,e] := by
    rintro e n rfl he hc h39
    exact .letter e he (hself ▸ hc) h39
  rw [escape]
  split_ifs with hascii hsafe hquote h8 h12 h10 h13 h9 hline
  · have hbyte : (UInt8.ofNat c.toNat).toNat = c.toNat := by rw [UInt8.toNat_ofNat']; omega
    simp only [htmlSafe, Bool.and_eq_true, decide_eq_true_eq] at hsafe
    refine .plain _ ?_ (by rw [hbyte, hself])
    simp only [UInt8.le_iff_toNat_le, UInt8.lt_iff_toNat_lt, ne_eq, ← UInt8.toNat_inj, hbyte]
    simp only [UInt8.reduceToNat]
    omega
  · simp only [Bool.or_eq_true, decide_eq_true_eq] at hquote
    rcases hquote with hn | hn
    · exact hletter _ 34 hn (by rw [hn]; decide) (by rw [hn]; decide) (by rw [hn]; decide)
    · exact hletter _ 92 hn (by rw [hn]; decide) (by rw [hn]; decide) (by rw [hn]; decide)
  · exact hletter 98 8 h8 (by decide) rfl (by decide)
  · exact hletter 102 12 h12 (by decide) rfl (by decide)
  · exact hletter 110 10 h10 (by decide) rfl (by decide)
  · exact hletter 114 13 h13 (by decide) rfl (by decide)
  · exact hletter 116 9 h9 (by decide) rfl (by decide)
  · refine .hex _ _ _ _ c.toNat (getu4_hexDigit (by omega)) ⟨?_,hself⟩
    rw [isSurrogate]
    have hsmall : ¬ 55296 ≤ c.toNat := by omega
    simp [hsmall]
  · simp only [Bool.or_eq_true, decide_eq_true_eq] at hline
    rcases hline with hn | hn <;> rw [hn] <;>
      exact .hex _ _ _ _ c.toNat (by rw [hn]; rfl) ⟨by rw [hn]; rfl,hself⟩
  · refine .utf8 fun hsize => hascii ?_
    have hle := Char.utf8Size_eq_one_iff.mp hsize
    have hle' : c.toNat ≤ 127 := hle
    omega

variable {c : Char} {bs : Bytes}

lemma le_or (x k : UInt8) : k ≤ x ||| k := by
  rw [UInt8.le_iff_toNat_le, UInt8.toNat_or]
  exact Nat.right_le_or

/-- Outside ASCII a character has no byte below 128. -/
lemma le_of_mem_utf8EncodeChar (hc : c.utf8Size ≠ 1) {b : UInt8}
    (hb : b ∈ String.utf8EncodeChar c) : 128 ≤ b := by
  have htop : ∀ x k : UInt8, 128 ≤ k → 128 ≤ x ||| k := fun x k hk => UInt8.le_trans hk (le_or x k)
  rcases c.utf8Size_eq with h | h | h | h
  · exact absurd h hc
  · rw [String.utf8EncodeChar_eq_cons_cons h] at hb
    simp only [List.mem_cons, List.not_mem_nil, or_false] at hb
    rcases hb with rfl | rfl <;> exact htop _ _ (by decide)
  · rw [String.utf8EncodeChar_eq_cons_cons_cons h] at hb
    simp only [List.mem_cons, List.not_mem_nil, or_false] at hb
    rcases hb with rfl | rfl | rfl <;> exact htop _ _ (by decide)
  · rw [String.utf8EncodeChar_eq_cons_cons_cons_cons h] at hb
    simp only [List.mem_cons, List.not_mem_nil, or_false] at hb
    rcases hb with rfl | rfl | rfl | rfl <;> exact htop _ _ (by decide)

lemma isHex_of_hexVal {x : UInt8} {n : ℕ} (h : hexVal x = some n) : isHex x = true := by
  rw [hexVal] at h
  split_ifs at h with hdigit hlower hupper
  · simp [isHex, hdigit]
  · simp [isHex, hlower]
  · simp [isHex, hupper]

lemma step_escape {e : UInt8} (he : unescape e = some c) (h39 : e ≠ 39) (stack : List Frame) :
    Scanner.step ⟨.inStringEsc,stack⟩ e = some (⟨.inString,stack⟩,.continued) := by
  rw [unescape] at he
  split_ifs at he with hself hb hf hn hr ht
  · simp only [Bool.or_eq_true, decide_eq_true_eq] at hself
    rcases hself with ((rfl | rfl) | rfl) | rfl
    · rfl
    · rfl
    · rfl
    · exact absurd rfl h39
  all_goals
    subst e
    rfl

lemma Escaped.inString (h : Escaped c bs) : InString bs := by
  cases h with
  | plain b hb hc => exact inString_singleton hb.2.2.1 hb.2.2.2 hb.1
  | letter e he hc h39 => exact fun stack => .cons rfl (.cons (step_escape hc h39 stack) (.nil _))
  | hex x y z w n hn hc =>
    simp only [getu4, Option.bind_eq_bind, Option.bind_eq_some_iff] at hn
    obtain ⟨a,ha,b,hb,c,hc,d,hd,-⟩ := hn
    have hstep : ∀ v m missing stack, hexVal v = some m →
        Scanner.step ⟨.inStringEscU missing,stack⟩ v = some
          (⟨if missing = 1 then .inString else .inStringEscU (missing - 1),stack⟩,.continued) := by
      intro v m missing stack hv
      simp [Scanner.step, stateInStringEscU, isHex_of_hexVal hv]
    exact fun stack => .cons rfl (.cons rfl (.cons (hstep x a 4 stack ha)
      (.cons (hstep y b 3 stack hb) (.cons (hstep z c 2 stack hc)
      (.cons (hstep w d 1 stack hd) (.nil _))))))
  | utf8 hc =>
    refine inString_of_forall fun b hb => ?_
    have hge := le_of_mem_utf8EncodeChar hc hb
    refine ⟨?_,?_,?_⟩
    · rintro rfl; exact absurd hge (by decide)
    · rintro rfl; exact absurd hge (by decide)
    · exact UInt8.le_trans (by decide) hge

lemma inString_escaped (s : String) : InString (escaped s) := by
  rw [escaped]
  induction s.toList with
  | nil => exact inString_nil
  | cons c cs ih => exact (escaped_escape c).inString.append ih

theorem isLiteral_appendString (s : String) : IsLiteral (appendString s) :=
  (inString_escaped s).isLiteral

end Escapes

section RoundTrip

variable {c : Char} {bs t : Bytes}

lemma unquoteFrom_skip (l t : Bytes) : unquoteFrom l.length (l ++ t) = unquoteFrom 0 t := by
  induction l with
  | nil => rfl
  | cons c l ih => exact ih

lemma decodeRune_utf8EncodeChar (c : Char) (t : Bytes) :
    decodeRune (String.utf8EncodeChar c ++ t) = (c,c.utf8Size) := by
  have hdecode : (String.utf8EncodeChar c ++ t).toByteArray.utf8DecodeChar? 0 = some c := by
    rw [List.toByteArray_append, ← List.utf8Encode_singleton]
    exact List.utf8DecodeChar?_utf8Encode_singleton_append
  rw [decodeRune, hdecode]

/-- A character that was written is read before the rest. -/
lemma Escaped.unquoteFrom (h : Escaped c bs) (t : Bytes) :
    unquoteFrom 0 (bs ++ t) = (unquoteFrom 0 t).map (c::·) := by
  cases h with
  | plain b hb hc =>
    obtain ⟨hcontrol,hascii,hquote,hslash⟩ := hb
    have hctl : ¬ b < 32 := UInt8.not_lt.mpr hcontrol
    rw [List.singleton_append, Json.unquoteFrom]
    simp [hslash, hquote, hctl, hascii, hc]
  | letter e he hc h39 =>
    have hskip := unquoteFrom_skip [e] t
    rw [List.cons_append, Json.unquoteFrom]
    simp only [List.singleton_append, List.head?_cons, Option.some.injEq, he, Option.bind_some, hc,
      if_true, if_false]
    rw [← hskip]
    rfl
  | hex x y z w n hn hc =>
    have hskip := unquoteFrom_skip [117,x,y,z,w] t
    have hn' : getu4 (92::([117,x,y,z,w] ++ t)) = some n := hn
    rw [List.cons_append, Json.unquoteFrom, hn']
    simp only [List.cons_append, List.head?_cons, if_true, hc.1, hc.2, Bool.false_eq_true,
      if_false]
    rw [← hskip]
    rfl
  | utf8 hc =>
    have hdecode := decodeRune_utf8EncodeChar c t
    have hlen := String.length_utf8EncodeChar c
    have hge := fun b hb => le_of_mem_utf8EncodeChar (b := b) hc hb
    cases hbytes : String.utf8EncodeChar c with
    | nil =>
      rw [hbytes] at hlen
      exact absurd hlen.symm (Nat.pos_iff_ne_zero.mp c.utf8Size_pos)
    | cons b rest =>
      rw [hbytes] at hdecode hlen hge
      have hb : 128 ≤ b := hge b List.mem_cons_self
      have hslash : b ≠ 92 := by rintro rfl; exact absurd hb (by decide)
      have hquote : b ≠ 34 := by rintro rfl; exact absurd hb (by decide)
      have hctl : ¬ b < 32 := UInt8.not_lt.mpr (UInt8.le_trans (by decide) hb)
      have hascii : ¬ b < 128 := UInt8.not_lt.mpr hb
      have hsize : c.utf8Size - 1 = rest.length := by rw [← hlen]; rfl
      rw [List.cons_append] at hdecode ⊢
      rw [Json.unquoteFrom, hdecode]
      simp [hslash, hquote, hctl, hascii, hsize, unquoteFrom_skip]

lemma unquoteFrom_escaped (s : String) : unquoteFrom 0 (escaped s) = some s.toList := by
  rw [escaped]
  induction s.toList with
  | nil => rfl
  | cons c cs ih => rw [List.flatMap_cons, (escaped_escape c).unquoteFrom, ih]; rfl

/-- A text that was written is read back. -/
theorem unquote_appendString (s : String) : unquote (appendString s) = some s := by
  have hbody : (appendString s).tail.dropLast = escaped s := by
    rw [appendString, quoted, List.tail_cons, List.dropLast_concat]
  have hquoted : 2 ≤ (appendString s).length ∧ (appendString s).head? = some 34 ∧
      (appendString s).getLast? = some 34 := by
    rw [appendString, quoted]
    refine ⟨by simp,rfl,?_⟩
    rw [← List.cons_append, List.getLast?_concat]
  rw [unquote, if_pos hquoted, hbody, unquoteFrom_escaped, Option.map_some, String.ofList_toList]

lemma Escaped.length_le (h : Escaped c bs) : bs.length ≤ 6 := by
  cases h with
  | utf8 hc =>
    rw [String.length_utf8EncodeChar]
    exact c.utf8Size_le_four.trans (by decide)
  | _ => simp

/-- No character takes more than six bytes. -/
lemma length_escaped (s : String) : (escaped s).length ≤ 6*s.length := by
  rw [escaped, ← String.length_toList]
  induction s.toList with
  | nil => rfl
  | cons c cs ih =>
    have hfirst := (escaped_escape c).length_le
    rw [List.flatMap_cons, List.length_append, List.length_cons]
    omega

end RoundTrip

end Tracewulf.Json
