import Mathlib.Data.List.Basic
import Mathlib.Data.List.Induction
import Mathlib.Data.List.TakeWhile

/-! Append-only logs. A text is made of lines, each closed by a separator. A line reader hands out
the closed lines in order and then whatever follows the last separator; one with a limited buffer
stops for good at the first line that does not fit. Appending to a text that ends in a separator
adds lines; appending to one that does not makes the last line longer. A window keeps the last
entries of a log. -/
namespace Tracewulf.Base
namespace Lines

variable {α : Type*} [DecidableEq α] (sep : α)

/-- The closed lines of a text, and what follows them. -/
def cut : List α → List (List α) × List α
  | [] => ([],[])
  | x::xs =>
    if x = sep then ([]::(cut xs).1,(cut xs).2)
    else match (cut xs).1 with
      | [] => ([],x::(cut xs).2)
      | l::ls => ((x::l)::ls,(cut xs).2)

/-- The lines a reader hands out: an open line at the end counts unless it is empty. -/
def lines (text : List α) : List (List α) :=
  (cut sep text).1 ++ if (cut sep text).2 = [] then [] else [(cut sep text).2]

/-- A reader whose buffer has no room for a line of `limit` or more. -/
def scan (limit : ℕ) (text : List α) : List (List α) :=
  (lines sep text).takeWhile fun l => l.length < limit

/-- Nothing follows the last separator. -/
def Closed (text : List α) : Prop := (cut sep text).2 = []

instance (text : List α) : Decidable (Closed sep text) := inferInstanceAs (Decidable (_ = _))

variable {sep} {l t u : List α}

lemma cut_line (h : sep ∉ l) (t : List α) :
    cut sep (l ++ sep::t) = (l::(cut sep t).1,(cut sep t).2) := by
  induction l with
  | nil => simp [cut]
  | cons x l ih =>
    have hx : x ≠ sep := fun hx => h (hx ▸ List.mem_cons_self)
    rw [List.cons_append, cut, if_neg hx, ih (fun hl => h (List.mem_cons_of_mem x hl))]

/-- Every text is its closed lines, each with its separator, and an open rest. -/
lemma cut_spec (sep : α) (t : List α) :
    t = ((cut sep t).1.map (· ++ [sep])).flatten ++ (cut sep t).2 ∧
      (∀ l ∈ (cut sep t).1, sep ∉ l) ∧ sep ∉ (cut sep t).2 := by
  induction t with
  | nil => simp [cut]
  | cons x t ih =>
    obtain ⟨htext,hlines,hrest⟩ := ih
    by_cases hx : x = sep
    · subst hx
      simp only [cut, if_true, List.map_cons, List.flatten_cons, List.nil_append,
        List.cons_append, List.mem_cons]
      refine ⟨by rw [← htext],?_,hrest⟩
      rintro l (rfl | hl)
      · simp
      · exact hlines l hl
    · cases hc : (cut sep t).1 with
      | nil =>
        rw [hc] at htext
        simp only [List.map_nil, List.flatten_nil, List.nil_append] at htext
        simp only [cut, if_neg hx, hc, List.map_nil, List.flatten_nil, List.nil_append]
        refine ⟨by rw [← htext],by simp,?_⟩
        rw [List.mem_cons, not_or]
        exact ⟨Ne.symm hx,hrest⟩
      | cons m ms =>
        rw [hc] at htext hlines
        simp only [cut, if_neg hx, hc, List.map_cons, List.flatten_cons, List.cons_append]
        refine ⟨congrArg (x::·) ?_,?_,hrest⟩
        · simpa using htext
        · intro l hl
          rcases List.mem_cons.mp hl with rfl | hl
          · rw [List.mem_cons, not_or]
            exact ⟨Ne.symm hx,hlines m List.mem_cons_self⟩
          · exact hlines l (List.mem_cons_of_mem m hl)

lemma cut_lines_append (ls : List (List α)) (h : ∀ l ∈ ls, sep ∉ l) (u : List α) :
    cut sep ((ls.map (· ++ [sep])).flatten ++ u) = (ls ++ (cut sep u).1,(cut sep u).2) := by
  induction ls with
  | nil => rfl
  | cons l ls ih =>
    rw [List.map_cons, List.flatten_cons, List.append_assoc, List.append_assoc,
      List.singleton_append, cut_line (h l List.mem_cons_self),
      ih (fun x hx => h x (List.mem_cons_of_mem l hx))]
    rfl

/-- A closed text followed by another is cut where they meet. -/
lemma Closed.cut_append (h : Closed sep t) (u : List α) :
    cut sep (t ++ u) = ((cut sep t).1 ++ (cut sep u).1,(cut sep u).2) := by
  obtain ⟨htext,hlines,-⟩ := cut_spec sep t
  rw [show (cut sep t).2 = [] from h, List.append_nil] at htext
  rw [← cut_lines_append _ hlines, ← htext]

lemma Closed.lines_append (h : Closed sep t) (u : List α) :
    lines sep (t ++ u) = lines sep t ++ lines sep u := by
  rw [lines, h.cut_append, lines, show (cut sep t).2 = [] from h, if_pos rfl, List.append_nil,
    List.append_assoc]
  rfl

lemma Closed.append (h : Closed sep t) (hu : Closed sep u) : Closed sep (t ++ u) := by
  rw [Closed, h.cut_append]
  exact hu

/-- A text is closed when it is empty or its last symbol is the separator. -/
theorem closed_iff (t : List α) : Closed sep t ↔ t = [] ∨ t.getLast? = some sep := by
  obtain ⟨htext,-,hrest⟩ := cut_spec sep t
  constructor
  · intro h
    rw [show (cut sep t).2 = [] from h, List.append_nil] at htext
    rcases List.eq_nil_or_concat (cut sep t).1 with hc | ⟨ls,l,hc⟩
    · left
      rw [htext, hc]
      rfl
    · right
      rw [htext, hc]
      simp
  · rintro (rfl | hlast)
    · rfl
    · by_contra hne
      have hmem : (cut sep t).2.getLast? = some sep := by
        rw [htext, List.getLast?_append_of_ne_nil _ hne] at hlast
        exact hlast
      exact hrest (List.mem_of_getLast? hmem)

lemma closed_line (h : sep ∉ l) : Closed sep (l ++ [sep]) := by
  rw [Closed, cut_line h]
  rfl

lemma lines_line (h : sep ∉ l) : lines sep (l ++ [sep]) = [l] := by
  rw [lines, cut_line h]
  rfl

lemma scan_eq_lines {limit : ℕ} (h : ∀ l ∈ lines sep t, l.length < limit) :
    scan sep limit t = lines sep t := by
  rw [scan, List.takeWhile_eq_self_iff]
  intro l hl
  exact decide_eq_true (h l hl)

/-- A reader that gets through a closed text goes on with what is appended to it. -/
lemma Closed.scan_append {limit : ℕ} (ht : Closed sep t)
    (h : ∀ l ∈ lines sep t, l.length < limit) (u : List α) :
    scan sep limit (t ++ u) = lines sep t ++ scan sep limit u := by
  rw [scan, ht.lines_append, List.takeWhile_append_of_pos]
  · rfl
  · intro l hl
    exact decide_eq_true (h l hl)

section Parts

variable (sep)

/-- The closed lines of a text, with their separators, and the open rest. -/
def body (t : List α) : List α := ((cut sep t).1.map (· ++ [sep])).flatten
def rest (t : List α) : List α := (cut sep t).2

variable {sep} {limit : ℕ}

@[simp] lemma body_append_rest (t : List α) : body sep t ++ rest sep t = t :=
  (cut_spec sep t).1.symm

lemma not_mem_rest (t : List α) : sep ∉ rest sep t := (cut_spec sep t).2.2

lemma cut_free (h : sep ∉ l) : cut sep l = ([],l) := by
  induction l with
  | nil => rfl
  | cons x l ih =>
    rw [List.mem_cons, not_or] at h
    obtain ⟨hx,hl⟩ := h
    rw [cut, if_neg (Ne.symm hx), ih hl]

lemma lines_free (h : sep ∉ l) : lines sep l = if l = [] then [] else [l] := by
  rw [lines, cut_free h, List.nil_append]

lemma cut_body (t : List α) : cut sep (body sep t) = ((cut sep t).1,[]) := by
  have h := cut_lines_append _ (cut_spec sep t).2.1 []
  rw [List.append_nil] at h
  rw [body, h]
  simp [cut]

lemma closed_body (t : List α) : Closed sep (body sep t) := by rw [Closed, cut_body]

/-- What is appended without a separator makes the open rest longer. -/
lemma cut_append_free (t : List α) (h : sep ∉ u) :
    cut sep (t ++ u) = ((cut sep t).1,rest sep t ++ u) := by
  have hfree : sep ∉ rest sep t ++ u := by
    rw [List.mem_append, not_or]
    exact ⟨not_mem_rest t,h⟩
  have htext : t ++ u = body sep t ++ (rest sep t ++ u) := by
    rw [← List.append_assoc, body_append_rest]
  rw [htext, (closed_body t).cut_append, cut_body, cut_free hfree, List.append_nil]

lemma Closed.rest (h : Closed sep t) : rest sep t = [] := h

lemma Closed.body (h : Closed sep t) : body sep t = t := by
  have hspec : Lines.body sep t ++ Lines.rest sep t = t := body_append_rest t
  rwa [h.rest, List.append_nil] at hspec

lemma scan_line (h : sep ∉ l) (hl : l.length < limit) (u : List α) :
    scan sep limit ((l ++ [sep]) ++ u) = l::scan sep limit u := by
  rw [scan, (closed_line h).lines_append, lines_line h, List.singleton_append,
    List.takeWhile_cons, if_pos (decide_eq_true hl)]
  rfl

/-- A line that does not fit ends the scan, whatever follows it. -/
lemma scan_long_line (h : sep ∉ l) (hl : limit ≤ l.length) (u : List α) :
    scan sep limit ((l ++ [sep]) ++ u) = [] := by
  rw [scan, (closed_line h).lines_append, lines_line h, List.singleton_append,
    List.takeWhile_cons, if_neg]
  simpa using hl

/-- A scan that ends inside a closed text sees nothing of what is appended. -/
lemma Closed.scan_append_of_long (ht : Closed sep t) {m : List α} (hm : m ∈ lines sep t)
    (hlong : limit ≤ m.length) (u : List α) : scan sep limit (t ++ u) = scan sep limit t := by
  have hstop : ∀ (ls vs : List (List α)), m ∈ ls →
      (ls ++ vs).takeWhile (fun l => l.length < limit) =
        ls.takeWhile fun l => l.length < limit := by
    intro ls vs hls
    induction ls with
    | nil => exact absurd hls List.not_mem_nil
    | cons l ls ih =>
      by_cases hl : l.length < limit
      · have hmem : m ∈ ls := (List.mem_cons.mp hls).resolve_left (by rintro rfl; omega)
        rw [List.cons_append, List.takeWhile_cons, List.takeWhile_cons, ih hmem]
      · rw [List.cons_append, List.takeWhile_cons, List.takeWhile_cons, if_neg (by simpa using hl),
          if_neg (by simpa using hl)]
  rw [scan, ht.lines_append]
  exact hstop _ _ hm

end Parts

section Reading

variable (limit : ℕ)

/-- How far a reader gets in some lines: those it gets to the end of, what it hands out of the
next one, and that one with all that follow it. -/
structure Reading (α : Type*) where
  whole : List (List α)
  piece : List (List α)
  missed : List (List α)

/-- One line more before them. -/
def Reading.behind (l : List α) (r : Reading α) : Reading α := { r with whole := l::r.whole }

/-- A reader whose buffer has no room for a line of `limit` or more is given the first `n` symbols
of a text of these lines. -/
def reading : ℕ → List (List α) → Reading α
  | _, [] => ⟨[],[],[]⟩
  | n, l::ls =>
    if l.length < limit ∧ l.length ≤ n ∧ 0 < n then (reading (n - (l.length+1)) ls).behind l
    else ⟨[],if l.take n = [] ∨ limit ≤ (l.take n).length then [] else [l.take n],l::ls⟩

variable {limit : ℕ} {n : ℕ} {ls : List (List α)}

omit [DecidableEq α] in
lemma reading_of_fits (h : l.length < limit ∧ l.length ≤ n ∧ 0 < n) :
    reading limit n (l::ls) = (reading limit (n - (l.length+1)) ls).behind l := if_pos h

omit [DecidableEq α] in
lemma reading_of_not_fits (h : ¬ (l.length < limit ∧ l.length ≤ n ∧ 0 < n)) :
    reading limit n (l::ls) =
      ⟨[],if l.take n = [] ∨ limit ≤ (l.take n).length then [] else [l.take n],l::ls⟩ := if_neg h

omit [DecidableEq α] in
lemma whole_append_missed (n : ℕ) (ls : List (List α)) :
    (reading limit n ls).whole ++ (reading limit n ls).missed = ls := by
  induction ls generalizing n with
  | nil => rfl
  | cons l ls ih =>
    rw [reading]
    split
    · exact congrArg (l::·) (ih _)
    · rfl

omit [DecidableEq α] in
lemma reading_zero (ls : List (List α)) : reading limit 0 ls = ⟨[],[],ls⟩ := by
  cases ls <;> simp [reading]

lemma scan_free (h : sep ∉ l) :
    scan sep limit l = if l = [] ∨ limit ≤ l.length then [] else [l] := by
  rw [scan, lines_free h]
  by_cases hl : l = []
  · simp [hl]
  · by_cases hlong : limit ≤ l.length
    · simp [hl, hlong]
    · simp [hl, hlong, Nat.lt_of_not_le hlong]

/-- What is handed out of a line that the reader does not get to the end of. -/
lemma scan_take_free (h : sep ∉ l) (n : ℕ) : scan sep limit (l.take n) =
    if l.take n = [] ∨ limit ≤ (l.take n).length then [] else [l.take n] :=
  scan_free fun hmem => h (List.mem_of_mem_take hmem)

lemma scan_take_whole (h : sep ∉ l) (hshort : l.length < limit) (hle : l.length ≤ n) (hpos : 0 < n)
    (u : List α) : scan sep limit (((l ++ [sep]) ++ u).take n) =
      l::scan sep limit (u.take (n - (l.length+1))) := by
  have hlen : (l ++ [sep]).length = l.length + 1 := by simp
  rcases Nat.eq_or_lt_of_le hle with rfl | hn
  · -- the separator is not read any more
    have hne : l ≠ [] := List.ne_nil_of_length_pos hpos
    have htake : ((l ++ [sep]) ++ u).take l.length = l := by
      rw [List.append_assoc, List.take_left]
    have hspent : l.length - (l.length+1) = 0 := by omega
    rw [htake, hspent, scan_free h, if_neg (by simp [hne, hshort])]
    rfl
  · rw [List.take_append, List.take_of_length_le (by omega), scan_line h hshort, hlen]

lemma scan_take_missed (h : sep ∉ l) (hfit : ¬ (l.length < limit ∧ l.length ≤ n ∧ 0 < n))
    (u : List α) : scan sep limit (((l ++ [sep]) ++ u).take n) =
      if l.take n = [] ∨ limit ≤ (l.take n).length then [] else [l.take n] := by
  have hlen : (l ++ [sep]).length = l.length + 1 := by simp
  rcases Nat.lt_or_ge l.length n with hn | hn
  · have hlong : limit ≤ l.length := by omega
    have htake : l.take n = l := List.take_of_length_le hn.le
    rw [List.take_append, List.take_of_length_le (by omega), scan_long_line h hlong, htake,
      if_pos (.inr hlong)]
  · rw [List.append_assoc, List.take_append_of_le_length hn, scan_take_free h]

/-- A reader hands out the lines that it gets to the end of, and a piece of the next one. -/
theorem scan_take (text : List α) (n : ℕ) : scan sep limit (text.take n) =
    (reading limit n (lines sep text)).whole ++ (reading limit n (lines sep text)).piece := by
  obtain ⟨htext,hfree,hrest⟩ := cut_spec sep text
  rw [htext]
  generalize (cut sep text).1 = ls at hfree ⊢
  generalize (cut sep text).2 = opn at hrest ⊢
  clear htext
  induction ls generalizing n with
  | nil =>
    rw [List.map_nil, List.flatten_nil, List.nil_append, lines_free hrest, scan_take_free hrest]
    by_cases hne : opn = []
    · simp [hne, reading]
    · rw [if_neg hne]
      by_cases hfit : opn.length < limit ∧ opn.length ≤ n ∧ 0 < n
      · obtain ⟨hshort,hle,hpos⟩ := hfit
        rw [reading_of_fits ⟨hshort,hle,hpos⟩, List.take_of_length_le hle,
          if_neg (by simp [hne, hshort])]
        rfl
      · rw [reading_of_not_fits hfit]
        rfl
  | cons l ls ih =>
    have hl : sep ∉ l := hfree l List.mem_cons_self
    have hlater := fun n => ih n fun m hm => hfree m (List.mem_cons_of_mem l hm)
    rw [List.map_cons, List.flatten_cons, List.append_assoc, (closed_line hl).lines_append,
      lines_line hl, List.singleton_append]
    by_cases hfit : l.length < limit ∧ l.length ≤ n ∧ 0 < n
    · obtain ⟨hshort,hle,hpos⟩ := hfit
      rw [scan_take_whole hl hshort hle hpos, hlater, reading_of_fits ⟨hshort,hle,hpos⟩]
      rfl
    · rw [scan_take_missed hl hfit, reading_of_not_fits hfit]
      rfl

/-- A reader that is given everything stops at the first line that does not fit. -/
theorem reading_of_length_le {text : List α} (h : text.length ≤ n) :
    reading limit n (lines sep text) = ⟨(lines sep text).takeWhile fun l => l.length < limit,[],
      (lines sep text).dropWhile fun l => l.length < limit⟩ := by
  obtain ⟨htext,-,-⟩ := cut_spec sep text
  rw [htext] at h
  unfold lines
  generalize (cut sep text).1 = ls at h ⊢
  generalize (cut sep text).2 = opn at h ⊢
  clear htext
  induction ls generalizing n with
  | nil =>
    have hlen : opn.length ≤ n := by simpa using h
    by_cases hne : opn = []
    · simp [hne, reading]
    · have hpos : 0 < opn.length := List.length_pos_of_ne_nil hne
      by_cases hshort : opn.length < limit
      · simp [hne, reading, Reading.behind, hshort, hlen, hpos.trans_le hlen]
      · simp [hne, reading, hshort, hlen, Nat.le_of_not_lt hshort]
  | cons l ls ih =>
    have hlen : l.length + 1 + ((ls.map (· ++ [sep])).flatten ++ opn).length ≤ n := by
      rwa [List.map_cons, List.flatten_cons, List.append_assoc, List.length_append,
        List.length_append, List.length_singleton] at h
    rw [List.cons_append]
    by_cases hshort : l.length < limit
    · rw [reading_of_fits ⟨hshort,by omega,by omega⟩, ih (by omega),
        List.takeWhile_cons_of_pos (by simpa using hshort),
        List.dropWhile_cons_of_pos (by simpa using hshort)]
      rfl
    · have htake : l.take n = l := List.take_of_length_le (by omega)
      rw [reading_of_not_fits fun hfit => hshort hfit.1, htake,
        if_pos (.inr (Nat.le_of_not_lt hshort)), List.takeWhile_cons_of_neg (by simpa using hshort),
        List.dropWhile_cons_of_neg (by simpa using hshort)]

end Reading

end Lines

namespace Window

variable {α : Type*}

/-- The last `n` entries of a log. -/
def recent (n : ℕ) (log : List α) : List α := log.drop (log.length - n)

lemma length_recent (n : ℕ) (log : List α) : (recent n log).length = min n log.length := by
  rw [recent, List.length_drop]
  omega

/-- Dropping one entry when the window overflows is enough to keep it. -/
lemma recent_append_singleton (n : ℕ) (log : List α) (x : α) :
    recent n (log ++ [x]) = if n < (recent n log ++ [x]).length then
      (recent n log ++ [x]).drop 1 else recent n log ++ [x] := by
  have hlen : (recent n log ++ [x]).length = min n log.length + 1 := by
    rw [List.length_append, length_recent]
    rfl
  rw [hlen]
  by_cases h : n < min n log.length + 1
  · have hle : n ≤ log.length := by omega
    have hdrop : (log ++ [x]).length - n = (log.length - n) + 1 := by
      rw [List.length_append, List.length_singleton]
      omega
    rw [if_pos h, recent, hdrop, ← List.drop_drop, List.drop_append_of_le_length (by omega)]
    rfl
  · have hle : (log ++ [x]).length - n = 0 := by
      rw [List.length_append, List.length_singleton]
      omega
    have hlog : log.length - n = 0 := by omega
    rw [if_neg h, recent, hle, recent, hlog]
    rfl

/-- Two logs look the same in the window if they are the same, or if both fill it and agree entry
by entry. -/
theorem recent_eq_recent_iff (n : ℕ) (a b : List α) : recent n a = recent n b ↔ a = b ∨
    n ≤ a.length ∧ n ≤ b.length ∧ ∀ i < n, a[a.length-n+i]? = b[b.length-n+i]? := by
  have ha := length_recent n a
  have hb := length_recent n b
  constructor
  · intro h
    have hlen := congrArg List.length h
    rw [ha, hb] at hlen
    by_cases hfull : n ≤ a.length
    · refine .inr ⟨hfull,by omega,fun i _ => ?_⟩
      rw [← List.getElem?_drop, ← List.getElem?_drop]
      exact congrArg (·[i]?) h
    · left
      have hdrop : a.length - n = 0 ∧ b.length - n = 0 := by omega
      rwa [recent, recent, hdrop.1, hdrop.2] at h
  · rintro (rfl | ⟨hfa,hfb,h⟩)
    · rfl
    · apply List.ext_getElem?
      intro i
      by_cases hi : i < n
      · rw [recent, recent, List.getElem?_drop, List.getElem?_drop]
        exact h i hi
      · rw [List.getElem?_eq_none (by omega), List.getElem?_eq_none (by omega)]

/-- What the window shows of a longer log depends on what it showed before. -/
lemma recent_append_congr {n : ℕ} {a b : List α} (h : recent n a = recent n b) (c : List α) :
    recent n (a ++ c) = recent n (b ++ c) := by
  induction c using List.reverseRecOn with
  | nil => simpa using h
  | append_singleton c x ih =>
    rw [← List.append_assoc, ← List.append_assoc, recent_append_singleton,
      recent_append_singleton, ih]

lemma eq_replicate_of_shift {x : α} {l : List α} {a : α} (h : a::l = l ++ [x]) :
    a::l = List.replicate (l.length+1) x := by
  induction l generalizing a with
  | nil => simpa using h
  | cons b l ih =>
    obtain ⟨rfl,htail⟩ := List.cons.inj h
    have hrest := ih htail
    have hhead : a = x := (List.eq_replicate_iff.mp hrest).2 a List.mem_cons_self
    rw [List.length_cons, List.replicate_succ, ← hrest, hhead]

/-- One more entry leaves the window as it is only where the window is full of that entry. -/
theorem recent_append_singleton_eq_iff (n : ℕ) (log : List α) (x : α) :
    recent n (log ++ [x]) = recent n log ↔ recent n log = List.replicate n x := by
  have hlen := length_recent n log
  rw [recent_append_singleton]
  generalize recent n log = w at hlen ⊢
  cases w with
  | nil =>
    cases n with
    | zero => simp
    | succ n => simp [List.replicate_succ]
  | cons a l =>
    split_ifs with hfull
    · have hn : n = l.length+1 := by
        simp only [List.length_append, List.length_cons, List.length_nil] at hfull hlen
        omega
      rw [List.cons_append, List.drop_one, List.tail_cons, hn]
      constructor
      · intro h
        exact eq_replicate_of_shift h.symm
      · intro h
        have hall := (List.eq_replicate_iff.mp h).2
        rw [h, List.eq_replicate_iff]
        refine ⟨by simp,fun b hb => ?_⟩
        rcases List.mem_append.mp hb with hb | hb
        · exact hall b (List.mem_cons_of_mem a hb)
        · exact List.mem_singleton.mp hb
    · constructor
      · intro h
        have hbad := congrArg List.length h
        simp at hbad
      · intro h
        have hbad := congrArg List.length h
        simp only [List.length_append, List.length_cons, List.length_nil,
          List.length_replicate] at hfull hbad
        omega

end Window
end Tracewulf.Base
