import Mathlib.Data.List.Basic
import Mathlib.Data.Nat.Digits.Defs
import Mathlib.Tactic.IntervalCases

/-! Decimal numbers. -/
namespace Tracewulf.Base

/-- Only zero is written with a zero in front. -/
lemma head?_toDigits_ne {n : ℕ} (hn : 0 < n) : (Nat.toDigits 10 n).head? ≠ some '0' := by
  induction n using Nat.strong_induction_on with
  | h n ih =>
    rw [Nat.toDigits_eq_if (by decide)]
    split_ifs with hlt
    · interval_cases n <;> decide
    · have hquot : 0 < n/10 := by omega
      have hhead := ih (n/10) (by omega) hquot
      rw [List.head?_append_of_ne_nil _ Nat.toDigits_ne_nil]
      exact hhead

end Tracewulf.Base
