import Mathlib.Tactic.IntervalCases
import Mathlib.Tactic.Ring
import Tracewulf.Base.Layout

/-! Byte strings as numbers, most significant byte first, and what they keep under a mask of
leading ones. Two strings agree under the mask exactly when the numbers agree above the bits that
are masked out: what a mask leaves is a block of consecutive numbers. -/
namespace Tracewulf.Base
namespace BigEndian

def encode (w n : ℕ) : Bytes := (LittleEndian.encode w n).reverse

def decode : Bytes → ℕ
  | [] => 0
  | b::bs => b.toNat*256^bs.length + decode bs

lemma decode_lt (bs : Bytes) : decode bs < 256^bs.length := by
  induction bs with
  | nil => simp [decode]
  | cons b bs ih =>
    have hb : b.toNat + 1 ≤ 256 := b.toNat_lt
    calc decode (b::bs) < b.toNat*256^bs.length + 256^bs.length := by
          rw [decode]
          omega
      _ = (b.toNat+1)*256^bs.length := by ring
      _ ≤ 256*256^bs.length := Nat.mul_le_mul_right _ hb
      _ = 256^(b::bs).length := by rw [List.length_cons, pow_succ']

section Quotient

variable {b c : UInt8} {bs cs : Bytes} {k : ℕ}

/-- Within the first byte, only that byte counts. -/
lemma decode_cons_div (b : UInt8) (bs : Bytes) (r : ℕ) :
    decode (b::bs)/2^(8*bs.length+r) = b.toNat/2^r := by
  have hpow : 2^(8*bs.length+r) = 256^bs.length*2^r := by
    rw [pow_add, pow_mul]
    rfl
  rw [hpow, ← Nat.div_div_eq_div_mul, decode, Nat.mul_comm b.toNat,
    Nat.mul_add_div (by positivity), Nat.div_eq_of_lt (decode_lt bs), Nat.add_zero]

/-- Past the first byte, the first bytes are equal and the rest is compared. -/
lemma decode_cons_div_eq_iff (hlen : bs.length = cs.length) (hk : k ≤ 8*bs.length) :
    decode (b::bs)/2^k = decode (c::cs)/2^k ↔ b = c ∧ decode bs/2^k = decode cs/2^k := by
  obtain ⟨j,hj⟩ := Nat.exists_eq_add_of_le hk
  have hpow : 256^bs.length = 2^k*2^j := by
    rw [← pow_add, ← hj, pow_mul]
    rfl
  have hquot : ∀ (x : UInt8) {xs : Bytes}, xs.length = bs.length →
      decode (x::xs)/2^k = 2^j*x.toNat + decode xs/2^k ∧ decode xs/2^k < 2^j := by
    intro x xs hxs
    have hlt := decode_lt xs
    rw [hxs, hpow] at hlt
    refine ⟨?_,Nat.div_lt_of_lt_mul hlt⟩
    rw [decode, hxs, hpow, Nat.mul_left_comm, Nat.mul_add_div (by positivity), Nat.mul_comm (2^j)]
  obtain ⟨hb,hbs⟩ := hquot b rfl
  obtain ⟨hc,hcs⟩ := hquot c hlen.symm
  rw [hb, hc]
  constructor
  · intro h
    have hhigh := congrArg (·/2^j) h
    simp only [Nat.mul_add_div (Nat.two_pow_pos j), Nat.div_eq_of_lt hbs, Nat.div_eq_of_lt hcs,
      Nat.add_zero] at hhigh
    obtain rfl := UInt8.toNat_inj.mp hhigh
    exact ⟨rfl,by omega⟩
  · rintro ⟨rfl,h⟩
    rw [h]

end Quotient

section Mask

variable {n : ℕ}

/-- The first `n` bits of a byte, the others cleared. -/
lemma toNat_and_highBits (x : UInt8) (hn : n < 8) :
    (x &&& ~~~((0xff : UInt8) >>> .ofNat n)).toNat = x.toNat/2^(8-n)*2^(8-n) := by
  have hmask : (~~~((0xff : UInt8) >>> .ofNat n)).toNat = 2^8 - (2^(8-n)-1+1) := by
    interval_cases n <;> rfl
  have hlow : 2^(8-n)-1 < 2^8 := by
    have hle : 2^(8-n) ≤ 2^8 := Nat.pow_le_pow_right (by omega) (by omega)
    omega
  apply Nat.eq_of_testBit_eq
  intro i
  rw [UInt8.toNat_and, Nat.testBit_and, hmask, Nat.testBit_two_pow_sub_succ hlow,
    Nat.testBit_two_pow_sub_one, Nat.testBit_mul_two_pow, Nat.testBit_div_two_pow]
  by_cases hi : 8-n ≤ i
  · have hback : i-(8-n)+(8-n) = i := by omega
    by_cases h8 : i < 8
    · simp [hi, h8, hback]
    · have hlt : x.toNat < 2^i :=
        Nat.lt_of_lt_of_le x.toNat_lt (Nat.pow_le_pow_right (by omega) (by omega))
      simp [hback, Nat.testBit_lt_two_pow hlt]
  · have hlt : i < 8-n := by omega
    simp [hi, hlt]

lemma and_highBits_eq_iff (x y : UInt8) (hn : n < 8) :
    x &&& ~~~((0xff : UInt8) >>> .ofNat n) = y &&& ~~~((0xff : UInt8) >>> .ofNat n) ↔
      x.toNat/2^(8-n) = y.toNat/2^(8-n) := by
  rw [← UInt8.toNat_inj, toNat_and_highBits x hn, toNat_and_highBits y hn]
  constructor
  · exact Nat.eq_of_mul_eq_mul_right (Nat.two_pow_pos _)
  · intro h
    rw [h]

end Mask
end BigEndian
end Tracewulf.Base
