import Mathlib.Algebra.Order.Ring.Int
import Mathlib.Data.Nat.Log

/-!
# Natural numbers as doubles

A number is made a double by rounding it to 53 significant bits, to the nearest and from the middle
to the even one. Numbers of up to 53 bits stay what they are, and the order of others may be lost
but not reversed.
-/

namespace Double

/-- The nearest multiple of `2 ^ e`; from the middle the even one. -/
def roundAt (e n : Nat) : Nat :=
  (if 2 * (n % 2 ^ e) < 2 ^ e ∨ 2 * (n % 2 ^ e) = 2 ^ e ∧ n / 2 ^ e % 2 = 0 then n / 2 ^ e
    else n / 2 ^ e + 1) * 2 ^ e

/-- The double nearest to the number. -/
def ofNat (n : Nat) : Nat := roundAt (n.log2 - 52) n

variable {e m n : Nat}

theorem le_roundAt (e n : Nat) : n / 2 ^ e * 2 ^ e ≤ roundAt e n := by
  unfold roundAt
  refine Nat.mul_le_mul_right _ ?_
  split
  · exact Nat.le_refl _
  · exact Nat.le_succ _

theorem roundAt_le (e n : Nat) : roundAt e n ≤ (n / 2 ^ e + 1) * 2 ^ e := by
  unfold roundAt
  refine Nat.mul_le_mul_right _ ?_
  split
  · exact Nat.le_succ _
  · exact Nat.le_refl _

theorem roundAt_zero (n : Nat) : roundAt 0 n = n := by
  unfold roundAt
  rw [Nat.pow_zero, Nat.mod_one, if_pos (.inl (by decide)), Nat.div_one, Nat.mul_one]

theorem roundAt_mono (e : Nat) (h : m ≤ n) : roundAt e m ≤ roundAt e n := by
  rcases Nat.lt_or_ge (m / 2 ^ e) (n / 2 ^ e) with hlt | hge
  · calc roundAt e m ≤ (m / 2 ^ e + 1) * 2 ^ e := roundAt_le e m
      _ ≤ n / 2 ^ e * 2 ^ e := Nat.mul_le_mul_right _ hlt
      _ ≤ roundAt e n := le_roundAt e n
  · have hq : m / 2 ^ e = n / 2 ^ e := Nat.le_antisymm (Nat.div_le_div_right h) hge
    have hr : m % 2 ^ e ≤ n % 2 ^ e := by
      have hm := Nat.div_add_mod m (2 ^ e)
      have hn := Nat.div_add_mod n (2 ^ e)
      rw [hq] at hm
      omega
    unfold roundAt
    rw [hq]
    refine Nat.mul_le_mul_right _ ?_
    -- where the greater one is rounded down, so is the other
    by_cases hdown : 2 * (n % 2 ^ e) < 2 ^ e ∨ 2 * (n % 2 ^ e) = 2 ^ e ∧ n / 2 ^ e % 2 = 0
    · rw [if_pos hdown, if_pos]
      rcases hdown with hlt | ⟨heq, heven⟩
      · exact .inl (by omega)
      · rcases Nat.lt_or_ge (2 * (m % 2 ^ e)) (2 ^ e) with hlt | hge
        · exact .inl hlt
        · exact .inr ⟨by omega, heven⟩
    · rw [if_neg hdown]
      split
      · exact Nat.le_succ _
      · exact Nat.le_refl _

theorem ofNat_eq_self (h : n < 2 ^ 53) : ofNat n = n := by
  have hlog : n.log2 - 52 = 0 := by
    rcases Nat.eq_zero_or_pos n with rfl | hpos
    · rfl
    · have := (Nat.log2_lt (Nat.ne_of_gt hpos)).mpr h
      omega
  rw [ofNat, hlog, roundAt_zero]

/-- **The order is not reversed.** -/
theorem ofNat_mono (h : m ≤ n) : ofNat m ≤ ofNat n := by
  unfold ofNat
  have hlog : m.log2 ≤ n.log2 := by
    rw [Nat.log2_eq_log_two, Nat.log2_eq_log_two]
    exact Nat.log_mono_right h
  generalize hem : m.log2 - 52 = em
  generalize hen : n.log2 - 52 = en
  rcases Nat.lt_or_ge em en with hlt | hge
  · -- they differ in the number of bits: a power of two lies between
    have hm : m < 2 ^ 53 * 2 ^ em := by
      rw [← Nat.pow_add]
      refine Nat.lt_of_lt_of_le Nat.lt_log2_self (Nat.pow_le_pow_right (by decide) ?_)
      omega
    have hn : 2 ^ 52 * 2 ^ en ≤ n := by
      rw [← Nat.pow_add]
      have hne : n ≠ 0 := by
        rintro rfl
        rw [show Nat.log2 0 = 0 from rfl] at hen
        omega
      exact Nat.le_trans (Nat.pow_le_pow_right (by decide) (by omega)) (Nat.log2_self_le hne)
    have hqm : m / 2 ^ em + 1 ≤ 2 ^ 53 := (Nat.div_lt_iff_lt_mul (Nat.two_pow_pos em)).mpr hm
    have hqn : 2 ^ 52 ≤ n / 2 ^ en := (Nat.le_div_iff_mul_le (Nat.two_pow_pos en)).mpr hn
    calc roundAt em m ≤ (m / 2 ^ em + 1) * 2 ^ em := roundAt_le em m
      _ ≤ 2 ^ 53 * 2 ^ em := Nat.mul_le_mul_right _ hqm
      _ = 2 ^ 52 * 2 ^ (em + 1) := by
        rw [← Nat.pow_add, ← Nat.pow_add]
        congr 1
        omega
      _ ≤ 2 ^ 52 * 2 ^ en := Nat.mul_le_mul_left _ (Nat.pow_le_pow_right (by decide) hlt)
      _ ≤ n / 2 ^ en * 2 ^ en := Nat.mul_le_mul_right _ hqn
      _ ≤ roundAt en n := le_roundAt en n
  · obtain rfl : em = en := by omega
    exact roundAt_mono em h

example : ofNat (2 ^ 53 + 1) = 2 ^ 53 := by decide +kernel

end Double
