import Mathlib.Algebra.Order.Ring.Int
import Mathlib.Data.Nat.ModEq
import Mathlib.Data.UInt
import Mathlib.Tactic.Ring

/-!
# Numbers as bytes

A number in a fixed number of bytes, the most significant one first.
-/

namespace BigEndian

/-- The low `k` bytes of a number. -/
def bytes : Nat → Nat → List UInt8
  | 0, _ => []
  | k + 1, n => UInt8.ofNat (n / 256 ^ k) :: bytes k n

theorem length_bytes (k n : Nat) : (bytes k n).length = k := by
  induction k with
  | zero => rfl
  | succ k ih => rw [bytes, List.length_cons, ih]

theorem mod_eq_of_bytes {k m n : Nat} (h : bytes k m = bytes k n) : m % 256 ^ k = n % 256 ^ k := by
  induction k with
  | zero => rw [pow_zero, Nat.mod_one, Nat.mod_one]
  | succ k ih =>
      rw [bytes, bytes] at h
      obtain ⟨hhead, htail⟩ := List.cons.inj h
      have hdigit : m / 256 ^ k % 256 = n / 256 ^ k % 256 := by
        simpa using congrArg UInt8.toNat hhead
      rw [Nat.mod_pow_succ, Nat.mod_pow_succ, ih htail, hdigit]

theorem bytes_inj {k m n : Nat} (hm : m < 256 ^ k) (hn : n < 256 ^ k)
    (h : bytes k m = bytes k n) : m = n := by
  have hmod := mod_eq_of_bytes h
  rwa [Nat.mod_eq_of_lt hm, Nat.mod_eq_of_lt hn] at hmod

/-! ## Two and four bytes -/

def u16 (a b : UInt8) : UInt16 := UInt16.ofNat (a.toNat * 256 + b.toNat)

def u32 (a b c d : UInt8) : UInt32 :=
  UInt32.ofNat (((a.toNat * 256 + b.toNat) * 256 + c.toNat) * 256 + d.toNat)

theorem bytes_two (n : Nat) : bytes 2 n = [UInt8.ofNat (n / 256), UInt8.ofNat n] := by
  simp [bytes]

theorem u16_bytes (n : Nat) : u16 (UInt8.ofNat (n / 256)) (UInt8.ofNat n) = UInt16.ofNat n := by
  apply UInt16.toNat_inj.mp
  simp only [u16, UInt8.toNat_ofNat', UInt16.toNat_ofNat']
  omega

theorem u16_toNat (v : UInt16) : u16 (UInt8.ofNat (v.toNat / 256)) (UInt8.ofNat v.toNat) = v := by
  rw [u16_bytes, UInt16.ofNat_toNat]

/-- The digits of a number are the bytes it is read from. -/
theorem u32_eq_iff {a b c d a' b' c' d' : UInt8} :
    u32 a b c d = u32 a' b' c' d' ↔ a = a' ∧ b = b' ∧ c = c' ∧ d = d' := by
  constructor
  · intro h
    have h := congrArg UInt32.toNat h
    simp only [u32, UInt32.toNat_ofNat'] at h
    have := a.toNat_lt
    have := b.toNat_lt
    have := c.toNat_lt
    have := d.toNat_lt
    have := a'.toNat_lt
    have := b'.toNat_lt
    have := c'.toNat_lt
    have := d'.toNat_lt
    refine ⟨UInt8.toNat_inj.mp ?_, UInt8.toNat_inj.mp ?_, UInt8.toNat_inj.mp ?_,
      UInt8.toNat_inj.mp ?_⟩ <;> omega
  · rintro ⟨rfl, rfl, rfl, rfl⟩
    rfl

/-! ## Reading a number back -/

/-- The number some bytes stand for. -/
def ofBytes (bs : List UInt8) : Nat := bs.foldl (fun n b => n * 256 + b.toNat) 0

theorem foldl_bytes (k n m : Nat) :
    (bytes k n).foldl (fun acc b => acc * 256 + b.toNat) m = m * 256 ^ k + n % 256 ^ k := by
  induction k generalizing m with
  | zero => rw [bytes, List.foldl_nil, pow_zero, Nat.mul_one, Nat.mod_one, Nat.add_zero]
  | succ k ih =>
      have hdigit : (UInt8.ofNat (n / 256 ^ k)).toNat = n / 256 ^ k % 256 := by simp
      have hmod : n % 256 ^ (k + 1) = n % 256 ^ k + 256 ^ k * (n / 256 ^ k % 256) :=
        Nat.mod_pow_succ
      rw [bytes, List.foldl_cons, ih, hdigit, hmod, pow_succ]
      ring

theorem ofBytes_bytes {k n : Nat} (h : n < 256 ^ k) : ofBytes (bytes k n) = n := by
  rw [ofBytes, foldl_bytes, Nat.zero_mul, Nat.zero_add, Nat.mod_eq_of_lt h]

end BigEndian
