import Mathlib.Algebra.Order.Ring.Int
import Mathlib.Data.List.Lex
import Mathlib.Order.Defs.LinearOrder

/-!
# Decimal numerals

Numbers as texts: the numeral of a number, the numeral padded with zeros to a fixed width,
and reading one back. Numerals of one width compare as the numbers they stand for, which is
what lets a store that keeps its keys in lexicographic order keep numbers in order. Two
numerals of the same length with the same text are those of one number, which is what a
text glued together from names and numerals can be taken apart by.
-/

namespace Decimal

/-- The numeral of a number. -/
def numeral (n : Nat) : List Char := Nat.toDigits 10 n

/-- The numeral padded with zeros. -/
def padded (width n : Nat) : List Char :=
  List.replicate (width - (numeral n).length) '0' ++ numeral n

/-- The number a list of digits stands for. -/
def value (ds : List Char) : Nat := Nat.ofDigitChars 10 ds 0

/-- The numeral of an integer, with a minus sign in front of a negative one. -/
def integer : Int → List Char
  | .ofNat n => numeral n
  | .negSucc n => '-' :: numeral (n + 1)

/-- The number this text is the numeral of. -/
def read? (cs : List Char) : Option Nat :=
  if numeral (value cs) = cs then some (value cs) else none

/-- Read a number below the bound; a leading plus sign is allowed. -/
def parse (bound : Nat) (cs : List Char) : Option Nat :=
  let ds := match cs with
    | '+' :: ds => ds
    | ds => ds
  if ds.isEmpty || !ds.all Char.isDigit then none
  else if value ds < bound then some (value ds) else none

variable {ds es : List Char} {m n width : Nat}

@[simp] theorem value_nil : value [] = 0 := Nat.ofDigitChars_nil

theorem value_cons (c : Char) (ds : List Char) :
    value (c :: ds) = 10 ^ ds.length * (c.toNat - '0'.toNat) + value ds := by
  unfold value
  rw [Nat.ofDigitChars_cons, Nat.ofDigitChars_eq_ofDigitChars_zero]
  simp

@[simp] theorem value_numeral (n : Nat) : value (numeral n) = n := Nat.ofDigitChars_ten_toDigits

theorem numeral_ne_nil (n : Nat) : numeral n ≠ [] := Nat.toDigits_ne_nil

/-- The numeral determines the number. -/
theorem numeral_injective : Function.Injective numeral := by
  intro m n h
  rw [← value_numeral m, h, value_numeral]

@[simp] theorem numeral_inj : numeral m = numeral n ↔ m = n := numeral_injective.eq_iff

theorem read?_eq_some {cs : List Char} : read? cs = some n ↔ cs = numeral n := by
  unfold read?
  constructor
  · intro h
    split at h
    · rename_i hcs
      cases h
      exact hcs.symm
    · cases h
  · rintro rfl
    simp

theorem isDigit_of_mem_numeral {c : Char} (h : c ∈ numeral n) : c.isDigit = true :=
  Nat.isDigit_of_mem_toDigits (by decide) (by decide) h

/-- The numeral determines the integer: no digit is a minus sign. -/
@[simp] theorem integer_inj {i j : Int} : integer i = integer j ↔ i = j := by
  have hsign : ∀ m n : Nat, numeral m ≠ '-' :: numeral n := by
    intro m n h
    have hd := isDigit_of_mem_numeral (n := m) (c := '-') (h ▸ List.mem_cons_self)
    exact absurd hd (by decide)
  cases i with
  | ofNat m =>
      cases j with
      | ofNat n => exact numeral_inj.trans Int.ofNat_inj.symm
      | negSucc n => simp [integer, hsign m (n + 1)]
  | negSucc m =>
      cases j with
      | ofNat n => simpa [integer] using (hsign n (m + 1)).symm
      | negSucc n => simp [integer]

@[simp] theorem value_padded (width n : Nat) : value (padded width n) = n := by
  unfold value padded
  rw [Nat.ofDigitChars_append, Nat.ofDigitChars_replicate_zero, Nat.mul_zero]
  exact value_numeral n

theorem isDigit_of_mem_padded {c : Char} (h : c ∈ padded width n) : c.isDigit = true := by
  rcases List.mem_append.mp h with h | h
  · rw [List.eq_of_mem_replicate h]
    rfl
  · exact isDigit_of_mem_numeral h

theorem padded_ne_nil (width n : Nat) : padded width n ≠ [] := by
  unfold padded
  exact List.append_ne_nil_of_right_ne_nil _ (numeral_ne_nil n)

/-- A number that fits has a padded numeral of exactly that width. -/
theorem length_padded (hw : 0 < width) (h : n < 10 ^ width) : (padded width n).length = width := by
  have hle : (numeral n).length ≤ width := (Nat.length_toDigits_le_iff (by decide) hw).mpr h
  rw [padded, List.length_append, List.length_replicate]
  omega

theorem digit_le {c : Char} (h : c.isDigit = true) : '0'.toNat ≤ c.toNat ∧ c.toNat ≤ '9'.toNat := by
  simp only [Char.isDigit, Bool.and_eq_true, decide_eq_true_eq] at h
  exact ⟨h.1, h.2⟩

theorem value_lt (h : ∀ c ∈ ds, c.isDigit = true) : value ds < 10 ^ ds.length := by
  induction ds with
  | nil => exact Nat.one_pos
  | cons c ds ih =>
      have ih := ih (fun d hd => h d (List.mem_cons_of_mem _ hd))
      have hc := digit_le (h c List.mem_cons_self)
      have hv : c.toNat - '0'.toNat + 1 ≤ 10 := by
        have : '0'.toNat = 48 ∧ '9'.toNat = 57 := ⟨rfl, rfl⟩
        omega
      calc value (c :: ds)
          = 10 ^ ds.length * (c.toNat - '0'.toNat) + value ds := value_cons c ds
        _ < 10 ^ ds.length * (c.toNat - '0'.toNat) + 10 ^ ds.length := Nat.add_lt_add_left ih _
        _ = 10 ^ ds.length * (c.toNat - '0'.toNat + 1) := (Nat.mul_succ _ _).symm
        _ ≤ 10 ^ ds.length * 10 := Nat.mul_le_mul_left _ hv
        _ = 10 ^ (c :: ds).length := rfl

/-- **Numerals of one width compare as their numbers.** -/
theorem lt_iff_value_lt (hlen : ds.length = es.length) (hd : ∀ c ∈ ds, c.isDigit = true)
    (he : ∀ c ∈ es, c.isDigit = true) : ds < es ↔ value ds < value es := by
  induction ds generalizing es with
  | nil =>
      obtain rfl := List.length_eq_zero_iff.mp hlen.symm
      simp
  | cons c ds ih =>
      cases es with
      | nil => cases hlen
      | cons e es =>
          have hlen' : ds.length = es.length := Nat.succ.inj hlen
          have hds : ∀ x ∈ ds, x.isDigit = true := fun x hx => hd x (List.mem_cons_of_mem _ hx)
          have hes : ∀ x ∈ es, x.isDigit = true := fun x hx => he x (List.mem_cons_of_mem _ hx)
          have hc := digit_le (hd c List.mem_cons_self)
          have he' := digit_le (he e List.mem_cons_self)
          have hx := value_lt hds
          have hy := value_lt hes
          rw [← hlen'] at hy
          rw [List.cons_lt_cons_iff, ih hlen' hds hes, value_cons, value_cons, ← hlen']
          have hlt : c < e ↔ c.toNat < e.toNat := Char.lt_def.trans UInt32.lt_iff_toNat_lt
          have heq : c = e ↔ c.toNat = e.toNat := Char.toNat_inj.symm
          rw [hlt, heq]
          generalize '0'.toNat = z at *
          -- the leading digits decide, unless they are equal
          rcases Nat.lt_trichotomy c.toNat e.toNat with h | h | h
          · have hmul := Nat.mul_le_mul_left (10 ^ ds.length)
              (show c.toNat - z + 1 ≤ e.toNat - z by omega)
            rw [Nat.mul_succ] at hmul
            exact iff_of_true (Or.inl h) (by omega)
          · rw [h]
            simp
          · have hmul := Nat.mul_le_mul_left (10 ^ ds.length)
              (show e.toNat - z + 1 ≤ c.toNat - z by omega)
            rw [Nat.mul_succ] at hmul
            exact iff_of_false (by omega) (by omega)

/-- Padded numerals compare as the numbers. -/
theorem padded_lt_padded (hw : 0 < width) (hm : m < 10 ^ width) (hn : n < 10 ^ width) :
    padded width m < padded width n ↔ m < n := by
  rw [lt_iff_value_lt ((length_padded hw hm).trans (length_padded hw hn).symm)
    (fun _ => isDigit_of_mem_padded) (fun _ => isDigit_of_mem_padded), value_padded, value_padded]

/-- A padded numeral is read back. -/
theorem parse_padded {bound : Nat} (h : n < bound) : parse bound (padded width n) = some n := by
  have hall : ∀ c ∈ padded width n, c.isDigit = true := fun _ => isDigit_of_mem_padded
  have hne := padded_ne_nil width n
  have hv := value_padded width n
  unfold parse
  split
  · rename_i ds heq
    -- a plus sign is no digit
    have := hall '+' (heq ▸ List.mem_cons_self)
    exact absurd this (by decide)
  · dsimp only
    rw [hv, if_pos h]
    have hall' : (padded width n).all Char.isDigit = true := List.all_eq_true.mpr hall
    simp [hall', hne]

/-- A text with something that is no digit is no number. -/
theorem parse_eq_none {bound : Nat} {cs : List Char} {c : Char} (hc : c ∈ cs)
    (hd : c.isDigit = false) (hplus : c ≠ '+') : parse bound cs = none := by
  have hall : ∀ ds : List Char, c ∈ ds → ds.all Char.isDigit = false := by
    intro ds hmem
    refine Bool.eq_false_iff.mpr (fun h => ?_)
    exact absurd (List.all_eq_true.mp h c hmem) (by rw [hd]; exact Bool.false_ne_true)
  unfold parse
  split
  · rename_i ds
    have hmem := (List.mem_cons.mp hc).resolve_left hplus
    simp [hall ds hmem]
  · simp [hall cs hc]

example : padded 5 42 = ['0', '0', '0', '4', '2'] := by decide

end Decimal
