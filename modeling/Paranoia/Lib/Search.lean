import Mathlib.Algebra.Order.Ring.Int
import Mathlib.Data.List.Basic

/-!
# Where a text occurs in another one

The first place at which a text occurs, and what of an occurrence depends on which part of the text
that is searched.
-/

namespace Search

variable {α : Type} {pat text l r : List α} {i : Nat}

section Find

variable [DecidableEq α]

/-- The first place at which the pattern occurs. -/
def find? (pat : List α) : List α → Option Nat
  | [] => if pat = [] then some 0 else none
  | c :: rest => if pat <+: c :: rest then some 0 else (find? pat rest).map (· + 1)

/-- **The first place.** -/
theorem find?_eq_some :
    find? pat text = some i ↔
      i ≤ text.length ∧ pat <+: text.drop i ∧ ∀ j < i, ¬ pat <+: text.drop j := by
  induction text generalizing i with
  | nil =>
      rw [find?]
      constructor
      · intro h
        split at h
        · rename_i hnil
          cases h
          exact ⟨Nat.le_refl _, hnil ▸ List.nil_prefix, fun j hj => absurd hj (Nat.not_lt_zero j)⟩
        · cases h
      · rintro ⟨hi, hpre, -⟩
        rw [if_pos (List.prefix_nil.mp (by simpa using hpre)), Nat.le_zero.mp hi]
  | cons c rest ih =>
      rw [find?]
      by_cases hpre : pat <+: c :: rest
      · rw [if_pos hpre]
        constructor
        · intro h
          cases h
          exact ⟨Nat.zero_le _, hpre, fun j hj => absurd hj (Nat.not_lt_zero j)⟩
        · rintro ⟨-, -, hfirst⟩
          cases i with
          | zero => rfl
          | succ i => exact absurd hpre (hfirst 0 (Nat.succ_pos i))
      · rw [if_neg hpre]
        cases i with
        | zero =>
            refine iff_of_false ?_ (fun h => hpre h.2.1)
            cases find? pat rest <;> simp
        | succ i =>
            rw [show (find? pat rest).map (· + 1) = some (i + 1) ↔ find? pat rest = some i by simp, ih]
            constructor
            · rintro ⟨hi, hat, hfirst⟩
              refine ⟨Nat.succ_le_succ hi, hat, fun j hj => ?_⟩
              cases j with
              | zero => exact hpre
              | succ j => exact hfirst j (Nat.lt_of_succ_lt_succ hj)
            · rintro ⟨hi, hat, hfirst⟩
              exact ⟨Nat.le_of_succ_le_succ hi, hat, fun j hj => hfirst (j + 1) (Nat.succ_lt_succ hj)⟩

end Find

/-- An occurrence that ends within the first part is one in the first part. -/
theorem prefix_drop_append (h : i + pat.length ≤ l.length) :
    pat <+: (l ++ r).drop i ↔ pat <+: l.drop i := by
  rw [List.drop_append_of_le_length (by omega)]
  refine ⟨fun hpre => ?_, fun hpre => hpre.trans (List.prefix_append _ _)⟩
  exact List.prefix_of_prefix_length_le hpre (List.prefix_append _ _)
    (by rw [List.length_drop]; omega)

/-- What stands in the pattern stands in the text. -/
theorem getElem?_of_prefix_drop (h : pat <+: text.drop i) {k : Nat} (hk : k < pat.length) :
    text[i + k]? = pat[k]? := by
  obtain ⟨rest, hrest⟩ := h
  rw [← List.getElem?_drop, ← hrest, List.getElem?_append_left hk]

end Search
