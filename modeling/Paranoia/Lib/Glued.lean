import Mathlib.Algebra.Order.Ring.Int
import Mathlib.Data.List.Basic

/-!
# Texts glued together from fields

A record written as one text: its fields one after the other, with or without a separator
between them. The text alone does not say where one field ends and the next begins, and a
separator does not either when a field may contain it; the text and the lengths of the fields
do.
-/

namespace Glued

variable {α : Type}

/-- The ways to cut a text in two. -/
def splits (cs : List α) : List (List α × List α) :=
  (List.range (cs.length + 1)).map (fun i => (cs.take i, cs.drop i))

theorem mem_splits {cs a b : List α} : (a, b) ∈ splits cs ↔ a ++ b = cs := by
  unfold splits
  constructor
  · intro h
    obtain ⟨i, -, hi⟩ := List.mem_map.mp h
    cases hi
    exact List.take_append_drop i cs
  · rintro rfl
    refine List.mem_map.mpr ⟨a.length, ?_, by simp⟩
    rw [List.mem_range, List.length_append]
    omega

/-- **The text and the lengths of the fields determine the fields.** -/
theorem intercalate_inj {sep : List α} {xs ys : List (List α)}
    (hlen : xs.map List.length = ys.map List.length)
    (h : sep.intercalate xs = sep.intercalate ys) : xs = ys := by
  induction xs generalizing ys with
  | nil => exact (List.map_eq_nil_iff.mp hlen.symm).symm
  | cons x xs ih =>
      cases ys with
      | nil => cases hlen
      | cons y ys =>
          obtain ⟨hx, hxs⟩ := List.cons.inj hlen
          cases xs with
          | nil =>
              obtain rfl := List.map_eq_nil_iff.mp hxs.symm
              simpa using h
          | cons x' xs =>
              cases ys with
              | nil => cases hxs
              | cons y' ys =>
                  rw [List.intercalate_cons_cons, List.intercalate_cons_cons, List.append_assoc,
                    List.append_assoc] at h
                  obtain ⟨rfl, hrest⟩ := List.append_inj h hx
                  rw [ih hxs (List.append_cancel_left hrest)]

/-- Two texts with a separator in them are one when their parts are, or when one of the separators
is inside a part of the other. -/
theorem append_cons_eq {sep : α} {a b c d : List α} :
    a ++ sep :: b = c ++ sep :: d ↔ (a = c ∧ b = d) ∨
      (∃ x, c = a ++ sep :: x ∧ b = x ++ sep :: d) ∨
      ∃ x, a = c ++ sep :: x ∧ d = x ++ sep :: b := by
  constructor
  · intro h
    rcases List.append_eq_append_iff.mp h with ⟨x, rfl, hx⟩ | ⟨x, rfl, hx⟩
    · cases x with
      | nil => exact .inl ⟨(List.append_nil a).symm, (List.cons.inj hx).2⟩
      | cons y x =>
          obtain ⟨rfl, hb⟩ := List.cons.inj hx
          exact .inr (.inl ⟨x, rfl, hb⟩)
    · cases x with
      | nil => exact .inl ⟨List.append_nil c, (List.cons.inj hx).2.symm⟩
      | cons y x =>
          obtain ⟨rfl, hd⟩ := List.cons.inj hx
          exact .inr (.inr ⟨x, rfl, hd⟩)
  · rintro (⟨rfl, rfl⟩ | ⟨x, rfl, rfl⟩ | ⟨x, rfl, rfl⟩)
    · rfl
    · simp
    · simp

/-! ## Cutting at a separator -/

/-- What stands before the first separator, and what after it. -/
def splitOnce [DecidableEq α] (sep : α) : List α → Option (List α × List α)
  | [] => none
  | c :: rest =>
      if c = sep then some ([], rest)
      else (splitOnce sep rest).map (fun p => (c :: p.1, p.2))

section SplitOnce

variable [DecidableEq α] {sep : α} {cs a b : List α}

theorem splitOnce_append (h : sep ∉ a) : splitOnce sep (a ++ sep :: b) = some (a, b) := by
  induction a with
  | nil => rw [List.nil_append, splitOnce, if_pos rfl]
  | cons c a ih =>
      have hc : c ≠ sep := fun hc => h (hc ▸ List.mem_cons_self)
      rw [List.cons_append, splitOnce, if_neg hc, ih (fun hmem => h (List.mem_cons_of_mem c hmem))]
      rfl

end SplitOnce

end Glued
