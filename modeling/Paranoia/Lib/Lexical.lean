import Mathlib.Data.List.Lex
import Mathlib.Order.Defs.LinearOrder
import Paranoia.Lib.OrdMap

/-!
# Texts in lexicographic order

The texts that begin in one way stand together in lexicographic order: a scan that starts
among them meets all the others before anything else.
-/

namespace Lexical

variable {α : Type} [LinearOrder α] {p a b c : List α}

theorem cons_le_cons {x y : α} : x :: a ≤ y :: b ↔ x < y ∨ x = y ∧ a ≤ b := by
  have hlt : y :: b < x :: a ↔ y < x ∨ y = x ∧ b < a := List.cons_lt_cons_iff
  rw [← not_lt, ← not_lt, hlt]
  rcases lt_trichotomy x y with h | rfl | h
  · simp [h, lt_asymm h, ne_of_gt h]
  · simp
  · simp [h, lt_asymm h, ne_of_gt h]

theorem le_nil : a ≤ [] ↔ a = [] := by
  cases a with
  | nil => simp
  | cons x a =>
      refine iff_of_false (fun h => ?_) (by simp)
      exact absurd (List.nil_lt_cons x a) (not_lt.mpr h)

/-- What lies between two texts with the same beginning begins so too. -/
theorem prefix_of_between (ha : p <+: a) (hc : p <+: c) (hab : a ≤ b) (hbc : b ≤ c) :
    p <+: b := by
  induction p generalizing a b c with
  | nil => exact List.nil_prefix
  | cons x p ih =>
      obtain ⟨a, rfl⟩ := ha
      obtain ⟨c, rfl⟩ := hc
      cases b with
      | nil => exact absurd (le_nil.mp hab) (by simp)
      | cons y b =>
          rw [List.cons_append, cons_le_cons] at hab hbc
          rcases hab with h | ⟨rfl, hab⟩
          · rcases hbc with h' | ⟨rfl, _⟩
            · exact absurd h' (lt_asymm h)
            · exact absurd h (lt_irrefl _)
          · rcases hbc with h' | ⟨_, hbc⟩
            · exact absurd h' (lt_irrefl _)
            · exact List.cons_prefix_cons.mpr
                ⟨rfl, ih (List.prefix_append p a) (List.prefix_append p c) hab hbc⟩

/-- What lies between a text that goes on with `x` and the one that ends with `y` goes on with
`x`, if nothing lies between `x` and `y`, or is the latter. -/
theorem prefix_of_between_succ {x y : α} (hxy : ∀ z, x ≤ z → z ≤ y → z = x ∨ z = y)
    (ha : p ++ [x] <+: a) (hab : a ≤ b) (hb : b ≤ p ++ [y]) : p ++ [x] <+: b ∨ b = p ++ [y] := by
  induction p generalizing a b with
  | nil =>
      obtain ⟨a, rfl⟩ := ha
      cases b with
      | nil => exact absurd (le_nil.mp hab) (by simp)
      | cons z b =>
          simp only [List.nil_append, List.cons_append, cons_le_cons] at hab hb
          have hxz : x ≤ z := by
            rcases hab with h | ⟨rfl, _⟩
            · exact le_of_lt h
            · exact le_refl _
          rcases hb with h | ⟨rfl, h⟩
          · rcases hxy z hxz (le_of_lt h) with rfl | rfl
            · exact Or.inl (List.cons_prefix_cons.mpr ⟨rfl, List.nil_prefix⟩)
            · exact absurd h (lt_irrefl _)
          · rw [le_nil.mp h]
            exact Or.inr rfl
  | cons u p ih =>
      obtain ⟨a, rfl⟩ := ha
      cases b with
      | nil => exact absurd (le_nil.mp hab) (by simp)
      | cons z b =>
          simp only [List.cons_append, cons_le_cons] at hab hb
          have hz : z = u := by
            rcases hab with h | ⟨rfl, _⟩
            · rcases hb with h' | ⟨rfl, _⟩
              · exact absurd h' (lt_asymm h)
              · rfl
            · rfl
          subst hz
          have hab' := (hab.resolve_left (lt_irrefl _)).2
          have hb' := (hb.resolve_left (lt_irrefl _)).2
          rcases ih (List.prefix_append _ a) hab' hb' with h | h
          · exact Or.inl (List.cons_prefix_cons.mpr ⟨rfl, h⟩)
          · exact Or.inr (by rw [h]; rfl)

/-- A text that begins with another one does not come before it. -/
theorem le_of_prefix (h : p <+: a) : p ≤ a := by
  obtain ⟨t, rfl⟩ := h
  induction p with
  | nil => exact not_lt.mp (List.not_lt_nil _)
  | cons x p ih => exact cons_le_cons.mpr (Or.inr ⟨rfl, ih⟩)

/-- Texts of one length decide the order of what begins with them. -/
theorem append_lt_append (hlen : a.length = b.length) (h : a < b) {x y : List α} :
    a ++ x < b ++ y := by
  induction a generalizing b with
  | nil =>
      rw [List.length_eq_zero_iff.mp hlen.symm] at h
      exact absurd h (lt_irrefl _)
  | cons u a ih =>
      cases b with
      | nil => cases hlen
      | cons v b =>
          have hlt := List.cons_lt_cons_iff.mp h
          refine List.cons_lt_cons_iff.mpr ?_
          rcases hlt with huv | ⟨rfl, hab⟩
          · exact .inl huv
          · exact .inr ⟨rfl, ih (Nat.succ.inj hlen) hab⟩

end Lexical

namespace OrdMap

variable {α ν : Type} [LinearOrder α] [DecidableEq α]

/-- Scan from a text for as long as the keys begin with it. -/
def scanPrefix (m : OrdMap (List α) ν) (p : List α) : List (List α × ν) :=
  (m.entries.dropWhile (fun e => e.1 < p)).takeWhile (fun e => p <+: e.1)

/-- Among keys from the text on, those that begin with it come first. -/
private theorem mem_takeWhile_prefix {p : List α} {l : List (List α × ν)}
    (hs : l.Pairwise (fun a b => a.1 < b.1)) (hfrom : ∀ a ∈ l, p ≤ a.1) {e : List α × ν} :
    e ∈ l.takeWhile (fun e => p <+: e.1) ↔ e ∈ l ∧ p <+: e.1 := by
  induction l with
  | nil => simp
  | cons a l ih =>
      have hl := List.pairwise_cons.mp hs
      by_cases hp : p <+: a.1
      · have ih := ih hl.2 (fun b hb => hfrom b (List.mem_cons_of_mem _ hb))
        rw [List.takeWhile_cons_of_pos (by simpa using hp), List.mem_cons, List.mem_cons, ih]
        constructor
        · rintro (rfl | h)
          · exact ⟨Or.inl rfl, hp⟩
          · exact ⟨Or.inr h.1, h.2⟩
        · rintro ⟨rfl | h, he⟩
          · exact Or.inl rfl
          · exact Or.inr ⟨h, he⟩
      · rw [List.takeWhile_cons_of_neg (by simpa using hp)]
        refine iff_of_false List.not_mem_nil ?_
        rintro ⟨he, hpe⟩
        rcases List.mem_cons.mp he with rfl | he
        · exact hp hpe
        · exact hp (Lexical.prefix_of_between (List.prefix_refl p) hpe
            (hfrom a List.mem_cons_self) (le_of_lt (hl.1 e he)))

private theorem mem_scan {p : List α} {l : List (List α × ν)}
    (hs : l.Pairwise (fun a b => a.1 < b.1)) {e : List α × ν} :
    e ∈ (l.dropWhile (fun e => e.1 < p)).takeWhile (fun e => p <+: e.1) ↔ e ∈ l ∧ p <+: e.1 := by
  induction l with
  | nil => simp
  | cons a l ih =>
      have hl := List.pairwise_cons.mp hs
      by_cases ha : a.1 < p
      · -- the scan has not started yet
        rw [List.dropWhile_cons_of_pos (by simpa using ha), ih hl.2, List.mem_cons]
        refine and_congr_left (fun he => ⟨Or.inr, ?_⟩)
        rintro (rfl | h)
        · exact absurd (Lexical.le_of_prefix he) (not_le.mpr ha)
        · exact h
      · rw [List.dropWhile_cons_of_neg (by simpa using ha)]
        refine mem_takeWhile_prefix hs (fun b hb => ?_)
        rcases List.mem_cons.mp hb with rfl | hb
        · exact not_lt.mp ha
        · exact le_trans (not_lt.mp ha) (le_of_lt (hl.1 b hb))

/-- The scan meets every key that begins with the text, and no other. -/
theorem mem_scanPrefix {m : OrdMap (List α) ν} {p : List α} {e : List α × ν} :
    e ∈ m.scanPrefix p ↔ e ∈ m.entries ∧ p <+: e.1 :=
  mem_scan m.sorted

end OrdMap
