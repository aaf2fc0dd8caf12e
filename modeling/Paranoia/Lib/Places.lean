import Mathlib.Algebra.Order.Ring.Int
import Mathlib.Data.List.Perm.Basic

/-!
# Places of a list

An index tells at which place of a list a key is found. Entries are written over at places, and what
stands at the other places is kept.
-/

namespace Places

variable {α κ : Type}

/-- Where the keys are, the last place first. -/
def indexBy (key : α → Option κ) (l : List α) : List (κ × Nat) :=
  (l.zipIdx.filterMap fun x => (key x.1).map fun k => (k, x.2)).reverse

/-- What stands at none of these places. -/
def others (l : List α) (places : List Nat) : List α :=
  (l.zipIdx.filter (·.2 ∉ places)).map Prod.fst

section Index

variable {key : α → Option κ} {l : List α} {k : κ} {i : Nat} {a : α}

theorem mem_indexBy : (k, i) ∈ indexBy key l ↔ ∃ a, l[i]? = some a ∧ key a = some k := by
  simp only [indexBy, List.mem_reverse, List.mem_filterMap, Option.map_eq_some_iff, Prod.mk.injEq,
    Prod.exists, List.mk_mem_zipIdx_iff_getElem?]
  constructor
  · rintro ⟨a, j, hget, _, hkey, rfl, rfl⟩
    exact ⟨a, hget, hkey⟩
  · rintro ⟨a, hget, hkey⟩
    exact ⟨a, i, hget, k, hkey, rfl, rfl⟩

variable [BEq κ] [LawfulBEq κ]

/-- What the index finds is at the place. -/
theorem lookup_indexBy (h : (indexBy key l).lookup k = some i) :
    ∃ a, l[i]? = some a ∧ key a = some k := by
  obtain ⟨l₁, l₂, heq, -⟩ := List.lookup_eq_some_iff.mp h
  exact mem_indexBy.mp (heq ▸ List.mem_append_right _ List.mem_cons_self)

/-- A key that is there is found. -/
theorem lookup_indexBy_ne_none (ha : a ∈ l) (hkey : key a = some k) :
    (indexBy key l).lookup k ≠ none := by
  intro hnone
  obtain ⟨j, hj⟩ := List.mem_iff_getElem?.mp ha
  have := List.lookup_eq_none_iff.mp hnone (k, j) (mem_indexBy.mpr ⟨a, hj, hkey⟩)
  simp at this

end Index

/-- What holds of any two entries, whichever is first, holds at any two places. -/
theorem pairwise_at {R : α → α → Prop} {l : List α} {i j : Nat} {a b : α} (h : l.Pairwise R)
    (hsymm : ∀ {a b}, R a b → R b a) (hne : i ≠ j) (ha : l[i]? = some a) (hb : l[j]? = some b) :
    R a b := by
  obtain ⟨hi, rfl⟩ := List.getElem?_eq_some_iff.mp ha
  obtain ⟨hj, rfl⟩ := List.getElem?_eq_some_iff.mp hb
  rcases Nat.lt_or_gt_of_ne hne with hlt | hlt
  · exact List.pairwise_iff_getElem.mp h i j hi hj hlt
  · exact hsymm (List.pairwise_iff_getElem.mp h j i hj hi hlt)

/-- Two entries that it does not hold of are one. -/
theorem eq_of_not {R : α → α → Prop} {l : List α} {a b : α} (h : l.Pairwise R)
    (hsymm : ∀ {a b}, R a b → R b a) (ha : a ∈ l) (hb : b ∈ l) (hnot : ¬ R a b) : a = b := by
  obtain ⟨i, hi⟩ := List.mem_iff_getElem?.mp ha
  obtain ⟨j, hj⟩ := List.mem_iff_getElem?.mp hb
  by_cases hij : i = j
  · exact Option.some.inj (hi.symm.trans (hij ▸ hj))
  · exact absurd (pairwise_at h hsymm hij hi hj) hnot

section Others

variable {l : List α} {places : List Nat} {i : Nat} {a b : α}

theorem others_sublist : (others l places).Sublist l := by
  have h : ((l.zipIdx.filter (·.2 ∉ places)).map Prod.fst).Sublist (l.zipIdx.map Prod.fst) :=
    List.filter_sublist.map _
  rwa [List.zipIdx_map_fst] at h

theorem mem_others : a ∈ others l places ↔ ∃ i, l[i]? = some a ∧ i ∉ places := by
  simp only [others, List.mem_map, List.mem_filter, decide_eq_true_eq, Prod.exists,
    List.mk_mem_zipIdx_iff_getElem?, exists_and_right, exists_eq_right]

theorem others_nil : others l [] = l := by
  simp [others]

theorem others_concat (h : l.length ∉ places) :
    others (l ++ [b]) places = others l places ++ [b] := by
  simp [others, List.zipIdx_append, List.filter_append, h]

/-- To write at one more place puts there what was written instead of what was kept. -/
theorem others_set (n : Nat) (hi : i < l.length) (hp : n + i ∉ places) :
    (((l.set i b).zipIdx n).filter (·.2 ∉ places)).map Prod.fst
      |>.Perm (b :: ((l.zipIdx n).filter (·.2 ∉ (n + i) :: places)).map Prod.fst) := by
  induction l generalizing n i with
  | nil => exact absurd hi (Nat.not_lt_zero _)
  | cons a l ih =>
      cases i with
      | zero =>
          -- the places after the first are above it
          have hrest : (l.zipIdx (n + 1)).filter (·.2 ∉ places)
              = (l.zipIdx (n + 1)).filter (·.2 ∉ (n + 0) :: places) :=
            List.filter_congr fun x hx => by
              have hge := List.le_snd_of_mem_zipIdx hx
              have hne : x.2 ≠ n := by omega
              simp [hne]
          have hp : n ∉ places := hp
          simp only [List.set_cons_zero, List.zipIdx_cons, List.filter_cons]
          rw [hrest]
          simp [hp]
      | succ i =>
          have ih := ih (n + 1) (i := i) (Nat.lt_of_succ_lt_succ hi)
            (by rwa [Nat.add_right_comm])
          have hsum : n + 1 + i = n + (i + 1) := by omega
          rw [hsum] at ih
          have hne : n ≠ n + (i + 1) := by omega
          simp only [List.set_cons_succ, List.zipIdx_cons, List.filter_cons]
          by_cases hn : n ∈ places
          · simpa [hn] using ih
          · have hn' : n ∉ (n + (i + 1)) :: places := by simp [hn]
            simp only [hn, hn', not_false_eq_true, decide_true, if_true,
              List.map_cons]
            exact (ih.cons a).trans (.swap b a _)

theorem others_set_perm (hi : i < l.length) (hp : i ∉ places) :
    (others (l.set i b) places).Perm (b :: others l (i :: places)) := by
  have hp : 0 + i ∉ places := by rwa [Nat.zero_add]
  have h := others_set (b := b) 0 hi hp
  rwa [Nat.zero_add] at h

end Others

end Places
