import Mathlib.Algebra.Order.Ring.Int
import Mathlib.Data.List.Sort

/-!
# Lists of closed runs

A set of numbers written as closed runs `(begin, end)`. `Covers` is the set such a
list denotes; `Ascending` says that its runs are proper and that each one ends
before the next begins, which is what a scan in ascending order produces.
-/

namespace Runs

/-- Some run of the list contains `s`. -/
def Covers (runs : List (Nat × Nat)) (s : Nat) : Prop := ∃ r ∈ runs, r.1 ≤ s ∧ s ≤ r.2

instance (runs : List (Nat × Nat)) (s : Nat) : Decidable (Covers runs s) :=
  inferInstanceAs (Decidable (∃ r ∈ runs, r.1 ≤ s ∧ s ≤ r.2))

@[simp] theorem not_covers_nil {s : Nat} : ¬ Covers [] s := by
  rintro ⟨r, hr, _⟩
  exact List.not_mem_nil hr

@[simp] theorem covers_cons {r : Nat × Nat} {rs : List (Nat × Nat)} {s : Nat} :
    Covers (r :: rs) s ↔ (r.1 ≤ s ∧ s ≤ r.2) ∨ Covers rs s := by
  simp [Covers]

@[simp] theorem covers_append {rs rs' : List (Nat × Nat)} {s : Nat} :
    Covers (rs ++ rs') s ↔ Covers rs s ∨ Covers rs' s := by
  simp only [Covers, List.mem_append, or_and_right, exists_or]

/-- Proper runs, each ending before the next begins. -/
structure Ascending (runs : List (Nat × Nat)) : Prop where
  proper : ∀ r ∈ runs, r.1 ≤ r.2
  ordered : runs.Pairwise (fun a b => a.2 < b.1)

namespace Ascending

theorem nil : Ascending [] := ⟨by simp, List.Pairwise.nil⟩

variable {r : Nat × Nat} {rs rs' : List (Nat × Nat)} {s : Nat}

theorem head (h : Ascending (r :: rs)) : r.1 ≤ r.2 := h.proper r List.mem_cons_self

theorem tail (h : Ascending (r :: rs)) : Ascending rs :=
  ⟨fun q hq => h.proper q (List.mem_cons_of_mem _ hq), (List.pairwise_cons.mp h.ordered).2⟩

theorem append (h : Ascending rs) (h' : Ascending rs')
    (hlt : ∀ a ∈ rs, ∀ b ∈ rs', a.2 < b.1) : Ascending (rs ++ rs') where
  proper q hq := by
    rcases List.mem_append.mp hq with hq | hq
    · exact h.proper q hq
    · exact h'.proper q hq
  ordered := List.pairwise_append.mpr ⟨h.ordered, h'.ordered, hlt⟩

/-- Sorting by the beginnings changes nothing. -/
theorem insertionSort_eq (h : Ascending rs) :
    rs.insertionSort (fun a b => a.1 ≤ b.1) = rs := by
  refine List.Pairwise.insertionSort_eq ?_
  refine h.ordered.imp_of_mem (fun {a b} ha _ hab => ?_)
  exact Nat.le_trans (h.proper a ha) (Nat.le_of_lt hab)

end Ascending

/-- The end of the last run. -/
def lastEnd? (runs : List (Nat × Nat)) : Option Nat := runs.getLast?.map Prod.snd

@[simp] theorem lastEnd?_nil : lastEnd? [] = none := rfl

@[simp] theorem lastEnd?_concat (rs : List (Nat × Nat)) (r : Nat × Nat) :
    lastEnd? (rs ++ [r]) = some r.2 := by
  simp [lastEnd?]

theorem lastEnd?_eq_none {runs : List (Nat × Nat)} : lastEnd? runs = none ↔ runs = [] := by
  simp [lastEnd?]

/-- The last end bounds every end. -/
theorem Ascending.le_lastEnd {runs : List (Nat × Nat)} (h : Ascending runs) {e : Nat}
    (he : lastEnd? runs = some e) {r : Nat × Nat} (hr : r ∈ runs) : r.2 ≤ e := by
  obtain ⟨q, hq, rfl⟩ := Option.map_eq_some_iff.mp he
  obtain ⟨init, rfl⟩ := List.getLast?_eq_some_iff.mp hq
  rcases List.mem_append.mp hr with hr' | hr'
  · have hlt := (List.pairwise_append.mp h.ordered).2.2 r hr' q (List.mem_singleton_self q)
    have hp := h.proper q (List.mem_append_right _ (List.mem_singleton_self q))
    omega
  · exact Nat.le_of_eq (congrArg Prod.snd (List.mem_singleton.mp hr'))

end Runs
