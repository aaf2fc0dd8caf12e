import Mathlib.Algebra.Order.Ring.Int
import Mathlib.Order.Defs.LinearOrder
import Mathlib.Data.List.Nodup

/-!
# Tables with a primary key

A table is a list of rows in insertion order together with the proof that no two
rows share a key, so a table that violates its primary key cannot be built. The
operations are the ones a relational store offers on such a table; each comes
with the lemma saying exactly which rows it leaves.
-/

universe u v

/-- The rows of a relation in the order they were inserted, unique by `key`. -/
structure Table (ρ : Type u) {κ : Type v} (key : ρ → κ) where
  rows : List ρ
  /-- The primary key constraint. -/
  unique : (rows.map key).Nodup

namespace Table

variable {ρ : Type u} {κ : Type v} {key : ρ → κ}

instance : Membership ρ (Table ρ key) := ⟨fun t r => r ∈ t.rows⟩

instance [DecidableEq ρ] (t : Table ρ key) (r : ρ) : Decidable (r ∈ t) :=
  inferInstanceAs (Decidable (r ∈ t.rows))

theorem mem_def {t : Table ρ key} {r : ρ} : r ∈ t ↔ r ∈ t.rows := Iff.rfl

/-- Rows are determined by their key. -/
theorem eq_of_key {t : Table ρ key} {r s : ρ} (hr : r ∈ t) (hs : s ∈ t)
    (h : key r = key s) : r = s :=
  List.inj_on_of_nodup_map t.unique hr hs h

/-- The table without rows. -/
def empty : Table ρ key := ⟨[], List.nodup_nil⟩

@[simp] theorem not_mem_empty {r : ρ} : r ∉ (empty : Table ρ key) := List.not_mem_nil

/-- `DELETE … WHERE p`. -/
def deleteWhere (t : Table ρ key) (p : ρ → Bool) : Table ρ key where
  rows := t.rows.filter (fun r => !p r)
  unique := (List.filter_sublist.map key).nodup t.unique

@[simp] theorem mem_deleteWhere {t : Table ρ key} {p : ρ → Bool} {r : ρ} :
    r ∈ t.deleteWhere p ↔ r ∈ t ∧ p r = false := by
  simp [mem_def, deleteWhere, List.mem_filter]

/-- `UPDATE … WHERE p`, by a function that keeps the key. -/
def updateWhere (t : Table ρ key) (p : ρ → Bool) (f : ρ → ρ) (hf : ∀ r, key (f r) = key r) :
    Table ρ key where
  rows := t.rows.map (fun r => if p r then f r else r)
  unique := by
    have h : (t.rows.map (fun r => if p r then f r else r)).map key = t.rows.map key := by
      rw [List.map_map]
      refine List.map_congr_left (fun r _ => ?_)
      simp only [Function.comp_apply]
      split
      · exact hf r
      · rfl
    rw [h]
    exact t.unique

theorem mem_updateWhere {t : Table ρ key} {p : ρ → Bool} {f : ρ → ρ}
    {hf : ∀ r, key (f r) = key r} {r : ρ} :
    r ∈ t.updateWhere p f hf ↔ ∃ s ∈ t, r = if p s then f s else s := by
  simp only [mem_def, updateWhere, List.mem_map]
  exact ⟨fun ⟨s, hs, h⟩ => ⟨s, hs, h.symm⟩, fun ⟨s, hs, h⟩ => ⟨s, hs, h.symm⟩⟩

/-- The first row, in insertion order, that satisfies `p`. -/
def find? (t : Table ρ key) (p : ρ → Bool) : Option ρ := t.rows.find? p

theorem find?_some {t : Table ρ key} {p : ρ → Bool} {r : ρ} (h : t.find? p = some r) :
    r ∈ t ∧ p r = true :=
  ⟨List.mem_of_find?_eq_some h, List.find?_some h⟩

theorem find?_eq_none {t : Table ρ key} {p : ρ → Bool} :
    t.find? p = none ↔ ∀ r ∈ t, p r = false := by
  simp [find?, mem_def]

theorem find?_isSome_of_mem {t : Table ρ key} {p : ρ → Bool} {r : ρ} (h : r ∈ t)
    (hp : p r = true) : ∃ s, t.find? p = some s := by
  cases hf : t.find? p with
  | some s => exact ⟨s, rfl⟩
  | none =>
      have := find?_eq_none.mp hf r h
      rw [hp] at this
      exact Bool.noConfusion this

section Insert

variable [DecidableEq κ]

/-- Deleting the row with a key and appending one with that key keeps keys unique. -/
private theorem nodup_replace {l : List ρ} (r : ρ) (h : (l.map key).Nodup) :
    ((l.filter (fun s => !decide (key s = key r)) ++ [r]).map key).Nodup := by
  rw [List.map_append, List.nodup_append]
  refine ⟨(List.filter_sublist.map key).nodup h, List.nodup_singleton _, ?_⟩
  intro a ha b hb
  obtain ⟨s, hs, rfl⟩ := List.mem_map.mp ha
  rw [List.map_singleton, List.mem_singleton] at hb
  subst hb
  simpa using (List.mem_filter.mp hs).2

/-- `INSERT OR REPLACE`: a row with the same key is deleted first. -/
def insertOrReplace (t : Table ρ key) (r : ρ) : Table ρ key where
  rows := t.rows.filter (fun s => !decide (key s = key r)) ++ [r]
  unique := nodup_replace r t.unique

@[simp] theorem mem_insertOrReplace {t : Table ρ key} {r s : ρ} :
    s ∈ t.insertOrReplace r ↔ (s ∈ t ∧ key s ≠ key r) ∨ s = r := by
  simp [mem_def, insertOrReplace, List.mem_filter]

/-- `INSERT OR IGNORE`: a row with the same key keeps its place. -/
def insertOrIgnore (t : Table ρ key) (r : ρ) : Table ρ key :=
  if h : key r ∈ t.rows.map key then t
  else
    { rows := t.rows ++ [r]
      unique := by
        rw [List.map_append, List.nodup_append]
        refine ⟨t.unique, List.nodup_singleton _, ?_⟩
        intro a ha b hb
        rw [List.map_singleton, List.mem_singleton] at hb
        subst hb
        intro he
        exact h (he ▸ ha) }

theorem mem_insertOrIgnore {t : Table ρ key} {r s : ρ} :
    s ∈ t.insertOrIgnore r ↔ s ∈ t ∨ (s = r ∧ ∀ q ∈ t, key q ≠ key r) := by
  unfold insertOrIgnore
  split
  · rename_i h
    obtain ⟨q, hq, hk⟩ := List.mem_map.mp h
    refine ⟨Or.inl, ?_⟩
    rintro (hs | ⟨_, hn⟩)
    · exact hs
    · exact absurd hk (hn q hq)
  · rename_i h
    have hn : ∀ q ∈ t, key q ≠ key r := fun q hq hk => h (List.mem_map.mpr ⟨q, hq, hk⟩)
    simp only [mem_def, List.mem_append, List.mem_singleton]
    exact ⟨fun hs => hs.imp_right (fun he => ⟨he, hn⟩), fun hs => hs.imp_right And.left⟩

/-- No row that was there is lost. -/
theorem mem_insertOrIgnore_of_mem {t : Table ρ key} {r s : ρ} (h : s ∈ t) :
    s ∈ t.insertOrIgnore r :=
  mem_insertOrIgnore.mpr (Or.inl h)

/-- Some row with the key is there afterwards. -/
theorem exists_mem_insertOrIgnore (t : Table ρ key) (r : ρ) :
    ∃ s ∈ t.insertOrIgnore r, key s = key r := by
  by_cases h : ∃ q ∈ t, key q = key r
  · obtain ⟨q, hq, hk⟩ := h
    exact ⟨q, mem_insertOrIgnore_of_mem hq, hk⟩
  · exact ⟨r, mem_insertOrIgnore.mpr (Or.inr ⟨rfl, fun q hq hk => h ⟨q, hq, hk⟩⟩), rfl⟩

end Insert

/-! ## The greatest of a column -/

/-- The greatest value of a column is no less than any, nor than what it is compared with first. -/
theorem le_foldl_max {α : Type u} [LinearOrder α] (l : List α) (a : α) :
    a ≤ l.foldl max a ∧ ∀ b ∈ l, b ≤ l.foldl max a := by
  induction l generalizing a with
  | nil => exact ⟨le_refl a, fun _ h => absurd h List.not_mem_nil⟩
  | cons b l ih =>
      obtain ⟨hle, hall⟩ := ih (max a b)
      refine ⟨le_trans (le_max_left a b) hle, fun c hc => ?_⟩
      rcases List.mem_cons.mp hc with rfl | hc
      · exact le_trans (le_max_right a c) hle
      · exact hall c hc

end Table
