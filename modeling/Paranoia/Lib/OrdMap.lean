import Mathlib.Algebra.Order.Ring.Int
import Mathlib.Order.Defs.LinearOrder
import Mathlib.Data.List.Nodup

/-!
# Ordered key/value stores

What an ordered embedded store offers: point reads and writes, and scans that
meet the keys in ascending order. The entries are kept as a list that is
strictly ascending in the key, so every key occurs once and a scan is the list
itself.
-/

universe u v

/-- A finite map whose entries are listed in strictly ascending key order. -/
structure OrdMap (κ : Type u) (ν : Type v) [LinearOrder κ] where
  entries : List (κ × ν)
  /-- Scans are ascending, and no key occurs twice. -/
  sorted : entries.Pairwise (fun a b => a.1 < b.1)

namespace OrdMap

variable {κ : Type u} {ν : Type v} [LinearOrder κ]

/-- The store without entries. -/
def empty : OrdMap κ ν := ⟨[], List.Pairwise.nil⟩

instance : EmptyCollection (OrdMap κ ν) := ⟨empty⟩

/-- The keys, ascending. -/
def keys (m : OrdMap κ ν) : List κ := m.entries.map Prod.fst

/-- Point read. -/
def get? (m : OrdMap κ ν) (k : κ) : Option ν :=
  (m.entries.find? (fun e => e.1 = k)).map Prod.snd

@[simp] theorem get?_empty (k : κ) : (empty : OrdMap κ ν).get? k = none := rfl

/-- Entries are determined by their key. -/
theorem eq_of_mem_entries {m : OrdMap κ ν} {k : κ} {v w : ν}
    (hv : (k, v) ∈ m.entries) (hw : (k, w) ∈ m.entries) : v = w := by
  have hnd : (m.entries.map Prod.fst).Nodup :=
    List.pairwise_map.mpr (m.sorted.imp (fun h => ne_of_lt h))
  exact congrArg Prod.snd (List.inj_on_of_nodup_map hnd hv hw rfl)

/-- Point reads see exactly the entries. -/
theorem get?_eq_some {m : OrdMap κ ν} {k : κ} {v : ν} :
    m.get? k = some v ↔ (k, v) ∈ m.entries := by
  unfold get?
  constructor
  · intro h
    obtain ⟨e, he, rfl⟩ := Option.map_eq_some_iff.mp h
    have hk : e.1 = k := by simpa using List.find?_some he
    exact hk ▸ List.mem_of_find?_eq_some he
  · intro h
    cases hf : m.entries.find? (fun e => e.1 = k) with
    | none => exact absurd (List.find?_eq_none.mp hf (k, v) h) (by simp)
    | some e =>
        have hk : e.1 = k := by simpa using List.find?_some hf
        have hm : (k, e.2) ∈ m.entries := hk ▸ List.mem_of_find?_eq_some hf
        rw [Option.map_some, eq_of_mem_entries hm h]

theorem mem_keys {m : OrdMap κ ν} {k : κ} : k ∈ m.keys ↔ ∃ v, m.get? k = some v := by
  simp [keys, get?_eq_some]

theorem get?_eq_none {m : OrdMap κ ν} {k : κ} : m.get? k = none ↔ k ∉ m.keys := by
  rw [mem_keys]
  cases m.get? k <;> simp

theorem keys_sorted (m : OrdMap κ ν) : m.keys.Pairwise (· < ·) :=
  List.pairwise_map.mpr m.sorted

/-- Stores with the same point reads have the same entries. -/
theorem mem_entries_congr {m m' : OrdMap κ ν} (h : ∀ k, m.get? k = m'.get? k) (e : κ × ν) :
    e ∈ m.entries ↔ e ∈ m'.entries := by
  obtain ⟨k, v⟩ := e
  rw [← get?_eq_some, ← get?_eq_some, h]

/-- **A store is its point reads.** -/
theorem ext_get? {m m' : OrdMap κ ν} (h : ∀ k, m.get? k = m'.get? k) : m = m' := by
  have hnodup : ∀ n : OrdMap κ ν, n.entries.Nodup := fun n =>
    n.sorted.imp (fun hlt heq => ne_of_lt hlt (congrArg Prod.fst heq))
  have hperm : m.entries.Perm m'.entries :=
    (List.perm_ext_iff_of_nodup (hnodup m) (hnodup m')).mpr (mem_entries_congr h)
  have heq := hperm.eq_of_pairwise
    (fun a b _ _ hab hba => absurd (lt_trans hab hba) (lt_irrefl _)) m.sorted m'.sorted
  cases m
  cases m'
  cases heq
  rfl

/-! ## Point writes -/

/-- Write into an ascending list, keeping its order. -/
def putList (k : κ) (v : ν) : List (κ × ν) → List (κ × ν)
  | [] => [(k, v)]
  | e :: es => if k < e.1 then (k, v) :: e :: es
      else if k = e.1 then (k, v) :: es else e :: putList k v es

theorem mem_putList_imp {k : κ} {v : ν} {l : List (κ × ν)} {e : κ × ν}
    (h : e ∈ putList k v l) : e = (k, v) ∨ e ∈ l := by
  induction l with
  | nil => exact Or.inl (List.mem_singleton.mp h)
  | cons a l ih =>
      rw [putList] at h
      split at h
      · exact List.mem_cons.mp h
      · split at h
        · exact (List.mem_cons.mp h).imp_right (List.mem_cons_of_mem _)
        · rcases List.mem_cons.mp h with h' | h'
          · exact Or.inr (h' ▸ List.mem_cons_self)
          · exact (ih h').imp_right (List.mem_cons_of_mem _)

theorem putList_sorted {k : κ} {v : ν} {l : List (κ × ν)}
    (h : l.Pairwise (fun a b => a.1 < b.1)) :
    (putList k v l).Pairwise (fun a b => a.1 < b.1) := by
  induction l with
  | nil => exact List.pairwise_singleton _ _
  | cons a l ih =>
      have ha := List.pairwise_cons.mp h
      rw [putList]
      split
      · rename_i hlt
        refine List.pairwise_cons.mpr ⟨?_, h⟩
        intro b hb
        rcases List.mem_cons.mp hb with rfl | hb
        · exact hlt
        · exact lt_trans hlt (ha.1 b hb)
      · rename_i hnlt
        split
        · rename_i heq
          exact List.pairwise_cons.mpr ⟨fun b hb => heq ▸ ha.1 b hb, ha.2⟩
        · rename_i hne
          refine List.pairwise_cons.mpr ⟨?_, ih ha.2⟩
          intro b hb
          rcases mem_putList_imp hb with rfl | hb
          · exact lt_of_le_of_ne (not_lt.mp hnlt) (Ne.symm hne)
          · exact ha.1 b hb

theorem mem_putList {k : κ} {v : ν} {l : List (κ × ν)} {e : κ × ν}
    (h : l.Pairwise (fun a b => a.1 < b.1)) :
    e ∈ putList k v l ↔ e = (k, v) ∨ (e ∈ l ∧ e.1 ≠ k) := by
  induction l with
  | nil => simp [putList]
  | cons a l ih =>
      have ha := List.pairwise_cons.mp h
      rw [putList]
      split
      · rename_i hlt
        have hne : ∀ b ∈ a :: l, b.1 ≠ k := by
          intro b hb
          rcases List.mem_cons.mp hb with rfl | hb
          · exact ne_of_gt hlt
          · exact ne_of_gt (lt_trans hlt (ha.1 b hb))
        rw [List.mem_cons]
        exact or_congr_right ⟨fun hb => ⟨hb, hne e hb⟩, And.left⟩
      · split
        · rename_i heq
          rw [List.mem_cons, List.mem_cons]
          refine or_congr_right ⟨fun hb => ⟨Or.inr hb, ?_⟩, ?_⟩
          · exact heq ▸ ne_of_gt (ha.1 e hb)
          · rintro ⟨rfl | hb, hne⟩
            · exact absurd heq.symm hne
            · exact hb
        · rename_i hne
          rw [List.mem_cons, ih ha.2, List.mem_cons]
          constructor
          · rintro (rfl | h' | ⟨hb, hk⟩)
            · exact Or.inr ⟨Or.inl rfl, Ne.symm hne⟩
            · exact Or.inl h'
            · exact Or.inr ⟨Or.inr hb, hk⟩
          · rintro (h' | ⟨rfl | hb, hk⟩)
            · exact Or.inr (Or.inl h')
            · exact Or.inl rfl
            · exact Or.inr (Or.inr ⟨hb, hk⟩)

/-- Point write. -/
def put (m : OrdMap κ ν) (k : κ) (v : ν) : OrdMap κ ν :=
  ⟨putList k v m.entries, putList_sorted m.sorted⟩

@[simp] theorem mem_put {m : OrdMap κ ν} {k : κ} {v : ν} {e : κ × ν} :
    e ∈ (m.put k v).entries ↔ e = (k, v) ∨ (e ∈ m.entries ∧ e.1 ≠ k) :=
  mem_putList m.sorted

theorem get?_put_self (m : OrdMap κ ν) (k : κ) (v : ν) : (m.put k v).get? k = some v :=
  get?_eq_some.mpr (mem_put.mpr (Or.inl rfl))

theorem get?_put_of_ne (m : OrdMap κ ν) {k k' : κ} (v : ν) (h : k' ≠ k) :
    (m.put k v).get? k' = m.get? k' := by
  refine Option.ext (fun w => ?_)
  rw [get?_eq_some, get?_eq_some, mem_put]
  constructor
  · rintro (h' | ⟨hm, _⟩)
    · exact absurd (congrArg Prod.fst h') h
    · exact hm
  · exact fun hm => Or.inr ⟨hm, h⟩

theorem length_putList_le (k : κ) (v : ν) (l : List (κ × ν)) :
    (putList k v l).length ≤ l.length + 1 := by
  induction l with
  | nil => exact Nat.le_refl _
  | cons a l ih =>
      rw [putList]
      split
      · exact Nat.le_refl _
      · split
        · exact Nat.le_succ _
        · exact Nat.succ_le_succ ih

/-- A write adds one entry at most. -/
theorem length_put_le (m : OrdMap κ ν) (k : κ) (v : ν) :
    (m.put k v).entries.length ≤ m.entries.length + 1 :=
  length_putList_le k v m.entries

theorem mem_keys_put {m : OrdMap κ ν} {k k' : κ} {v : ν} :
    k' ∈ (m.put k v).keys ↔ k' = k ∨ k' ∈ m.keys := by
  by_cases h : k' = k
  · subst h
    simp [mem_keys, get?_put_self]
  · simp [mem_keys, get?_put_of_ne m v h, h]

/-! ## Deletion by key -/

/-- Drop every entry whose key `p` selects. -/
def eraseWhere (m : OrdMap κ ν) (p : κ → Bool) : OrdMap κ ν :=
  ⟨m.entries.filter (fun e => !p e.1), m.sorted.sublist List.filter_sublist⟩

@[simp] theorem mem_eraseWhere {m : OrdMap κ ν} {p : κ → Bool} {e : κ × ν} :
    e ∈ (m.eraseWhere p).entries ↔ e ∈ m.entries ∧ p e.1 = false := by
  simp [eraseWhere, List.mem_filter]

theorem mem_keys_eraseWhere {m : OrdMap κ ν} {p : κ → Bool} {k : κ} :
    k ∈ (m.eraseWhere p).keys ↔ k ∈ m.keys ∧ p k = false := by
  simp only [keys, List.mem_map, mem_eraseWhere]
  constructor
  · rintro ⟨e, ⟨he, hp⟩, rfl⟩
    exact ⟨⟨e, he, rfl⟩, hp⟩
  · rintro ⟨⟨e, he, rfl⟩, hp⟩
    exact ⟨e, ⟨he, hp⟩, rfl⟩

/-- A deletion that meets a key leaves fewer entries. -/
theorem length_eraseWhere_lt {m : OrdMap κ ν} {p : κ → Bool} {k : κ} (hk : k ∈ m.keys)
    (hp : p k = true) : (m.eraseWhere p).entries.length < m.entries.length := by
  obtain ⟨e, he, rfl⟩ := List.mem_map.mp hk
  exact List.length_filter_lt_length_iff_exists.mpr ⟨e, he, by simp [hp]⟩

/-! ## Scans -/

/-- The least key, if there is one. -/
def firstKey? (m : OrdMap κ ν) : Option κ := m.keys.head?

theorem firstKey?_mem {m : OrdMap κ ν} {k : κ} (h : m.firstKey? = some k) : k ∈ m.keys :=
  List.mem_of_mem_head? h

theorem firstKey?_le {m : OrdMap κ ν} {k : κ} (h : m.firstKey? = some k) {a : κ}
    (ha : a ∈ m.keys) : k ≤ a := by
  obtain ⟨rest, hrest⟩ := List.head?_eq_some_iff.mp h
  have hs := m.keys_sorted
  rw [hrest] at ha hs
  rcases List.mem_cons.mp ha with rfl | ha
  · exact le_refl _
  · exact le_of_lt ((List.pairwise_cons.mp hs).1 a ha)

theorem firstKey?_eq_none {m : OrdMap κ ν} : m.firstKey? = none ↔ m.keys = [] :=
  List.head?_eq_none_iff

/-- The greatest key, if there is one. -/
def lastKey? (m : OrdMap κ ν) : Option κ := m.keys.getLast?

theorem lastKey?_eq_none {m : OrdMap κ ν} : m.lastKey? = none ↔ m.keys = [] :=
  List.getLast?_eq_none_iff

theorem lastKey?_mem {m : OrdMap κ ν} {k : κ} (h : m.lastKey? = some k) : k ∈ m.keys :=
  List.mem_of_getLast? h

/-- The last entry of an ascending list bounds all of it. -/
theorem le_getLast? {l : List κ} (hs : l.Pairwise (· < ·)) {k : κ} (h : l.getLast? = some k) :
    ∀ a ∈ l, a ≤ k := by
  obtain ⟨init, rfl⟩ := List.getLast?_eq_some_iff.mp h
  intro a ha
  rcases List.mem_append.mp ha with ha | ha
  · exact le_of_lt ((List.pairwise_append.mp hs).2.2 a ha k (List.mem_singleton_self k))
  · exact le_of_eq (List.mem_singleton.mp ha)

theorem le_lastKey? {m : OrdMap κ ν} {k : κ} (h : m.lastKey? = some k) {a : κ}
    (ha : a ∈ m.keys) : a ≤ k :=
  le_getLast? m.keys_sorted h a ha

end OrdMap
