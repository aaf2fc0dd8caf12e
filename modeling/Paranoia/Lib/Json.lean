import Mathlib.Algebra.Order.Ring.Int
import Mathlib.Data.List.Basic

/-!
# JSON values and paths into them

A path is a list of steps, each the index of an item or the key of a field. Writing at a path makes
the objects on the way, if need be in the place of something else; arrays and their items have to
be there. `Clash q p` tells whether a later write at `p` spoils what was written at `q`.
-/

inductive Json where
  | null
  | bool (b : Bool)
  | num (text : String)
  | str (s : String)
  | arr (items : List Json)
  /-- In this order; no key occurs twice. -/
  | obj (fields : List (String × Json))

namespace Json

inductive Step where
  | index (i : Nat)
  | key (k : String)
deriving DecidableEq

inductive WriteError where
  | expectedArray (i : Nat)
  | outOfRange (i : Nat)
deriving DecidableEq

/-! ## Fields -/

def lookup (k : String) : List (String × Json) → Option Json
  | [] => none
  | (l, v) :: fields => if l = k then some v else lookup k fields

/-- A new field comes last. -/
def insert (k : String) (v : Json) : List (String × Json) → List (String × Json)
  | [] => [(k, v)]
  | (l, w) :: fields => if l = k then (k, v) :: fields else (l, w) :: insert k v fields

-- the equations are made here, once; many proofs below ask for them
section
attribute [local simp] lookup insert
end

theorem lookup_insert (k l : String) (v : Json) (fields : List (String × Json)) :
    lookup l (insert k v fields) = if k = l then some v else lookup l fields := by
  induction fields with
  | nil => rfl
  | cons f fields ih =>
      obtain ⟨m, w⟩ := f
      rw [insert]
      split
      · rename_i hm
        subst hm
        rw [lookup, lookup]
        split <;> rfl
      · rename_i hm
        rw [lookup, lookup, ih]
        grind

theorem mem_keys_insert {k l : String} {v : Json} {fields : List (String × Json)} :
    l ∈ (insert k v fields).map Prod.fst ↔ l = k ∨ l ∈ fields.map Prod.fst := by
  induction fields with
  | nil => simp [insert]
  | cons f fields ih =>
      obtain ⟨m, w⟩ := f
      rw [insert]
      split
      · rename_i hm
        subst hm
        simp
      · rw [List.map_cons, List.map_cons, List.mem_cons, List.mem_cons, ih]
        grind

theorem nodup_insert {k : String} {v : Json} {fields : List (String × Json)}
    (h : (fields.map Prod.fst).Nodup) : ((insert k v fields).map Prod.fst).Nodup := by
  induction fields with
  | nil => simp [insert]
  | cons f fields ih =>
      obtain ⟨m, w⟩ := f
      obtain ⟨hm, hfields⟩ := List.nodup_cons.mp h
      rw [insert]
      split
      · rename_i hmk
        subst hmk
        exact h
      · rename_i hmk
        refine List.nodup_cons.mpr ⟨fun hmem => ?_, ih hfields⟩
        rcases mem_keys_insert.mp hmem with heq | hold
        · exact hmk heq
        · exact hm hold

theorem mem_of_lookup {k : String} {v : Json} {fields : List (String × Json)}
    (h : lookup k fields = some v) : v ∈ fields.map Prod.snd := by
  induction fields with
  | nil => cases h
  | cons f fields ih =>
      obtain ⟨m, w⟩ := f
      rw [lookup] at h
      split at h
      · cases h
        exact List.mem_cons_self
      · exact List.mem_cons_of_mem _ (ih h)

theorem mem_keys_of_lookup {k : String} {v : Json} {fields : List (String × Json)}
    (h : lookup k fields = some v) : k ∈ fields.map Prod.fst := by
  induction fields with
  | nil => cases h
  | cons f fields ih =>
      rw [lookup] at h
      split at h
      · rename_i hk
        exact hk ▸ List.mem_cons_self
      · exact List.mem_cons_of_mem _ (ih h)

/-- The order of fields does not matter. -/
theorem lookup_perm {fields fields' : List (String × Json)} (h : fields.Perm fields')
    (hnodup : (fields.map Prod.fst).Nodup) (k : String) : lookup k fields = lookup k fields' := by
  induction h with
  | nil => rfl
  | cons f _ ih =>
      obtain ⟨m, w⟩ := f
      rw [lookup, lookup, ih (List.nodup_cons.mp hnodup).2]
  | swap f g fields =>
      obtain ⟨m, w⟩ := f
      obtain ⟨n, x⟩ := g
      have hne : n ≠ m := by
        rintro rfl
        simp at hnodup
      simp only [lookup]
      grind
  | trans h₁ _ ih₁ ih₂ =>
      rw [ih₁ hnodup]
      exact ih₂ ((h₁.map Prod.fst).nodup_iff.mp hnodup)

/-! ## Paths -/

/-- What is at a path. -/
def get : Json → List Step → Option Json
  | v, [] => some v
  | arr items, .index i :: p => items[i]?.bind (fun v => get v p)
  | obj fields, .key k :: p => (lookup k fields).bind (fun v => get v p)
  | _, _ :: _ => none

/-- The fields of a value, which becomes an object if it is none. -/
def fieldsOf : Json → List (String × Json)
  | obj fields => fields
  | _ => []

def write (v : Json) : List Step → Json → Except WriteError Json
  | [], leaf => .ok leaf
  | .index i :: p, leaf =>
      match v with
      | arr items =>
          match items[i]? with
          | some item => (write item p leaf).map (fun item => arr (items.set i item))
          | none => .error (.outOfRange i)
      | _ => .error (.expectedArray i)
  | .key k :: p, leaf =>
      (write ((lookup k v.fieldsOf).getD (obj [])) p leaf).map
        (fun w => obj (insert k w v.fieldsOf))

/-- Whether a write at `p` spoils what was written at `q` before. One place within the other is
lost, and an array makes way for an object; but no write takes an object for an array. -/
def Clash : List Step → List Step → Bool
  | .index i :: q, .index j :: p => i = j && Clash q p
  | .key k :: q, .key l :: p => k = l && Clash q p
  | .key _ :: _, .index _ :: _ => false
  | _, _ => true

-- and here those of the paths
section
attribute [local simp] get fieldsOf write Clash
end

/-! ### Distinct keys -/

/-- No key occurs twice in an object. -/
def Tidy (v : Json) : Prop :=
  ∀ q fields, v.get q = some (obj fields) → (fields.map Prod.fst).Nodup

theorem tidy_arr {items : List Json} :
    (arr items).Tidy ↔ ∀ (i : Nat) (v : Json), items[i]? = some v → v.Tidy := by
  constructor
  · intro h i v hv q fields hq
    exact h (.index i :: q) fields (by rw [get, hv]; exact hq)
  · intro h q fields hq
    cases q with
    | nil => cases hq
    | cons s q =>
        cases s with
        | key k => cases hq
        | index i =>
            obtain ⟨v, hv, hq⟩ := Option.bind_eq_some_iff.mp hq
            exact h i v hv q fields hq

theorem tidy_obj {fields : List (String × Json)} : (obj fields).Tidy ↔
    (fields.map Prod.fst).Nodup ∧ ∀ k v, lookup k fields = some v → v.Tidy := by
  constructor
  · intro h
    refine ⟨h [] fields rfl, fun k v hv q fields' hq => ?_⟩
    exact h (.key k :: q) fields' (by rw [get, hv]; exact hq)
  · rintro ⟨hnodup, h⟩ q fields' hq
    cases q with
    | nil =>
        cases hq
        exact hnodup
    | cons s q =>
        cases s with
        | index i => cases hq
        | key k =>
            obtain ⟨v, hv, hq⟩ := Option.bind_eq_some_iff.mp hq
            exact h k v hv q fields' hq

theorem tidy_str (s : String) : (str s).Tidy := by
  intro q fields hq
  cases q with
  | nil => cases hq
  | cons t q => cases t <;> cases hq

theorem tidy_num (text : String) : (num text).Tidy := by
  intro q fields hq
  cases q with
  | nil => cases hq
  | cons t q => cases t <;> cases hq

theorem tidy_bool (b : Bool) : (bool b).Tidy := by
  intro q fields hq
  cases q with
  | nil => cases hq
  | cons t q => cases t <;> cases hq

theorem tidy_arr_nil : (arr []).Tidy :=
  tidy_arr.mpr (fun i v hv => by cases hv)

theorem tidy_arr_cons {v : Json} {items : List Json} :
    (arr (v :: items)).Tidy ↔ v.Tidy ∧ (arr items).Tidy := by
  rw [tidy_arr, tidy_arr]
  constructor
  · exact fun h => ⟨h 0 v rfl, fun i w hw => h (i + 1) w hw⟩
  · rintro ⟨hv, hitems⟩ i w hw
    cases i with
    | zero =>
        cases hw
        exact hv
    | succ i => exact hitems i w hw

theorem tidy_obj_nil : (obj []).Tidy :=
  tidy_obj.mpr ⟨List.nodup_nil, fun k v hv => by cases hv⟩

theorem tidy_obj_cons {k : String} {v : Json} {fields : List (String × Json)} :
    (obj ((k, v) :: fields)).Tidy ↔ k ∉ fields.map Prod.fst ∧ v.Tidy ∧ (obj fields).Tidy := by
  rw [tidy_obj, tidy_obj, List.map_cons, List.nodup_cons]
  constructor
  · rintro ⟨⟨hk, hnodup⟩, h⟩
    refine ⟨hk, h k v (if_pos rfl), hnodup, fun l w hw => h l w ?_⟩
    rw [lookup, if_neg]
    · exact hw
    · rintro rfl
      exact hk (mem_keys_of_lookup hw)
  · rintro ⟨hk, hv, hnodup, h⟩
    refine ⟨⟨hk, hnodup⟩, fun l w hw => ?_⟩
    rw [lookup] at hw
    split at hw
    · cases hw
      exact hv
    · exact h l w hw

theorem tidy_fieldsOf {v : Json} (h : v.Tidy) : (obj v.fieldsOf).Tidy := by
  cases v with
  | obj fields => exact h
  | null | bool | num | str | arr => exact tidy_obj.mpr ⟨List.nodup_nil, by simp [fieldsOf, lookup]⟩

theorem tidy_write {v v' leaf : Json} {p : List Step} (hv : v.Tidy) (hleaf : leaf.Tidy)
    (h : v.write p leaf = .ok v') : v'.Tidy := by
  induction p generalizing v v' with
  | nil =>
      cases h
      exact hleaf
  | cons s p ih =>
      cases s with
      | index i =>
          cases v with
          | arr items =>
              rw [write] at h
              split at h
              · rename_i item hitem
                cases hw : item.write p leaf with
                | error e =>
                    rw [hw] at h
                    cases h
                | ok w =>
                    rw [hw] at h
                    cases h
                    refine tidy_arr.mpr (fun j x hx => ?_)
                    rw [List.getElem?_set] at hx
                    split at hx
                    · split at hx
                      · cases hx
                        exact ih (tidy_arr.mp hv i item hitem) hw
                      · cases hx
                    · exact tidy_arr.mp hv j x hx
              · cases h
          | null | bool | num | str | obj => cases h
      | key k =>
          rw [write] at h
          have hfields := tidy_obj.mp (tidy_fieldsOf hv)
          cases hw : write ((lookup k v.fieldsOf).getD (obj [])) p leaf with
          | error e =>
              rw [hw] at h
              cases h
          | ok w =>
              rw [hw] at h
              cases h
              refine tidy_obj.mpr ⟨nodup_insert hfields.1, fun l x hx => ?_⟩
              rw [lookup_insert] at hx
              split at hx
              · cases hx
                refine ih ?_ hw
                cases hl : lookup k v.fieldsOf with
                | none => exact tidy_obj.mpr ⟨List.nodup_nil, by simp [lookup]⟩
                | some y => exact hfields.2 k y hl
              · exact hfields.2 l x hx

/-! ### What was written -/

/-- What is written can be read. -/
theorem get_write {v v' leaf : Json} {p : List Step} (h : v.write p leaf = .ok v') :
    v'.get p = some leaf := by
  induction p generalizing v v' with
  | nil =>
      cases h
      rfl
  | cons s p ih =>
      cases s with
      | index i =>
          cases v with
          | arr items =>
              rw [write] at h
              split at h
              · rename_i item hitem
                cases hw : item.write p leaf with
                | error e =>
                    rw [hw] at h
                    cases h
                | ok w =>
                    rw [hw] at h
                    cases h
                    have hi : i < items.length := (List.getElem?_eq_some_iff.mp hitem).1
                    rw [get, List.getElem?_set_self hi]
                    exact ih hw
              · cases h
          | null | bool | num | str | obj => cases h
      | key k =>
          rw [write] at h
          cases hw : write ((lookup k v.fieldsOf).getD (obj [])) p leaf with
          | error e =>
              rw [hw] at h
              cases h
          | ok w =>
              rw [hw] at h
              cases h
              rw [get, lookup_insert, if_pos rfl]
              exact ih hw

/-- Where something is, something can be written. -/
theorem write_of_get {v x : Json} {p : List Step} (h : v.get p = some x) (leaf : Json) :
    ∃ w, v.write p leaf = .ok w := by
  induction p generalizing v with
  | nil => exact ⟨leaf, rfl⟩
  | cons s p ih =>
      cases s with
      | index i =>
          cases v with
          | arr items =>
              obtain ⟨item, hitem, hx⟩ := Option.bind_eq_some_iff.mp h
              obtain ⟨w, hw⟩ := ih hx
              refine ⟨arr (items.set i w), ?_⟩
              rw [write, hitem]
              dsimp only
              rw [hw]
              rfl
          | null | bool | num | str | obj => cases h
      | key k =>
          cases v with
          | obj fields =>
              obtain ⟨field, hfield, hx⟩ := Option.bind_eq_some_iff.mp h
              obtain ⟨w, hw⟩ := ih hx
              refine ⟨obj (insert k w fields), ?_⟩
              rw [write, fieldsOf, hfield, Option.getD_some, hw]
              rfl
          | null | bool | num | str | arr => cases h

/-- What does not clash stays. -/
theorem get_write_of_not_clash {v v' leaf x : Json} {q p : List Step} (hclash : Clash q p = false)
    (hget : v.get q = some x) (h : v.write p leaf = .ok v') : v'.get q = some x := by
  induction q generalizing v v' p with
  | nil => cases p <;> cases hclash
  | cons s q ih =>
      cases p with
      | nil => cases s <;> cases hclash
      | cons t p =>
          cases s with
          | index i =>
              cases t with
              | key l => cases hclash
              | index j =>
                  cases v with
                  | arr items =>
                      rw [write] at h
                      split at h
                      · rename_i item hitem
                        cases hw : item.write p leaf with
                        | error e =>
                            rw [hw] at h
                            cases h
                        | ok w =>
                            rw [hw] at h
                            cases h
                            rw [get] at hget ⊢
                            by_cases hij : i = j
                            · subst hij
                              have hi : i < items.length := (List.getElem?_eq_some_iff.mp hitem).1
                              rw [hitem] at hget
                              rw [List.getElem?_set_self hi]
                              exact ih (by simpa [Clash] using hclash) hget hw
                            · rw [List.getElem?_set_ne (Ne.symm hij)]
                              exact hget
                      · cases h
                  | null | bool | num | str | obj => cases h
          | key k =>
              cases v with
              | obj fields =>
                  cases t with
                  | index j => cases h
                  | key l =>
                      rw [write] at h
                      cases hw : write ((lookup l (obj fields).fieldsOf).getD (obj [])) p leaf with
                      | error e =>
                          rw [hw] at h
                          cases h
                      | ok w =>
                          rw [hw] at h
                          cases h
                          rw [get] at hget ⊢
                          rw [lookup_insert]
                          by_cases hlk : l = k
                          · subst hlk
                            rw [if_pos rfl]
                            obtain ⟨y, hy, hget⟩ := Option.bind_eq_some_iff.mp hget
                            rw [fieldsOf, hy] at hw
                            exact ih (by simpa [Clash] using hclash) hget hw
                          · rw [if_neg hlk]
                            exact hget
              | null | bool | num | str | arr => cases hget

/-! ### What is left -/

theorem get_index_eq_some {v x : Json} {i : Nat} {q : List Step} (h : v.get (.index i :: q) = some x) :
    ∃ items item, v = arr items ∧ items[i]? = some item ∧ item.get q = some x := by
  cases v with
  | arr items =>
      obtain ⟨item, hitem, hget⟩ := Option.bind_eq_some_iff.mp h
      exact ⟨items, item, rfl, hitem, hget⟩
  | null | bool | num | str | obj => cases h

theorem get_key_eq_some {v x : Json} {k : String} {q : List Step} (h : v.get (.key k :: q) = some x) :
    ∃ fields w, v = obj fields ∧ lookup k fields = some w ∧ w.get q = some x := by
  cases v with
  | obj fields =>
      obtain ⟨w, hw, hget⟩ := Option.bind_eq_some_iff.mp h
      exact ⟨fields, w, rfl, hw, hget⟩
  | null | bool | num | str | arr => cases h

/-- What a write that succeeds makes of an array. -/
theorem write_index_eq_ok {v v' leaf : Json} {i : Nat} {p : List Step}
    (h : v.write (.index i :: p) leaf = .ok v') :
    ∃ items item w, v = arr items ∧ items[i]? = some item ∧ item.write p leaf = .ok w
      ∧ v' = arr (items.set i w) := by
  cases v with
  | arr items =>
      rw [write] at h
      split at h
      · rename_i item hitem
        cases hw : item.write p leaf with
        | error e =>
            rw [hw] at h
            cases h
        | ok w =>
            rw [hw] at h
            cases h
            exact ⟨items, item, w, rfl, hitem, hw, rfl⟩
      · cases h
  | null | bool | num | str | obj => cases h

theorem write_key_eq_ok {v v' leaf : Json} {k : String} {p : List Step}
    (h : v.write (.key k :: p) leaf = .ok v') :
    ∃ w, write ((lookup k v.fieldsOf).getD (obj [])) p leaf = .ok w
      ∧ v' = obj (insert k w v.fieldsOf) := by
  rw [write] at h
  cases hw : write ((lookup k v.fieldsOf).getD (obj [])) p leaf with
  | error e =>
      rw [hw] at h
      cases h
  | ok w =>
      rw [hw] at h
      cases h
      exact ⟨w, rfl, rfl⟩

theorem get_obj_nil {q : List Step} {s : String} : (obj []).get q ≠ some (str s) := by
  cases q with
  | nil => simp [get]
  | cons t q => cases t <;> simp [get, lookup]

/-- Strings come from what is written, or were there and do not clash with it. -/
theorem str_of_write {v v' leaf : Json} {q p : List Step} {s : String}
    (h : v.write p leaf = .ok v') (hget : v'.get q = some (str s)) :
    (∃ r, q = p ++ r ∧ leaf.get r = some (str s)) ∨
      (v.get q = some (str s) ∧ Clash q p = false) := by
  induction p generalizing v v' q with
  | nil =>
      cases h
      exact .inl ⟨q, rfl, hget⟩
  | cons t p ih =>
      cases t with
      | index i =>
          obtain ⟨items, item, w, rfl, hitem, hw, rfl⟩ := write_index_eq_ok h
          cases q with
          | nil => cases hget
          | cons u q =>
              cases u with
              | key k => cases hget
              | index j =>
                  rw [get] at hget
                  by_cases hij : i = j
                  · subst hij
                    rw [List.getElem?_set_self (List.getElem?_eq_some_iff.mp hitem).1] at hget
                    rcases ih hw hget with ⟨r, rfl, hr⟩ | ⟨hold, hclash⟩
                    · exact .inl ⟨r, rfl, hr⟩
                    · refine .inr ⟨?_, by simpa [Clash] using hclash⟩
                      rw [get, hitem]
                      exact hold
                  · rw [List.getElem?_set_ne hij] at hget
                    exact .inr ⟨by rw [get]; exact hget, by simp [Clash, Ne.symm hij]⟩
      | key k =>
          obtain ⟨w, hw, rfl⟩ := write_key_eq_ok h
          cases q with
          | nil => cases hget
          | cons u q =>
              cases u with
              | index j => cases hget
              | key l =>
                  rw [get, lookup_insert] at hget
                  by_cases hkl : k = l
                  · subst hkl
                    rw [if_pos rfl] at hget
                    rcases ih hw hget with ⟨r, rfl, hr⟩ | ⟨hold, hclash⟩
                    · exact .inl ⟨r, rfl, hr⟩
                    · refine .inr ⟨?_, by simpa [Clash] using hclash⟩
                      cases v with
                      | obj fields =>
                          cases hl : lookup k fields with
                          | none =>
                              rw [fieldsOf, hl] at hold
                              exact absurd hold get_obj_nil
                          | some y =>
                              rw [fieldsOf, hl] at hold
                              rw [get, hl]
                              exact hold
                      | null | bool | num | str | arr => exact absurd hold get_obj_nil
                  · rw [if_neg hkl] at hget
                    refine .inr ⟨?_, by simp [Clash, Ne.symm hkl]⟩
                    cases v with
                    | obj fields => exact hget
                    | null | bool | num | str | arr => cases hget

/-- What a function makes of the strings in a value has a bound. -/
theorem exists_bound (f : String → Nat) (v : Json) :
    ∃ n, ∀ q s, v.get q = some (str s) → f s ≤ n := by
  have hlist : ∀ vs : List Json, (∀ w ∈ vs, ∃ n, ∀ q s, w.get q = some (str s) → f s ≤ n) →
      ∃ n, ∀ w ∈ vs, ∀ q s, w.get q = some (str s) → f s ≤ n := by
    intro vs
    induction vs with
    | nil => exact fun _ => ⟨0, fun w hw => (by cases hw)⟩
    | cons w vs ih =>
        intro hall
        obtain ⟨n, hn⟩ := hall w List.mem_cons_self
        obtain ⟨m, hm⟩ := ih fun w' hw' => hall w' (List.mem_cons_of_mem _ hw')
        refine ⟨max n m, fun w' hw' q s hq => ?_⟩
        rcases List.mem_cons.mp hw' with rfl | hw'
        · exact Nat.le_trans (hn q s hq) (Nat.le_max_left _ _)
        · exact Nat.le_trans (hm w' hw' q s hq) (Nat.le_max_right _ _)
  match v with
  | .null =>
      refine ⟨0, fun q s hq => ?_⟩
      rcases q with - | ⟨_ | _, _⟩ <;> cases hq
  | .bool b =>
      refine ⟨0, fun q s hq => ?_⟩
      rcases q with - | ⟨_ | _, _⟩ <;> cases hq
  | .num x =>
      refine ⟨0, fun q s hq => ?_⟩
      rcases q with - | ⟨_ | _, _⟩ <;> cases hq
  | .str t =>
      refine ⟨f t, fun q s hq => ?_⟩
      cases q with
      | nil =>
          cases hq
          exact Nat.le_refl _
      | cons t q => cases t <;> cases hq
  | .arr items =>
      obtain ⟨n, hn⟩ := hlist items fun w _ => exists_bound f w
      refine ⟨n, fun q s hq => ?_⟩
      cases q with
      | nil => cases hq
      | cons t q =>
          cases t with
          | key k => cases hq
          | index i =>
              obtain ⟨_, item, heq, hitem, hget⟩ := get_index_eq_some hq
              cases heq
              exact hn item (List.mem_of_getElem? hitem) q s hget
  | .obj fields =>
      obtain ⟨n, hn⟩ := hlist (fields.map Prod.snd) fun w hw => by
        obtain ⟨e, he, rfl⟩ := List.mem_map.mp hw
        exact exists_bound f e.2
      refine ⟨n, fun q s hq => ?_⟩
      cases q with
      | nil => cases hq
      | cons t q =>
          cases t with
          | index i => cases hq
          | key k =>
              obtain ⟨_, w, heq, hw, hget⟩ := get_key_eq_some hq
              cases heq
              exact hn w (mem_of_lookup hw) q s hget
termination_by sizeOf v
decreasing_by
  · have := List.sizeOf_lt_of_mem (by assumption : w ∈ items)
    simp only [arr.sizeOf_spec]
    omega
  · have := List.sizeOf_lt_of_mem he
    have : sizeOf e.2 < sizeOf e := by
      obtain ⟨k, w⟩ := e
      simp only [Prod.mk.sizeOf_spec]
      omega
    simp only [obj.sizeOf_spec]
    omega

/-! ### Where something can be written -/

inductive Shape where
  | arr (length : Nat)
  | obj
  | leaf
deriving DecidableEq

def shape : Json → Shape
  | arr items => .arr items.length
  | obj _ => .obj
  | _ => .leaf

/-- The same places, with other things in them. -/
def Alike (v w : Json) : Prop := ∀ p, (v.get p).map shape = (w.get p).map shape

theorem Alike.refl (v : Json) : Alike v v := fun _ => rfl

theorem alike_str (s t : String) : Alike (str s) (str t) := by
  intro p
  rcases p with - | ⟨_ | _, _⟩ <;> rfl

theorem shape_eq_arr {v : Json} {n : Nat} (h : v.shape = .arr n) :
    ∃ items, v = arr items ∧ items.length = n := by
  cases v with
  | arr items => exact ⟨items, rfl, by simpa [shape] using h⟩
  | null | bool | num | str | obj => cases h

theorem Alike.shape {v w : Json} (h : Alike v w) : v.shape = w.shape := by
  simpa [get] using h []

theorem Alike.items {items items' : List Json} (h : Alike (arr items) (arr items')) {i : Nat}
    {v w : Json} (hv : items[i]? = some v) (hw : items'[i]? = some w) : Alike v w := by
  intro p
  have hp := h (.index i :: p)
  simpa [get, hv, hw] using hp

theorem alike_fieldsOf {v w : Json} (h : Alike v w) : Alike (obj v.fieldsOf) (obj w.fieldsOf) := by
  have hshape := h.shape
  cases v <;> cases w <;> first
    | exact .refl _
    | exact h
    | simp [Json.shape] at hshape

theorem Alike.lookup {fields fields' : List (String × Json)} (h : Alike (obj fields) (obj fields'))
    (k : String) : Alike ((lookup k fields).getD (obj [])) ((lookup k fields').getD (obj [])) := by
  have hk := fun p => h (.key k :: p)
  cases hv : Json.lookup k fields <;> cases hw : Json.lookup k fields' <;>
    simp only [get, hv, hw, Option.bind_some, Option.bind_none, Option.getD_some,
      Option.getD_none] at hk ⊢
  case none.none => exact .refl _
  case none.some => exact absurd (hk []) (by simp [get])
  case some.none => exact absurd (hk []) (by simp [get])
  case some.some => exact hk

/-- Where something can be written depends on the places only, and so does what places there are
afterwards. -/
theorem Alike.write {v w leaf leaf' v' : Json} {p : List Step} (h : Alike v w)
    (hleaf : Alike leaf leaf') (hv : v.write p leaf = .ok v') :
    ∃ w', w.write p leaf' = .ok w' ∧ Alike v' w' := by
  induction p generalizing v w v' with
  | nil =>
      cases hv
      exact ⟨leaf', by rw [Json.write], hleaf⟩
  | cons t p ih =>
      cases t with
      | index i =>
          obtain ⟨items, item, x, rfl, hitem, hx, rfl⟩ := write_index_eq_ok hv
          obtain ⟨items', rfl, hlen⟩ := shape_eq_arr h.shape.symm
          have hi : i < items.length := (List.getElem?_eq_some_iff.mp hitem).1
          have hi' : i < items'.length := by omega
          obtain ⟨x', hx', halike⟩ := ih (h.items hitem (List.getElem?_eq_getElem hi')) hx
          refine ⟨arr (items'.set i x'), ?_, fun q => ?_⟩
          · rw [Json.write, List.getElem?_eq_getElem hi']
            dsimp only
            rw [hx']
            rfl
          · rcases q with - | ⟨j | k, q⟩
            · simp [get, Json.shape, hlen]
            · rw [get, get]
              by_cases hij : i = j
              · subst hij
                rw [List.getElem?_set_self hi, List.getElem?_set_self hi']
                exact halike q
              · rw [List.getElem?_set_ne hij, List.getElem?_set_ne hij]
                exact h (.index j :: q)
            · rfl
      | key k =>
          obtain ⟨x, hx, rfl⟩ := write_key_eq_ok hv
          have hfields := alike_fieldsOf h
          obtain ⟨x', hx', halike⟩ := ih (hfields.lookup k) hx
          refine ⟨obj (insert k x' w.fieldsOf), ?_, fun q => ?_⟩
          · rw [Json.write, hx']
            rfl
          · rcases q with - | ⟨j | l, q⟩
            · rfl
            · rfl
            · rw [get, get, lookup_insert, lookup_insert]
              by_cases hkl : k = l
              · rw [if_pos hkl, if_pos hkl]
                exact halike q
              · rw [if_neg hkl, if_neg hkl]
                exact hfields (.key l :: q)

end Json
