import Paranoia.Client.Timeline

/-!
# What a merge does to the cache

`appendMessages` takes a batch message by message and finds each by the indices of ids, of numbers
and of unsent texts. If no two messages of the batch are taken for one entry, each is found as the
indices were at first: the entries they are taken for are written over, the others are kept, and what
is not found comes behind them.
-/

namespace Paranoia

namespace TimelineRow

/-! ## What a merge does -/

section Merge

variable {M : Merge} {pending : List (String × Nat)} {myId : String} {m m' : TimelineRow}
  {ms : List TimelineRow} {cache : List TimelineRow} {i : Nat}

theorem idKey_eq_some {r : TimelineRow} {id : String} :
    r.idKey = some id ↔ r.id ≠ "" ∧ r.id = id := by
  unfold idKey
  split <;> simp_all

theorem seqKey_eq_some {r : TimelineRow} {seq : Nat} :
    r.seqKey = some seq ↔ r.seq ≠ 0 ∧ r.seq = seq := by
  unfold seqKey
  split <;> simp_all

theorem pendingKey_eq_some {r : TimelineRow} {text : String} :
    r.pendingKey = some text ↔ isPendingId r.id = true ∧ r.text ≠ "" ∧ r.text = text := by
  unfold pendingKey
  split <;> simp_all

/-- What another message has noted is nothing to this one. -/
theorem find_note (h : Distinct m m') :
    (M.note i m).find pending myId m' = M.find pending myId m' := by
  have hid : (m'.idKey.bind fun id => (M.note i m).idToIndex.lookup id)
      = m'.idKey.bind fun id => M.idToIndex.lookup id := by
    cases hkey : m'.idKey with
    | none => rfl
    | some id =>
        obtain ⟨-, rfl⟩ := idKey_eq_some.mp hkey
        cases hkey' : m.idKey with
        | none => simp [Merge.note, hkey']
        | some id' =>
            obtain ⟨-, rfl⟩ := idKey_eq_some.mp hkey'
            have hne : (m'.id == m.id) = false := by simpa using Ne.symm h.1
            simp [Merge.note, hkey', List.lookup_cons, hne]
  have hseq : (m'.seqKey.bind fun seq => (M.note i m).seqToIndex.lookup seq)
      = m'.seqKey.bind fun seq => M.seqToIndex.lookup seq := by
    cases hkey : m'.seqKey with
    | none => rfl
    | some seq =>
        obtain ⟨-, rfl⟩ := seqKey_eq_some.mp hkey
        cases hkey' : m.seqKey with
        | none => simp [Merge.note, hkey']
        | some seq' =>
            obtain ⟨-, rfl⟩ := seqKey_eq_some.mp hkey'
            have hne : (m'.seq == m.seq) = false := by simpa using Ne.symm h.2
            simp [Merge.note, hkey', List.lookup_cons, hne]
  unfold Merge.find
  rw [hid, hseq]

theorem find_add (h : Distinct m m') :
    (M.add pending myId m).find pending myId m' = M.find pending myId m' := by
  unfold Merge.add
  split
  · rw [find_note h]
    rfl
  · rw [find_note h]
    rfl

theorem add_some (h : M.find pending myId m = some i) :
    (M.add pending myId m).cache = M.cache.modify i m.inPlaceOf := by
  unfold Merge.add
  rw [h]
  rfl

theorem add_none (h : M.find pending myId m = none) :
    (M.add pending myId m).cache = M.cache ++ [m] := by
  unfold Merge.add
  rw [h]
  rfl

/-- The entry that comes of a message. -/
def Merge.entry (M : Merge) (pending : List (String × Nat)) (myId : String) (m : TimelineRow) :
    TimelineRow :=
  ((M.find pending myId m).bind (M.cache[·]?)).elim m m.inPlaceOf

/-- **A batch is merged at once**: what it finds is written over, the rest comes behind, each message
as the indices were at first. -/
theorem foldl_add (hd : ms.Pairwise Distinct)
    (ht : ms.Pairwise fun m m' => ∀ i, M.find pending myId m = some i →
      M.find pending myId m' ≠ some i)
    (hv : ∀ m ∈ ms, ∀ i, M.find pending myId m = some i → i < M.cache.length) :
    (ms.foldl (Merge.add pending myId) M).cache.Perm
      (Places.others M.cache (ms.filterMap (M.find pending myId))
        ++ ms.map (M.entry pending myId)) := by
  induction ms generalizing M with
  | nil => simp [Places.others_nil]
  | cons m ms ih =>
      obtain ⟨hdm, hd⟩ := List.pairwise_cons.mp hd
      obtain ⟨htm, ht⟩ := List.pairwise_cons.mp ht
      have hfind : ∀ m' ∈ ms, (M.add pending myId m).find pending myId m'
          = M.find pending myId m' := fun m' hm' => find_add (hdm m' hm')
      have hplaces : ms.filterMap ((M.add pending myId m).find pending myId)
          = ms.filterMap (M.find pending myId) := List.filterMap_congr hfind
      have ht' : ms.Pairwise fun a b => ∀ i, (M.add pending myId m).find pending myId a = some i →
          (M.add pending myId m).find pending myId b ≠ some i :=
        ht.imp_of_mem fun ha hb hab i hi => by
          rw [hfind _ hb]
          exact hab i (hfind _ ha ▸ hi)
      rw [List.foldl_cons]
      cases hm : M.find pending myId m with
      | some i =>
          have hlt := hv m List.mem_cons_self i hm
          have hcache := add_some hm
          have hi : i ∉ ms.filterMap (M.find pending myId) := by
            intro hmem
            obtain ⟨m', hm', hi⟩ := List.mem_filterMap.mp hmem
            exact htm m' hm' i hm hi
          have hentry : ∀ m' ∈ ms, (M.add pending myId m).entry pending myId m'
              = M.entry pending myId m' := by
            intro m' hm'
            unfold Merge.entry
            rw [hfind m' hm', hcache]
            cases hj : M.find pending myId m' with
            | none => rfl
            | some j =>
                have hne : i ≠ j := fun he => hi (List.mem_filterMap.mpr ⟨m', hm', he ▸ hj⟩)
                simp [List.getElem?_modify, hne]
          have hset : M.cache.modify i m.inPlaceOf = M.cache.set i (M.entry pending myId m) := by
            refine List.ext_getElem? fun j => ?_
            rw [List.getElem?_modify, List.getElem?_set]
            by_cases he : i = j
            · subst he
              simp [Merge.entry, hm, hlt]
            · simp [he]
          have hperm := ih (M := M.add pending myId m) hd ht' (fun m' hm' j hj => by
            rw [hcache, List.length_modify]
            exact hv m' (List.mem_cons_of_mem _ hm') j (hfind m' hm' ▸ hj))
          rw [hplaces, List.map_congr_left hentry, hcache, hset] at hperm
          rw [List.filterMap_cons_some hm, List.map_cons]
          exact (hperm.trans ((Places.others_set_perm hlt hi).append_right _)).trans
            List.perm_middle.symm
      | none =>
          have hcache := add_none hm
          have hlen : M.cache.length ∉ ms.filterMap (M.find pending myId) := by
            intro hmem
            obtain ⟨m', hm', hi⟩ := List.mem_filterMap.mp hmem
            exact absurd (hv m' (List.mem_cons_of_mem _ hm') _ hi) (Nat.lt_irrefl _)
          have hentry : ∀ m' ∈ ms, (M.add pending myId m).entry pending myId m'
              = M.entry pending myId m' := by
            intro m' hm'
            unfold Merge.entry
            rw [hfind m' hm', hcache]
            cases hj : M.find pending myId m' with
            | none => rfl
            | some j =>
                have hlt := hv m' (List.mem_cons_of_mem _ hm') j hj
                simp [List.getElem?_append_left hlt]
          have hperm := ih (M := M.add pending myId m) hd ht' (fun m' hm' j hj => by
            rw [hcache, List.length_append]
            exact Nat.lt_add_right _ (hv m' (List.mem_cons_of_mem _ hm') j (hfind m' hm' ▸ hj)))
          rw [hplaces, List.map_congr_left hentry, hcache, Places.others_concat hlen] at hperm
          have hself : M.entry pending myId m = m := by simp [Merge.entry, hm]
          rw [List.filterMap_cons_none hm, List.map_cons, hself]
          simpa using hperm

theorem length_foldl_add (hd : ms.Pairwise Distinct) :
    (ms.foldl (Merge.add pending myId) M).cache.length
      = M.cache.length + ms.countP fun m => M.find pending myId m = none := by
  induction ms generalizing M with
  | nil => rfl
  | cons m ms ih =>
      obtain ⟨hdm, hd⟩ := List.pairwise_cons.mp hd
      have hfind : ms.countP (fun m' => (M.add pending myId m).find pending myId m' = none)
          = ms.countP fun m' => M.find pending myId m' = none :=
        List.countP_congr fun m' hm' => by rw [find_add (hdm m' hm')]
      rw [List.foldl_cons, ih hd, hfind, List.countP_cons]
      cases hm : M.find pending myId m with
      | some i => simp [add_some hm]
      | none =>
          simp [add_none hm]
          omega

end Merge

section Batch

variable {cache ms : List TimelineRow} {myId : String} {b b' r old : TimelineRow} {i : Nat}
  {S : String → TimelineRow → Prop}

theorem pendingRow_mem (h : pendingRow cache b.text = some r) :
    r ∈ cache ∧ isPendingId r.id = true ∧ r.text = b.text := by
  obtain ⟨j, hj, hget⟩ := Option.bind_eq_some_iff.mp h
  obtain ⟨r', hr', hkey⟩ := Places.lookup_indexBy hj
  obtain rfl : r' = r := Option.some.inj (hr'.symm.trans hget)
  obtain ⟨hp, -, ht⟩ := pendingKey_eq_some.mp hkey
  exact ⟨List.mem_of_getElem? hget, hp, ht⟩

/-- An unsent text is found by its text. -/
theorem pendingRow_ne_none (hr : r ∈ cache) (hp : isPendingId r.id = true) (ht : r.text ≠ "") :
    pendingRow cache r.text ≠ none := by
  have hkey : r.pendingKey = some r.text := pendingKey_eq_some.mpr ⟨hp, ht, rfl⟩
  cases hlook : (Places.indexBy pendingKey cache).lookup r.text with
  | none => exact absurd hlook (Places.lookup_indexBy_ne_none hr hkey)
  | some j =>
      obtain ⟨r', hr', -⟩ := Places.lookup_indexBy hlook
      simp [pendingRow, hlook, hr']

/-- The entry that a message of the batch is taken for has its id, or is the unsent text that it is
the message of. -/
def Takes (S : String → TimelineRow → Prop) (cache : List TimelineRow) (b old : TimelineRow) :
    Prop :=
  old.id = b.id ∨ isPendingId old.id = true ∧ S old.id b ∧ ∀ r ∈ cache, r.id ≠ b.id

/-- A batch that is told apart from the cache by ids, but for unsent texts. -/
structure Fits (cache : List TimelineRow) (myId : String) (S : String → TimelineRow → Prop)
    (ms : List TimelineRow) : Prop where
  ids : cache.Pairwise fun a b => a.id ≠ b.id
  numbered : ∀ b ∈ ms, b.id ≠ "" ∧ isPendingId b.id = false ∧ b.seq ≠ 0
  distinct : ms.Pairwise Distinct
  seqs : ∀ r ∈ cache, ∀ b ∈ ms, r.seq = b.seq → r.id = b.id
  texts : ∀ b ∈ ms, b.kind = .text → b.sender = myId → (∀ r ∈ cache, r.id ≠ b.id) →
    ∀ r ∈ pendingRow cache b.text, S r.id b
  once : ∀ t, ∀ b ∈ ms, ∀ b' ∈ ms, S t b → S t b' → b.id = b'.id

/-- Where the code finds a message. -/
def place (cache : List TimelineRow) (myId : String) (b : TimelineRow) : Option Nat :=
  (Merge.ofCache cache).find (Places.indexBy pendingKey cache) myId b

def entry (cache : List TimelineRow) (myId : String) (b : TimelineRow) : TimelineRow :=
  (Merge.ofCache cache).entry (Places.indexBy pendingKey cache) myId b

theorem Fits.place_some (hf : Fits cache myId S ms) (hb : b ∈ ms)
    (h : place cache myId b = some i) :
    ∃ old, cache[i]? = some old ∧ Takes S cache b old ∧ entry cache myId b = b.inPlaceOf old := by
  have hentry : ∀ old, cache[i]? = some old → entry cache myId b = b.inPlaceOf old := by
    intro old hold
    have h' : (Merge.ofCache cache).find (Places.indexBy pendingKey cache) myId b = some i := h
    unfold entry Merge.entry
    rw [h']
    simp [Merge.ofCache, hold]
  obtain ⟨hne, hpend, hseq⟩ := hf.numbered b hb
  have hid : b.idKey = some b.id := idKey_eq_some.mpr ⟨hne, rfl⟩
  have hseqKey : b.seqKey = some b.seq := seqKey_eq_some.mpr ⟨hseq, rfl⟩
  unfold place Merge.find at h
  simp only [hid, hseqKey, Option.bind_some, Merge.ofCache] at h
  cases hone : (Places.indexBy idKey cache).lookup b.id with
  | some j =>
      obtain rfl : j = i := by simpa [hone] using h
      obtain ⟨old, hold, hkey⟩ := Places.lookup_indexBy hone
      exact ⟨old, hold, .inl (idKey_eq_some.mp hkey).2, hentry old hold⟩
  | none =>
      have hnone : ∀ r ∈ cache, r.id ≠ b.id := fun r hr he =>
        Places.lookup_indexBy_ne_none hr (idKey_eq_some.mpr ⟨he ▸ hne, he⟩) hone
      cases htwo : (Places.indexBy seqKey cache).lookup b.seq with
      | some j =>
          obtain ⟨old, hold, hkey⟩ := Places.lookup_indexBy htwo
          have hmem := List.mem_of_getElem? hold
          exact absurd (hf.seqs old hmem b hb (seqKey_eq_some.mp hkey).2) (hnone old hmem)
      | none =>
          rw [hone, htwo] at h
          change (if myId ≠ "" ∧ b.kind = .text ∧ b.sender = myId then
            (Places.indexBy pendingKey cache).lookup b.text else none) = some i at h
          split at h
          · rename_i hown
            obtain ⟨old, hold, hkey⟩ := Places.lookup_indexBy h
            have hrow : pendingRow cache b.text = some old := by simp [pendingRow, h, hold]
            exact ⟨old, hold, .inr ⟨(pendingKey_eq_some.mp hkey).1,
              hf.texts b hb hown.2.1 hown.2.2 hnone old hrow, hnone⟩, hentry old hold⟩
          · cases h

theorem Fits.place_none (hf : Fits cache myId S ms) (hb : b ∈ ms) (h : place cache myId b = none) :
    (∀ r ∈ cache, r.id ≠ b.id) ∧ entry cache myId b = b
      ∧ (myId ≠ "" → b.kind = .text → b.sender = myId → pendingRow cache b.text = none) := by
  obtain ⟨hne, hpend, hseq⟩ := hf.numbered b hb
  have hid : b.idKey = some b.id := idKey_eq_some.mpr ⟨hne, rfl⟩
  have hentry : entry cache myId b = b := by
    have h' : (Merge.ofCache cache).find (Places.indexBy pendingKey cache) myId b = none := h
    unfold entry Merge.entry
    rw [h']
    rfl
  unfold place Merge.find at h
  simp only [hid, Option.bind_some, Merge.ofCache] at h
  cases hone : (Places.indexBy idKey cache).lookup b.id with
  | some j => simp [hone] at h
  | none =>
      refine ⟨fun r hr he =>
        Places.lookup_indexBy_ne_none hr (idKey_eq_some.mpr ⟨he ▸ hne, he⟩) hone, hentry,
        fun hmy hkind hsender => ?_⟩
      rw [hone, if_pos ⟨hmy, hkind, hsender⟩] at h
      cases htwo : b.seqKey.bind fun seq => (Places.indexBy seqKey cache).lookup seq with
      | some j => simp [htwo] at h
      | none =>
          rw [htwo] at h
          change (Places.indexBy pendingKey cache).lookup b.text = none at h
          rw [pendingRow, h]
          rfl

/-! ### The whole batch -/

/-- No two messages of the batch are taken for one entry. -/
theorem Fits.takes_inj (hf : Fits cache myId S ms) (hb : b ∈ ms) (hb' : b' ∈ ms)
    (h : Takes S cache b old) (h' : Takes S cache b' old) : b.id = b'.id := by
  have hn := (hf.numbered b hb).2.1
  have hn' := (hf.numbered b' hb').2.1
  rcases h with h | ⟨hp, hs, -⟩ <;> rcases h' with h' | ⟨hp', hs', -⟩
  · exact h.symm.trans h'
  · rw [h, hn] at hp'
    cases hp'
  · rw [h', hn'] at hp
    cases hp
  · exact hf.once old.id b hb b' hb' hs hs'

theorem Fits.place_ne (hf : Fits cache myId S ms) :
    ms.Pairwise fun b b' => ∀ i, place cache myId b = some i → place cache myId b' ≠ some i :=
  hf.distinct.imp_of_mem fun hb hb' hd i hi hi' => by
    obtain ⟨old, hold, ht, -⟩ := hf.place_some hb hi
    obtain ⟨old', hold', ht', -⟩ := hf.place_some hb' hi'
    obtain rfl : old = old' := Option.some.inj (hold.symm.trans hold')
    exact hd.1 (hf.takes_inj hb hb' ht ht')

/-- What is neither written over nor new. -/
def kept (cache : List TimelineRow) (myId : String) (ms : List TimelineRow) : List TimelineRow :=
  Places.others cache (ms.filterMap (place cache myId))

theorem Fits.mergeAll_perm (hf : Fits cache myId S (visible ms)) :
    (mergeAll cache myId ms).Perm
      (kept cache myId (visible ms) ++ (visible ms).map (entry cache myId)) :=
  foldl_add hf.distinct hf.place_ne fun b hb i hi => by
    obtain ⟨old, hold, -⟩ := hf.place_some hb hi
    exact (List.getElem?_eq_some_iff.mp hold).1

theorem Fits.length_mergeAll (hf : Fits cache myId S (visible ms)) :
    (mergeAll cache myId ms).length
      ≤ cache.length + ((visible ms).filter fun m => ∀ r ∈ cache, r.id ≠ m.id).length := by
  have hlen : (mergeAll cache myId ms).length = (Merge.ofCache cache).cache.length
      + (visible ms).countP fun m => place cache myId m = none := length_foldl_add hf.distinct
  have hle : (visible ms).countP (fun m => place cache myId m = none)
      ≤ (visible ms).countP fun m => ∀ r ∈ cache, r.id ≠ m.id :=
    List.countP_mono_left fun m hm hnone => by
      simpa using (hf.place_none hm (by simpa using hnone)).1
  have hcache : (Merge.ofCache cache).cache = cache := rfl
  rw [hlen, hcache, ← List.countP_eq_length_filter]
  exact Nat.add_le_add_left hle _

theorem sortByTs_perm (cache : List TimelineRow) : (sortByTs cache).Perm cache :=
  List.perm_insertionSort _ _

theorem sortByTs_pairwise (cache : List TimelineRow) :
    (sortByTs cache).Pairwise fun a b => a.ts ≤ b.ts := by
  have : Std.Total fun a b : TimelineRow => a.ts ≤ b.ts := ⟨fun a b => Int.le_total _ _⟩
  have : IsTrans TimelineRow fun a b => a.ts ≤ b.ts := ⟨fun a b c => Int.le_trans⟩
  exact List.pairwise_insertionSort _ _

theorem appendMessages_sorted (h : cache.Pairwise fun a b => a.ts ≤ b.ts) :
    (appendMessages cache myId ms).Pairwise fun a b => a.ts ≤ b.ts := by
  unfold appendMessages
  split
  · exact h
  · exact (sortByTs_pairwise _).sublist (List.drop_sublist _ _)

/-- **What is in the cache after a batch**, if the cap is not reached. -/
theorem Fits.append_perm (hf : Fits cache myId S (visible ms))
    (hcap : cache.length + ((visible ms).filter fun m => ∀ r ∈ cache, r.id ≠ m.id).length
      ≤ maxCachedPerPeer) :
    (appendMessages cache myId ms).Perm
      (kept cache myId (visible ms) ++ (visible ms).map (entry cache myId)) := by
  unfold appendMessages
  split
  · rename_i hnil
    rw [hnil]
    simp [kept, visible, Places.others_nil]
  · have hlen := (sortByTs_perm (mergeAll cache myId ms)).length_eq
    have hle := hf.length_mergeAll
    have hdrop : (sortByTs (mergeAll cache myId ms)).length - maxCachedPerPeer = 0 := by omega
    dsimp only
    rw [hdrop, List.drop_zero]
    exact (sortByTs_perm _).trans hf.mergeAll_perm

theorem Fits.mem_kept (hf : Fits cache myId S ms) (hr : r ∈ kept cache myId ms) :
    r ∈ cache ∧ ∀ b ∈ ms, r.id ≠ b.id := by
  obtain ⟨i, hi, hplace⟩ := Places.mem_others.mp hr
  have hmem := List.mem_of_getElem? hi
  refine ⟨hmem, fun b hb he => ?_⟩
  cases hb' : place cache myId b with
  | none => exact (hf.place_none hb hb').1 r hmem he
  | some j =>
      obtain ⟨old, hold, ht, -⟩ := hf.place_some hb hb'
      rcases ht with ht | ⟨-, -, hnone⟩
      · -- ids are apart, so it is at the place that was found
        have hij : i = j := by
          by_contra hne
          exact Places.pairwise_at hf.ids (fun h => h.symm) hne hi hold (he.trans ht.symm)
        exact hplace (List.mem_filterMap.mpr ⟨b, hb, hij ▸ hb'⟩)
      · exact hnone r hmem he

/-- An entry stays, or a message is taken for it. -/
theorem Fits.kept_or_taken (hf : Fits cache myId S ms) (hr : r ∈ cache) :
    r ∈ kept cache myId ms
      ∨ ∃ b ∈ ms, Takes S cache b r ∧ entry cache myId b = b.inPlaceOf r := by
  obtain ⟨i, hi⟩ := List.mem_iff_getElem?.mp hr
  by_cases hplace : i ∈ ms.filterMap (place cache myId)
  · obtain ⟨b, hb, hb'⟩ := List.mem_filterMap.mp hplace
    obtain ⟨old, hold, ht, hentry⟩ := hf.place_some hb hb'
    obtain rfl : old = r := Option.some.inj (hold.symm.trans hi)
    exact .inr ⟨b, hb, ht, hentry⟩
  · exact .inl (Places.mem_others.mpr ⟨i, hi, hplace⟩)

/-- What a message has become; what it has been taken for is not kept. -/
theorem Fits.entry_cases (hf : Fits cache myId S ms) (hb : b ∈ ms) :
    ((∀ r ∈ cache, r.id ≠ b.id) ∧ entry cache myId b = b
        ∧ (myId ≠ "" → b.kind = .text → b.sender = myId → pendingRow cache b.text = none))
      ∨ ∃ old ∈ cache, Takes S cache b old ∧ entry cache myId b = b.inPlaceOf old
        ∧ old ∉ kept cache myId ms := by
  cases hp : place cache myId b with
  | none => exact .inl (hf.place_none hb hp)
  | some i =>
      obtain ⟨old, hold, ht, hentry⟩ := hf.place_some hb hp
      refine .inr ⟨old, List.mem_of_getElem? hold, ht, hentry, fun hk => ?_⟩
      obtain ⟨j, hj, hplace⟩ := Places.mem_others.mp hk
      have hij : i = j := by
        by_contra hne
        exact Places.pairwise_at hf.ids (fun h => h.symm) hne hold hj rfl
      exact hplace (List.mem_filterMap.mpr ⟨b, hb, hij ▸ hp⟩)

theorem Fits.entry_id (hf : Fits cache myId S ms) (hb : b ∈ ms) :
    (entry cache myId b).id = b.id := by
  rcases hf.entry_cases hb with ⟨-, he, -⟩ | ⟨old, -, -, he, -⟩ <;> rw [he]
  rfl

/-- Ids stay apart. -/
theorem Fits.append_ids (hf : Fits cache myId S (visible ms))
    (hcap : cache.length + ((visible ms).filter fun m => ∀ r ∈ cache, r.id ≠ m.id).length
      ≤ maxCachedPerPeer) :
    (appendMessages cache myId ms).Pairwise fun a b => a.id ≠ b.id := by
  refine ((hf.append_perm hcap).pairwise_iff fun h => h.symm).mpr
    (List.pairwise_append.mpr ⟨hf.ids.sublist Places.others_sublist, ?_, ?_⟩)
  · refine List.pairwise_map.mpr (hf.distinct.imp_of_mem fun hb hb' hd => ?_)
    rw [hf.entry_id hb, hf.entry_id hb']
    exact hd.1
  · intro r hr r' hr'
    obtain ⟨b, hb, rfl⟩ := List.mem_map.mp hr'
    rw [hf.entry_id hb]
    exact (hf.mem_kept hr).2 b hb

theorem Fits.append_new (hf : Fits cache myId S (visible ms))
    (hnew : ∀ b ∈ visible ms, ∀ old ∈ cache, ¬ Takes S cache b old)
    (hcap : cache.length + ((visible ms).filter fun m => ∀ r ∈ cache, r.id ≠ m.id).length
      ≤ maxCachedPerPeer) :
    (appendMessages cache myId ms).Perm (cache ++ visible ms) := by
  have hplace : (visible ms).filterMap (place cache myId) = [] := by
    refine List.filterMap_eq_nil_iff.mpr fun b hb => ?_
    cases hp : place cache myId b with
    | none => rfl
    | some i =>
        obtain ⟨old, hold, ht, -⟩ := hf.place_some hb hp
        exact absurd ht (hnew b hb old (List.mem_of_getElem? hold))
  have hkept : kept cache myId (visible ms) = cache := by
    rw [kept, hplace, Places.others_nil]
  have hentry : (visible ms).map (entry cache myId) = (visible ms).map fun b => b :=
    List.map_congr_left fun b hb => by
      rcases hf.entry_cases hb with ⟨-, he, -⟩ | ⟨old, hold, ht, -⟩
      · exact he
      · exact absurd ht (hnew b hb old hold)
  have hperm := hf.append_perm hcap
  rwa [hkept, hentry, List.map_id'] at hperm

/-- The texts of the outbox that no entry has the token of are put back behind the others. -/
theorem reinjectOutbox_perm {outbox : List TimelineItem}
    (hapart : outbox.Pairwise fun a b => a.clientToken ≠ b.clientToken) :
    (reinjectOutbox outbox cache).Perm (cache
      ++ (outbox.filter fun item => ∀ r ∈ cache, r.clientToken ≠ some item.clientToken).map
        (ofItem · "")) := by
  refine (sortByTs_perm _).trans (.of_eq ?_)
  induction outbox generalizing cache with
  | nil => simp
  | cons item outbox ih =>
      obtain ⟨hitem, hapart⟩ := List.pairwise_cons.mp hapart
      rw [List.foldl_cons]
      by_cases hany : ∀ r ∈ cache, r.clientToken ≠ some item.clientToken
      · have hif : (cache.any fun r => r.clientToken = some item.clientToken) = false := by
          simpa using hany
        -- what is put back has another token than those that follow
        have hfilter : (outbox.filter fun x =>
              ∀ r ∈ cache ++ [ofItem item ""], r.clientToken ≠ some x.clientToken)
            = outbox.filter fun x => ∀ r ∈ cache, r.clientToken ≠ some x.clientToken :=
          List.filter_congr fun x hx => by
            have hne : (ofItem item "").clientToken ≠ some x.clientToken := fun he =>
              hitem x hx (Option.some.inj he)
            simp [or_imp, forall_and, hne]
        rw [hif, if_neg Bool.false_ne_true, ih hapart, hfilter, List.filter_cons,
          if_pos (by simpa using hany)]
        simp
      · have hif : (cache.any fun r => r.clientToken = some item.clientToken) = true := by
          simpa using hany
        rw [hif, if_pos rfl, ih hapart, List.filter_cons, if_neg (by simpa using hany)]

def TokensApart (a b : TimelineRow) : Prop := ∀ t, a.clientToken = some t → b.clientToken ≠ some t

theorem TokensApart.symm {a b : TimelineRow} (h : TokensApart a b) : TokensApart b a :=
  fun t hb ha => h t ha hb

/-- So do tokens, if the batch has none of its own. -/
theorem Fits.append_tokens (hf : Fits cache myId S (visible ms))
    (hcap : cache.length + ((visible ms).filter fun m => ∀ r ∈ cache, r.id ≠ m.id).length
      ≤ maxCachedPerPeer)
    (htok : cache.Pairwise TokensApart) (hnone : ∀ b ∈ visible ms, b.clientToken = none) :
    (appendMessages cache myId ms).Pairwise TokensApart := by
  -- the token of an entry is that of what stood at the place
  have hentry : ∀ b ∈ visible ms, ∀ t, (entry cache myId b).clientToken = some t →
      ∃ i old, place cache myId b = some i ∧ cache[i]? = some old ∧ old.clientToken = some t := by
    intro b hb t ht
    cases hp : place cache myId b with
    | none =>
        rw [(hf.place_none hb hp).2.1, hnone b hb] at ht
        cases ht
    | some i =>
        obtain ⟨old, hold, -, he⟩ := hf.place_some hb hp
        rw [he] at ht
        exact ⟨i, old, rfl, hold, by simpa [inPlaceOf, hnone b hb] using ht⟩
  refine ((hf.append_perm hcap).pairwise_iff TokensApart.symm).mpr
    (List.pairwise_append.mpr ⟨htok.sublist Places.others_sublist, ?_, ?_⟩)
  · refine List.pairwise_map.mpr (hf.place_ne.imp_of_mem fun hb hb' hne t ht ht' => ?_)
    obtain ⟨i, old, hi, hold, hto⟩ := hentry _ hb t ht
    obtain ⟨j, old', hj, hold', hto'⟩ := hentry _ hb' t ht'
    exact Places.pairwise_at htok TokensApart.symm (fun he : i = j => hne i hi (he ▸ hj)) hold hold' t hto
      hto'
  · intro r hr r' hr' t ht ht'
    obtain ⟨b, hb, rfl⟩ := List.mem_map.mp hr'
    obtain ⟨i, hi, hplace⟩ := Places.mem_others.mp hr
    obtain ⟨j, old, hj, hold, hto⟩ := hentry b hb t ht'
    exact Places.pairwise_at htok TokensApart.symm
      (fun he : i = j => hplace (List.mem_filterMap.mpr ⟨b, hb, he ▸ hj⟩)) hi hold t ht hto

end Batch

end TimelineRow

end Paranoia
