import Mathlib.Algebra.BigOperators.Group.List.Basic
import Mathlib.Data.Finset.Card
import Paranoia.Client.LocalStore

/-!
# Chunks put together

A file is put together when as many chunks are buffered as the greatest total that any of them gives.
Whoever sends them chooses the totals, the indices and the sizes, each for each chunk, and nothing
compares them. What is put together is the file the chunks announce exactly if they agree.
-/

namespace Paranoia

namespace LocalStore

variable {st : LocalStore} {limit : Nat} {transferId : String} {dialogue : DialogueKey}
  {file : AssembledFile} {rows rows' : List ChunkRow}

/-- The file is what the chunks announce: they agree on their number and are numbered from `0`, the
file is their data in that order, and as long as they say. -/
structure AnnouncedBy (rows : List ChunkRow) (file : AssembledFile) : Prop where
  indices : ∃ total, (∀ r ∈ rows, r.total = total) ∧
    ∀ i, (∃ r ∈ rows, r.chunkIndex = i) ↔ i < total
  data : ∃ ordered : List ChunkRow, ordered.Perm rows ∧
    ordered.Pairwise (fun a b => a.chunkIndex < b.chunkIndex) ∧
    file.data = (ordered.map ChunkRow.data).flatten
  size : ∀ r ∈ rows, r.totalSize = file.data.length

/-- The chunks agree: on their number, which is above every index, and on the size of all of them. -/
def Agree (rows : List ChunkRow) : Prop :=
  ∀ r ∈ rows, r.chunkIndex < r.total ∧ (∀ q ∈ rows, q.total = r.total)
    ∧ r.totalSize = ((rows.map (fun q => q.data.length)).sum : Nat)

instance (rows : List ChunkRow) : Decidable (Agree rows) :=
  inferInstanceAs (Decidable (∀ r ∈ rows, _))

/-- There are as many chunks as the greatest total, and memory for the greatest size. -/
def Gathered (limit : Nat) : List ChunkRow → Prop
  | [] => False
  | r :: rs => (rs.map ChunkRow.total).foldl max r.total ≤ (r :: rs).length
      ∧ toU64 ((rs.map ChunkRow.totalSize).foldl max r.totalSize) ≤ limit

instance (limit : Nat) : (rows : List ChunkRow) → Decidable (Gathered limit rows)
  | [] => isFalse id
  | _ :: _ => inferInstanceAs (Decidable (_ ∧ _))

/-! ## The rows of a transfer -/

theorem chunksOf_index_nodup (st : LocalStore) (transferId : String) (dialogue : DialogueKey) :
    ((st.chunksOf transferId dialogue).map ChunkRow.chunkIndex).Nodup := by
  refine List.Nodup.map_on (fun a ha b hb heq => ?_) ?_
  · obtain ⟨hina, hta, -⟩ := mem_chunksOf.mp ha
    obtain ⟨hinb, htb, -⟩ := mem_chunksOf.mp hb
    refine Table.eq_of_key hina hinb ?_
    rw [ChunkRow.key, ChunkRow.key, hta, htb, heq]
  · exact (List.Nodup.of_map _ st.incomingChunks.unique).filter _

/-- Different indices below a number that are no fewer than it are all of them. -/
theorem indices_of_nodup {indices : List Nat} {total : Nat} (hnodup : indices.Nodup)
    (hlt : ∀ i ∈ indices, i < total) (hlen : total ≤ indices.length) (i : Nat) :
    i ∈ indices ↔ i < total := by
  refine ⟨hlt i, fun hi => ?_⟩
  have hsub : indices.toFinset ⊆ Finset.range total := fun j hj =>
    Finset.mem_range.mpr (hlt j (List.mem_toFinset.mp hj))
  have heq := Finset.eq_of_subset_of_card_le hsub
    (by rw [Finset.card_range, List.toFinset_card_of_nodup hnodup]; exact hlen)
  exact List.mem_toFinset.mp (heq ▸ Finset.mem_range.mpr hi)

/-! ## Putting together -/

/-- A file is put together exactly of chunks that are gathered, by their indices. -/
theorem tryAssembleChunks_eq_file :
    (st.tryAssembleChunks limit transferId dialogue).2 = .ok (some file) →
      Gathered limit (st.chunksOf transferId dialogue)
      ∧ file.data = (((st.chunksOf transferId dialogue).insertionSort
          (fun x y => x.chunkIndex ≤ y.chunkIndex)).map ChunkRow.data).flatten
      ∧ (st.tryAssembleChunks limit transferId dialogue).1 = { st with
          incomingChunks := st.incomingChunks.deleteWhere
            (fun c => c.transferId = transferId && c.dialogue = dialogue) } := by
  unfold tryAssembleChunks
  cases st.chunksOf transferId dialogue with
  | nil => exact fun h => by cases h
  | cons r rs =>
      dsimp only
      by_cases hcount : (r :: rs).length < (rs.map ChunkRow.total).foldl max r.total
      · rw [if_pos hcount]
        exact fun h => by cases h
      · rw [if_neg hcount]
        by_cases hsize : limit < toU64 ((rs.map ChunkRow.totalSize).foldl max r.totalSize)
        · rw [if_pos hsize]
          exact fun h => by cases h
        · rw [if_neg hsize]
          intro h
          cases h
          exact ⟨⟨Nat.le_of_not_lt hcount, Nat.le_of_not_lt hsize⟩, rfl, rfl⟩

/-- Chunks that are gathered are put together. -/
theorem exists_file (h : Gathered limit (st.chunksOf transferId dialogue)) :
    ∃ file, (st.tryAssembleChunks limit transferId dialogue).2 = .ok (some file) := by
  unfold tryAssembleChunks
  cases hrows : st.chunksOf transferId dialogue with
  | nil =>
      rw [hrows] at h
      exact h.elim
  | cons r rs =>
      rw [hrows] at h
      dsimp only
      rw [if_neg (Nat.not_lt.mpr h.1), if_neg (Nat.not_lt.mpr h.2)]
      exact ⟨_, rfl⟩

/-- The data of the rows, in whatever order, is as long as all of them together. -/
theorem length_flatten_data (h : rows.Perm rows') :
    (rows.map ChunkRow.data).flatten.length = (rows'.map (fun q => q.data.length)).sum := by
  rw [List.length_flatten, List.map_map]
  exact (h.map _).sum_nat

theorem perm_sorted (rows : List ChunkRow) :
    (rows.insertionSort (fun x y => x.chunkIndex ≤ y.chunkIndex)).Perm rows :=
  List.perm_insertionSort _ _

/-- Rows with different indices are sorted strictly. -/
theorem sorted_strict (h : (rows.map ChunkRow.chunkIndex).Nodup) :
    (rows.insertionSort (fun x y => x.chunkIndex ≤ y.chunkIndex)).Pairwise
      (fun a b => a.chunkIndex < b.chunkIndex) := by
  have hne : (rows.insertionSort (fun x y => x.chunkIndex ≤ y.chunkIndex)).Pairwise
      (fun a b => a.chunkIndex ≠ b.chunkIndex) :=
    List.pairwise_map.mp (((perm_sorted rows).map _).nodup_iff.mpr h)
  exact (List.pairwise_insertionSort (fun x y : ChunkRow => x.chunkIndex ≤ y.chunkIndex) rows).imp₂
    (fun _ _ hle hne => Nat.lt_of_le_of_ne hle hne) hne

/-- **What is put together.** Whatever chunks were buffered, the file that is put together of those of
a transfer is the one they announce exactly if they agree; and where a file is put together, none of
its chunks remain and those of no other transfer have changed. -/
theorem assembled_iff (st : LocalStore) (limit : Nat) (transferId : String) (dialogue : DialogueKey) :
    ((∀ file, (st.tryAssembleChunks limit transferId dialogue).2 = .ok (some file) →
        AnnouncedBy (st.chunksOf transferId dialogue) file)
      ↔ (Gathered limit (st.chunksOf transferId dialogue) →
        Agree (st.chunksOf transferId dialogue)))
    ∧ ((∃ file, (st.tryAssembleChunks limit transferId dialogue).2 = .ok (some file)) →
      (st.tryAssembleChunks limit transferId dialogue).1.chunksOf transferId dialogue = []
      ∧ ∀ r : ChunkRow, ¬ (r.transferId = transferId ∧ r.dialogue = dialogue) →
        (r ∈ (st.tryAssembleChunks limit transferId dialogue).1.incomingChunks
          ↔ r ∈ st.incomingChunks)) := by
  have hnodup := st.chunksOf_index_nodup transferId dialogue
  refine ⟨⟨fun h hgathered => ?_, fun h file hfile => ?_⟩, ?_⟩
  · obtain ⟨file, hfile⟩ := exists_file hgathered
    obtain ⟨⟨total, htotal, hindices⟩, -, hsize⟩ := h file hfile
    obtain ⟨-, hdata, -⟩ := tryAssembleChunks_eq_file hfile
    intro r hr
    refine ⟨?_, fun q hq => by rw [htotal q hq, htotal r hr], ?_⟩
    · rw [htotal r hr]
      exact (hindices r.chunkIndex).mp ⟨r, hr, rfl⟩
    · rw [hsize r hr, hdata, length_flatten_data (perm_sorted _)]
  · obtain ⟨hgathered, hdata, -⟩ := tryAssembleChunks_eq_file hfile
    have hagree := h hgathered
    have hlength := length_flatten_data (perm_sorted (st.chunksOf transferId dialogue))
    refine ⟨?_, ⟨_, perm_sorted _, sorted_strict hnodup, hdata⟩, fun r hr => ?_⟩
    · cases hrows : st.chunksOf transferId dialogue with
      | nil =>
          rw [hrows] at hgathered
          exact hgathered.elim
      | cons r rs =>
          rw [hrows] at hgathered hagree hnodup
          obtain ⟨hr, htotal, -⟩ := hagree r List.mem_cons_self
          refine ⟨r.total, htotal, fun i => ?_⟩
          -- as many rows as chunks are announced, no index twice: so every index has its row
          have hcount : r.total ≤ ((r :: rs).map ChunkRow.chunkIndex).length := by
            rw [List.length_map]
            exact Nat.le_trans (Table.le_foldl_max _ _).1 hgathered.1
          have hlt : ∀ i ∈ (r :: rs).map ChunkRow.chunkIndex, i < r.total := by
            intro i hi
            obtain ⟨q, hq, rfl⟩ := List.mem_map.mp hi
            exact htotal q hq ▸ (hagree q hq).1
          rw [← indices_of_nodup hnodup hlt hcount i, List.mem_map]
    · rw [(hagree r hr).2.2, hdata, hlength]
  · rintro ⟨file, hfile⟩
    refine ⟨?_, fun r hr => mem_tryAssembleChunks_iff hr⟩
    rw [(tryAssembleChunks_eq_file hfile).2.2]
    refine List.eq_nil_iff_forall_not_mem.mpr (fun r hr => ?_)
    -- its rows are gone with the file
    obtain ⟨hin, hid⟩ := mem_chunksOf.mp hr
    have := (Table.mem_deleteWhere.mp hin).2
    simp [hid] at this

/-! ## Chunks that do not agree -/

/-- A chunk that says it is the sixth of one, and a hundred bytes long. -/
def sixthOfOne : ChunkRow where
  transferId := "t"
  dialogue := ⟨"alice", "bob"⟩
  sender := "bob"
  chunkIndex := 5
  total := 1
  filename := "f"
  mimeType := "m"
  totalSize := 100
  data := [7]
  timestamp := 0

/-- It is put together all the same. -/
theorem sixth_of_one_assembled :
    ¬ ∀ (rows : List ChunkRow) (transferId : String) (dialogue : DialogueKey) (file : AssembledFile),
      ((rows.foldl saveChunk empty).tryAssembleChunks u64Size transferId dialogue).2
          = .ok (some file) →
      AnnouncedBy ((rows.foldl saveChunk empty).chunksOf transferId dialogue) file := by
  intro h
  have hsize := (h [sixthOfOne] "t" ⟨"alice", "bob"⟩ ⟨"bob", "f", "m", [7], 0⟩ (by decide)).size
    sixthOfOne (by decide)
  exact absurd hsize (by decide)

/-- Two chunks of a transfer, the second one first. -/
def twoChunks : LocalStore :=
  [{ sixthOfOne with chunkIndex := 1, total := 2, totalSize := 2 },
    { sixthOfOne with chunkIndex := 0, total := 2, totalSize := 2 }].foldl saveChunk empty

theorem assembled_iff_twoChunks :
    (∀ file, (twoChunks.tryAssembleChunks 10 "t" ⟨"alice", "bob"⟩).2 = .ok (some file) →
      AnnouncedBy (twoChunks.chunksOf "t" ⟨"alice", "bob"⟩) file)
    ∧ (twoChunks.tryAssembleChunks 10 "t" ⟨"alice", "bob"⟩).1.chunksOf "t" ⟨"alice", "bob"⟩ = [] :=
  ⟨(assembled_iff twoChunks 10 "t" ⟨"alice", "bob"⟩).1.mpr (by decide),
    ((assembled_iff twoChunks 10 "t" ⟨"alice", "bob"⟩).2
      ⟨⟨"bob", "f", "m", [7, 7], 0⟩, by decide⟩).1⟩

end LocalStore

end Paranoia
