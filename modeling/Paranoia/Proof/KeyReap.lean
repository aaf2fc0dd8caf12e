import Paranoia.Proof.KeyOps
import Paranoia.Proof.Uploads
import Paranoia.Server.KeyReap

/-!
# Exactly what has expired

A key says which file it is of, for all that a file may be called: the name of a dialogue has a
fixed length, and the number of a chunk no colon. The scan for the chunks of a file does not ask
that much; it takes every key that begins with the file's name and a colon. So the reaper does what
it is for if and only if no file that is still kept is called so (`reapsExactly_iff`).
-/

namespace Paranoia

open StoreKey

/-! ## The keys of a file -/

section Keys

variable {id id' : DialogueId} {fid fid' file file' : List Char} {i : Nat}

theorem ephFile_inj : ephFile id fid = ephFile id' fid' ↔ id = id' ∧ fid = fid' := by
  constructor
  · intro h
    obtain ⟨hid, hrest⟩ := List.append_inj h (by rw [id.length, id'.length])
    exact ⟨DialogueId.ext_text hid, (List.cons.inj hrest).2⟩
  · rintro ⟨rfl, rfl⟩
    rfl

/-- One file's name goes on from another's. -/
theorem ephFile_prefix : ephFile id fid ++ [':'] <+: ephFile id' fid' ↔
    id = id' ∧ fid ++ [':'] <+: fid' := by
  constructor
  · rintro ⟨rest, hrest⟩
    unfold ephFile at hrest
    rw [List.append_assoc, List.append_assoc] at hrest
    obtain ⟨hid, hrest⟩ := List.append_inj hrest (by rw [id.length, id'.length])
    refine ⟨DialogueId.ext_text hid, rest, ?_⟩
    rw [List.append_assoc]
    exact (List.cons.inj hrest).2
  · rintro ⟨rfl, rest, rfl⟩
    exact ⟨rest, by simp [ephFile]⟩

/-- What begins like the chunks of a file is a chunk of it, or of one whose name goes on. -/
theorem chunkPrefix_chunkKey : chunkPrefix file <+: chunkKey file' i ↔
    file = file' ∨ file ++ [':'] <+: file' := by
  have hdigits : ':' ∉ Decimal.padded 20 i := fun hmem =>
    absurd (Decimal.isDigit_of_mem_padded hmem) (by decide)
  unfold chunkKey chunkPrefix
  rw [List.append_assoc, List.prefix_append_right_inj, List.append_assoc]
  constructor
  · rintro ⟨rest, hrest⟩
    rw [List.append_assoc, List.singleton_append, List.singleton_append,
      Glued.append_cons_eq] at hrest
    rcases hrest with ⟨rfl, -⟩ | ⟨x, rfl, -⟩ | ⟨x, -, hpad⟩
    · exact .inl rfl
    · exact .inr ⟨x, by simp⟩
    · exact absurd (hpad ▸ List.mem_append_right _ List.mem_cons_self) hdigits
  · rintro (rfl | ⟨rest, rfl⟩)
    · exact ⟨Decimal.padded 20 i, by simp⟩
    · exact ⟨rest ++ ':' :: Decimal.padded 20 i, by simp⟩

/-- A text does not begin with another that differs from it in one place. -/
theorem not_prefix_of_getElem? {t l : List Char} (i : Nat) (c c' : Char) (ht : t[i]? = some c)
    (hl : l[i]? = some c') (hne : c ≠ c') : ¬ t <+: l := by
  rintro ⟨rest, rfl⟩
  have hlt := (List.getElem?_eq_some_iff.mp ht).1
  rw [List.getElem?_append_left hlt, ht] at hl
  exact hne (Option.some.inj hl)

/-- The key of a packet has a digit where those of files have a `p`. -/
theorem not_prefix_makeKey {t : List Char} (n : Nat) (ht : t[1]? = some 'p') :
    ¬ t <+: makeKey id n := by
  have hlen : 1 < id.text.length := by rw [id.length]; decide
  have hl : (makeKey id n)[1]? = some id.text[1] := by
    rw [makeKey, List.getElem?_append_left hlen, List.getElem?_eq_getElem]
  refine not_prefix_of_getElem? 1 'p' _ ht hl (fun h => ?_)
  have hhex := id.hex _ (List.getElem_mem hlen)
  rw [← h] at hhex
  exact absurd hhex (by decide)

end Keys

namespace KeyStore

variable {codec : MetaCodec} {ks : KeyStore (List UInt8)} {now : Nat} {k file : List Char}

/-! ## One file, and all of them -/

/-- What goes with a file. -/
def Reaps (file k : List Char) : Prop := k = metaKey file ∨ chunkPrefix file <+: k

open Classical in
theorem get?_reapFile (ks : KeyStore (List UInt8)) (file k : List Char) :
    (ks.reapFile file).db.get? k = if Reaps file k then none else ks.db.get? k := by
  rw [reapFile, get?_deleteBatch]
  by_cases hr : Reaps file k
  · rw [if_pos hr]
    split
    · rfl
    · -- it was not in the batch because it was not in the database
      rename_i hnot
      refine OrdMap.get?_eq_none.mpr (fun hk => hnot ?_)
      rcases hr with rfl | hpre
      · exact List.mem_cons_self
      · obtain ⟨e, he, rfl⟩ := List.mem_map.mp hk
        exact List.mem_cons_of_mem _
          (List.mem_map_of_mem (OrdMap.mem_scanPrefix.mpr ⟨he, hpre⟩))
  · rw [if_neg hr, if_neg]
    intro hmem
    rcases List.mem_cons.mp hmem with rfl | hmem
    · exact hr (.inl rfl)
    · obtain ⟨e, he, rfl⟩ := List.mem_map.mp hmem
      exact hr (.inr (OrdMap.mem_scanPrefix.mp he).2)

open Classical in
theorem get?_foldl_reapFile (files : List (List Char)) (ks : KeyStore (List UInt8)) (k : List Char) :
    (files.foldl reapFile ks).db.get? k
      = if ∃ file ∈ files, Reaps file k then none else ks.db.get? k := by
  induction files generalizing ks with
  | nil => simp
  | cons file files ih =>
      rw [List.foldl_cons, ih, get?_reapFile]
      by_cases hrest : ∃ file ∈ files, Reaps file k
      · obtain ⟨file', hfile, hr⟩ := hrest
        rw [if_pos ⟨file', hfile, hr⟩, if_pos ⟨file', List.mem_cons_of_mem _ hfile, hr⟩]
      · rw [if_neg hrest]
        by_cases hr : Reaps file k
        · rw [if_pos hr, if_pos ⟨file, List.mem_cons_self, hr⟩]
        · rw [if_neg hr, if_neg]
          rintro ⟨file', hfile, hr'⟩
          rcases List.mem_cons.mp hfile with rfl | hfile
          · exact hr hr'
          · exact hrest ⟨file', hfile, hr'⟩

/-! ## Which files go -/

/-- Only metadata stands under a key of metadata. -/
theorem ephMeta_of_metaKey (h : metaKey file ∈ ks.db.keys) :
    ∃ id fid, file = ephFile id fid := by
  obtain ⟨key, -, hkey⟩ := ks.known _ h
  have hpre : metaKey file <+: key.text := hkey ▸ List.prefix_rfl
  cases key with
  | packet id n =>
      have hnot : ¬ metaKey file <+: makeKey id n := not_prefix_makeKey n rfl
      exact absurd hpre hnot
  | receipt username t =>
      exact absurd hpre (not_prefix_of_getElem? 0 'e' 'r' rfl rfl (by decide))
  | ephChunk id fid i =>
      exact absurd hpre (not_prefix_of_getElem? 3 'm' ':' rfl rfl (by decide))
  | ephMeta id fid => exact ⟨id, fid, (List.append_cancel_left hkey).symm⟩

theorem mem_expiredFiles : file ∈ ks.expiredFiles codec now ↔
    ∃ id fid, file = ephFile id fid ∧ ks.Expired codec now id fid := by
  unfold expiredFiles
  rw [List.mem_map]
  constructor
  · rintro ⟨e, he, rfl⟩
    obtain ⟨hscan, hexp⟩ := List.mem_filter.mp he
    obtain ⟨hmem, t, ht⟩ := OrdMap.mem_scanPrefix.mp hscan
    have hdrop : e.1.drop ephMetaPrefix.length = t := by rw [← ht, List.drop_left]
    have hkey : metaKey t ∈ ks.db.keys := by
      rw [metaKey, ht]
      exact List.mem_map_of_mem hmem
    obtain ⟨id, fid, hfile⟩ := ephMeta_of_metaKey hkey
    refine ⟨id, fid, hdrop.trans hfile, e.2, ?_, of_decide_eq_true hexp⟩
    rw [makeEphMetaKey_eq, ← hfile, metaKey, ht]
    exact OrdMap.get?_eq_some.mpr hmem
  · rintro ⟨id, fid, rfl, value, hget, hexp⟩
    refine ⟨(metaKey (ephFile id fid), value), List.mem_filter.mpr ⟨?_, decide_eq_true hexp⟩, ?_⟩
    · exact OrdMap.mem_scanPrefix.mpr ⟨OrdMap.get?_eq_some.mp hget, List.prefix_append _ _⟩
    · exact List.drop_left

/-- What is deleted under a key, by what it is a key of. -/
def Taken (codec : MetaCodec) (ks : KeyStore (List UInt8)) (now : Nat) : StoreKey → Prop
  | .ephChunk id fid _ =>
      ∃ fid', ks.Expired codec now id fid' ∧ (fid' = fid ∨ fid' ++ [':'] <+: fid)
  | .ephMeta id fid => ks.Expired codec now id fid
  | _ => False

theorem reaps_iff {key : StoreKey} :
    (∃ file ∈ ks.expiredFiles codec now, Reaps file key.text) ↔ Taken codec ks now key := by
  have hpacket : ∀ (id : DialogueId) n file, ¬ Reaps file (makeKey id n) := by
    rintro id n file (h | h)
    · have hpre : metaKey file <+: makeKey id n := h ▸ List.prefix_rfl
      exact not_prefix_makeKey n rfl hpre
    · exact not_prefix_makeKey n rfl h
  have hreceipt : ∀ username t file, ¬ Reaps file (makeReceiptKey username t) := by
    rintro username t file (h | h)
    · have hpre : metaKey file <+: makeReceiptKey username t := h ▸ List.prefix_rfl
      exact not_prefix_of_getElem? 0 'e' 'r' rfl rfl (by decide) hpre
    · exact not_prefix_of_getElem? 0 'e' 'r' rfl rfl (by decide) h
  cases key with
  | packet id n => exact iff_of_false (fun ⟨file, _, h⟩ => hpacket id n file h) (fun h => h)
  | receipt username t =>
      exact iff_of_false (fun ⟨file, _, h⟩ => hreceipt username t file h) (fun h => h)
  | ephMeta id fid =>
      have hreaps : ∀ file, Reaps file (metaKey (ephFile id fid)) ↔ file = ephFile id fid := by
        intro file
        refine ⟨?_, fun h => .inl (by rw [h])⟩
        rintro (h | h)
        · exact (metaKey_inj.mp h).symm
        · exact absurd h (not_prefix_of_getElem? 3 ':' 'm' rfl rfl (by decide))
      constructor
      · rintro ⟨file, hfile, hr⟩
        obtain ⟨id', fid', heq, hexp⟩ := mem_expiredFiles.mp hfile
        obtain ⟨rfl, rfl⟩ := ephFile_inj.mp (((hreaps file).mp hr).symm.trans heq)
        exact hexp
      · intro h
        exact ⟨_, mem_expiredFiles.mpr ⟨id, fid, rfl, h⟩, (hreaps _).mpr rfl⟩
  | ephChunk id fid i =>
      have hreaps : ∀ file, Reaps file (chunkKey (ephFile id fid) i) ↔
          file = ephFile id fid ∨ file ++ [':'] <+: ephFile id fid := by
        intro file
        rw [← chunkPrefix_chunkKey (i := i)]
        refine ⟨?_, .inr⟩
        rintro (h | h)
        · have hpre : metaKey file <+: chunkKey (ephFile id fid) i := h ▸ List.prefix_rfl
          exact absurd hpre (not_prefix_of_getElem? 3 'm' ':' rfl rfl (by decide))
        · exact h
      rw [show (StoreKey.ephChunk id fid i).text = chunkKey (ephFile id fid) i from
        makeEphChunkKey_eq id fid i]
      constructor
      · rintro ⟨file, hfile, hr⟩
        obtain ⟨id', fid', rfl, hexp⟩ := mem_expiredFiles.mp hfile
        rcases (hreaps _).mp hr with heq | hpre
        · obtain ⟨rfl, rfl⟩ := ephFile_inj.mp heq
          exact ⟨_, hexp, .inl rfl⟩
        · obtain ⟨rfl, hname⟩ := ephFile_prefix.mp hpre
          exact ⟨fid', hexp, .inr hname⟩
      · rintro ⟨fid', hexp, hname⟩
        refine ⟨_, mem_expiredFiles.mpr ⟨id, fid', rfl, hexp⟩, (hreaps _).mpr ?_⟩
        exact hname.imp (fun h => by rw [h]) (fun h => ephFile_prefix.mpr ⟨rfl, h⟩)

open Classical in
/-- **What the reaper leaves.** -/
theorem get?_ephemeralReap (key : StoreKey) :
    (ks.ephemeralReap codec now).1.db.get? key.text
      = if Taken codec ks now key then none else ks.db.get? key.text := by
  rw [ephemeralReap, get?_foldl_reapFile]
  simp only [reaps_iff]

theorem taken_of_ofExpired {key : StoreKey} (h : ks.OfExpired codec now key) :
    Taken codec ks now key := by
  cases key with
  | packet id n => exact h
  | receipt username t => exact h
  | ephChunk id fid i => exact ⟨fid, h, .inl rfl⟩
  | ephMeta id fid => exact h

/-- **The reaper deletes exactly what has expired** if and only if no file that is kept has a name
that begins with that of an expired file and a colon. -/
theorem reapsExactly_iff (codec : MetaCodec) (ks : KeyStore (List UInt8)) (now : Nat) :
    ks.ReapsExactly codec now ↔ ks.NamesApart codec now := by
  constructor
  · intro h id fid fid' i hexp hk hpre
    by_contra hnot
    have hkept := (h (.ephChunk id fid' i)).2 hnot
    rw [get?_ephemeralReap, if_pos ⟨fid, hexp, .inr hpre⟩] at hkept
    exact OrdMap.get?_eq_none.mp hkept.symm hk
  · intro h key
    refine ⟨fun hof => ?_, fun hof => ?_⟩
    · rw [get?_ephemeralReap, if_pos (taken_of_ofExpired hof)]
    · rw [get?_ephemeralReap]
      split
      · -- a chunk that is taken with another file is not there
        rename_i htaken
        cases key with
        | packet id n => exact absurd htaken hof
        | receipt username t => exact absurd htaken hof
        | ephMeta id fid => exact absurd htaken hof
        | ephChunk id fid i =>
            obtain ⟨fid', hexp, rfl | hpre⟩ := htaken
            · exact absurd hexp hof
            · refine (OrdMap.get?_eq_none.mpr (fun hk => hof ?_)).symm
              exact h id fid' fid i hexp hk hpre
      · rfl

/-! ## Two names -/

section Example

/-- Metadata as JSON, its fields in order. -/
def jsonMeta : MetaCodec where
  toVec m :=
    ("\x7b\"chunk_count\":".toList ++ Decimal.numeral m.chunkCount
      ++ ",\"total_size\":".toList ++ Decimal.numeral m.totalSize
      ++ ",\"expires_at\":".toList ++ Decimal.numeral m.expiresAt
      ++ "\x7d".toList).map (fun c => UInt8.ofNat c.toNat)
  fromSlice value := do
    let (_, rest) ← Glued.splitOnce ':' (value.map (fun b => Char.ofNat b.toNat))
    let (chunkCount, rest) ← Glued.splitOnce ',' rest
    let (_, rest) ← Glued.splitOnce ':' rest
    let (totalSize, rest) ← Glued.splitOnce ',' rest
    let (_, rest) ← Glued.splitOnce ':' rest
    let (expiresAt, _) ← Glued.splitOnce (Char.ofNat 125) rest
    return ⟨← Decimal.parse (2 ^ 32) chunkCount, ← Decimal.parse u64Size totalSize,
      ← Decimal.parse u64Size expiresAt⟩

/-- One chunk each of a file that expires at 65 and of one that expires at 120. -/
def longNames : KeyStore (List UInt8) :=
  (KeyStore.empty.ephemeralPutChunk jsonMeta BlobWorld.zeroId ['a'] 0 1 3 [0, 0, 0] 60
    5).ephemeralPutChunk jsonMeta BlobWorld.zeroId ['a', ':', 'b'] 0 1 3 [0, 0, 0] 60 60

/-- Both names are accepted. When the first file has expired, the other one is kept, but not its
chunk. -/
theorem kept_file_reaped :
    (∀ fileId ∈ ["a", "a:b"],
      (Config.mk ["alice", "bob"] 10).refuseBlobPut "bob" fileId 3 "AAAA" = none)
    ∧ ¬ longNames.Expired jsonMeta 70 BlobWorld.zeroId ['a', ':', 'b']
    ∧ longNames.db.get? (makeEphChunkKey BlobWorld.zeroId ['a', ':', 'b'] 0) = some [0, 0, 0]
    ∧ (longNames.ephemeralReap jsonMeta 70).1.db.get?
      (makeEphChunkKey BlobWorld.zeroId ['a', ':', 'b'] 0) = none
    ∧ ¬ longNames.ReapsExactly jsonMeta 70 := by
  have hkept : ¬ longNames.Expired jsonMeta 70 BlobWorld.zeroId ['a', ':', 'b'] := by decide +kernel
  have hbefore : longNames.db.get? (makeEphChunkKey BlobWorld.zeroId ['a', ':', 'b'] 0)
      = some [0, 0, 0] := by decide +kernel
  have hafter : (longNames.ephemeralReap jsonMeta 70).1.db.get?
      (makeEphChunkKey BlobWorld.zeroId ['a', ':', 'b'] 0) = none := by decide +kernel
  refine ⟨by decide +kernel, hkept, hbefore, hafter, fun h => ?_⟩
  have hsame := (h (.ephChunk BlobWorld.zeroId ['a', ':', 'b'] 0)).2 hkept
  rw [show (StoreKey.ephChunk BlobWorld.zeroId ['a', ':', 'b'] 0).text
    = makeEphChunkKey BlobWorld.zeroId ['a', ':', 'b'] 0 from rfl, hbefore, hafter] at hsame
  cases hsame

end Example

end KeyStore

end Paranoia
