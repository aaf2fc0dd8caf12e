import Paranoia.Proof.Uploads

/-!
# The reaper among uploads

The reaper deletes what it saw. What comes between its look at the chunks of a file and its batch
stays behind without metadata (`orphan_left`), and what it takes for the chunks of a file are all
the keys that begin with its name, those of another file included (`live_file_reaped`). Unless one
of these happens, or an upload has read the clock so long ago that it writes metadata that has
expired, every chunk has metadata or an upload that will write it, and no file that had not expired
when the reaper read the clock loses anything (`reaper_safe`).
-/

namespace Paranoia

namespace Blobs

variable {b : Blobs} {file : List Char} {now : Nat} {key : List Char}

/-- What the scan of the metadata finds has expired. -/
theorem not_unexpired_of_mem_expired (h : file ∈ b.expired now) : ¬ b.Unexpired now file := by
  obtain ⟨e, he, rfl⟩ := List.mem_map.mp h
  obtain ⟨hscan, hexpired⟩ := List.mem_filter.mp he
  obtain ⟨hmem, t, ht⟩ := OrdMap.mem_scanPrefix.mp hscan
  have hkey : metaKey (e.1.drop ephMetaPrefix.length) = e.1 := by
    rw [← ht, List.drop_left, metaKey]
  rintro ⟨m, hm, hlt⟩
  have hget : b.metas.get? e.1 = some e.2 := OrdMap.get?_eq_some.mpr hmem
  rw [metaOf, hkey, hget] at hm
  cases hm
  have : e.2.expiresAt ≤ now := by simpa using hexpired
  omega

theorem mem_keys_delete {keys : List (List Char)} :
    key ∈ (b.delete file keys).chunks.keys ↔ key ∈ b.chunks.keys ∧ key ∉ keys := by
  unfold delete
  rw [OrdMap.mem_keys_eraseWhere]
  simp

end Blobs

namespace BlobWorld

variable {ids : DialogueKey → DialogueId} {cfg : BlobConfig} {w w' : BlobWorld} {l : BlobLabel}
variable {u : Upload} {r : Reap} {file : List Char}

/-! ## What is asked of the order of the steps -/

/-- While the reaper has read the clock and not yet scanned the metadata, no upload writes metadata
that has expired by then. -/
def WritesLive (u : Upload) (r : Reap) : Prop :=
  match r.point, u.point with
  | .scan, .metadata m => r.now < m.expiresAt
  | _, _ => True

/-- When the reaper looks for the chunks of a file, it finds none of another file that had not
expired when it read the clock; and when it writes its batch, no chunk of the file has come that it
does not delete, unless an upload of the file has its metadata still to write. -/
def SeesAll (w : BlobWorld) (r : Reap) : Prop :=
  match r.point with
  | .next (file :: _) =>
      ∀ key ∈ w.blobs.chunkKeys file,
        fileOfChunk key = file ∨ ¬ r.before.Unexpired r.now (fileOfChunk key)
  | .write file keys _ =>
      (∀ key ∈ w.blobs.chunks.keys, fileOfChunk key = file → key ∈ keys)
        ∨ ∃ u ∈ w.uploads, u.file = file ∧ u.point ≠ .chunk
  | _ => True

def Undisturbed (w : BlobWorld) : BlobLabel → Prop
  | .upload u => ∀ r ∈ w.reaper, WritesLive u r
  | .reap => ∀ r ∈ w.reaper, w.SeesAll r
  | _ => True

instance (u : Upload) (r : Reap) : Decidable (WritesLive u r) := by
  unfold WritesLive
  split <;> infer_instance

local instance lawfulChunkKey : LawfulBEq (List Char) := inferInstance

instance (w : BlobWorld) (r : Reap) : Decidable (w.SeesAll r) := by
  unfold SeesAll
  exact match r.point with
    | .scan | .next [] | .next (_ :: _) | .write .. => by infer_instance

instance (w : BlobWorld) : DecidablePred w.Undisturbed := fun l => by
  cases l <;> unfold Undisturbed <;> infer_instance

/-! ## What the reaper must not do -/

/-- A chunk without metadata has an upload of its file under way. -/
def NoOrphans (w : BlobWorld) : Prop :=
  ∀ file i, i < 2 ^ 32 → w.blobs.chunkOf file i ≠ none →
    w.blobs.metaOf file ≠ none ∨ ∃ u ∈ w.uploads, u.file = file

/-- Nothing goes of a file that had not expired when the reaper read the clock. -/
def Spares (w w' : BlobWorld) : Prop :=
  ∀ r, w.reaper = some r → ∀ file, r.before.Unexpired r.now file →
    (w.blobs.metaOf file ≠ none → w'.blobs.metaOf file ≠ none)
    ∧ ∀ i, i < 2 ^ 32 → w.blobs.chunkOf file i ≠ none → w'.blobs.chunkOf file i ≠ none

/-! ## The invariant -/

/-- The chunks of a file have metadata, or an upload has it still to write. -/
def Covered (w : BlobWorld) (file : List Char) : Prop :=
  w.blobs.metaOf file ≠ none ∨ ∃ u ∈ w.uploads, u.file = file ∧ u.point ≠ .chunk

/-- What the reaper is about to delete had expired when it read the clock. -/
def Aims (b : Blobs) (r : Reap) : Prop :=
  match r.point with
  | .scan => ∀ file, r.before.Unexpired r.now file → b.Unexpired r.now file
  | .next todo => ∀ file ∈ todo, ¬ r.before.Unexpired r.now file
  | .write file keys todo =>
      (∀ file' ∈ file :: todo, ¬ r.before.Unexpired r.now file')
        ∧ ∀ key ∈ keys, ¬ r.before.Unexpired r.now (fileOfChunk key)

structure Tended (w : BlobWorld) : Prop where
  covered : ∀ key ∈ w.blobs.chunks.keys, w.Covered (fileOfChunk key)
  aims : ∀ r, w.reaper = some r → Aims w.blobs r

theorem tended_init (now cap : Nat) : (init now cap).Tended where
  covered := by simp [init, Blobs.empty, OrdMap.empty, OrdMap.keys]
  aims := by simp [init]

/-- A chunk of an upload is one of its file. -/
theorem Declared.fileOfChunk_upload (hd : w.Declared ids cfg) (hu : u ∈ w.uploads) :
    fileOfChunk (chunkKey u.file u.req.chunkIndex) = u.file := by
  have := (hd.accepted _ (hd.uploads u hu).1).1
  exact fileOfChunk_chunkKey (by omega)

theorem Covered.mono (h : w.Covered file)
    (hmeta : w.blobs.metaOf file ≠ none → w'.blobs.metaOf file ≠ none)
    (huploads : ∀ u ∈ w.uploads, u.file = file → u.point ≠ .chunk → w'.Covered file) :
    w'.Covered file := by
  rcases h with h | ⟨u, hu, hfile, hpoint⟩
  · exact .inl (hmeta h)
  · exact huploads u hu hfile hpoint

theorem Aims.mono {b b' : Blobs} (h : Aims b r)
    (hscan : r.point = .scan → ∀ file, b.Unexpired r.now file → b'.Unexpired r.now file) :
    Aims b' r := by
  unfold Aims at h ⊢
  split at h
  · rename_i hpoint
    intro file hfile
    exact hscan hpoint file (h file hfile)
  · exact h
  · exact h

theorem Tended.upload (hi : w.Tended) (hd : w.Declared ids cfg) (hu : u ∈ w.uploads)
    (hok : ∀ r ∈ w.reaper, WritesLive u r) : (w.stepUpload cfg u).Tended := by
  -- an upload other than the one that takes the step stays where it is
  have hother : ∀ {v : Upload}, v ∈ w.uploads → v ≠ u → v ∈ w.uploads.erase u :=
    fun hv hne => (List.mem_erase_of_ne hne).mpr hv
  unfold stepUpload
  dsimp only
  split
  · rename_i hpoint
    refine ⟨?_, fun r hr => (hi.aims r hr).mono (fun _ _ h => h)⟩
    intro key hkey
    rcases OrdMap.mem_keys_put.mp hkey with rfl | hkey
    · rw [hd.fileOfChunk_upload hu]
      exact .inr ⟨_, List.mem_cons_self, rfl, by simp⟩
    · refine (hi.covered key hkey).mono (fun h => h) (fun v hv hfile hvpoint => ?_)
      have hne : v ≠ u := fun h => hvpoint (h ▸ hpoint)
      exact .inr ⟨v, List.mem_cons_of_mem _ (hother hv hne), hfile, hvpoint⟩
  · refine ⟨fun key hkey => ?_, hi.aims⟩
    refine (hi.covered key hkey).mono (fun h => h) (fun v hv hfile hvpoint => ?_)
    by_cases hvu : v = u
    · subst hvu
      exact .inr ⟨_, List.mem_cons_self, hfile, by simp⟩
    · exact .inr ⟨v, List.mem_cons_of_mem _ (hother hv hvu), hfile, hvpoint⟩
  · rename_i m hpoint
    have hmeta : ∀ file, w.blobs.metaOf file ≠ none → (w.blobs.putMeta u.file m).metaOf file ≠ none := by
      intro file h
      rw [Blobs.metaOf_putMeta]
      split
      · simp
      · exact h
    refine ⟨fun key hkey => ?_, fun r hr => (hi.aims r hr).mono ?_⟩
    · refine (hi.covered key hkey).mono (hmeta _) (fun v hv hfile hvpoint => ?_)
      by_cases hvu : v = u
      · left
        rw [Blobs.metaOf_putMeta, if_pos (by rw [← hfile, hvu])]
        simp
      · exact .inr ⟨v, hother hv hvu, hfile, hvpoint⟩
    · -- the reaper has yet to look: what it must spare is still not expired
      rintro hscan file ⟨m', hm', hlt⟩
      have hlive := hok r hr
      rw [WritesLive, hscan, hpoint] at hlive
      unfold Blobs.Unexpired
      rw [Blobs.metaOf_putMeta]
      split
      · exact ⟨m, rfl, hlive⟩
      · exact ⟨m', hm', hlt⟩

theorem Tended.reap (hi : w.Tended) (hok : ∀ r ∈ w.reaper, w.SeesAll r) : w.stepReap.Tended := by
  unfold stepReap
  split
  · refine ⟨hi.covered, fun r hr => ?_⟩
    cases hr
    exact fun file h => h
  · rename_i r hr
    have haims := hi.aims r hr
    have hsees := hok r hr
    unfold Aims at haims
    unfold SeesAll at hsees
    split <;> rename_i hpoint <;> rw [hpoint] at haims hsees
    · refine ⟨hi.covered, fun r' hr' => ?_⟩
      cases hr'
      intro file hfile hun
      exact Blobs.not_unexpired_of_mem_expired hfile (haims file hun)
    · exact ⟨hi.covered, fun r' hr' => by cases hr'⟩
    · rename_i file todo
      refine ⟨hi.covered, fun r' hr' => ?_⟩
      cases hr'
      refine ⟨haims, fun key hkey => ?_⟩
      rcases hsees key hkey with h | h
      · rw [h]
        exact haims file List.mem_cons_self
      · exact h
    · rename_i file keys todo
      refine ⟨fun key hkey => ?_, fun r' hr' => ?_⟩
      · obtain ⟨hkey, hkept⟩ := Blobs.mem_keys_delete.mp hkey
        by_cases hf : fileOfChunk key = file
        · rcases hsees with h | h
          · exact absurd (h key hkey hf) hkept
          · rw [hf]
            exact .inr h
        · refine (hi.covered key hkey).mono (fun h => ?_) (fun v hv hfile hvpoint => ?_)
          · show (w.blobs.delete file keys).metaOf (fileOfChunk key) ≠ none
            rw [Blobs.metaOf_delete, if_neg hf]
            exact h
          · exact .inr ⟨v, hv, hfile, hvpoint⟩
      · cases hr'
        exact fun file' hfile' => haims.1 file' (List.mem_cons_of_mem _ hfile')

theorem Tended.step (hi : w.Tended) (hd : w.Declared ids cfg) (hok : w.Undisturbed l)
    (hs : w.StepCase ids cfg l w') : w'.Tended := by
  cases hs with
  | aside hblobs huploads hreaper _ =>
      refine ⟨fun key hkey => ?_, fun r hr => ?_⟩
      · rw [hblobs] at hkey
        have := hi.covered key hkey
        rwa [Covered, ← hblobs, ← huploads] at this
      · rw [hreaper] at hr
        rw [hblobs]
        exact hi.aims r hr
  | accept =>
      refine ⟨fun key hkey => ?_, hi.aims⟩
      refine (hi.covered key hkey).mono (fun h => h) (fun v hv hfile hvpoint => ?_)
      exact .inr ⟨v, List.mem_cons_of_mem _ hv, hfile, hvpoint⟩
  | upload hmem => exact hi.upload hd hmem hok
  | reap => exact hi.reap hok

theorem tended_reachable {now cap : Nat}
    (hr : Lts.Reach (step ids cfg) Undisturbed (init now cap) w) : w.Tended :=
  hr.invariant (tended_init now cap) (fun _ _ _ hr hi hok hs =>
    hi.step (declared_reachable (hr.mono (fun _ _ _ => trivial))) hok (step_cases hs))

/-! ## What follows -/

theorem Tended.noOrphans (hi : w.Tended) : w.NoOrphans := by
  intro file i hlt hchunk
  have hkey : chunkKey file i ∈ w.blobs.chunks.keys :=
    OrdMap.mem_keys.mpr (Option.ne_none_iff_exists'.mp hchunk)
  have hcovered := hi.covered _ hkey
  rw [fileOfChunk_chunkKey (by omega)] at hcovered
  exact hcovered.imp_right (fun ⟨u, hu, hfile, _⟩ => ⟨u, hu, hfile⟩)

theorem spares_of_step (hi : w.Tended) (hs : w.StepCase ids cfg l w') : w.Spares w' := by
  intro r hr file hfile
  cases hs with
  | aside hblobs => rw [hblobs]; exact ⟨fun h => h, fun _ _ h => h⟩
  | accept => exact ⟨fun h => h, fun _ _ h => h⟩
  | upload =>
      unfold stepUpload
      dsimp only
      split
      · refine ⟨fun h => h, fun i _ h => ?_⟩
        obtain ⟨data, hdata⟩ := Option.ne_none_iff_exists'.mp h
        exact Option.ne_none_iff_exists'.mpr (OrdMap.mem_keys.mp
          (OrdMap.mem_keys_put.mpr (.inr (OrdMap.mem_keys.mpr ⟨data, hdata⟩))))
      · exact ⟨fun h => h, fun _ _ h => h⟩
      · refine ⟨fun h => ?_, fun _ _ h => h⟩
        rw [Blobs.metaOf_putMeta]
        split
        · simp
        · exact h
  | reap =>
      unfold stepReap
      rw [hr]
      dsimp only
      have haims := hi.aims r hr
      unfold Aims at haims
      split
      · exact ⟨fun h => h, fun _ _ h => h⟩
      · exact ⟨fun h => h, fun _ _ h => h⟩
      · exact ⟨fun h => h, fun _ _ h => h⟩
      · rename_i file' keys todo hpoint
        rw [hpoint] at haims
        have hne : file ≠ file' := fun h => haims.1 file' List.mem_cons_self (h ▸ hfile)
        refine ⟨fun h => ?_, fun i hlt h => ?_⟩
        · rw [Blobs.metaOf_delete, if_neg hne]
          exact h
        · have hkept : chunkKey file i ∉ keys := by
            intro hmem
            have := haims.2 _ hmem
            rw [fileOfChunk_chunkKey (by omega)] at this
            exact this hfile
          exact Option.ne_none_iff_exists'.mpr (OrdMap.mem_keys.mp (Blobs.mem_keys_delete.mpr
            ⟨OrdMap.mem_keys.mpr (Option.ne_none_iff_exists'.mp h), hkept⟩))

/-- **The reaper is safe** as long as nothing comes between its steps that it does not see: a chunk
without metadata has an upload of its file under way, and nothing is deleted of a file that had not
expired when the reaper read the clock. -/
theorem reaper_safe {now cap : Nat}
    (hr : Lts.Reach (step ids cfg) Undisturbed (init now cap) w) :
    w.NoOrphans ∧ ∀ l w', w.step ids cfg l = some w' → w.Spares w' :=
  have hi := tended_reachable hr
  ⟨hi.noOrphans, fun _ _ hs => spares_of_step hi (step_cases hs)⟩

/-! ## Two reaps that go wrong, and one that does not -/

section Example

def zeroStep : BlobWorld → BlobLabel → Option BlobWorld := step (fun _ => zeroId) tenBytes

def zeroUpload (now chunkIndex : Nat) (fileId nonce : String) : List BlobLabel :=
  uploadRun (fun _ => zeroId) tenBytes now
    { aliceSends fileId 2 6 nonce "AAAA" with chunkIndex := chunkIndex }

/-- The second chunk comes when the file has expired, after the reaper has listed its chunks. -/
def lateChunkRun : List BlobLabel :=
  .users ["alice", "bob"] :: zeroUpload 5 0 "f" "n1" ++ [.tick 70, .reap, .reap, .reap]
    ++ zeroUpload 70 1 "f" "n2" ++ [.reap, .reap]

theorem orphan_left :
    ∃ w file, Lts.exec zeroStep (init 5 9) lateChunkRun = some w ∧ w.Quiet
      ∧ w.blobs.chunkOf file 1 = some [0, 0, 0] ∧ w.blobs.metaOf file = none :=
  ⟨_, ephFile zeroId ['f'], rfl, ⟨by decide +kernel, rfl⟩, by decide +kernel⟩

/-- A file has expired, and another one, whose name begins with its name, has not. -/
def longNameRun : List BlobLabel :=
  .users ["alice", "bob"] :: zeroUpload 5 0 "a" "n1" ++ [.tick 60] ++ zeroUpload 60 0 "a:b" "n2"
    ++ [.tick 70, .reap, .reap, .reap]

theorem live_file_reaped :
    ∃ w w' file, Lts.exec zeroStep (init 5 9) longNameRun = some w
      ∧ zeroStep w .reap = some w'
      ∧ w.blobs.metaOf file = some ⟨2, 6, 120⟩ ∧ w'.blobs.metaOf file = some ⟨2, 6, 120⟩
      ∧ w.blobs.chunkOf file 0 = some [0, 0, 0] ∧ w'.blobs.chunkOf file 0 = none :=
  ⟨_, _, ephFile zeroId ['a', ':', 'b'], rfl, rfl, by decide +kernel⟩

/-- The file is reaped while another one is uploaded. -/
def besideRun : List BlobLabel :=
  .users ["alice", "bob"] :: zeroUpload 5 0 "f" "n1" ++ [.tick 70, .reap, .reap, .reap]
    ++ zeroUpload 70 0 "g" "n2"

theorem reaper_safe_besideRun :
    (Lts.execWhile zeroStep Undisturbed (init 5 9) besideRun).isSome = true
    ∧ ((Lts.execWhile zeroStep Undisturbed (init 5 9) besideRun).getD (init 5 9)).NoOrphans
    ∧ ∀ l w', zeroStep ((Lts.execWhile zeroStep Undisturbed (init 5 9) besideRun).getD
        (init 5 9)) l = some w' →
      ((Lts.execWhile zeroStep Undisturbed (init 5 9) besideRun).getD (init 5 9)).Spares w' :=
  have h : (Lts.execWhile zeroStep Undisturbed (init 5 9) besideRun).isSome = true := by
    decide +kernel
  ⟨h, reaper_safe (Lts.reach_getD h)⟩

end Example

end BlobWorld

end Paranoia
