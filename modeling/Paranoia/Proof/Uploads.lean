import Paranoia.Server.Ephemeral

/-!
# What uploads leave in the store

The limit on large files is checked against the size an upload declares. What it declares is not
compared with what it sends, nor with what was declared before: every `put` writes the metadata of
its file anew. So a file may hold more bytes than its metadata says (`more_than_declared`), and
all that can be said of the store is where each piece of it comes from (`accounted`).
-/

namespace Paranoia

/-! ## Keys -/

theorem fileOfChunk_chunkKey {file : List Char} {i : Nat} (hi : i < 10 ^ 20) :
    fileOfChunk (chunkKey file i) = file := by
  have hlen : (Decimal.padded 20 i).length = 20 := Decimal.length_padded (by decide) hi
  unfold fileOfChunk
  rw [show (chunkKey file i).length - (ephChunkPrefix.length + 21) = file.length by
    simp only [chunkKey, chunkPrefix, List.length_append, hlen, List.length_singleton]
    omega]
  simp [chunkKey, chunkPrefix]

theorem chunkKey_inj {file file' : List Char} {i j : Nat} (hi : i < 10 ^ 20) (hj : j < 10 ^ 20) :
    chunkKey file i = chunkKey file' j ↔ file = file' ∧ i = j := by
  constructor
  · intro h
    have hfile : file = file' :=
      calc file = fileOfChunk (chunkKey file i) := (fileOfChunk_chunkKey hi).symm
        _ = fileOfChunk (chunkKey file' j) := by rw [h]
        _ = file' := fileOfChunk_chunkKey hj
    subst hfile
    refine ⟨rfl, ?_⟩
    rw [← Decimal.value_padded 20 i, List.append_cancel_left h, Decimal.value_padded]
  · rintro ⟨rfl, rfl⟩
    rfl

@[simp] theorem metaKey_inj {file file' : List Char} : metaKey file = metaKey file' ↔ file = file' :=
  ⟨List.append_cancel_left, congrArg metaKey⟩

namespace BlobPut

/-- The file a put is for. -/
def file (ids : DialogueKey → DialogueId) (req : BlobPut) : List Char :=
  ephFile (ids (DialogueKey.new req.user req.peer)) req.fileId.toList

/-- The metadata is what this put declares. -/
def Declares (req : BlobPut) (m : EphemeralMeta) : Prop :=
  m.chunkCount = req.totalChunks ∧ m.totalSize = req.totalSize

end BlobPut

/-! ## The store -/

namespace Blobs

variable {b : Blobs} {file file' : List Char} {m : EphemeralMeta} {data : List Nat} {i j : Nat}
variable {keys : List (List Char)} {key : List Char}

theorem metaOf_putMeta :
    (b.putMeta file m).metaOf file' = if file' = file then some m else b.metaOf file' := by
  unfold putMeta metaOf
  split
  · rename_i h
    rw [h, OrdMap.get?_put_self]
  · rename_i h
    exact OrdMap.get?_put_of_ne _ _ (by simpa using h)

@[simp] theorem metaOf_putChunk : (b.putChunk file i data).metaOf file' = b.metaOf file' := rfl

theorem metaOf_delete :
    (b.delete file keys).metaOf file' = if file' = file then none else b.metaOf file' := by
  unfold delete metaOf
  split
  · rename_i h
    rw [h, OrdMap.get?_eq_none, OrdMap.mem_keys_eraseWhere]
    simp
  · rename_i h
    refine Option.ext (fun m => ?_)
    rw [OrdMap.get?_eq_some, OrdMap.get?_eq_some, OrdMap.mem_eraseWhere]
    simp [h]

theorem mem_putChunk {e : List Char × List Nat}
    (h : e ∈ (b.putChunk file i data).chunks.entries) :
    e = (chunkKey file i, data) ∨ e ∈ b.chunks.entries :=
  (OrdMap.mem_put.mp h).imp_right And.left

end Blobs

namespace BlobWorld

variable {ids : DialogueKey → DialogueId} {cfg : BlobConfig} {w w' : BlobWorld} {l : BlobLabel}

/-! ## What one step does -/

inductive StepCase (ids : DialogueKey → DialogueId) (cfg : BlobConfig) (w : BlobWorld) :
    BlobLabel → BlobWorld → Prop where
  /-- A step that the files and those who write them have no part in. -/
  | aside {l : BlobLabel} {w' : BlobWorld} (hblobs : w'.blobs = w.blobs)
      (huploads : w'.uploads = w.uploads) (hreaper : w'.reaper = w.reaper)
      (haccepted : w'.accepted = w.accepted) : StepCase ids cfg w l w'
  | accept {req : BlobPut} {sig : Option Signature} {nonces : NonceGuard} {data : List Nat}
      (hbounded : req.signed.Bounded) (hsize : req.totalSize ≤ cfg.largeFileMax)
      (hdata : decodeB64 req.payload.toList = some data) :
      StepCase ids cfg w (.put req sig) { w with
        nonces := nonces, accepted := req :: w.accepted
        uploads := ⟨req, req.file ids, data, .chunk⟩ :: w.uploads }
  | upload {u : Upload} (hmem : u ∈ w.uploads) : StepCase ids cfg w (.upload u) (w.stepUpload cfg u)
  | reap : StepCase ids cfg w .reap w.stepReap

/-- A put that `/blob` accepts has passed the checks of its own. -/
theorem refuseBlobPut_of_doBlob {config : Config} {nonces nonces' : NonceGuard} {r : SignedRequest}
    {nonce : String} {rest : Option String} {sig : Option Signature}
    (h : config.doBlob nonces r nonce rest sig = (nonces', none)) : rest = none := by
  unfold Config.doBlob at h
  split at h
  · cases h
  · split at h
    · cases h
    · exact (Prod.mk.inj h).2

theorem step_cases (h : w.step ids cfg l = some w') : w.StepCase ids cfg l w' := by
  cases l with
  | tick now =>
      simp only [step] at h
      split at h <;> cases h
      exact .aside rfl rfl rfl rfl
  | users users =>
      simp only [step] at h
      cases h
      exact .aside rfl rfl rfl rfl
  | put req sig =>
      simp only [step] at h
      split at h <;> cases h
      rename_i hbounded
      unfold stepPut
      dsimp only
      split
      · exact .aside rfl rfl rfl rfl
      · rename_i nonces hdo
        have hchecks := refusal_eq_none.mp (refuseBlobPut_of_doBlob hdo)
        have hsize : req.totalSize ≤ cfg.largeFileMax := by
          simpa using hchecks _ (List.mem_cons_self)
        have hpayload : (decodeB64 req.payload.toList).isNone = false :=
          hchecks ((decodeB64 req.payload.toList).isNone, "bad payload encoding") (by simp)
        cases hd : decodeB64 req.payload.toList with
        | none => simp [hd] at hpayload
        | some data => exact .accept hbounded hsize hd
  | upload u =>
      simp only [step] at h
      split at h <;> cases h
      rename_i hmem
      exact .upload hmem
  | get file chunkIndex =>
      simp only [step] at h
      cases h
      exact .aside rfl rfl rfl rfl
  | download d =>
      simp only [step] at h
      split at h <;> cases h
      unfold stepDownload
      dsimp only
      split
      · exact .aside rfl rfl rfl rfl
      · exact .aside rfl rfl rfl rfl
      · split
        · exact .aside rfl rfl rfl rfl
        · exact .aside rfl rfl rfl rfl
      · exact .aside rfl rfl rfl rfl
  | reap =>
      simp only [step] at h
      cases h
      exact .reap

/-! ## Where everything in the store comes from -/

/-- Every chunk is the payload of a put for it, and metadata is what a put for its file declares. -/
structure Declared (ids : DialogueKey → DialogueId) (cfg : BlobConfig) (w : BlobWorld) : Prop where
  accepted : ∀ req ∈ w.accepted, req.chunkIndex < 2 ^ 32 ∧ req.totalSize ≤ cfg.largeFileMax
  uploads : ∀ u ∈ w.uploads, u.req ∈ w.accepted ∧ u.file = u.req.file ids
    ∧ decodeB64 u.req.payload.toList = some u.data
    ∧ ∀ m, u.point = .metadata m → u.req.Declares m
  chunks : ∀ e ∈ w.blobs.chunks.entries, ∃ req ∈ w.accepted,
    e.1 = chunkKey (req.file ids) req.chunkIndex ∧ decodeB64 req.payload.toList = some e.2
  metas : ∀ file m, w.blobs.metaOf file = some m →
    ∃ req ∈ w.accepted, req.file ids = file ∧ req.Declares m

theorem declared_init (now cap : Nat) : (init now cap).Declared ids cfg where
  accepted := by simp [init]
  uploads := by simp [init]
  chunks := by simp [init, Blobs.empty, OrdMap.empty]
  metas := by simp [init, Blobs.empty, Blobs.metaOf]

/-- What the store holds, and what is on its way there. -/
theorem Declared.congr (hi : w.Declared ids cfg) (haccepted : w'.accepted = w.accepted)
    (huploads : ∀ u ∈ w'.uploads, u ∈ w.uploads)
    (hchunks : ∀ e ∈ w'.blobs.chunks.entries, e ∈ w.blobs.chunks.entries)
    (hmetas : ∀ file m, w'.blobs.metaOf file = some m → w.blobs.metaOf file = some m) :
    w'.Declared ids cfg where
  accepted := by rw [haccepted]; exact hi.accepted
  uploads u hu := by rw [haccepted]; exact hi.uploads u (huploads u hu)
  chunks e he := by rw [haccepted]; exact hi.chunks e (hchunks e he)
  metas file m hm := by rw [haccepted]; exact hi.metas file m (hmetas file m hm)

/-- The upload that takes a step is replaced by its next point. -/
theorem mem_uploads_next {u v u' : Upload} (h : v ∈ u' :: w.uploads.erase u) :
    v = u' ∨ v ∈ w.uploads :=
  (List.mem_cons.mp h).imp_right List.mem_of_mem_erase

theorem Declared.upload (hi : w.Declared ids cfg) {u : Upload} (hu : u ∈ w.uploads) :
    (w.stepUpload cfg u).Declared ids cfg := by
  obtain ⟨hreq, hfile, hdata, hmeta⟩ := hi.uploads u hu
  unfold stepUpload
  dsimp only
  split
  · refine ⟨hi.accepted, ?_, ?_, hi.metas⟩
    · intro v hv
      rcases mem_uploads_next hv with rfl | hv
      · exact ⟨hreq, hfile, hdata, fun m hm => by cases hm⟩
      · exact hi.uploads v hv
    · intro e he
      rcases Blobs.mem_putChunk he with rfl | he
      · exact ⟨u.req, hreq, by rw [hfile], hdata⟩
      · exact hi.chunks e he
  · refine ⟨hi.accepted, ?_, hi.chunks, hi.metas⟩
    intro v hv
    rcases mem_uploads_next hv with rfl | hv
    · refine ⟨hreq, hfile, hdata, fun m hm => ?_⟩
      cases hm
      exact ⟨rfl, rfl⟩
    · exact hi.uploads v hv
  · rename_i m hpoint
    refine ⟨hi.accepted, fun v hv => hi.uploads v (List.mem_of_mem_erase hv), hi.chunks, ?_⟩
    intro file m' hm'
    rw [Blobs.metaOf_putMeta] at hm'
    split at hm'
    · rename_i hf
      cases hm'
      exact ⟨u.req, hreq, by rw [hf, hfile], hmeta m hpoint⟩
    · exact hi.metas file m' hm'

theorem Declared.reap (hi : w.Declared ids cfg) : w.stepReap.Declared ids cfg := by
  unfold stepReap
  split
  · exact hi.congr rfl (fun _ h => h) (fun _ h => h) (fun _ _ h => h)
  · split
    · exact hi.congr rfl (fun _ h => h) (fun _ h => h) (fun _ _ h => h)
    · exact hi.congr rfl (fun _ h => h) (fun _ h => h) (fun _ _ h => h)
    · exact hi.congr rfl (fun _ h => h) (fun _ h => h) (fun _ _ h => h)
    · refine hi.congr rfl (fun _ h => h) (fun e he => (OrdMap.mem_eraseWhere.mp he).1) ?_
      intro file m hm
      rw [Blobs.metaOf_delete] at hm
      split at hm
      · cases hm
      · exact hm

theorem Declared.step (hi : w.Declared ids cfg) (hs : w.StepCase ids cfg l w') :
    w'.Declared ids cfg := by
  cases hs with
  | aside hblobs huploads _ haccepted =>
      refine hi.congr haccepted ?_ ?_ ?_
      · rw [huploads]
        exact fun _ h => h
      · rw [hblobs]
        exact fun _ h => h
      · rw [hblobs]
        exact fun _ _ h => h
  | accept hbounded hsize hdata =>
      have hlater : ∀ {p : BlobPut → Prop}, (∃ req ∈ w.accepted, p req) →
          ∀ {new : BlobPut}, ∃ req ∈ new :: w.accepted, p req :=
        fun ⟨req, hreq, hp⟩ => ⟨req, List.mem_cons_of_mem _ hreq, hp⟩
      refine ⟨?_, ?_, fun e he => hlater (hi.chunks e he), fun f m hm => hlater (hi.metas f m hm)⟩
      · intro req hreq
        rcases List.mem_cons.mp hreq with rfl | hreq
        · exact ⟨hbounded.1, hsize⟩
        · exact hi.accepted req hreq
      · intro u hu
        rcases List.mem_cons.mp hu with rfl | hu
        · exact ⟨List.mem_cons_self, rfl, hdata, fun m hm => by cases hm⟩
        · obtain ⟨hreq, hrest⟩ := hi.uploads u hu
          exact ⟨List.mem_cons_of_mem _ hreq, hrest⟩
  | upload hmem => exact hi.upload hmem
  | reap => exact hi.reap

/-- The step that may have changed the metadata of a file: a put for it that writes what it
declares, or the batch of the reaper that deletes it. -/
inductive MetaChange (w w' : BlobWorld) (file : List Char) : Prop where
  | put {u : Upload} {m : EphemeralMeta} (hmem : u ∈ w.uploads) (hpoint : u.point = .metadata m)
      (hfile : u.file = file) (hafter : w'.blobs.metaOf file = some m)
  | reaped {r : Reap} {keys todo : List (List Char)} (hreaper : w.reaper = some r)
      (hpoint : r.point = .write file keys todo) (hafter : w'.blobs.metaOf file = none)

theorem metaChange_of_step (hs : w.StepCase ids cfg l w') {file : List Char}
    (hne : w'.blobs.metaOf file ≠ w.blobs.metaOf file) : w.MetaChange w' file := by
  cases hs with
  | aside hblobs => exact absurd (by rw [hblobs]) hne
  | accept => exact absurd rfl hne
  | @upload u hmem =>
      unfold stepUpload at hne ⊢
      dsimp only at hne ⊢
      split at hne
      · exact absurd Blobs.metaOf_putChunk hne
      · exact absurd rfl hne
      · rename_i m hpoint
        rw [Blobs.metaOf_putMeta] at hne
        split at hne
        · rename_i hf
          exact .put hmem hpoint hf.symm (by simp [Blobs.metaOf_putMeta, hf])
        · exact absurd rfl hne
  | reap =>
      unfold stepReap at hne ⊢
      split at hne
      · exact absurd rfl hne
      · rename_i r hr
        split at hne
        · exact absurd rfl hne
        · exact absurd rfl hne
        · exact absurd rfl hne
        · rename_i f keys todo hpoint
          rw [Blobs.metaOf_delete] at hne
          split at hne
          · rename_i hf
            subst hf
            exact .reaped hr hpoint (by simp [Blobs.metaOf_delete])
          · exact absurd rfl hne

theorem declared_reachable {now cap : Nat}
    (hr : Lts.Reach (step ids cfg) (fun _ _ => True) (init now cap) w) : w.Declared ids cfg :=
  hr.invariant (declared_init now cap) (fun _ _ _ _ hi _ hs => hi.step (step_cases hs))

/-- What can be said of the store: metadata says what a put for the file declared, within the
limit; what is stored of a file was sent for it; and metadata changes when a put for the file
writes it anew, or when the file is reaped. -/
structure Accounted (ids : DialogueKey → DialogueId) (cfg : BlobConfig) (w : BlobWorld) : Prop where
  declared : ∀ file m, w.blobs.metaOf file = some m → m.totalSize ≤ cfg.largeFileMax
    ∧ ∃ req ∈ w.accepted, req.file ids = file ∧ req.Declares m
  sent : ∀ file i data, i < 2 ^ 32 → w.blobs.chunkOf file i = some data →
    ∃ req ∈ w.accepted, req.file ids = file ∧ req.chunkIndex = i
      ∧ decodeB64 req.payload.toList = some data
  changes : ∀ l w', w.step ids cfg l = some w' → ∀ file,
    w'.blobs.metaOf file ≠ w.blobs.metaOf file → w.MetaChange w' file

/-- **The store is accounted for** after any puts, downloads and reaps, in any order. -/
theorem accounted {now cap : Nat}
    (hr : Lts.Reach (step ids cfg) (fun _ _ => True) (init now cap) w) : w.Accounted ids cfg := by
  have hi := declared_reachable hr
  refine ⟨?_, ?_, fun l w' hs file => metaChange_of_step (step_cases hs)⟩
  · intro file m hm
    obtain ⟨req, hreq, hfile, hdeclares⟩ := hi.metas file m hm
    refine ⟨?_, req, hreq, hfile, hdeclares⟩
    rw [hdeclares.2]
    exact (hi.accepted req hreq).2
  · intro file i data hlt hdata
    obtain ⟨req, hreq, hkey, hpayload⟩ := hi.chunks _ (OrdMap.get?_eq_some.mp hdata)
    have hindex := (hi.accepted req hreq).1
    obtain ⟨rfl, rfl⟩ := (chunkKey_inj (by omega) (by omega)).mp hkey
    exact ⟨req, hreq, rfl, rfl, hpayload⟩

/-! ## A file that is larger than it says -/

section Example

/-- One hash for all pairs of names. -/
def zeroId : DialogueId := ⟨List.replicate 64 '0', length_zeros, hex_zeros⟩

def tenBytes : BlobConfig := ⟨10, 60⟩

/-- `alice` sends `bob` the first chunk of a file of one byte, or so she says. -/
def aliceSends (fileId : String) (totalChunks totalSize : Nat) (nonce payload : String) : BlobPut :=
  ⟨"alice", "bob", fileId, 0, totalChunks, totalSize, nonce, payload⟩

def signedByUser (req : BlobPut) : Option Signature := some ⟨req.user, req.signed.text⟩

/-- The steps of an upload, with the clock standing at `now`. -/
def uploadRun (ids : DialogueKey → DialogueId) (cfg : BlobConfig) (now : Nat) (req : BlobPut) :
    List BlobLabel :=
  let u : Upload := ⟨req, req.file ids, (decodeB64 req.payload.toList).getD [], .chunk⟩
  let m : EphemeralMeta := ⟨req.totalChunks, req.totalSize, saturatingAdd now cfg.retention⟩
  [.put req (signedByUser req), .upload u, .upload { u with point := .clock },
    .upload { u with point := .metadata m }]

/-- Three bytes come where one was declared; then two were declared, and no longer one. -/
def lyingRun : List BlobLabel :=
  .users ["alice", "bob"] ::
    (uploadRun (fun _ => zeroId) tenBytes 5 (aliceSends "f" 1 1 "n1" "AAAA")
      ++ uploadRun (fun _ => zeroId) tenBytes 5 (aliceSends "f" 1 2 "n2" "AAAA"))

theorem more_than_declared :
    ∃ w w' file,
      Lts.exec (step (fun _ => zeroId) tenBytes) (init 5 9) (lyingRun.take 5) = some w
      ∧ Lts.exec (step (fun _ => zeroId) tenBytes) w (lyingRun.drop 5) = some w'
      ∧ w.blobs.metaOf file = some ⟨1, 1, 65⟩ ∧ w.blobs.size file = 3
      ∧ w'.blobs.metaOf file = some ⟨1, 2, 65⟩ ∧ w'.blobs.size file = 3 :=
  ⟨_, _, ephFile zeroId ['f'], rfl, rfl, by decide +kernel⟩

theorem accounted_lyingRun :
    (Lts.execWhile (step (fun _ => zeroId) tenBytes) (fun _ _ => True) (init 5 9)
      lyingRun).isSome = true
    ∧ ((Lts.execWhile (step (fun _ => zeroId) tenBytes) (fun _ _ => True) (init 5 9)
      lyingRun).getD (init 5 9)).Accounted (fun _ => zeroId) tenBytes :=
  have h : (Lts.execWhile (step (fun _ => zeroId) tenBytes) (fun _ _ => True) (init 5 9)
      lyingRun).isSome = true := by decide +kernel
  ⟨h, accounted (Lts.reach_getD h)⟩

end Example

end BlobWorld

end Paranoia
