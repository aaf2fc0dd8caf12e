import Paranoia.Lib.Glued
import Paranoia.Lib.Lts
import Paranoia.Proof.EphemeralFile
import Paranoia.Proof.Reaper

/-!
# A large file arrives

An honest server keeps what is put until it has expired. Other puts, downloads and the reaper come
between the puts of a file and between the requests for its chunks, in any order; as long as nobody
else uses the name of the file, no name has a colon in it, and the reaper does not start while the
file has expired, a chunk that has been put is there for every `get` that comes to read it. So who
has the reference downloads the file (`download_delivered`).
-/

namespace Paranoia

/-! ## Names without colons -/

/-- The keys of a file are not taken for those of another one. -/
theorem ephFile_of_chunkPrefix {d d' : DialogueId} {f f' : List Char} {i : Nat} (hf : ':' ∉ f)
    (hf' : ':' ∉ f') (h : chunkPrefix (ephFile d f) <+: chunkKey (ephFile d' f') i) :
    ephFile d f = ephFile d' f' := by
  obtain ⟨x, hx⟩ := h
  simp only [chunkKey, chunkPrefix, ephFile, List.append_assoc, List.cons_append,
    List.nil_append] at hx
  obtain ⟨hd, hrest⟩ := List.append_inj (List.append_cancel_left hx)
    (d.length.trans d'.length.symm)
  rcases Glued.append_cons_eq.mp (List.cons.inj hrest).2 with ⟨hsame, -⟩ | ⟨y, hy, -⟩ | ⟨y, hy, -⟩
  · rw [ephFile, ephFile, hd, hsame]
  · exact absurd (hy ▸ List.mem_append_right f List.mem_cons_self) hf'
  · exact absurd (hy ▸ List.mem_append_right f' List.mem_cons_self) hf

theorem Blobs.mem_expired {b : Blobs} {file : List Char} {now : Nat} (h : file ∈ b.expired now) :
    ∃ m, b.metaOf file = some m ∧ m.expiresAt ≤ now := by
  obtain ⟨e, he, rfl⟩ := List.mem_map.mp h
  obtain ⟨hscan, hexpired⟩ := List.mem_filter.mp he
  obtain ⟨hmem, x, hx⟩ := OrdMap.mem_scanPrefix.mp hscan
  have hkey : metaKey (e.1.drop ephMetaPrefix.length) = e.1 := by
    rw [← hx, List.drop_left, metaKey]
  refine ⟨e.2, ?_, of_decide_eq_true hexpired⟩
  rw [Blobs.metaOf, hkey]
  exact OrdMap.get?_eq_some.mpr hmem

section Delivery

variable [ChaCha20Poly1305]

namespace LargeFile

/-- What the file is called in the store. -/
def storeName (ids : DialogueKey → DialogueId) (t : LargeFile) : List Char :=
  ephFile (ids (DialogueKey.new t.user t.partner)) t.fileId.toList

variable {t : LargeFile} {i : Nat} {req : BlobPut}

theorem putAt_eq_some (h : t.putAt i = some req) :
    ∃ sealed, t.sealedChunk i = .ok sealed ∧ req = t.put i sealed := by
  unfold putAt at h
  split at h
  · cases h
  · rename_i sealed hsealed
    cases h
    exact ⟨sealed, hsealed, rfl⟩

end LargeFile

namespace BlobWorld

variable {ids : DialogueKey → DialogueId} {cfg : BlobConfig} {t : LargeFile}
variable {w w' : BlobWorld} {l : BlobLabel} {req : BlobPut}

/-! ## What is asked of a run -/

/-- Names have no colon in them, and the file's own is used by its own puts only. No upload of the
file stalls until what it is about to write has expired, and the reaper does not start while the
file has. -/
def Orderly (ids : DialogueKey → DialogueId) (t : LargeFile) (w : BlobWorld) : BlobLabel → Prop
  | .put req _ => ':' ∉ req.fileId.toList
      ∧ (req.file ids = t.storeName ids → t.putAt req.chunkIndex = some req)
  | .upload u => u.file = t.storeName ids → ∀ r ∈ w.reaper, WritesLive u r
  | .reap => w.reaper.isNone = true → ∀ m ∈ w.blobs.metaOf (t.storeName ids), w.now < m.expiresAt
  | _ => True

instance orderlyDecidable (w : BlobWorld) (l : BlobLabel) : Decidable (w.Orderly ids t l) :=
  match l with
  | .tick _ | .users _ | .put .. | .upload _ | .get .. | .download _ | .reap => by
      unfold Orderly
      infer_instance

/-! ## The invariant -/

/-- The reaper is not about to delete a chunk of the file. -/
def Passes (ids : DialogueKey → DialogueId) (file : List Char) (w : BlobWorld) (r : Reap) : Prop :=
  match r.point with
  | .scan => ∀ m ∈ w.blobs.metaOf file, r.now < m.expiresAt
  | .next todo => file ∉ todo ∧ ∀ f ∈ todo, ∃ req ∈ w.accepted, req.file ids = f
  | .write _ keys todo => (∀ i < 2 ^ 32, chunkKey file i ∉ keys)
      ∧ file ∉ todo ∧ ∀ f ∈ todo, ∃ req ∈ w.accepted, req.file ids = f

/-- A chunk of the file whose put was accepted is in the store, or has yet to be written. -/
structure Keeps (ids : DialogueKey → DialogueId) (t : LargeFile) (w : BlobWorld) : Prop where
  ours : ∀ req ∈ w.accepted, req.file ids = t.storeName ids → t.putAt req.chunkIndex = some req
  plain : ∀ req ∈ w.accepted, ':' ∉ req.fileId.toList
  there : ∀ req ∈ w.accepted, req.file ids = t.storeName ids →
    (∃ u ∈ w.uploads, u.req = req ∧ u.point = .chunk)
      ∨ w.blobs.chunkOf (t.storeName ids) req.chunkIndex ≠ none
  passes : ∀ r ∈ w.reaper, w.Passes ids (t.storeName ids) r

theorem keeps_init (now cap : Nat) : (init now cap).Keeps ids t where
  ours req h := by cases h
  plain req h := by cases h
  there req h := by cases h
  passes r h := by cases h

omit [ChaCha20Poly1305] in
theorem Passes.congr {file : List Char} {r : Reap} (h : w.Passes ids file r)
    (haccepted : ∀ req ∈ w.accepted, req ∈ w'.accepted)
    (hmeta : r.point = .scan → ∀ m ∈ w'.blobs.metaOf file, r.now < m.expiresAt) :
    w'.Passes ids file r := by
  have hknown : ∀ {todo : List (List Char)}, (∀ f ∈ todo, ∃ req ∈ w.accepted, req.file ids = f) →
      ∀ f ∈ todo, ∃ req ∈ w'.accepted, req.file ids = f := fun hall f hf => by
    obtain ⟨req, hreq, hfile⟩ := hall f hf
    exact ⟨req, haccepted req hreq, hfile⟩
  unfold Passes at h ⊢
  split at h
  · rename_i hpoint
    exact hmeta hpoint
  · exact ⟨h.1, hknown h.2⟩
  · exact ⟨h.1, h.2.1, hknown h.2.2⟩

theorem Keeps.aside (hi : w.Keeps ids t) (hblobs : w'.blobs = w.blobs)
    (huploads : w'.uploads = w.uploads) (hreaper : w'.reaper = w.reaper)
    (haccepted : w'.accepted = w.accepted) : w'.Keeps ids t where
  ours := by
    rw [haccepted]
    exact hi.ours
  plain := by
    rw [haccepted]
    exact hi.plain
  there := by
    rw [haccepted, huploads, hblobs]
    exact hi.there
  passes r hr := by
    have h := hi.passes r (hreaper ▸ hr)
    refine h.congr (by rw [haccepted]; exact fun _ h => h) (fun hpoint => ?_)
    rw [hblobs]
    unfold Passes at h
    rw [hpoint] at h
    exact h

theorem Keeps.accept (hi : w.Keeps ids t) {nonces : NonceGuard} {data : List Nat}
    (hplain : ':' ∉ req.fileId.toList)
    (hours : req.file ids = t.storeName ids → t.putAt req.chunkIndex = some req) :
    Keeps ids t { w with
      nonces := nonces, accepted := req :: w.accepted
      uploads := ⟨req, req.file ids, data, .chunk⟩ :: w.uploads } where
  ours r hr := by
    rcases List.mem_cons.mp hr with rfl | hr
    · exact hours
    · exact hi.ours r hr
  plain r hr := by
    rcases List.mem_cons.mp hr with rfl | hr
    · exact hplain
    · exact hi.plain r hr
  there r hr hfile := by
    rcases List.mem_cons.mp hr with rfl | hr
    · exact .inl ⟨_, List.mem_cons_self, rfl, rfl⟩
    · refine (hi.there r hr hfile).imp_left ?_
      rintro ⟨u, hu, hreq, hpoint⟩
      exact ⟨u, List.mem_cons_of_mem _ hu, hreq, hpoint⟩
  passes r hr := by
    have h := hi.passes r hr
    refine h.congr (fun _ h => List.mem_cons_of_mem _ h) (fun hpoint => ?_)
    unfold Passes at h
    rw [hpoint] at h
    exact h

theorem Keeps.upload (hi : w.Keeps ids t) (hd : w.Declared ids cfg) {u : Upload}
    (hu : u ∈ w.uploads) (hok : w.Orderly ids t (.upload u)) :
    (w.stepUpload cfg u).Keeps ids t := by
  obtain ⟨hreq, hfile, -⟩ := hd.uploads u hu
  -- an upload that is not this one is still under way
  have hrest : ∀ {v u' : Upload}, v ∈ w.uploads → v ≠ u → v ∈ u' :: w.uploads.erase u :=
    fun hv hne => List.mem_cons_of_mem _ ((List.mem_erase_of_ne hne).mpr hv)
  have hscan : ∀ r ∈ w.reaper, r.point = .scan →
      ∀ m ∈ w.blobs.metaOf (t.storeName ids), r.now < m.expiresAt := by
    intro r hr hpoint
    have h := hi.passes r hr
    unfold Passes at h
    rw [hpoint] at h
    exact h
  unfold stepUpload
  dsimp only
  split
  · rename_i hpoint
    refine ⟨hi.ours, hi.plain, fun r hr hr' => ?_,
      fun r hr => (hi.passes r hr).congr (fun _ h => h) (hscan r hr)⟩
    by_cases hone : u.req = r
    · refine .inr (Option.ne_none_iff_exists'.mpr ⟨u.data, ?_⟩)
      rw [← hr', ← hone, ← hfile]
      exact OrdMap.get?_put_self _ _ _
    · rcases hi.there r hr hr' with ⟨v, hv, hvreq, hvpoint⟩ | hthere
      · exact .inl ⟨v, hrest hv (fun h => hone (h ▸ hvreq)), hvreq, hvpoint⟩
      · refine .inr ?_
        obtain ⟨data, hdata⟩ := Option.ne_none_iff_exists'.mp hthere
        exact Option.ne_none_iff_exists'.mpr (OrdMap.mem_keys.mp
          (OrdMap.mem_keys_put.mpr (.inr (OrdMap.mem_keys.mpr ⟨data, hdata⟩))))
  · rename_i hpoint
    refine ⟨hi.ours, hi.plain, fun r hr hr' => ?_,
      fun r hr => (hi.passes r hr).congr (fun _ h => h) (hscan r hr)⟩
    refine (hi.there r hr hr').imp_left ?_
    rintro ⟨v, hv, hvreq, hvpoint⟩
    refine ⟨v, hrest hv (fun h => ?_), hvreq, hvpoint⟩
    rw [h, hpoint] at hvpoint
    cases hvpoint
  · rename_i m hpoint
    refine ⟨hi.ours, hi.plain, fun r hr hr' => ?_, fun r hr => ?_⟩
    · refine (hi.there r hr hr').imp_left ?_
      rintro ⟨v, hv, hvreq, hvpoint⟩
      refine ⟨v, (List.mem_erase_of_ne (fun h => ?_)).mpr hv, hvreq, hvpoint⟩
      rw [h, hpoint] at hvpoint
      cases hvpoint
    · refine (hi.passes r hr).congr (fun _ h => h) (fun hrpoint m' hm' => ?_)
      rw [Blobs.metaOf_putMeta] at hm'
      split at hm'
      · rename_i hf
        cases hm'
        have hlive := hok hf.symm r hr
        unfold WritesLive at hlive
        rw [hrpoint, hpoint] at hlive
        exact hlive
      · exact hscan r hr hrpoint m' hm'

theorem Keeps.reap (hi : w.Keeps ids t) (hd : w.Declared ids cfg)
    (hplain : ':' ∉ t.fileId.toList) (hok : w.Orderly ids t .reap) : w.stepReap.Keeps ids t := by
  unfold stepReap
  split
  · rename_i hnone
    refine ⟨hi.ours, hi.plain, hi.there, fun r hr => ?_⟩
    cases hr
    exact hok (by rw [hnone]; rfl)
  · rename_i r hr
    have hpasses := hi.passes r hr
    unfold Passes at hpasses
    split
    · rename_i hpoint
      rw [hpoint] at hpasses
      refine ⟨hi.ours, hi.plain, hi.there, fun r' hr' => ?_⟩
      cases hr'
      refine ⟨fun hmem => ?_, fun f hf => ?_⟩
      · obtain ⟨m, hm, hle⟩ := Blobs.mem_expired hmem
        have := hpasses m hm
        omega
      · obtain ⟨m, hm, -⟩ := Blobs.mem_expired hf
        obtain ⟨req, hreq, hfile, -⟩ := hd.metas f m hm
        exact ⟨req, hreq, hfile⟩
    · exact ⟨hi.ours, hi.plain, hi.there, fun r' hr' => by cases hr'⟩
    · rename_i file todo hpoint
      rw [hpoint] at hpasses
      obtain ⟨hnot, hknown⟩ := hpasses
      refine ⟨hi.ours, hi.plain, hi.there, fun r' hr' => ?_⟩
      cases hr'
      refine ⟨fun i _ hmem => ?_, fun hmem => hnot (List.mem_cons_of_mem _ hmem),
        fun f hf => hknown f (List.mem_cons_of_mem _ hf)⟩
      -- the scan has taken a key of the file for one of the other's
      obtain ⟨req, hreq, rfl⟩ := hknown file List.mem_cons_self
      obtain ⟨e, he, hkey⟩ := List.mem_map.mp hmem
      obtain ⟨-, hprefix⟩ := OrdMap.mem_scanPrefix.mp he
      rw [hkey] at hprefix
      have hsame : req.file ids = t.storeName ids :=
        ephFile_of_chunkPrefix (hi.plain req hreq) hplain hprefix
      rw [hsame] at hnot
      exact hnot List.mem_cons_self
    · rename_i file keys todo hpoint
      rw [hpoint] at hpasses
      obtain ⟨hkeys, hnot, hknown⟩ := hpasses
      refine ⟨hi.ours, hi.plain, fun req hreq hfile => ?_, fun r' hr' => ?_⟩
      · refine (hi.there req hreq hfile).imp_right (fun hthere => ?_)
        have hkept := hkeys req.chunkIndex (hd.accepted req hreq).1
        exact Option.ne_none_iff_exists'.mpr (OrdMap.mem_keys.mp (Blobs.mem_keys_delete.mpr
          ⟨OrdMap.mem_keys.mpr (Option.ne_none_iff_exists'.mp hthere), hkept⟩))
      · cases hr'
        exact ⟨hnot, hknown⟩

theorem Keeps.step (hi : w.Keeps ids t) (hd : w.Declared ids cfg) (hplain : ':' ∉ t.fileId.toList)
    (hok : w.Orderly ids t l) (hs : w.StepCase ids cfg l w') : w'.Keeps ids t := by
  cases hs with
  | aside hblobs huploads hreaper haccepted => exact hi.aside hblobs huploads hreaper haccepted
  | accept hbounded hsize hdata => exact hi.accept hok.1 hok.2
  | upload hmem => exact hi.upload hd hmem hok
  | reap => exact hi.reap hd hplain hok

variable {now cap : Nat}

theorem keeps_reachable (hplain : ':' ∉ t.fileId.toList)
    (h : Lts.Reach (step ids cfg) (Orderly ids t) (init now cap) w) : w.Keeps ids t :=
  h.invariant (keeps_init now cap) (fun _ _ _ hr hi hok hs =>
    hi.step (declared_reachable (hr.mono (fun _ _ _ => trivial))) hplain hok (step_cases hs))

/-- The chunk has been put: its put was accepted and is past the write of the chunk. -/
def HasPut (t : LargeFile) (w : BlobWorld) (i : Nat) : Prop :=
  ∃ req, t.putAt i = some req ∧ req ∈ w.accepted
    ∧ ∀ u ∈ w.uploads, u.req = req → u.point ≠ .chunk

/-- **A chunk that has been put is there**, as it was sealed. -/
theorem Keeps.stored (hi : w.Keeps ids t) (hd : w.Declared ids cfg) {i : Nat}
    (hput : w.HasPut t i) :
    ∃ sealed, t.sealedChunk i = .ok sealed
      ∧ w.blobs.chunkOf (t.storeName ids) i = some (sealed.map UInt8.toNat) := by
  obtain ⟨req, hreq, hmem, hdone⟩ := hput
  obtain ⟨sealed, hsealed, rfl⟩ := LargeFile.putAt_eq_some hreq
  have hthere := (hi.there _ hmem rfl).resolve_left (by
    rintro ⟨u, hu, hureq, hpoint⟩
    exact hdone u hu hureq hpoint)
  obtain ⟨data, hdata⟩ := Option.ne_none_iff_exists'.mp hthere
  have hdata : w.blobs.chunkOf (t.storeName ids) i = some data := hdata
  have hlt : i < 2 ^ 32 := (hd.accepted _ hmem).1
  -- what is stored there was sent by some put for this chunk, of which there is one
  obtain ⟨req', hreq', hkey, hpayload⟩ := hd.chunks _ (OrdMap.get?_eq_some.mp hdata)
  have hlt' := (hd.accepted req' hreq').1
  obtain ⟨hfile, hindex⟩ := (chunkKey_inj (by omega) (by omega)).mp hkey
  have hours := hi.ours req' hreq' hfile.symm
  rw [← hindex, hreq] at hours
  cases hours
  have hbytes : decodeB64 (String.ofList (encodeB64 sealed)).toList = some data := hpayload
  rw [String.toList_ofList, decodeB64_encodeB64] at hbytes
  cases hbytes
  exact ⟨sealed, hsealed, hdata⟩

end BlobWorld

/-! ## The download -/

theorem decryptAad_encryptAad {key : Key32} {nonce : Vector UInt8 12}
    {aad plaintext sealed : List UInt8} (h : encryptAad key nonce aad plaintext = .ok sealed) :
    decryptAad key aad sealed = .ok plaintext := by
  unfold encryptAad at h
  split at h
  · cases h
  · rename_i ciphertext hseal
    cases h
    have hlen : nonce.toList.length = 12 := Vector.length_toList
    have hlong : ¬ (nonce.toList ++ ciphertext).length < 12 := by
      rw [List.length_append, hlen]
      omega
    unfold decryptAad
    rw [if_neg hlong, List.take_left' hlen, List.drop_left' hlen,
      ChaCha20Poly1305.decrypt_encrypt _ _ _ _ _ hseal]

namespace LargeFile

variable {t : LargeFile} {ids : DialogueKey → DialogueId} {cfg : BlobConfig} {now cap : Nat}

/-- The answer to a `get` of the chunk that has looked at the metadata and the clock, and reads the
chunk in some state of a run of the server. -/
def Answered (t : LargeFile) (ids : DialogueKey → DialogueId) (cfg : BlobConfig) (now cap i : Nat)
    (resp : BlobResponse) : Prop :=
  ∃ w d, Lts.Reach (BlobWorld.step ids cfg) (BlobWorld.Orderly ids t) (BlobWorld.init now cap) w
    ∧ w.HasPut t i ∧ d ∈ w.downloads ∧ d.file = t.storeName ids ∧ d.chunkIndex = i
    ∧ d.point = .chunk ∧ resp = blobGetResponse (w.blobs.chunkOf d.file d.chunkIndex)

theorem openChunk_answered (hplain : ':' ∉ t.fileId.toList) {i : Nat} {resp : BlobResponse}
    (h : t.Answered ids cfg now cap i resp) :
    openChunk t.fileKey t.fileId i t.totalChunks resp = .ok (t.chunk i) := by
  obtain ⟨w, d, hr, hput, -, hfile, hindex, -, rfl⟩ := h
  have hd := BlobWorld.declared_reachable (hr.mono (fun _ _ _ => trivial))
  obtain ⟨sealed, hsealed, hchunk⟩ := (BlobWorld.keeps_reachable hplain hr).stored hd hput
  have hid : (UInt8.ofNat ∘ UInt8.toNat) = id := by
    funext b
    exact UInt8.ofNat_toNat
  rw [hfile, hindex, hchunk, blobGetResponse, List.map_map, hid, List.map_id, openChunk,
    if_pos rfl]
  dsimp only
  rw [decodeB64Bytes_encode]
  exact decryptAad_encryptAad hsealed

theorem getChunks_complete {first left : Nat} {answers : List (Except String BlobResponse)}
    {out : List UInt8}
    (h : ∀ k < left, ∃ resp, answers[k]? = some (.ok resp)
      ∧ openChunk t.fileKey t.fileId (first + k) t.totalChunks resp = .ok (t.chunk (first + k))) :
    getChunks t.fileKey t.fileId t.totalChunks first left answers out
      = some (.ok (out ++ ((List.range' first left).map t.chunk).flatten)) := by
  induction left generalizing first answers out with
  | zero =>
      rw [getChunks, List.range'_zero, List.map_nil, List.flatten_nil, List.append_nil]
  | succ left ih =>
      cases answers with
      | nil =>
          obtain ⟨resp, hresp, -⟩ := h 0 (Nat.succ_pos left)
          cases hresp
      | cons answer answers =>
          obtain ⟨resp, hresp, hopen⟩ := h 0 (Nat.succ_pos left)
          cases hresp
          unfold getChunks
          dsimp only
          rw [Nat.add_zero] at hopen
          rw [hopen]
          dsimp only
          rw [ih, List.range'_succ, List.map_cons, List.flatten_cons, List.append_assoc]
          intro k hk
          obtain ⟨resp', hresp', hopen'⟩ := h (k + 1) (Nat.succ_lt_succ hk)
          refine ⟨resp', hresp', ?_⟩
          rwa [Nat.add_assoc, Nat.add_comm 1 k]

/-- **The file is downloaded** by who has the reference, whatever else the server does meanwhile. -/
theorem download_delivered {limits : BlobLimits} {sentAt : Nat}
    {puts answers : List (Except String BlobResponse)} {file file' : FileAttachment}
    (hfew : t.Few) (hplain : ':' ∉ t.fileId.toList)
    (hsent : t.sendLargeFile limits sentAt puts = some (.ok file)) (href : file'.RefersTo file)
    (hanswers : ∀ i < t.totalChunks, ∃ resp, answers[i]? = some (.ok resp)
      ∧ t.Answered ids cfg now cap i resp) :
    downloadEphemeralFile file' answers = some (.ok t.data) := by
  obtain ⟨-, rfl⟩ := sendLargeFile_ok hsent
  rw [download_reference href, getChunks_complete, List.nil_append, ← List.range_eq_range',
    flatten_chunks hfew]
  intro i hi
  obtain ⟨resp, hresp, hanswered⟩ := hanswers i hi
  rw [Nat.zero_add]
  exact ⟨resp, hresp, openChunk_answered hplain hanswered⟩

end LargeFile

end Delivery

/-! ## Three bytes arrive -/

namespace LargeFile

section Example

def threePut : BlobPut := threeBytes.put 0 threeSealed

def threeDownload (point : DownloadPoint) : Download :=
  ⟨threeBytes.storeName (fun _ => BlobWorld.zeroId), 0, point⟩

/-- The chunk is put, and Bob's request comes to read it while another file is reaped. -/
def threeRun : List BlobLabel :=
  .users ["alice", "bob"] :: BlobWorld.uploadRun (fun _ => BlobWorld.zeroId) BlobWorld.tenBytes 5
      { BlobWorld.aliceSends "g" 1 3 "m" "AAAA" with chunkIndex := 0 }
    ++ [.tick 60]
    ++ BlobWorld.uploadRun (fun _ => BlobWorld.zeroId) BlobWorld.tenBytes 60 threePut
    ++ [.tick 70, .reap, .reap, .get (threeBytes.storeName (fun _ => BlobWorld.zeroId)) 0,
      .download (threeDownload .metadata),
      .download (threeDownload (.clock (some ⟨1, 3, 120⟩))), .reap, .reap]

def threeWorld : BlobWorld :=
  (Lts.execWhile (BlobWorld.step (fun _ => BlobWorld.zeroId) BlobWorld.tenBytes)
    (BlobWorld.Orderly (fun _ => BlobWorld.zeroId) threeBytes) (BlobWorld.init 5 9) threeRun).getD
      (BlobWorld.init 5 9)

theorem answered_threeBytes :
    threeBytes.Answered (fun _ => BlobWorld.zeroId) BlobWorld.tenBytes 5 9 0 got := by
  have hrun : (Lts.execWhile (BlobWorld.step (fun _ => BlobWorld.zeroId) BlobWorld.tenBytes)
      (BlobWorld.Orderly (fun _ => BlobWorld.zeroId) threeBytes) (BlobWorld.init 5 9)
      threeRun).isSome = true := by decide +kernel
  refine ⟨threeWorld, threeDownload .chunk, Lts.reach_getD hrun, ?_, ?_, rfl, rfl, rfl, ?_⟩
  · refine ⟨threePut, ?_, ?_, ?_⟩
    · decide +kernel
    · decide +kernel
    · decide +kernel
  · decide +kernel
  · decide +kernel

theorem download_delivered_threeBytes :
    ∃ file, threeBytes.sendLargeFile ⟨10, 60⟩ 5 [.ok done] = some (.ok file)
      ∧ downloadEphemeralFile file [.ok got] = some (.ok threeBytes.data) := by
  have hfew : threeBytes.Few := by
    unfold Few
    decide
  have hplain : ':' ∉ threeBytes.fileId.toList := by decide
  have hsent : threeBytes.sendLargeFile ⟨10, 60⟩ 5 [.ok done]
      = some (.ok (threeBytes.reference 65)) := rfl
  have hanswers : ∀ i < threeBytes.totalChunks,
      ∃ resp, ([.ok got] : List (Except String BlobResponse))[i]? = some (.ok resp)
        ∧ threeBytes.Answered (fun _ => BlobWorld.zeroId) BlobWorld.tenBytes 5 9 i resp := by
    intro i hi
    have hi : i < 1 := hi
    obtain rfl : i = 0 := by omega
    exact ⟨got, rfl, answered_threeBytes⟩
  exact ⟨_, hsent, download_delivered hfew hplain hsent ⟨rfl, rfl, rfl⟩ hanswers⟩

end Example

end LargeFile

end Paranoia
