import Paranoia.Lib.Lexical
import Paranoia.Server.Keys
import Paranoia.Server.Signing

/-!
# Ephemeral files

Large files stay out of the history. A `put` of `/blob` writes one chunk, then reads the clock and
writes the metadata of its file; a `get` reads the metadata, looks at the clock and reads a chunk.
The reaper reads the clock, scans the metadata for files that have expired, and for each of them
scans its chunks and deletes all of it in one batch. Each of these is a step of its own, and any
number of uploads and downloads are under way at once; a scan sees the database as it was when the
scan began.
-/

namespace Paranoia

structure EphemeralMeta where
  chunkCount : Nat
  totalSize : Nat
  expiresAt : Nat
deriving DecidableEq

/-! ## Keys -/

/-- What the keys of a file have in common: `did:fid`. -/
def ephFile (dialogueId : DialogueId) (fileId : List Char) : List Char :=
  dialogueId.text ++ ':' :: fileId

def ephMetaPrefix : List Char := "ephmeta:".toList

def ephChunkPrefix : List Char := "eph:".toList

/-- What the keys of the chunks of a file begin with. -/
def chunkPrefix (file : List Char) : List Char := ephChunkPrefix ++ (file ++ [':'])

def chunkKey (file : List Char) (chunkIndex : Nat) : List Char :=
  chunkPrefix file ++ Decimal.padded 20 chunkIndex

def metaKey (file : List Char) : List Char := ephMetaPrefix ++ file

theorem makeEphChunkKey_eq (dialogueId : DialogueId) (fileId : List Char) (chunkIndex : Nat) :
    StoreKey.makeEphChunkKey dialogueId fileId chunkIndex
      = chunkKey (ephFile dialogueId fileId) chunkIndex := by
  simp [StoreKey.makeEphChunkKey, chunkKey, chunkPrefix, ephChunkPrefix, ephFile]

theorem makeEphMetaKey_eq (dialogueId : DialogueId) (fileId : List Char) :
    StoreKey.makeEphMetaKey dialogueId fileId = metaKey (ephFile dialogueId fileId) := rfl

/-- The file a key of a chunk is of: all but the number at the end. -/
def fileOfChunk (key : List Char) : List Char :=
  (key.drop ephChunkPrefix.length).take (key.length - (ephChunkPrefix.length + 21))

/-! ## The store -/

/-- Chunks and metadata, each under its keys. -/
structure Blobs where
  chunks : OrdMap (List Char) (List Nat)
  metas : OrdMap (List Char) EphemeralMeta

namespace Blobs

def empty : Blobs := ⟨.empty, .empty⟩

def putChunk (b : Blobs) (file : List Char) (chunkIndex : Nat) (data : List Nat) : Blobs :=
  { b with chunks := b.chunks.put (chunkKey file chunkIndex) data }

def putMeta (b : Blobs) (file : List Char) (m : EphemeralMeta) : Blobs :=
  { b with metas := b.metas.put (metaKey file) m }

def metaOf (b : Blobs) (file : List Char) : Option EphemeralMeta := b.metas.get? (metaKey file)

def chunkOf (b : Blobs) (file : List Char) (chunkIndex : Nat) : Option (List Nat) :=
  b.chunks.get? (chunkKey file chunkIndex)

/-- The files whose metadata has expired. -/
def expired (b : Blobs) (now : Nat) : List (List Char) :=
  ((b.metas.scanPrefix ephMetaPrefix).filter (fun e => e.2.expiresAt ≤ now)).map
    (fun e => e.1.drop ephMetaPrefix.length)

/-- The keys under a file's prefix. -/
def chunkKeys (b : Blobs) (file : List Char) : List (List Char) :=
  (b.chunks.scanPrefix (chunkPrefix file)).map (·.1)

/-- One batch of the reaper. -/
def delete (b : Blobs) (file : List Char) (keys : List (List Char)) : Blobs :=
  { chunks := b.chunks.eraseWhere (fun k => keys.contains k)
    metas := b.metas.eraseWhere (fun k => k = metaKey file) }

/-- The number of bytes stored of a file. -/
def size (b : Blobs) (file : List Char) : Nat :=
  ((b.chunks.entries.filter (fun e => fileOfChunk e.1 = file)).map (fun e => e.2.length)).sum

/-- The file has metadata that has not expired. -/
def Unexpired (b : Blobs) (now : Nat) (file : List Char) : Prop :=
  ∃ m, b.metaOf file = some m ∧ now < m.expiresAt

instance (b : Blobs) (now : Nat) (file : List Char) : Decidable (b.Unexpired now file) :=
  match h : b.metaOf file with
  | none => isFalse (by rintro ⟨m, hm, _⟩; rw [h] at hm; cases hm)
  | some m =>
      decidable_of_iff (now < m.expiresAt)
        ⟨fun hm => ⟨m, h, hm⟩, by rintro ⟨m', hm', hlt⟩; rw [h] at hm'; cases hm'; exact hlt⟩

end Blobs

/-! ## Uploads, downloads and the reaper -/

/-- A `put` of `/blob`. -/
structure BlobPut where
  user : String
  peer : String
  fileId : String
  chunkIndex : Nat
  totalChunks : Nat
  totalSize : Nat
  nonce : String
  payload : String
deriving DecidableEq

def BlobPut.signed (req : BlobPut) : SignedRequest :=
  .blobPut req.user req.peer req.fileId req.chunkIndex req.totalChunks req.totalSize req.nonce
    req.payload

/-- What an upload does next. -/
inductive UploadPoint where
  | chunk
  | clock
  | metadata (m : EphemeralMeta)
deriving DecidableEq

structure Upload where
  req : BlobPut
  file : List Char
  data : List Nat
  point : UploadPoint
deriving DecidableEq

inductive DownloadPoint where
  | metadata
  | clock (m : Option EphemeralMeta)
  | chunk
deriving DecidableEq

structure Download where
  file : List Char
  chunkIndex : Nat
  point : DownloadPoint
deriving DecidableEq

/-- What the reaper does next. -/
inductive ReapPoint where
  | scan
  | next (todo : List (List Char))
  | write (file : List Char) (keys : List (List Char)) (todo : List (List Char))
deriving DecidableEq

structure Reap where
  now : Nat
  /-- The store as it was when the reaper read the clock. -/
  before : Blobs
  point : ReapPoint

structure BlobWorld where
  now : Nat
  users : List String
  nonces : NonceGuard
  blobs : Blobs
  uploads : List Upload
  downloads : List Download
  /-- What downloads were answered. -/
  served : List (Option (List Nat))
  reaper : Option Reap
  /-- The puts that passed the checks of `/blob`. -/
  accepted : List BlobPut

inductive BlobLabel where
  | tick (now : Nat)
  | users (users : List String)
  | put (req : BlobPut) (sig : Option Signature)
  | upload (u : Upload)
  | get (file : List Char) (chunkIndex : Nat)
  | download (d : Download)
  | reap
deriving DecidableEq

/-- What `/blob` reads of the configuration, besides the users. -/
structure BlobConfig where
  largeFileMax : Nat
  retention : Nat

namespace BlobWorld

def init (now cap : Nat) : BlobWorld :=
  ⟨now, [], .new cap, .empty, [], [], [], none, []⟩

variable (ids : DialogueKey → DialogueId) (cfg : BlobConfig)

def stepPut (w : BlobWorld) (req : BlobPut) (sig : Option Signature) : BlobWorld :=
  let config : Config := ⟨w.users, cfg.largeFileMax⟩
  match config.doBlob w.nonces req.signed req.nonce
      (config.refuseBlobPut req.peer req.fileId req.totalSize req.payload) sig with
  | (nonces, some _) => { w with nonces := nonces }
  | (nonces, none) =>
      { w with
        nonces := nonces
        accepted := req :: w.accepted
        uploads := ⟨req, ephFile (ids (DialogueKey.new req.user req.peer)) req.fileId.toList,
          (decodeB64 req.payload.toList).getD [], .chunk⟩ :: w.uploads }

def stepUpload (w : BlobWorld) (u : Upload) : BlobWorld :=
  let rest := w.uploads.erase u
  match u.point with
  | .chunk =>
      { w with
        blobs := w.blobs.putChunk u.file u.req.chunkIndex u.data
        uploads := { u with point := .clock } :: rest }
  | .clock =>
      let m : EphemeralMeta :=
        ⟨u.req.totalChunks, u.req.totalSize, saturatingAdd w.now cfg.retention⟩
      { w with uploads := { u with point := .metadata m } :: rest }
  | .metadata m => { w with blobs := w.blobs.putMeta u.file m, uploads := rest }

def stepDownload (w : BlobWorld) (d : Download) : BlobWorld :=
  let rest := w.downloads.erase d
  match d.point with
  | .metadata => { w with downloads := { d with point := .clock (w.blobs.metaOf d.file) } :: rest }
  | .clock none => { w with downloads := rest, served := none :: w.served }
  | .clock (some m) =>
      if m.expiresAt ≤ w.now then { w with downloads := rest, served := none :: w.served }
      else { w with downloads := { d with point := .chunk } :: rest }
  | .chunk =>
      { w with downloads := rest, served := w.blobs.chunkOf d.file d.chunkIndex :: w.served }

def stepReap (w : BlobWorld) : BlobWorld :=
  match w.reaper with
  | none => { w with reaper := some ⟨w.now, w.blobs, .scan⟩ }
  | some r =>
      match r.point with
      | .scan => { w with reaper := some { r with point := .next (w.blobs.expired r.now) } }
      | .next [] => { w with reaper := none }
      | .next (file :: todo) =>
          { w with reaper := some { r with point := .write file (w.blobs.chunkKeys file) todo } }
      | .write file keys todo =>
          { w with
            blobs := w.blobs.delete file keys
            reaper := some { r with point := .next todo } }

def step (w : BlobWorld) : BlobLabel → Option BlobWorld
  | .tick now => if now < u64Size then some { w with now := now } else none
  | .users users => some { w with users := users }
  | .put req sig => if req.signed.Bounded then some (w.stepPut ids cfg req sig) else none
  | .upload u => if u ∈ w.uploads then some (w.stepUpload cfg u) else none
  | .get file chunkIndex =>
      some { w with downloads := ⟨file, chunkIndex, .metadata⟩ :: w.downloads }
  | .download d => if d ∈ w.downloads then some (w.stepDownload d) else none
  | .reap => some w.stepReap

/-- Neither an upload nor the reaper is under way. -/
def Quiet (w : BlobWorld) : Prop := w.uploads = [] ∧ w.reaper = none

end BlobWorld

end Paranoia
