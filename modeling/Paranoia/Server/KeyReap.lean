import Paranoia.Server.Ephemeral
import Paranoia.Server.KeyOps

/-!
# The reaper over the keys

Chunks and metadata of large files lie among the packets and the records of the same database. The
reaper scans the keys of metadata, and for each file that has expired the keys that begin with its
name; what it finds goes in one batch. Here it runs alone, over the database as it is stored.
-/

namespace Paranoia

/-- How metadata is written as bytes. -/
structure MetaCodec where
  toVec : EphemeralMeta → List UInt8
  fromSlice : List UInt8 → Option EphemeralMeta

/-- When metadata expires; what cannot be read has expired. -/
def MetaCodec.expiresAt (codec : MetaCodec) (value : List UInt8) : Nat :=
  ((codec.fromSlice value).map EphemeralMeta.expiresAt).getD 0

namespace KeyStore

variable (codec : MetaCodec) (ks : KeyStore (List UInt8))

/-- Write a chunk, and after it the metadata of its file. -/
def ephemeralPutChunk (dialogueId : DialogueId) (fileId : List Char)
    (chunkIndex totalChunks totalSize : Nat) (data : List UInt8) (retentionSecs now : Nat) :
    KeyStore (List UInt8) :=
  let chunkStored := ks.put (.ephChunk dialogueId fileId chunkIndex) trivial data
  let m : EphemeralMeta := ⟨totalChunks, totalSize, saturatingAdd now retentionSecs⟩
  chunkStored.put (.ephMeta dialogueId fileId) trivial (codec.toVec m)

/-- The files, as `did:fid`, whose metadata has expired. -/
def expiredFiles (now : Nat) : List (List Char) :=
  ((ks.db.scanPrefix ephMetaPrefix).filter (fun e => codec.expiresAt e.2 ≤ now)).map
    (fun e => e.1.drop ephMetaPrefix.length)

/-- What is deleted with a file. -/
def reapBatch (file : List Char) : List (List Char) :=
  metaKey file :: (ks.db.scanPrefix (chunkPrefix file)).map (·.1)

def reapFile (file : List Char) : KeyStore (List UInt8) := ks.deleteBatch (ks.reapBatch file)

/-- Delete what has expired, and say how many files that were. -/
def ephemeralReap (now : Nat) : KeyStore (List UInt8) × Nat :=
  let expired := ks.expiredFiles codec now
  (expired.foldl reapFile ks, expired.length)

/-! ## What the reaper is for -/

/-- The file has metadata, and it expires no later than now. -/
def Expired (now : Nat) (dialogueId : DialogueId) (fileId : List Char) : Prop :=
  ∃ value ∈ ks.db.get? (StoreKey.makeEphMetaKey dialogueId fileId), codec.expiresAt value ≤ now

instance (now : Nat) (dialogueId : DialogueId) (fileId : List Char) :
    Decidable (ks.Expired codec now dialogueId fileId) :=
  inferInstanceAs (Decidable (∃ value ∈ ks.db.get? (StoreKey.makeEphMetaKey dialogueId fileId),
    codec.expiresAt value ≤ now))

/-- The key is of a file that has expired. -/
def OfExpired (now : Nat) : StoreKey → Prop
  | .ephChunk dialogueId fileId _ => ks.Expired codec now dialogueId fileId
  | .ephMeta dialogueId fileId => ks.Expired codec now dialogueId fileId
  | _ => False

/-- Of the files that have expired nothing is left, and everything else is as it was. -/
def ReapsExactly (now : Nat) : Prop :=
  ∀ key : StoreKey,
    (ks.OfExpired codec now key → (ks.ephemeralReap codec now).1.db.get? key.text = none)
    ∧ (¬ ks.OfExpired codec now key →
        (ks.ephemeralReap codec now).1.db.get? key.text = ks.db.get? key.text)

/-- No file that is still kept has a name that goes on from that of an expired one after a colon. -/
def NamesApart (now : Nat) : Prop :=
  ∀ dialogueId fileId fileId' chunkIndex, ks.Expired codec now dialogueId fileId →
    StoreKey.makeEphChunkKey dialogueId fileId' chunkIndex ∈ ks.db.keys →
    fileId ++ [':'] <+: fileId' → ks.Expired codec now dialogueId fileId'

end KeyStore

end Paranoia
