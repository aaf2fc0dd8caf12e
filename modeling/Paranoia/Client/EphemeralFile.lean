import Paranoia.Client.Exchange
import Paranoia.Client.Outgoing
import Paranoia.Server.Ephemeral

/-!
# Large files

A large file is not sent through the dialogue. Its chunks are sealed under a key of its own, each
bound to its place, and put into the server's ephemeral store one after the other; what goes
through the dialogue is a reference with the key. Who has the reference gets the chunks one after
the other and opens them. The answers to the requests are a list, one each, and a call whose
answers have run out still waits. The cipher is a library and so a parameter.
-/

namespace Paranoia

/-! ## Sealing with associated data -/

/-- What was sealed opens under the same key, nonce and associated data; it has a tag of 16 bytes. -/
class ChaCha20Poly1305 where
  encrypt : Key32 → List UInt8 → List UInt8 → List UInt8 → Option (List UInt8)
  decrypt : Key32 → List UInt8 → List UInt8 → List UInt8 → Option (List UInt8)
  decrypt_encrypt : ∀ key nonce aad plaintext ciphertext,
    encrypt key nonce aad plaintext = some ciphertext →
      decrypt key nonce aad ciphertext = some plaintext
  tag : ∀ key nonce aad plaintext ciphertext, encrypt key nonce aad plaintext = some ciphertext →
    plaintext.length + 16 ≤ ciphertext.length

variable [ChaCha20Poly1305]

/-- The 12 bytes of the nonce are drawn by the caller. -/
def encryptAad (key : Key32) (nonce : Vector UInt8 12) (aad plaintext : List UInt8) :
    Except String (List UInt8) :=
  match ChaCha20Poly1305.encrypt key nonce.toList aad plaintext with
  | none => .error "Encryption failed"
  | some ciphertext => .ok (nonce.toList ++ ciphertext)

def decryptAad (key : Key32) (aad data : List UInt8) : Except String (List UInt8) :=
  if data.length < 12 then .error "Ciphertext too short"
  else
    match ChaCha20Poly1305.decrypt key (data.take 12) aad (data.drop 12) with
    | none => .error "Decryption failed — wrong key or corrupted data"
    | some plaintext => .ok plaintext

/-! ## Requests and answers -/

def blobChunkSize : Nat := 512 * 1024

def blobChunkAad (fileId : String) (index totalChunks : Nat) : List UInt8 :=
  utf8 (String.ofList (fileId.toList ++ '|' :: (Decimal.numeral index
    ++ '|' :: Decimal.numeral totalChunks)))

/-- What the client reads of an answer of `/blob`. -/
structure BlobResponse where
  success : Bool
  expired : Bool
  payload : Option String
  message : Option String
deriving DecidableEq

/-- What `/blob` answers to a `get` for which this was found. -/
def blobGetResponse : Option (List Nat) → BlobResponse
  | some data => ⟨true, false, some (String.ofList (encodeB64 (data.map UInt8.ofNat))), none⟩
  | none => ⟨false, true, none, some "expired or not found"⟩

/-- The bytes of a text in base64. -/
def decodeB64Bytes (text : String) : Option (List UInt8) :=
  (decodeB64 text.toList).map (List.map UInt8.ofNat)

structure BlobLimits where
  largeFileMax : Nat
  ephemeralRetentionSecs : Nat
deriving DecidableEq

/-! ## Sending -/

/-- A call of `send_large_file_path_with_progress`: its arguments, what the file holds, and what it
draws. -/
structure LargeFile where
  user : String
  partner : String
  filename : String
  mimeType : String
  path : String
  data : List UInt8
  fileId : String
  fileKey : Key32
  sealNonce : Nat → Vector UInt8 12
  nonce : Nat → String

namespace LargeFile

variable (t : LargeFile)

/-- `div_ceil(..).max(1) as u32`. -/
def totalChunks : Nat := max ((t.data.length + (blobChunkSize - 1)) / blobChunkSize) 1 % 2 ^ 32

def aad (index : Nat) : List UInt8 := blobChunkAad t.fileId index t.totalChunks

/-- What is read of the file for a chunk. -/
def chunk (index : Nat) : List UInt8 := (t.data.drop (index * blobChunkSize)).take blobChunkSize

def sealedChunk (index : Nat) : Except String (List UInt8) :=
  encryptAad t.fileKey (t.sealNonce index) (t.aad index) (t.chunk index)

def put (index : Nat) (payload : List UInt8) : BlobPut where
  user := t.user
  peer := t.partner
  fileId := t.fileId
  chunkIndex := index
  totalChunks := t.totalChunks
  totalSize := t.data.length
  nonce := t.nonce index
  payload := String.ofList (encodeB64 payload)

/-- The `put` of a chunk. -/
def putAt (index : Nat) : Option BlobPut :=
  match t.sealedChunk index with
  | .error _ => none
  | .ok sealed => some (t.put index sealed)

/-- Put the chunks from an index on, `remaining` bytes of them. -/
def putChunks : List (Except String BlobResponse) → Nat → Nat → Option (Except String Unit)
  | answers, index, remaining =>
      if remaining = 0 then some (.ok ())
      else
        match t.sealedChunk index with
        | .error e => some (.error e)
        | .ok _ =>
            -- the request is `putAt index`
            match answers with
            | [] => none
            | .error e :: _ => some (.error e)
            | .ok resp :: answers =>
                if resp.success then
                  putChunks answers (index + 1) (remaining - min remaining blobChunkSize)
                else some (.error ("blob_put_failed: " ++ resp.message.getD "?"))

/-- The reference that goes into the dialogue. -/
def reference (expiresAt : Nat) : FileAttachment where
  filename := t.filename
  mimeType := t.mimeType
  size := t.data.length
  data := []
  transferId := none
  cachePath := some t.path
  chunkCount := t.totalChunks
  bodyFromSeq := 0
  bodyToSeq := 0
  downloaded := true
  groupId := none
  ephemeralFileId := some t.fileId
  ephemeralExpiresAt := some expiresAt
  ephemeralFileKey := some (String.ofList (encodeB64 t.fileKey.1))

/-- Everything but the message itself, which `send` takes care of. -/
def sendLargeFile (limits : BlobLimits) (now : Nat) (answers : List (Except String BlobResponse)) :
    Option (Except String FileAttachment) :=
  if t.data.length > limits.largeFileMax then some (.error "file_too_large")
  else
    (t.putChunks answers 0 t.data.length).map (fun result =>
      match result with
      | .error e => .error e
      | .ok () => .ok (t.reference (now + limits.ephemeralRetentionSecs)))

end LargeFile

/-! ## Downloading -/

/-- The key in a reference. -/
def fileKeyOf (file : FileAttachment) : Except String Key32 :=
  match file.ephemeralFileKey with
  | none => .error "ephemeral_file_key_missing"
  | some text =>
      match decodeB64Bytes text with
      | none => .error "Base64"
      | some bytes =>
          if h : bytes.length = 32 then .ok ⟨bytes, h⟩ else .error "ephemeral_file_key_invalid"

/-- What is made of the answer for a chunk. -/
def openChunk (key : Key32) (fileId : String) (index chunkCount : Nat) (resp : BlobResponse) :
    Except String (List UInt8) :=
  if resp.success then
    match resp.payload with
    | none => .error "blob_get_no_payload"
    | some text =>
        match decodeB64Bytes text with
        | none => .error "Base64"
        | some sealed => decryptAad key (blobChunkAad fileId index chunkCount) sealed
  else if resp.expired then .error "ephemeral_expired"
  else .error "blob_get_failed"

/-- Get the chunks from an index on, `left` of them. -/
def getChunks (key : Key32) (fileId : String) (chunkCount : Nat) :
    Nat → Nat → List (Except String BlobResponse) → List UInt8 →
      Option (Except String (List UInt8))
  | _, 0, _, out => some (.ok out)
  | index, left + 1, answers, out =>
      match answers with
      | [] => none
      | .error e :: _ => some (.error e)
      | .ok resp :: answers =>
          match openChunk key fileId index chunkCount resp with
          | .error e => some (.error e)
          | .ok data => getChunks key fileId chunkCount (index + 1) left answers (out ++ data)

def downloadEphemeralFile (file : FileAttachment) (answers : List (Except String BlobResponse)) :
    Option (Except String (List UInt8)) :=
  match file.ephemeralFileId with
  | none => some (.error "ephemeral_file_id_missing")
  | some fileId =>
      match fileKeyOf file with
      | .error e => some (.error e)
      | .ok key => getChunks key fileId file.chunkCount 0 file.chunkCount answers []

end Paranoia
