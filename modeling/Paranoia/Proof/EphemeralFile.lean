import Paranoia.Client.EphemeralFile
import Paranoia.Proof.Exchange

/-!
# What a hostile server can do to a large file

The server answers the requests for the chunks with whatever it likes, but nothing opens under the
key of the file that was not sealed for it. Each chunk is bound to its place by what it is sealed
with, so a download that succeeds has each of them at its own place, and is the file
(`large_file_intact`). The reference to an empty file announces one chunk, and none was put: it is
never downloaded.
-/

namespace Paranoia

/-! ## Pieces of one size -/

/-- The pieces of a list, one after the other, are as much of it as they reach. -/
theorem flatten_pieces {α : Type} (l : List α) (size n : Nat) :
    ((List.range n).map (fun i => (l.drop (i * size)).take size)).flatten = l.take (n * size) := by
  induction n with
  | zero => rw [List.range_zero, Nat.zero_mul, List.take_zero, List.map_nil, List.flatten_nil]
  | succ n ih =>
      rw [List.range_succ, List.map_append, List.flatten_append, ih, List.map_singleton,
        List.flatten_singleton, Nat.succ_mul, List.take_add]

namespace LargeFile

variable {t : LargeFile} {index : Nat}

/-- The chunks there are. -/
def Within (t : LargeFile) (index : Nat) : Prop := index * blobChunkSize < t.data.length

/-- The number of chunks fits its type. -/
def Few (t : LargeFile) : Prop := t.data.length ≤ blobChunkSize * (2 ^ 32 - 1)

theorem totalChunks_eq (h : t.Few) :
    t.totalChunks = max ((t.data.length + (blobChunkSize - 1)) / blobChunkSize) 1 := by
  unfold Few blobChunkSize at h
  unfold totalChunks blobChunkSize
  refine Nat.mod_eq_of_lt ?_
  omega

/-- **The file is its chunks.** -/
theorem flatten_chunks (h : t.Few) :
    ((List.range t.totalChunks).map t.chunk).flatten = t.data := by
  have hall := flatten_pieces t.data blobChunkSize t.totalChunks
  rw [List.take_of_length_le] at hall
  · exact hall
  · rw [totalChunks_eq h]
    unfold blobChunkSize
    omega

theorem aad_inj {i j : Nat} (h : t.aad i = t.aad j) : i = j := by
  have htext := congrArg String.toList (utf8_injective h)
  rw [String.toList_ofList, String.toList_ofList] at htext
  have htail := (List.cons.inj (List.append_cancel_left htext)).2
  exact Decimal.numeral_injective (List.append_cancel_right htail)

theorem decodeB64Bytes_encode (bytes : List UInt8) :
    decodeB64Bytes (String.ofList (encodeB64 bytes)) = some bytes := by
  have hid : (UInt8.ofNat ∘ UInt8.toNat) = id := by
    funext b
    exact UInt8.ofNat_toNat
  rw [decodeB64Bytes, String.toList_ofList, decodeB64_encodeB64, Option.map_some, List.map_map, hid,
    List.map_id]

/-! ## The reference -/

theorem fileKeyOf_reference {file : FileAttachment} {expiresAt : Nat}
    (h : file.ephemeralFileKey = (t.reference expiresAt).ephemeralFileKey) :
    fileKeyOf file = .ok t.fileKey := by
  have hkey : file.ephemeralFileKey = some (String.ofList (encodeB64 t.fileKey.1)) := h
  unfold fileKeyOf
  rw [hkey]
  dsimp only
  rw [decodeB64Bytes_encode]
  dsimp only
  rw [dif_pos t.fileKey.2]

/-! ## Sending -/

variable [ChaCha20Poly1305]

theorem sendLargeFile_ok {limits : BlobLimits} {now : Nat}
    {answers : List (Except String BlobResponse)} {file : FileAttachment}
    (h : t.sendLargeFile limits now answers = some (.ok file)) :
    t.putChunks answers 0 t.data.length = some (.ok ())
      ∧ file = t.reference (now + limits.ephemeralRetentionSecs) := by
  unfold sendLargeFile at h
  split at h
  · cases h
  · obtain ⟨result, hput, hresult⟩ := Option.map_eq_some_iff.mp h
    cases result with
    | error e => cases hresult
    | ok u =>
        cases hresult
        exact ⟨hput, rfl⟩

end LargeFile

/-- What the receiver holds is a reference to the file: it says which, with which key, and how many
chunks it has. -/
structure FileAttachment.RefersTo (file' file : FileAttachment) : Prop where
  fileId : file'.ephemeralFileId = file.ephemeralFileId
  fileKey : file'.ephemeralFileKey = file.ephemeralFileKey
  chunkCount : file'.chunkCount = file.chunkCount

namespace LargeFile

variable [ChaCha20Poly1305]
variable {t : LargeFile} {file file' : FileAttachment} {answers : List (Except String BlobResponse)}
  {bytes : List UInt8} {expiresAt : Nat}

theorem download_reference (h : file'.RefersTo (t.reference expiresAt)) :
    downloadEphemeralFile file' answers
      = getChunks t.fileKey t.fileId t.totalChunks 0 t.totalChunks answers [] := by
  unfold downloadEphemeralFile
  have hid : file'.ephemeralFileId = some t.fileId := h.fileId
  have hcount : file'.chunkCount = t.totalChunks := h.chunkCount
  rw [hid]
  dsimp only
  rw [fileKeyOf_reference h.fileKey, hcount]

/-! ## Downloading -/

/-- The server has not made what it answers: what opens of it under the key of the file was sealed
for it, and is a chunk with its own place. -/
def Unforged (t : LargeFile) (answers : List (Except String BlobResponse)) : Prop :=
  ∀ resp, .ok resp ∈ answers → ∀ text ∈ resp.payload, ∀ sealed ∈ decodeB64Bytes text,
    ∀ aad plain, decryptAad t.fileKey aad sealed = .ok plain →
      ∃ i, t.Within i ∧ aad = t.aad i ∧ plain = t.chunk i

theorem openChunk_intact (hunforged : t.Unforged answers) {i : Nat} {resp : BlobResponse}
    (hmem : .ok resp ∈ answers) {plain : List UInt8}
    (h : openChunk t.fileKey t.fileId i t.totalChunks resp = .ok plain) :
    t.Within i ∧ plain = t.chunk i := by
  unfold openChunk at h
  split at h
  · split at h
    · cases h
    · rename_i text htext
      split at h
      · cases h
      · rename_i sealed hsealed
        obtain ⟨j, hwithin, haad, rfl⟩ := hunforged resp hmem text htext sealed hsealed _ _ h
        obtain rfl := aad_inj haad
        exact ⟨hwithin, rfl⟩
  · split at h <;> cases h

/-- The chunks that were taken are those of the file, from the first place on. -/
theorem getChunks_intact (hunforged : t.Unforged answers) {first left : Nat} {out : List UInt8}
    (h : getChunks t.fileKey t.fileId t.totalChunks first left answers out = some (.ok bytes)) :
    bytes = out ++ ((List.range' first left).map t.chunk).flatten
      ∧ ∀ k < left, t.Within (first + k) := by
  induction left generalizing first answers out with
  | zero =>
      unfold getChunks at h
      cases h
      exact ⟨by rw [List.range'_zero, List.map_nil, List.flatten_nil, List.append_nil],
        fun k hk => absurd hk (Nat.not_lt_zero k)⟩
  | succ left ih =>
      unfold getChunks at h
      cases answers with
      | nil => cases h
      | cons answer answers =>
          cases answer with
          | error e => cases h
          | ok resp =>
              dsimp only at h
              split at h
              · cases h
              · rename_i data hdata
                obtain ⟨hwithin, rfl⟩ := openChunk_intact hunforged List.mem_cons_self hdata
                obtain ⟨rfl, hrest⟩ := ih
                  (fun resp hmem => hunforged resp (List.mem_cons_of_mem _ hmem)) h
                refine ⟨?_, fun k hk => ?_⟩
                · rw [List.range'_succ, List.map_cons, List.flatten_cons, List.append_assoc]
                · cases k with
                  | zero => exact hwithin
                  | succ k =>
                      have := hrest k (by omega)
                      rwa [Nat.add_assoc, Nat.add_comm 1 k] at this

/-- **A download is the file that was sent**, whatever the server answers; and the file is not
empty. -/
theorem large_file_intact {limits : BlobLimits} {now : Nat}
    {puts : List (Except String BlobResponse)} (hfew : t.Few) (hunforged : t.Unforged answers)
    (hsent : t.sendLargeFile limits now puts = some (.ok file)) (href : file'.RefersTo file)
    (h : downloadEphemeralFile file' answers = some (.ok bytes)) :
    bytes = t.data ∧ t.data ≠ [] := by
  obtain ⟨-, rfl⟩ := sendLargeFile_ok hsent
  rw [download_reference href] at h
  obtain ⟨rfl, hall⟩ := getChunks_intact hunforged h
  refine ⟨?_, fun hempty => ?_⟩
  · rw [List.nil_append, ← List.range_eq_range']
    exact flatten_chunks hfew
  · -- the first chunk was announced all the same
    have hone : 0 < t.totalChunks := by
      rw [totalChunks_eq hfew]
      omega
    have hwithin := hall 0 hone
    unfold Within at hwithin
    rw [hempty, List.length_nil] at hwithin
    exact Nat.not_lt_zero _ hwithin

end LargeFile

/-! ## A small file -/

namespace LargeFile

section Example

/-- It shows the key and the associated data. -/
def shownEncrypt (key : Key32) (_nonce aad plaintext : List UInt8) : Option (List UInt8) :=
  if aad.length < 256 then some (key.1 ++ UInt8.ofNat aad.length :: (aad ++ plaintext)) else none

def shownDecrypt (key : Key32) (_nonce aad ciphertext : List UInt8) : Option (List UInt8) :=
  match ciphertext.drop 32 with
  | [] => none
  | n :: rest =>
      if ciphertext.take 32 = key.1 ∧ n = UInt8.ofNat aad.length ∧ aad.length < 256
          ∧ rest.take aad.length = aad then
        some (rest.drop aad.length)
      else none

theorem shownDecrypt_shownEncrypt (key : Key32) (nonce aad plaintext ciphertext : List UInt8)
    (h : shownEncrypt key nonce aad plaintext = some ciphertext) :
    shownDecrypt key nonce aad ciphertext = some plaintext := by
  unfold shownEncrypt at h
  split at h
  · rename_i hshort
    cases h
    unfold shownDecrypt
    rw [List.drop_left' key.2, List.take_left' key.2]
    dsimp only
    rw [List.take_left, List.drop_left, if_pos ⟨rfl, rfl, hshort, rfl⟩]
  · cases h

theorem shown_tag (key : Key32) (nonce aad plaintext ciphertext : List UInt8)
    (h : shownEncrypt key nonce aad plaintext = some ciphertext) :
    plaintext.length + 16 ≤ ciphertext.length := by
  unfold shownEncrypt at h
  split at h
  · cases h
    rw [List.length_append, List.length_cons, List.length_append, key.2]
    omega
  · cases h

/-- A cipher that shows the key and the associated data, for concrete traces. -/
instance shownCipher : ChaCha20Poly1305 where
  encrypt := shownEncrypt
  decrypt := shownDecrypt
  decrypt_encrypt := shownDecrypt_shownEncrypt
  tag := shown_tag

theorem shown_decrypt {key : Key32} {nonce nonce' aad aad' plaintext plaintext' ct : List UInt8}
    (hseal : shownCipher.encrypt key nonce aad plaintext = some ct)
    (hopen : shownCipher.decrypt key nonce' aad' ct = some plaintext') :
    aad' = aad ∧ plaintext' = plaintext := by
  simp only [ChaCha20Poly1305.encrypt, shownEncrypt] at hseal
  simp only [ChaCha20Poly1305.decrypt, shownDecrypt] at hopen
  split at hseal
  · rename_i hshort
    cases hseal
    rw [List.drop_left' key.2] at hopen
    dsimp only at hopen
    split at hopen
    · rename_i hok
      obtain ⟨-, hlen, hshort', haad⟩ := hok
      have hsame : aad'.length = aad.length := by
        have := congrArg UInt8.toNat hlen
        rw [UInt8.toNat_ofNat', UInt8.toNat_ofNat'] at this
        omega
      rw [hsame, List.take_left] at haad
      rw [hsame, List.drop_left] at hopen
      cases hopen
      exact ⟨haad.symm, rfl⟩
    · cases hopen
  · cases hseal

/-- Three bytes, sent to Bob. -/
def threeBytes : LargeFile where
  user := "alice"
  partner := "bob"
  filename := "a"
  mimeType := "b"
  path := "p"
  data := [1, 2, 3]
  fileId := "f"
  fileKey := ⟨List.replicate 32 0, rfl⟩
  sealNonce _ := .replicate 12 0
  nonce _ := "n"

def done : BlobResponse := ⟨true, false, none, none⟩

/-- Its only chunk, sealed. -/
def threeSealed : List UInt8 :=
  List.replicate 12 0 ++ (List.replicate 32 0 ++ 5 :: (threeBytes.aad 0 ++ [1, 2, 3]))

def got : BlobResponse := ⟨true, false, some (String.ofList (encodeB64 threeSealed)), none⟩

theorem unforged_threeBytes : threeBytes.Unforged [.ok got] := by
  intro resp hmem text htext sealed hsealed aad plain h
  cases List.mem_singleton.mp hmem
  cases htext
  rw [decodeB64Bytes_encode] at hsealed
  cases hsealed
  have hseal : shownCipher.encrypt threeBytes.fileKey [] (threeBytes.aad 0) [1, 2, 3]
      = some (threeSealed.drop 12) := by decide +kernel
  have hlong : ¬ threeSealed.length < 12 := by
    rw [threeSealed, List.length_append, List.length_replicate]
    omega
  unfold decryptAad at h
  rw [if_neg hlong] at h
  split at h
  · cases h
  · rename_i plaintext hopen
    cases h
    have hwithin : 0 * blobChunkSize < threeBytes.data.length := by decide
    exact ⟨0, hwithin, shown_decrypt hseal hopen⟩

theorem large_file_intact_threeBytes :
    ∃ file, threeBytes.sendLargeFile ⟨10, 60⟩ 5 [.ok done] = some (.ok file)
      ∧ ∃ bytes, downloadEphemeralFile file [.ok got] = some (.ok bytes)
        ∧ bytes = threeBytes.data ∧ threeBytes.data ≠ [] := by
  have hfew : threeBytes.Few := by
    unfold Few
    decide
  have hsent : threeBytes.sendLargeFile ⟨10, 60⟩ 5 [.ok done]
      = some (.ok (threeBytes.reference 65)) := rfl
  have hgot : downloadEphemeralFile (threeBytes.reference 65) [.ok got] = some (.ok [1, 2, 3]) := by
    rw [download_reference ⟨rfl, rfl, rfl⟩]
    decide +kernel
  exact ⟨_, hsent, _, hgot, large_file_intact hfew unforged_threeBytes hsent ⟨rfl, rfl, rfl⟩ hgot⟩

end Example

end LargeFile

end Paranoia
