import Paranoia.Client.CorpBlob
import Paranoia.Proof.EphemeralFile

/-!
# What a node can make an employee believe

The node is not trusted: it answers what it likes, but nothing opens under the key of an employee
that the panel has not sealed. So the employee gets nothing, or something the panel sealed for
this employee and for what was asked for; which of the versions it is, is up to the node
(`fetch_sealed`).
-/

namespace Paranoia

theorem fromUtf8_eq_some {bytes : List UInt8} {text : String} :
    Corp.fromUtf8 bytes = some text ↔ bytes = utf8 text := by
  unfold Corp.fromUtf8 String.fromUTF8? utf8
  constructor
  · intro h
    split at h
    · cases h
      rfl
    · cases h
  · rintro rfl
    have hbytes : (⟨text.toByteArray.data.toList.toArray⟩ : ByteArray) = text.toByteArray := rfl
    rw [hbytes, dif_pos text.isValidUTF8]
    rfl

namespace Corp

/-! ## What a blob is bound to -/

theorem length_u64Le (n : UInt64) : (u64Le n).length = 8 := by
  rw [u64Le, List.length_reverse, BigEndian.length_bytes]

theorem readU64Le_u64Le (n : UInt64) : readU64Le (u64Le n) = n := by
  have hlt : n.toNat < 256 ^ 8 := n.toNat_lt
  rw [readU64Le, u64Le, List.reverse_reverse, BigEndian.ofBytes_bytes hlt, UInt64.ofNat_toNat]

theorem u64Le_injective : Function.Injective u64Le :=
  Function.LeftInverse.injective readU64Le_u64Le

theorem aad_inj {serverId : String} {v v' : UInt64} {c c' : List UInt8} :
    aad serverId v c = aad serverId v' c' ↔ v = v' ∧ c = c' := by
  constructor
  · intro h
    unfold aad at h
    rw [List.append_assoc, List.append_assoc _ (u64Le v')] at h
    obtain ⟨hversion, hcontext⟩ := List.append_inj (List.append_cancel_left h)
      ((length_u64Le v).trans (length_u64Le v').symm)
    exact ⟨u64Le_injective hversion, hcontext⟩
  · rintro ⟨rfl, rfl⟩
    rfl

section Sealed

variable [ChaCha20Poly1305] [Hkdf]

/-- What the panel has sealed. -/
structure Sealing where
  psk : List UInt8
  serverId : String
  version : UInt64
  context : List UInt8
  plaintext : List UInt8
  nonce : Vector UInt8 12
  blob : List UInt8
  sealed : sealBlob psk serverId version context plaintext nonce = .ok blob

/-- It is for this employee and for this. -/
structure Sealing.For (s : Sealing) (psk : List UInt8) (serverId : String) (context : List UInt8) :
    Prop where
  psk : s.psk = psk
  serverId : s.serverId = serverId
  context : s.context = context

variable {psk : List UInt8} {serverId : String} {version : UInt64}
  {context plaintext blob : List UInt8}

/-- Where the parts of a blob are. -/
theorem sealBlob_eq_ok {nonce : Vector UInt8 12}
    (h : sealBlob psk serverId version context plaintext nonce = .ok blob) :
    ∃ ct, ChaCha20Poly1305.encrypt (encKey psk serverId) nonce.toList (aad serverId version context)
        plaintext = some ct
      ∧ 4 + 8 + 12 + 16 ≤ blob.length ∧ blob.take 4 = magic ∧ (blob.drop 4).take 8 = u64Le version
      ∧ (blob.drop 12).take 12 = nonce.toList ∧ blob.drop 24 = ct := by
  unfold sealBlob at h
  split at h
  · cases h
  · split at h
    · cases h
    · rename_i ct hct
      cases h
      have hmagic : magic.length = 4 := rfl
      have hversion := length_u64Le version
      have hnonce : nonce.toList.length = 12 := Vector.length_toList
      have htag := ChaCha20Poly1305.tag _ _ _ _ _ hct
      have htwelve : (magic ++ u64Le version).length = 12 := by
        rw [List.length_append, hmagic, hversion]
      have hall : (magic ++ u64Le version ++ nonce.toList).length = 24 := by
        rw [List.length_append, htwelve, hnonce]
      refine ⟨ct, hct, ?_, ?_, ?_, ?_, List.drop_left' hall⟩
      · rw [List.length_append, hall]
        omega
      · rw [List.append_assoc, List.append_assoc, List.take_left' hmagic]
      · rw [List.append_assoc, List.append_assoc, List.drop_left' hmagic, List.take_left' hversion]
      · rw [List.append_assoc, List.drop_left' htwelve, List.take_left' hnonce]

/-- **What was sealed opens** for the employee and the context, with its version. -/
theorem openBlob_sealBlob {nonce : Vector UInt8 12}
    (h : sealBlob psk serverId version context plaintext nonce = .ok blob) :
    openBlob psk serverId context blob = .ok (version, plaintext) := by
  obtain ⟨ct, hct, hlong, hmagic, hversion, hnonce, hdrop⟩ := sealBlob_eq_ok h
  unfold openBlob
  rw [if_neg (Nat.not_lt.mpr hlong), if_neg (not_not.mpr hmagic), hversion, hnonce, hdrop,
    readU64Le_u64Le]
  dsimp only
  rw [ChaCha20Poly1305.decrypt_encrypt _ _ _ _ _ hct]

/-! ## A hostile node -/

/-- What opens of the blob under the key of the employee was sealed by the panel under this key. -/
def UnforgedBlob (sealings : List Sealing) (psk : List UInt8) (serverId : String)
    (blob : List UInt8) : Prop :=
  ∀ ad plaintext, ChaCha20Poly1305.decrypt (encKey psk serverId) ((blob.drop 12).take 12) ad
      (blob.drop 24) = some plaintext →
    ∃ s ∈ sealings, encKey s.psk s.serverId = encKey psk serverId
      ∧ ad = aad s.serverId s.version s.context ∧ plaintext = s.plaintext

/-- No other employee has this one's key. -/
def OwnKey (sealings : List Sealing) (psk : List UInt8) (serverId : String) : Prop :=
  ∀ s ∈ sealings, encKey s.psk s.serverId = encKey psk serverId → s.psk = psk ∧ s.serverId = serverId

variable {sealings : List Sealing}

theorem openBlob_sealed (hown : OwnKey sealings psk serverId)
    (hunforged : UnforgedBlob sealings psk serverId blob)
    (h : openBlob psk serverId context blob = .ok (version, plaintext)) :
    ∃ s ∈ sealings, s.For psk serverId context ∧ s.version = version ∧ s.plaintext = plaintext := by
  unfold openBlob at h
  split at h
  · cases h
  · split at h
    · cases h
    · dsimp only at h
      split at h
      · cases h
      · rename_i opened hopened
        cases h
        obtain ⟨s, hs, hkey, had, rfl⟩ := hunforged _ _ hopened
        obtain ⟨hpsk, hserverId⟩ := hown s hs hkey
        rw [hserverId] at had
        obtain ⟨hversion, hcontext⟩ := aad_inj.mp had
        exact ⟨s, hs, ⟨hpsk, hserverId, hcontext.symm⟩, hversion.symm, rfl⟩

variable [SerdeJson] {signingKeyB64 pskB64 text : String} {answer : Answer} {resource : Resource}

/-- The blob in the answer, if there is one, is not forged. -/
def Unforged (sealings : List Sealing) (psk : List UInt8) (serverId signingKeyB64 : String)
    (answer : Answer) : Prop :=
  ∀ blob, fetchBlob signingKeyB64 answer = .ok (some blob) →
    UnforgedBlob sealings psk serverId blob

/-- The answer of a node that has kept a blob. -/
def Sealing.kept (s : Sealing) : Answer :=
  .ok (200, SerdeJson.blobText (String.ofList (encodeB64 s.blob)))

theorem fetchBlob_kept (s : Sealing) {seed : List UInt8}
    (hseed : decodeB64Bytes signingKeyB64 = some seed) (hlen : seed.length = 32) :
    fetchBlob signingKeyB64 s.kept = .ok (some s.blob) := by
  have hsome : String.ofList (encodeB64 s.blob) ≠ "" := by
    intro hempty
    have hbytes := LargeFile.decodeB64Bytes_encode s.blob
    rw [hempty] at hbytes
    have hblob : s.blob = [] := (Option.some.inj hbytes).symm
    have hopen := openBlob_sealBlob s.sealed
    rw [hblob] at hopen
    cases hopen
  unfold fetchBlob Sealing.kept
  rw [hseed]
  dsimp only
  rw [if_neg (not_not.mpr hlen), if_neg (by decide), if_neg (by decide), SerdeJson.fromStr_blobText]
  dsimp only
  have hget : (((Json.obj [("blob_b64", .str (String.ofList (encodeB64 s.blob)))]).get
      [.key "blob_b64"]).bind asStr).getD "" = String.ofList (encodeB64 s.blob) := by
    simp [Json.get, Json.lookup, asStr]
  rw [hget, if_neg hsome, LargeFile.decodeB64Bytes_encode]

/-- What is got was sealed by the panel, for this employee and for what was asked for. -/
theorem fetch_intact (hpsk : decodeB64Bytes pskB64 = some psk) (hown : OwnKey sealings psk serverId)
    (hunforged : Unforged sealings psk serverId signingKeyB64 answer)
    (h : fetch resource serverId signingKeyB64 pskB64 answer = .ok text) :
    text = "" ∨ ∃ s ∈ sealings, s.For psk serverId resource.context ∧ s.plaintext = utf8 text := by
  unfold fetch at h
  rw [hpsk] at h
  dsimp only at h
  split at h
  · cases h
  · cases h
    exact .inl rfl
  · rename_i blob hblob
    split at h
    · cases h
    · rename_i version plaintext hopen
      split at h
      · cases h
      · rename_i text' htext
        cases h
        obtain ⟨s, hs, hfor, -, hplain⟩ := openBlob_sealed hown (hunforged blob hblob) hopen
        exact .inr ⟨s, hs, hfor, hplain.trans (fromUtf8_eq_some.mp htext)⟩

/-- **What a node can make an employee believe**: nothing, or what the panel has sealed for this
employee and for what was asked for; and each of these, whichever version. -/
theorem fetch_sealed {seed : List UInt8} (hseed : decodeB64Bytes signingKeyB64 = some seed)
    (hlen : seed.length = 32) (hpsk : decodeB64Bytes pskB64 = some psk)
    (hown : OwnKey sealings psk serverId) :
    (∀ answer, Unforged sealings psk serverId signingKeyB64 answer →
      fetch resource serverId signingKeyB64 pskB64 answer = .ok text →
      text = "" ∨ ∃ s ∈ sealings, s.For psk serverId resource.context ∧ s.plaintext = utf8 text)
    ∧ ∀ s ∈ sealings, s.For psk serverId resource.context → s.plaintext = utf8 text →
      fetch resource serverId signingKeyB64 pskB64 s.kept = .ok text := by
  refine ⟨fun answer hunforged h => fetch_intact hpsk hown hunforged h, fun s hs hfor htext => ?_⟩
  have hopen := openBlob_sealBlob s.sealed
  rw [hfor.psk, hfor.serverId, hfor.context] at hopen
  unfold fetch
  rw [hpsk]
  dsimp only
  rw [fetchBlob_kept s hseed hlen]
  dsimp only
  rw [hopen]
  dsimp only
  rw [fromUtf8_eq_some.mpr htext]

end Sealed

section Example

/-- Input and salt as they are, for concrete traces. -/
instance shownHkdf : Hkdf where
  expand salt ikm _ := ⟨(ikm ++ salt ++ List.replicate 32 0).take 32, by
    rw [List.length_take, List.length_append, List.length_replicate]
    omega⟩

/-- Reads what a node writes around a blob, and nothing else. -/
instance plainSerde : SerdeJson where
  fromStr text :=
    if text.toList.take 13 = "\x7b\"blob_b64\":\"".toList then
      some (.obj [("blob_b64", .str (String.ofList (text.toList.drop 13).dropLast.dropLast))])
    else none
  blobText blobB64 := String.ofList ("\x7b\"blob_b64\":\"".toList ++ blobB64.toList ++ "\"\x7d".toList)
  fromStr_blobText blobB64 := by
    have hlen : "\x7b\"blob_b64\":\"".toList.length = 13 := by decide +kernel
    have hend : "\"\x7d".toList = ['"', '\x7d'] := by decide +kernel
    rw [String.toList_ofList, List.append_assoc, List.take_left' hlen, if_pos rfl,
      List.drop_left' hlen, hend]
    simp

/-- Nothing but what was sealed opens of a blob. -/
theorem unforgedBlob_shown (s : Sealing) : UnforgedBlob [s] s.psk s.serverId s.blob := by
  intro ad plaintext hopen
  obtain ⟨ct, hct, -, -, -, -, hdrop⟩ := sealBlob_eq_ok s.sealed
  rw [hdrop] at hopen
  obtain ⟨had, hplain⟩ := LargeFile.shown_decrypt hct hopen
  exact ⟨s, List.mem_cons_self, rfl, had, hplain⟩

theorem ownKey_singleton (s : Sealing) : OwnKey [s] s.psk s.serverId := by
  intro s' hs _
  cases List.mem_singleton.mp hs
  exact ⟨rfl, rfl⟩

/-- The roster of the employee "s". -/
def rosterSealing : Sealing where
  psk := [1]
  serverId := "s"
  version := 7
  context := ctxRoster
  plaintext := utf8 "r"
  nonce := .replicate 12 0
  blob := match sealBlob [1] "s" 7 ctxRoster (utf8 "r") (.replicate 12 0) with
    | .ok blob => blob
    | .error _ => []
  sealed := by decide +kernel

theorem fetch_sealed_roster :
    fetch .roster "s" (String.ofList (encodeB64 (List.replicate 32 0)))
      (String.ofList (encodeB64 [1])) rosterSealing.kept = .ok "r" := by
  exact (fetch_sealed (LargeFile.decodeB64Bytes_encode _) List.length_replicate
    (LargeFile.decodeB64Bytes_encode _) (ownKey_singleton rosterSealing)).2 rosterSealing
    List.mem_cons_self ⟨rfl, rfl, rfl⟩ rfl

end Example

end Corp

end Paranoia
