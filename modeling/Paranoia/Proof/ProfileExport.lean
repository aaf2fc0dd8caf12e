import Paranoia.Client.ProfileExport
import Paranoia.Proof.CorpBlob

/-!
# What an export brings to a device

A payload is accepted where it is well formed as a whole, and counted right
(`validateExportPayload_eq_ok`). What a device imports was exported for it, and what was
exported for it is what it imports (`import_exported`).
-/

namespace Paranoia

theorem bind_eq_ok {ε α β : Type} {x : Except ε α} {f : α → Except ε β} {b : β} :
    (x >>= f) = .ok b ↔ ∃ a, x = .ok a ∧ f a = .ok b := by
  refine ⟨bind_ok, ?_⟩
  rintro ⟨a, rfl, h⟩
  exact h

theorem bailIf_bind_eq_ok {p : Prop} [Decidable p] {message : String} {α : Type}
    {f : Unit → Except String α} {b : α} :
    (bailIf p message >>= f) = .ok b ↔ ¬ p ∧ f () = .ok b := by
  unfold bailIf
  by_cases hp : p
  · rw [if_pos hp]
    exact ⟨fun h => (nomatch h), fun h => absurd hp h.1⟩
  · rw [if_neg hp]
    exact ⟨fun h => ⟨hp, h⟩, fun h => h.2⟩

/-! ## Well-formed payloads -/

/-- The base64 of 32 bytes, with blanks around it. -/
def IsKey (text : String) : Prop :=
  ∃ key : Key32, decodeB64Bytes (Dialogs.trimmed text) = some key.1

structure ExportKeyEntry.WellFormed (e : ExportKeyEntry) : Prop where
  startSeq : e.startSeq ≠ 0
  key : IsKey e.key

structure ExportDialogue.WellFormed (d : ExportDialogue) : Prop where
  peer : Dialogs.trimmed d.peer ≠ ""
  keyring : d.keyring ≠ []
  startSeqs : (d.keyring.map (·.startSeq)).Nodup
  entries : ∀ e ∈ d.keyring, e.WellFormed

structure ExportServer.WellFormed (s : ExportServer) : Prop where
  url : Dialogs.trimmed s.url ≠ ""
  username : Dialogs.trimmed s.username ≠ ""
  signingKey : IsKey s.signingKeyB64
  peers : (s.dialogues.map (·.peer)).Nodup
  dialogues : ∀ d ∈ s.dialogues, d.WellFormed

structure ExportAdminServer.WellFormed (a : ExportAdminServer) : Prop where
  url : Dialogs.trimmed a.url ≠ ""
  adminPrivateKey : IsKey a.adminPrivateKeyB64

def ExportServer.keyEntries (s : ExportServer) : Nat := (s.dialogues.map (·.keyring.length)).sum

def ExportPayload.stats (p : ExportPayload) : ExportPayloadStats where
  servers := p.servers.length
  adminServers := p.adminServers.length
  dialogues := (p.servers.map (·.dialogues.length)).sum
  keyEntries := (p.servers.map (·.keyEntries)).sum

namespace ProfileExport

structure Within (stats : ExportPayloadStats) : Prop where
  servers : stats.servers ≤ maxExportServers
  adminServers : stats.adminServers ≤ maxExportAdminServers
  dialogues : stats.dialogues ≤ maxExportDialogues
  keyEntries : stats.keyEntries ≤ maxExportKeyEntries

end ProfileExport

structure ExportPayload.WellFormed (p : ExportPayload) : Prop where
  formatVersion : p.formatVersion = ProfileExport.exportPayloadVersion
  servers : ∀ s ∈ p.servers, s.WellFormed
  adminServers : ∀ a ∈ p.adminServers, a.WellFormed
  within : ProfileExport.Within p.stats

namespace ProfileExport

theorem key_bind_eq_ok {text message : String} {α : Type} {f : List UInt8 → Except String α} {b : α}
    (hconst : ∀ x y, f x = f y) :
    (context (decodeFixedB64 text 32) message >>= f) = .ok b ↔ IsKey text ∧ f [] = .ok b := by
  unfold context decodeFixedB64 IsKey
  cases hbytes : decodeB64Bytes (Dialogs.trimmed text) with
  | none => exact ⟨fun h => (nomatch h), fun h => (nomatch h.1.choose_spec)⟩
  | some bytes =>
      dsimp only
      split
      · rename_i hlen
        refine ⟨fun h => (nomatch h), fun h => ?_⟩
        obtain ⟨key, hkey⟩ := h.1
        cases hkey
        exact absurd key.2 hlen
      · rename_i hlen
        refine ⟨fun h => ⟨⟨⟨bytes, not_not.mp hlen⟩, rfl⟩, (hconst [] bytes).trans h⟩, fun h => ?_⟩
        exact (hconst bytes []).trans h.2

theorem validateKeyring_eq_ok {startSeqs : List UInt64} {entries : List ExportKeyEntry} :
    validateKeyring startSeqs entries = .ok () ↔
      (∀ e ∈ entries, e.WellFormed) ∧ (entries.map (·.startSeq)).Nodup
        ∧ ∀ e ∈ entries, e.startSeq ∉ startSeqs := by
  induction entries generalizing startSeqs with
  | nil => simp [validateKeyring]
  | cons e rest ih =>
      rw [validateKeyring, bailIf_bind_eq_ok, bailIf_bind_eq_ok, key_bind_eq_ok fun _ _ => rfl, ih]
      simp only [List.forall_mem_cons, List.map_cons, List.nodup_cons, List.mem_map, not_exists,
        not_and]
      constructor
      · rintro ⟨hzero, hnew, hkey, hrest, hnodup, hapart⟩
        exact ⟨⟨⟨hzero, hkey⟩, hrest⟩,
          ⟨fun e' he' he => hapart e' he' (he ▸ List.mem_cons_self), hnodup⟩,
          ⟨hnew, fun e' he' he => hapart e' he' (List.mem_cons_of_mem _ he)⟩⟩
      · rintro ⟨⟨he, hrest⟩, ⟨hapart, hnodup⟩, hnew, hold⟩
        refine ⟨he.startSeq, hnew, he.key, hrest, hnodup, fun e' he' hmem => ?_⟩
        cases List.mem_cons.mp hmem with
        | inl heq => exact hapart e' he' heq
        | inr hmem => exact hold e' he' hmem

/-- All entries of the dialogues are added to the count, and the count stays within the limit. -/
theorem validateDialogues_eq_ok (stats : ExportPayloadStats) {stats' : ExportPayloadStats}
    {peers : List String} {dialogues : List ExportDialogue}
    (hstats : stats.keyEntries ≤ maxExportKeyEntries) :
    validateDialogues stats peers dialogues = .ok stats' ↔
      (∀ d ∈ dialogues, d.WellFormed) ∧ (dialogues.map (·.peer)).Nodup
        ∧ (∀ d ∈ dialogues, d.peer ∉ peers)
        ∧ stats.keyEntries + (dialogues.map (·.keyring.length)).sum ≤ maxExportKeyEntries
        ∧ stats' = { stats with
            keyEntries := stats.keyEntries + (dialogues.map (·.keyring.length)).sum } := by
  induction dialogues generalizing stats peers with
  | nil => simp [validateDialogues, hstats, eq_comm]
  | cons d rest ih =>
      rw [validateDialogues, bailIf_bind_eq_ok, bailIf_bind_eq_ok, bailIf_bind_eq_ok,
        bailIf_bind_eq_ok, bind_eq_ok]
      simp only [List.forall_mem_cons, List.map_cons, List.nodup_cons, List.mem_map, List.sum_cons,
        not_exists, not_and, ← Nat.add_assoc]
      constructor
      · rintro ⟨hpeer, hnew, hsome, hfew, ⟨⟩, hkeyring, hrest⟩
        obtain ⟨hentries, hstartSeqs, -⟩ := validateKeyring_eq_ok.mp hkeyring
        obtain ⟨hwf, hnodup, hapart, hwithin, rfl⟩ := (ih _ (Nat.not_lt.mp hfew)).mp hrest
        exact ⟨⟨⟨hpeer, hsome, hstartSeqs, hentries⟩, hwf⟩,
          ⟨fun d' hd' he => hapart d' hd' (he ▸ List.mem_cons_self), hnodup⟩,
          ⟨hnew, fun d' hd' he => hapart d' hd' (List.mem_cons_of_mem _ he)⟩, hwithin, rfl⟩
      · rintro ⟨⟨hd, hwf⟩, ⟨hapart, hnodup⟩, ⟨hnew, hold⟩, hwithin, rfl⟩
        have hfew : stats.keyEntries + d.keyring.length ≤ maxExportKeyEntries :=
          Nat.le_trans (Nat.le_add_right _ _) hwithin
        refine ⟨hd.peer, hnew, hd.keyring, Nat.not_lt.mpr hfew, (), ?_, ?_⟩
        · exact validateKeyring_eq_ok.mpr ⟨hd.entries, hd.startSeqs, fun _ _ => List.not_mem_nil⟩
        · refine (ih _ hfew).mpr ⟨hwf, hnodup, fun d' hd' hmem => ?_, hwithin, rfl⟩
          cases List.mem_cons.mp hmem with
          | inl he => exact hapart d' hd' he
          | inr hmem => exact hold d' hd' hmem

theorem validateServers_eq_ok {stats stats' : ExportPayloadStats} {servers : List ExportServer}
    (hdialogues : stats.dialogues ≤ maxExportDialogues)
    (hkeyEntries : stats.keyEntries ≤ maxExportKeyEntries) :
    validateServers stats servers = .ok stats' ↔
      (∀ s ∈ servers, s.WellFormed)
        ∧ stats.dialogues + (servers.map (·.dialogues.length)).sum ≤ maxExportDialogues
        ∧ stats.keyEntries + (servers.map (·.keyEntries)).sum ≤ maxExportKeyEntries
        ∧ stats' = { stats with
            dialogues := stats.dialogues + (servers.map (·.dialogues.length)).sum
            keyEntries := stats.keyEntries + (servers.map (·.keyEntries)).sum } := by
  induction servers generalizing stats with
  | nil => simp [validateServers, hdialogues, hkeyEntries, eq_comm]
  | cons s rest ih =>
      rw [validateServers, bailIf_bind_eq_ok, key_bind_eq_ok fun _ _ => rfl, bailIf_bind_eq_ok,
        bind_eq_ok]
      simp only [List.forall_mem_cons, List.map_cons, List.sum_cons, not_or, ← Nat.add_assoc]
      constructor
      · rintro ⟨⟨hurl, husername⟩, hkey, hfew, stats₁, hs, hrest⟩
        obtain ⟨hwf, hpeers, -, hwithin, rfl⟩ := (validateDialogues_eq_ok
          { stats with dialogues := stats.dialogues + s.dialogues.length } hkeyEntries).mp hs
        obtain ⟨hwfs, hd, hk, rfl⟩ := (ih (Nat.not_lt.mp hfew) hwithin).mp hrest
        exact ⟨⟨⟨hurl, husername, hkey, hpeers, hwf⟩, hwfs⟩, hd, hk, rfl⟩
      · rintro ⟨⟨hs, hwfs⟩, hd, hk, rfl⟩
        have hfew : stats.dialogues + s.dialogues.length ≤ maxExportDialogues :=
          Nat.le_trans (Nat.le_add_right _ _) hd
        have hwithin : stats.keyEntries + s.keyEntries ≤ maxExportKeyEntries :=
          Nat.le_trans (Nat.le_add_right _ _) hk
        refine ⟨⟨hs.url, hs.username⟩, hs.signingKey, Nat.not_lt.mpr hfew,
          ⟨stats.servers, stats.adminServers, stats.dialogues + s.dialogues.length,
            stats.keyEntries + s.keyEntries⟩, ?_, ?_⟩
        · exact (validateDialogues_eq_ok
            { stats with dialogues := stats.dialogues + s.dialogues.length } hkeyEntries).mpr
            ⟨hs.dialogues, hs.peers, fun _ _ => List.not_mem_nil, hwithin, rfl⟩
        · exact (ih hfew hwithin).mpr ⟨hwfs, hd, hk, rfl⟩

theorem validateAdmins_eq_ok {admins : List ExportAdminServer} :
    validateAdmins admins = .ok () ↔ ∀ a ∈ admins, a.WellFormed := by
  induction admins with
  | nil => simp [validateAdmins]
  | cons a rest ih =>
      rw [validateAdmins, bailIf_bind_eq_ok, key_bind_eq_ok fun _ _ => rfl, ih,
        List.forall_mem_cons, ← and_assoc]
      exact and_congr_left fun _ => ⟨fun h => ⟨h.1, h.2⟩, fun h => ⟨h.url, h.adminPrivateKey⟩⟩

/-- **What is accepted is well formed**, what is well formed is accepted, and it is counted
right. -/
theorem validateExportPayload_eq_ok (payload : ExportPayload) (stats : ExportPayloadStats) :
    validateExportPayload payload = .ok stats ↔ payload.WellFormed ∧ stats = payload.stats := by
  rw [validateExportPayload, bailIf_bind_eq_ok, bailIf_bind_eq_ok, bailIf_bind_eq_ok, bind_eq_ok]
  simp only [not_not, Nat.not_lt]
  constructor
  · rintro ⟨hversion, hservers, hadmins, stats₁, hchecked, hrest⟩
    obtain ⟨⟨⟩, hwfAdmins, hpure⟩ := bind_eq_ok.mp hrest
    cases hpure
    obtain ⟨hwf, hd, hk, rfl⟩ :=
      (validateServers_eq_ok (Nat.zero_le _) (Nat.zero_le _)).mp hchecked
    simp only [Nat.zero_add] at hd hk ⊢
    exact ⟨⟨hversion, hwf, validateAdmins_eq_ok.mp hwfAdmins, ⟨hservers, hadmins, hd, hk⟩⟩, rfl⟩
  · rintro ⟨hwf, rfl⟩
    refine ⟨hwf.formatVersion, hwf.within.servers, hwf.within.adminServers, payload.stats, ?_, ?_⟩
    · refine (validateServers_eq_ok (Nat.zero_le _) (Nat.zero_le _)).mpr ⟨hwf.servers, ?_, ?_, ?_⟩
      · exact (Nat.zero_add _).le.trans hwf.within.dialogues
      · exact (Nat.zero_add _).le.trans hwf.within.keyEntries
      · simp only [Nat.zero_add]
        rfl
    · exact bind_eq_ok.mpr ⟨(), validateAdmins_eq_ok.mpr hwf.adminServers, rfl⟩

/-! ## From one device to another -/

theorem context_eq_ok {α : Type} {x : Except String α} {message : String} {a : α} :
    context x message = .ok a ↔ x = .ok a := by
  cases x with
  | error e => exact ⟨fun h => (nomatch h), fun h => (nomatch h)⟩
  | ok b => exact Iff.rfl

theorem decodeField_encodeB64 {n : Nat} (bytes : List UInt8) (hlen : bytes.length = n)
    (field : String) :
    decodeField (String.ofList (encodeB64 bytes)) field n = .ok ⟨bytes, hlen⟩ := by
  unfold decodeField
  rw [LargeFile.decodeB64Bytes_encode]
  exact dif_pos hlen

section Ecies

variable {δ κ : Type} [ExchangeCrypto δ κ] [ChaCha20Poly1305] [Hkdf] [ExportJson]

/-- A file that was written. -/
structure Export where
  receiverPub : Key32
  payload : ExportPayload
  ephPriv : Key32
  nonce : Vector UInt8 12
  file : String
  written : cmdExport receiverPub payload ephPriv nonce = .ok file

def Export.ephPub (e : Export) : Key32 := ExchangeCrypto.publicKey e.ephPriv

def Export.key (e : Export) : Key32 :=
  deriveEncKey (ExchangeCrypto.diffieHellman e.ephPriv e.receiverPub) e.ephPub e.receiverPub

def Export.envelope (e : Export) (ct : List UInt8) : EciesEnvelope :=
  ⟨eciesVersion, String.ofList (encodeB64 e.ephPub.1), String.ofList (encodeB64 e.nonce.toList),
    String.ofList (encodeB64 ct)⟩

/-- Serde reads what it has written. -/
structure Export.Serde (e : Export) : Prop where
  payload : ExportJson.readPayload (ExportJson.payloadBytes e.payload) = some e.payload
  envelope : ∀ ct, ChaCha20Poly1305.encrypt e.key e.nonce.toList []
      (ExportJson.payloadBytes e.payload) = some ct →
    ExportJson.readEnvelope (ExportJson.envelopeText (e.envelope ct)) = some (e.envelope ct)

theorem Export.sealed (e : Export) :
    e.payload.WellFormed
      ∧ (¬ ∀ b ∈ (ExchangeCrypto.diffieHellman e.ephPriv e.receiverPub).1, b = 0)
      ∧ ∃ ct, ChaCha20Poly1305.encrypt e.key e.nonce.toList []
            (ExportJson.payloadBytes e.payload) = some ct
          ∧ e.file = ExportJson.envelopeText (e.envelope ct) := by
  obtain ⟨stats, hstats, hsealed⟩ := bind_eq_ok.mp e.written
  obtain ⟨hshared, hct⟩ := bailIf_bind_eq_ok.mp hsealed
  refine ⟨((validateExportPayload_eq_ok _ _).mp hstats).1, hshared, ?_⟩
  split at hct
  · cases hct
  · rename_i ct hsome
    exact ⟨ct, hsome, (Except.ok.inj hct).symm⟩

/-- What the file is read as, and that its payload is sealed in it. -/
theorem readEnvelope_file {e : Export} (hserde : e.Serde) :
    ∃ ct, ChaCha20Poly1305.encrypt e.key e.nonce.toList []
        (ExportJson.payloadBytes e.payload) = some ct
      ∧ readEnvelope e.file = .ok (e.ephPub, e.nonce.toList, ct) := by
  obtain ⟨-, -, ct, hct, hfile⟩ := e.sealed
  refine ⟨ct, hct, ?_⟩
  unfold readEnvelope
  rw [hfile, hserde.envelope ct hct]
  dsimp only [Export.envelope]
  refine bailIf_bind_eq_ok.mpr ⟨not_not.mpr rfl, ?_⟩
  rw [decodeField_encodeB64 _ e.ephPub.2, decodeField_encodeB64 _ Vector.length_toList,
    LargeFile.decodeB64Bytes_encode]
  rfl

/-- The device that an export is for makes out the same key. -/
theorem deviceKey_ephPub {e : Export} {devicePriv : Key32}
    (hfor : e.receiverPub = ExchangeCrypto.publicKey devicePriv) :
    ExchangeCrypto.diffieHellman devicePriv e.ephPub
        = ExchangeCrypto.diffieHellman e.ephPriv e.receiverPub
      ∧ deviceKey devicePriv e.ephPub = e.key := by
  have hshared : ExchangeCrypto.diffieHellman devicePriv e.ephPub
      = ExchangeCrypto.diffieHellman e.ephPriv e.receiverPub := by
    rw [Export.ephPub, hfor, ExchangeCrypto.diffieHellman_comm]
  refine ⟨hshared, ?_⟩
  rw [deviceKey, hshared, ← hfor, Export.key]

theorem eciesDecrypt_file {e : Export} {devicePriv : Key32} (hserde : e.Serde)
    (hfor : e.receiverPub = ExchangeCrypto.publicKey devicePriv) :
    eciesDecrypt devicePriv e.file = .ok (ExportJson.payloadBytes e.payload) := by
  obtain ⟨-, hnonzero, -⟩ := e.sealed
  obtain ⟨ct, hct, henvelope⟩ := readEnvelope_file hserde
  obtain ⟨hshared, hkey⟩ := deviceKey_ephPub hfor
  refine bind_eq_ok.mpr ⟨_, henvelope, bailIf_bind_eq_ok.mpr ⟨?_, ?_⟩⟩
  · rw [hshared]
    exact hnonzero
  · rw [hkey, ChaCha20Poly1305.decrypt_encrypt _ _ _ _ _ hct]

/-! ## Whoever carries the file -/

/-- Nothing opens on the device that was not sealed in an export, and no other salt leads to the
key of the file. -/
structure Unforged (exports : List Export) (devicePriv : Key32) (file : String) : Prop where
  sealed : ∀ ephPub nonce ct plaintext, readEnvelope file = .ok (ephPub, nonce, ct) →
    ChaCha20Poly1305.decrypt (deviceKey devicePriv ephPub) nonce [] ct = some plaintext →
    ∃ e ∈ exports, e.key = deviceKey devicePriv ephPub
      ∧ plaintext = ExportJson.payloadBytes e.payload
  derived : ∀ ephPub nonce ct, readEnvelope file = .ok (ephPub, nonce, ct) → ∀ e ∈ exports,
    e.key = deviceKey devicePriv ephPub →
      e.ephPub.1 ++ e.receiverPub.1 = ephPub.1 ++ (ExchangeCrypto.publicKey devicePriv).1

variable {exports : List Export} {devicePriv : Key32} {file : String}

theorem eciesDecrypt_sealed {plaintext : List UInt8} (hunforged : Unforged exports devicePriv file)
    (h : eciesDecrypt devicePriv file = .ok plaintext) :
    ∃ e ∈ exports, e.receiverPub = ExchangeCrypto.publicKey devicePriv
      ∧ plaintext = ExportJson.payloadBytes e.payload := by
  obtain ⟨⟨ephPub, nonce, ct⟩, henvelope, hrest⟩ := bind_eq_ok.mp h
  obtain ⟨-, hopen⟩ := bailIf_bind_eq_ok.mp hrest
  split at hopen
  · cases hopen
  · rename_i opened hopened
    cases hopen
    obtain ⟨e, he, hkey, hplain⟩ := hunforged.sealed _ _ _ _ henvelope hopened
    have hsalt := hunforged.derived _ _ _ henvelope e he hkey
    have hpub := (List.append_inj hsalt (e.ephPub.2.trans ephPub.2.symm)).2
    exact ⟨e, he, Subtype.ext hpub, hplain⟩

theorem importPayload_eq_ok {payload : ExportPayload} :
    importPayload devicePriv file = .ok payload ↔
      (utf8 file).length ≤ maxExportFileBytes
        ∧ ∃ plaintext, eciesDecrypt devicePriv file = .ok plaintext
          ∧ ExportJson.readPayload plaintext = some payload ∧ payload.WellFormed := by
  unfold importPayload
  rw [bailIf_bind_eq_ok, Nat.not_lt, bind_eq_ok]
  refine and_congr_right fun _ => exists_congr fun plaintext => ?_
  rw [context_eq_ok]
  refine and_congr_right fun _ => ?_
  cases hread : ExportJson.readPayload plaintext with
  | none => exact ⟨fun h => (nomatch h), fun h => (nomatch h.1)⟩
  | some read =>
      dsimp only
      rw [bind_eq_ok]
      constructor
      · rintro ⟨stats, hstats, hpure⟩
        cases hpure
        exact ⟨rfl, ((validateExportPayload_eq_ok _ _).mp hstats).1⟩
      · rintro ⟨hsome, hwf⟩
        cases hsome
        exact ⟨_, (validateExportPayload_eq_ok _ _).mpr ⟨hwf, rfl⟩, rfl⟩

theorem importPayload_file {e : Export} (hserde : e.Serde)
    (hfor : e.receiverPub = ExchangeCrypto.publicKey devicePriv)
    (hsize : (utf8 e.file).length ≤ maxExportFileBytes) :
    importPayload devicePriv e.file = .ok e.payload :=
  importPayload_eq_ok.mpr ⟨hsize, _, eciesDecrypt_file hserde hfor, hserde.payload, e.sealed.1⟩

/-- **What a device imports was exported for it**, whoever has carried the file, and it is well
formed; what was exported for it is what it imports. -/
theorem import_exported (hserde : ∀ e ∈ exports, e.Serde) :
    (∀ file payload, Unforged exports devicePriv file →
      importPayload devicePriv file = .ok payload → payload.WellFormed
        ∧ ∃ e ∈ exports, e.receiverPub = ExchangeCrypto.publicKey devicePriv ∧ e.payload = payload)
    ∧ ∀ e ∈ exports, e.receiverPub = ExchangeCrypto.publicKey devicePriv →
      (utf8 e.file).length ≤ maxExportFileBytes →
        importPayload devicePriv e.file = .ok e.payload := by
  refine ⟨fun file payload hunforged h => ?_, fun e he hfor hsize => ?_⟩
  · obtain ⟨-, plaintext, hopen, hread, hwf⟩ := importPayload_eq_ok.mp h
    obtain ⟨e, he, hpub, rfl⟩ := eciesDecrypt_sealed hunforged hopen
    have hpayload := (hserde e he).payload
    rw [hread] at hpayload
    exact ⟨hwf, e, he, hpub, (Option.some.inj hpayload).symm⟩
  · exact importPayload_file (hserde e he) hfor hsize

end Ecies

theorem length_utf8_append (s t : String) :
    (utf8 (s ++ t)).length = (utf8 s).length + (utf8 t).length := by
  simp [utf8]

theorem length_utf8_ofList (cs : List Char) :
    (utf8 (String.ofList cs)).length = String.utf8Len cs := String.utf8ByteSize_ofList cs

section Example

def zeroKeyB64 : String := "AAAAAAAAAAAAAAAAAAAAAAAAAAAAAAAAAAAAAAAAAAA="

def oneServer : ExportServer := ⟨"u", "n", zeroKeyB64, [⟨"bob", some "b", [⟨1, zeroKeyB64⟩]⟩]⟩

/-- A profile with one dialogue. -/
def onePayload : ExportPayload := ⟨1, .client, [oneServer], []⟩

def onePayloadText : List UInt8 :=
  utf8 ("\x7b\"format_version\":1,\"profile_type\":\"client\",\"servers\":[\x7b\"url\":\"u\","
    ++ "\"username\":\"n\",\"signing_key_b64\":\"" ++ zeroKeyB64 ++ "\",\"dialogues\":["
    ++ "\x7b\"peer\":\"bob\",\"peer_server_id\":\"b\",\"keyring\":[\x7b\"start_seq\":1,"
    ++ "\"key\":\"" ++ zeroKeyB64 ++ "\"\x7d]\x7d]\x7d]\x7d")

/-- Writes any envelope and reads those of this version; knows one payload. -/
instance shownJson : ExportJson where
  envelopeText envelope := "\x7b\"v\":" ++ String.ofList (Decimal.numeral envelope.v.toNat)
    ++ ",\"eph_pub\":\"" ++ envelope.ephPub ++ "\",\"nonce\":\"" ++ envelope.nonce
    ++ "\",\"ct\":\"" ++ envelope.ct ++ "\"\x7d"
  readEnvelope text :=
    if text.toList.take 18 = "\x7b\"v\":1,\"eph_pub\":\"".toList then
      some ⟨1, String.ofList ((text.toList.drop 18).take 44),
        String.ofList ((text.toList.drop 73).take 16),
        String.ofList (text.toList.drop 97).dropLast.dropLast⟩
    else none
  payloadBytes payload := if payload = onePayload then onePayloadText else []
  readPayload bytes := if bytes = onePayloadText then some onePayload else none

def oneFile : String :=
  match cmdExport (keyOf 2) onePayload (keyOf 1) (.replicate 12 0) with
  | .ok file => file
  | .error _ => ""

theorem encrypt_shown (key : Key32) (nonce plaintext : List UInt8) :
    ChaCha20Poly1305.encrypt key nonce [] plaintext = some (key.1 ++ 0 :: plaintext) := rfl

theorem oneFile_written :
    cmdExport (keyOf 2) onePayload (keyOf 1) (.replicate 12 0) = .ok oneFile := by
  have hstats : validateExportPayload onePayload = .ok ⟨1, 0, 1, 1⟩ := by decide +kernel
  have hshared : ¬ ∀ b ∈ (ExchangeCrypto.diffieHellman (keyOf 1) (keyOf 2)).1, b = 0 := by
    decide +kernel
  -- the text is not computed: that there is one is enough
  obtain ⟨file, hfile⟩ : ∃ file, eciesEncrypt (keyOf 2) (ExportJson.payloadBytes onePayload)
      (keyOf 1) (.replicate 12 0) = .ok file := by
    unfold eciesEncrypt
    dsimp only
    rw [encrypt_shown]
    exact ⟨_, bailIf_bind_eq_ok.mpr ⟨hshared, rfl⟩⟩
  have hwritten : cmdExport (keyOf 2) onePayload (keyOf 1) (.replicate 12 0) = .ok file :=
    bind_eq_ok.mpr ⟨_, hstats, hfile⟩
  rw [oneFile, hwritten]

/-- The device `keyOf 2` gets it. -/
def oneExport : Export where
  receiverPub := keyOf 2
  payload := onePayload
  ephPriv := keyOf 1
  nonce := .replicate 12 0
  file := oneFile
  written := oneFile_written

/-- Where the fields are, as long as the first two have the length of a key and of a nonce. -/
theorem readEnvelope_envelopeText {ephPub nonce ct : String} (hpub : ephPub.toList.length = 44)
    (hnonce : nonce.toList.length = 16) :
    shownJson.readEnvelope (shownJson.envelopeText ⟨1, ephPub, nonce, ct⟩)
      = some ⟨1, ephPub, nonce, ct⟩ := by
  have hhead : "\x7b\"v\":".toList ++ (Decimal.numeral (1 : UInt8).toNat ++ ",\"eph_pub\":\"".toList)
      = "\x7b\"v\":1,\"eph_pub\":\"".toList := by decide +kernel
  have hend : "\"\x7d".toList = ['"', '\x7d'] := by decide +kernel
  have hv : "\x7b\"v\":1,\"eph_pub\":\"".toList.length = 18 := by decide +kernel
  have hn : "\",\"nonce\":\"".toList.length = 11 := by decide +kernel
  have hc : "\",\"ct\":\"".toList.length = 8 := by decide +kernel
  have htext : (shownJson.envelopeText ⟨1, ephPub, nonce, ct⟩).toList
      = "\x7b\"v\":1,\"eph_pub\":\"".toList ++ (ephPub.toList ++ ("\",\"nonce\":\"".toList
        ++ (nonce.toList ++ ("\",\"ct\":\"".toList ++ (ct.toList ++ ['"', '\x7d']))))) := by
    rw [← hhead, ← hend]
    simp only [ExportJson.envelopeText, String.toList_append, String.toList_ofList,
      List.append_assoc]
  -- the reader counts from the start of the text, the lemmas from one part to the next
  have hnonceAt (text : List Char) : text.drop 73 = ((text.drop 18).drop 44).drop 11 := by
    rw [List.drop_drop, List.drop_drop]
  have hctAt (text : List Char) : text.drop 97 = ((text.drop 73).drop 16).drop 8 := by
    rw [List.drop_drop, List.drop_drop]
  dsimp only [ExportJson.readEnvelope]
  rw [htext, hctAt, hnonceAt, List.take_left' hv, if_pos rfl, List.drop_left' hv,
    List.take_left' hpub, List.drop_left' hpub, List.drop_left' hn, List.take_left' hnonce,
    List.drop_left' hnonce, List.drop_left' hc]
  simp

theorem oneExport_serde : oneExport.Serde where
  payload := (congrArg ExportJson.readPayload (if_pos rfl)).trans (if_pos rfl)
  envelope ct _ := by
    refine readEnvelope_envelopeText ?_ ?_
    · rw [String.toList_ofList]
      decide +kernel
    · rw [String.toList_ofList]
      decide +kernel

theorem length_file_oneExport : (utf8 oneExport.file).length ≤ maxExportFileBytes := by
  obtain ⟨-, -, ct, hct, hfile⟩ := oneExport.sealed
  rw [encrypt_shown] at hct
  cases hct
  rw [hfile]
  simp only [ExportJson.envelopeText, Export.envelope, length_utf8_append, length_utf8_ofList]
  decide +kernel

/-- Nothing but what was sealed opens of a file. -/
theorem unforged_shown {e : Export} (hserde : e.Serde) {devicePriv : Key32}
    (hfor : e.receiverPub = ExchangeCrypto.publicKey devicePriv) :
    Unforged [e] devicePriv e.file := by
  obtain ⟨ct, hct, henvelope⟩ := readEnvelope_file hserde
  refine ⟨fun ephPub nonce ct' plaintext hread hopen => ?_,
    fun ephPub nonce ct' hread e' he' _ => ?_⟩
  · cases henvelope.symm.trans hread
    have hkey := (deviceKey_ephPub hfor).2
    rw [hkey] at hopen
    exact ⟨e, List.mem_cons_self, hkey.symm, (LargeFile.shown_decrypt hct hopen).2⟩
  · cases henvelope.symm.trans hread
    cases List.mem_singleton.mp he'
    rw [hfor]

theorem import_exported_oneExport :
    importPayload (keyOf 2) oneExport.file = .ok onePayload
      ∧ onePayload.WellFormed
      ∧ ∃ e ∈ [oneExport], e.receiverPub = keyOf 2 ∧ e.payload = onePayload := by
  have hserde : ∀ e ∈ [oneExport], e.Serde := by
    intro e he
    cases List.mem_singleton.mp he
    exact oneExport_serde
  have hread := (import_exported hserde).2 oneExport List.mem_cons_self rfl length_file_oneExport
  exact ⟨hread, (import_exported hserde).1 _ _ (unforged_shown oneExport_serde rfl) hread⟩

end Example

end ProfileExport

end Paranoia
