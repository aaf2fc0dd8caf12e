import Paranoia.Client.CorpBlob
import Paranoia.Client.Dialogs

/-!
# Exporting profiles

A profile is taken to another device in a file. What goes into it is checked when it is written and
once more when it is read: there are limits on everything, and no name and no number occurs twice.
The file is sealed for the public key of the device that it is for, with a key made for this file
alone. Reading and writing JSON is a library and so a parameter.
-/

namespace Paranoia

structure ExportKeyEntry where
  startSeq : UInt64
  key : String
deriving DecidableEq

structure ExportDialogue where
  peer : String
  peerServerId : Option String
  keyring : List ExportKeyEntry
deriving DecidableEq

structure ExportServer where
  url : String
  username : String
  signingKeyB64 : String
  dialogues : List ExportDialogue
deriving DecidableEq

structure ExportAdminServer where
  url : String
  adminPrivateKeyB64 : String
deriving DecidableEq

inductive ExportProfileType where
  | client | admin | full
deriving DecidableEq

structure ExportPayload where
  formatVersion : UInt8
  profileType : ExportProfileType
  servers : List ExportServer
  adminServers : List ExportAdminServer
deriving DecidableEq

structure ExportPayloadStats where
  servers : Nat
  adminServers : Nat
  dialogues : Nat
  keyEntries : Nat
deriving DecidableEq

structure EciesEnvelope where
  v : UInt8
  ephPub : String
  nonce : String
  ct : String
deriving DecidableEq

/-- What serde writes for an envelope and for a payload, and what it reads in a text. -/
class ExportJson where
  envelopeText : EciesEnvelope → String
  readEnvelope : String → Option EciesEnvelope
  payloadBytes : ExportPayload → List UInt8
  readPayload : List UInt8 → Option ExportPayload

namespace ProfileExport

def eciesVersion : UInt8 := 1

def hkdfInfo : List UInt8 := utf8 "Paranoia ECIES v1"

def exportPayloadVersion : UInt8 := 1

def maxExportServers : Nat := 16

def maxExportAdminServers : Nat := 16

def maxExportDialogues : Nat := 1024

def maxExportKeyEntries : Nat := 8192

def maxExportFileBytes : Nat := 16 * 1024 * 1024

/-! ## What a payload may be -/

def decodeFixedB64 (value : String) (expectedLen : Nat) : Except String (List UInt8) :=
  match decodeB64Bytes (Dialogs.trimmed value) with
  | none => .error "invalid base64"
  | some decoded =>
      if decoded.length ≠ expectedLen then .error "invalid decoded length" else .ok decoded

/-- Any error is replaced. -/
def context {α : Type} (x : Except String α) (message : String) : Except String α :=
  x.mapError fun _ => message

/-- The entries of a dialogue, after those with `startSeqs`. -/
def validateKeyring (startSeqs : List UInt64) : List ExportKeyEntry → Except String Unit
  | [] => .ok ()
  | entry :: rest => do
      bailIf (entry.startSeq = 0) "invalid export keyring start_seq"
      bailIf (entry.startSeq ∈ startSeqs) "duplicate export keyring start_seq"
      let _ ← context (decodeFixedB64 entry.key 32) "invalid export dialogue key"
      validateKeyring (entry.startSeq :: startSeqs) rest

/-- The dialogues of a server, after those with `peers`. -/
def validateDialogues (stats : ExportPayloadStats) (peers : List String) :
    List ExportDialogue → Except String ExportPayloadStats
  | [] => .ok stats
  | dialogue :: rest => do
      bailIf (Dialogs.trimmed dialogue.peer = "") "empty export dialogue peer"
      bailIf (dialogue.peer ∈ peers) "duplicate export dialogue peer"
      bailIf (dialogue.keyring = []) "empty export dialogue keyring"
      bailIf (maxExportKeyEntries < stats.keyEntries + dialogue.keyring.length)
        "too many export keyring entries"
      validateKeyring [] dialogue.keyring
      validateDialogues { stats with keyEntries := stats.keyEntries + dialogue.keyring.length }
        (dialogue.peer :: peers) rest

def validateServers (stats : ExportPayloadStats) :
    List ExportServer → Except String ExportPayloadStats
  | [] => .ok stats
  | server :: rest => do
      bailIf (Dialogs.trimmed server.url = "" ∨ Dialogs.trimmed server.username = "")
        "empty export server identity"
      let _ ← context (decodeFixedB64 server.signingKeyB64 32) "invalid client signing key"
      bailIf (maxExportDialogues < stats.dialogues + server.dialogues.length)
        "too many export dialogues"
      let stats ← validateDialogues
        { stats with dialogues := stats.dialogues + server.dialogues.length } [] server.dialogues
      validateServers stats rest

def validateAdmins : List ExportAdminServer → Except String Unit
  | [] => .ok ()
  | admin :: rest => do
      bailIf (Dialogs.trimmed admin.url = "") "empty export admin server url"
      let _ ← context (decodeFixedB64 admin.adminPrivateKeyB64 32)
        "invalid export admin private key"
      validateAdmins rest

def validateExportPayload (payload : ExportPayload) : Except String ExportPayloadStats := do
  bailIf (payload.formatVersion ≠ exportPayloadVersion) "unsupported export payload version"
  bailIf (maxExportServers < payload.servers.length) "too many export servers"
  bailIf (maxExportAdminServers < payload.adminServers.length) "too many export admin servers"
  let stats ← validateServers ⟨payload.servers.length, payload.adminServers.length, 0, 0⟩
    payload.servers
  validateAdmins payload.adminServers
  pure stats

/-! ## Sealing for a device -/

section Ecies

variable {δ κ : Type} [ExchangeCrypto δ κ] [ChaCha20Poly1305] [Hkdf]

def deriveEncKey (shared ephPub receiverPub : Key32) : Key32 :=
  Hkdf.expand (ephPub.1 ++ receiverPub.1) shared.1 hkdfInfo

variable [ExportJson]

/-- The private key and the nonce are drawn. -/
def eciesEncrypt (receiverPub : Key32) (plaintext : List UInt8) (ephPriv : Key32)
    (nonce : Vector UInt8 12) : Except String String := do
  let ephPub := ExchangeCrypto.publicKey ephPriv
  let shared := ExchangeCrypto.diffieHellman ephPriv receiverPub
  bailIf (∀ b ∈ shared.1, b = 0) "non-contributory ECDH shared secret"
  match ChaCha20Poly1305.encrypt (deriveEncKey shared ephPub receiverPub) nonce.toList []
      plaintext with
  | none => .error "ECIES encryption failed"
  | some ct =>
      .ok (ExportJson.envelopeText ⟨eciesVersion, String.ofList (encodeB64 ephPub.1),
        String.ofList (encodeB64 nonce.toList), String.ofList (encodeB64 ct)⟩)

/-- The bytes of a text in base64, of which there are so many. -/
def decodeField (text field : String) (expectedLen : Nat) :
    Except String { bytes : List UInt8 // bytes.length = expectedLen } :=
  match decodeB64Bytes text with
  | none => .error ("invalid " ++ field ++ " base64")
  | some bytes =>
      if h : bytes.length = expectedLen then .ok ⟨bytes, h⟩
      else .error ("invalid " ++ field ++ " length")

/-- The public key of the file, the nonce and what is sealed. -/
def readEnvelope (jsonEnvelope : String) : Except String (Key32 × List UInt8 × List UInt8) :=
  match ExportJson.readEnvelope jsonEnvelope with
  | none => .error "invalid ECIES envelope JSON"
  | some envelope => do
      bailIf (envelope.v ≠ eciesVersion)
        ("unsupported ECIES version " ++ String.ofList (Decimal.numeral envelope.v.toNat))
      let ephPub ← decodeField envelope.ephPub "eph_pub" 32
      let nonce ← decodeField envelope.nonce "nonce" 12
      match decodeB64Bytes envelope.ct with
      | none => .error "invalid ciphertext base64"
      | some ct => .ok (ephPub, nonce.1, ct)

/-- The key of a file, as the device makes it out. -/
def deviceKey (devicePriv ephPub : Key32) : Key32 :=
  deriveEncKey (ExchangeCrypto.diffieHellman devicePriv ephPub) ephPub
    (ExchangeCrypto.publicKey devicePriv)

def eciesDecrypt (devicePriv : Key32) (jsonEnvelope : String) : Except String (List UInt8) := do
  let (ephPub, nonce, ct) ← readEnvelope jsonEnvelope
  bailIf (∀ b ∈ (ExchangeCrypto.diffieHellman devicePriv ephPub).1, b = 0)
    "non-contributory ECDH shared secret"
  match ChaCha20Poly1305.decrypt (deviceKey devicePriv ephPub) nonce [] ct with
  | none => .error "ECIES decryption failed"
  | some plaintext => .ok plaintext

/-! ## The file -/

/-- The text of the file, once the payload has been put together. -/
def cmdExport (receiverPub : Key32) (payload : ExportPayload) (ephPriv : Key32)
    (nonce : Vector UInt8 12) : Except String String := do
  let _ ← validateExportPayload payload
  eciesEncrypt receiverPub (ExportJson.payloadBytes payload) ephPriv nonce

/-- What the file has brought, before it is merged into the stores. -/
def importPayload (devicePriv : Key32) (file : String) : Except String ExportPayload := do
  bailIf (maxExportFileBytes < (utf8 file).length) "export file is larger than 16 MiB"
  let plaintext ← context (eciesDecrypt devicePriv file) "failed to decrypt export file"
  match ExportJson.readPayload plaintext with
  | none => .error "invalid export payload JSON"
  | some payload => do
      let _ ← validateExportPayload payload
      pure payload

end Ecies

end ProfileExport

end Paranoia
