import Paranoia.Client.EphemeralFile
import Paranoia.Cover.Engine
import Paranoia.Lib.BigEndian

/-!
# The keys of a company

A company deals the keys of the dialogues out to its employees. The panel seals them with what it
shares with the employee, and a node keeps them. Besides the key that comes out of this, a blob is
bound to the employee, to its version and to what it is for: the whole keyring, the roster, or one
dialogue. The employee gets it from the node and opens it for what has been asked for; the version is
not looked at. The key derivation and the reading of JSON are libraries, and so parameters.
-/

namespace Paranoia

/-- HKDF with SHA-256, 32 bytes of it: salt, input, info. -/
class Hkdf where
  expand : List UInt8 → List UInt8 → List UInt8 → Key32

/-- What serde reads in a text, and the text in which a node writes a blob. -/
class SerdeJson where
  fromStr : String → Option Json
  blobText : String → String
  fromStr_blobText : ∀ blobB64, fromStr (blobText blobB64) = some (.obj [("blob_b64", .str blobB64)])

namespace Corp

def magic : List UInt8 := utf8 "PCB1"

def encInfo : List UInt8 := utf8 "paranoia:corp:enc:v1"

def ctxKeyring : List UInt8 := []

def ctxRoster : List UInt8 := utf8 "roster"

def ctxDialoguePrefix : List UInt8 := utf8 "dlg:"

def ctxDialogue (partnerServerId : String) : List UInt8 := ctxDialoguePrefix ++ utf8 partnerServerId

def u64Le (n : UInt64) : List UInt8 := (BigEndian.bytes 8 n.toNat).reverse

def readU64Le (bytes : List UInt8) : UInt64 := UInt64.ofNat (BigEndian.ofBytes bytes.reverse)

/-! ## Blobs -/

section Blobs

variable [ChaCha20Poly1305] [Hkdf]

def encKey (psk : List UInt8) (serverId : String) : Key32 := Hkdf.expand (utf8 serverId) psk encInfo

def aad (serverId : String) (version : UInt64) (context : List UInt8) : List UInt8 :=
  magic ++ utf8 serverId ++ u64Le version ++ context

/-- The nonce is drawn. -/
def sealBlob (psk : List UInt8) (serverId : String) (version : UInt64) (context plaintext : List UInt8)
    (nonce : Vector UInt8 12) : Except String (List UInt8) :=
  if psk = [] then .error "empty psk"
  else
    match ChaCha20Poly1305.encrypt (encKey psk serverId) nonce.toList (aad serverId version context)
        plaintext with
    | none => .error "corp seal"
    | some ct => .ok (magic ++ u64Le version ++ nonce.toList ++ ct)

def openBlob (psk : List UInt8) (serverId : String) (context blob : List UInt8) :
    Except String (UInt64 × List UInt8) :=
  if blob.length < 4 + 8 + 12 + 16 then .error "corp blob too short"
  else if blob.take 4 ≠ magic then .error "corp blob bad magic"
  else
    let version := readU64Le ((blob.drop 4).take 8)
    match ChaCha20Poly1305.decrypt (encKey psk serverId) ((blob.drop 12).take 12)
        (aad serverId version context) (blob.drop 24) with
    | none => .error "corp open: wrong psk or tampered blob"
    | some plaintext => .ok (version, plaintext)

end Blobs

/-! ## Getting a blob -/

/-- What there is of an employee. -/
inductive Resource where
  | keyring
  | roster
  | dialogue (partnerServerId : String)
deriving DecidableEq

/-- The context that the blob is opened with. -/
def Resource.context : Resource → List UInt8
  | .keyring => ctxKeyring
  | .roster => ctxRoster
  | .dialogue partnerServerId => ctxDialogue partnerServerId

/-- `String::from_utf8`. -/
def fromUtf8 (bytes : List UInt8) : Option String := String.fromUTF8? ⟨bytes.toArray⟩

/-- The status and the text of an answer, or what was wrong with the request. -/
abbrev Answer := Except String (Nat × String)

variable [ChaCha20Poly1305] [Hkdf] [SerdeJson]

/-- What is made of the answer for a blob; there may be none yet. -/
def fetchBlob (signingKeyB64 : String) (answer : Answer) : Except String (Option (List UInt8)) :=
  match decodeB64Bytes signingKeyB64 with
  | none => .error "invalid_signing_key"
  | some seed =>
      if seed.length ≠ 32 then .error "invalid_signing_key"
      else
        match answer with
        | .error e => .error e
        | .ok (status, text) =>
            if status = 404 then .ok none
            else if status ≠ 200 then
              .error ("http " ++ String.ofList (Decimal.numeral status) ++ ": " ++ text)
            else
              match SerdeJson.fromStr text with
              | none => .error "bad_response"
              | some v =>
                  let blobB64 := ((v.get [.key "blob_b64"]).bind asStr).getD ""
                  if blobB64 = "" then .ok none
                  else
                    match decodeB64Bytes blobB64 with
                    | none => .error "invalid_blob_b64"
                    | some blob => .ok (some blob)

/-- The blob that was asked for, opened. -/
def fetch (resource : Resource) (serverId signingKeyB64 pskB64 : String) (answer : Answer) :
    Except String String :=
  match decodeB64Bytes pskB64 with
  | none => .error "invalid_psk"
  | some psk =>
      match fetchBlob signingKeyB64 answer with
      | .error e => .error e
      | .ok none => .ok ""
      | .ok (some blob) =>
          match openBlob psk serverId resource.context blob with
          | .error e => .error e
          | .ok (_, plaintext) =>
              match fromUtf8 plaintext with
              | none => .error "bad_utf8"
              | some text => .ok text

def corpSync : String → String → String → Answer → Except String String := fetch .keyring

def corpFetchRoster : String → String → String → Answer → Except String String := fetch .roster

def corpFetchDialogue (serverId partnerServerId : String) :
    String → String → Answer → Except String String := fetch (.dialogue partnerServerId) serverId

end Corp

end Paranoia
