import Mathlib.Data.FinEnum
import Paranoia.Server.Signing

/-!
# Key exchange by QR code

Two phones show each other a code: an invitation, and a response to it. Each of them keeps a state
with its own private key, and computes the session key from its state and what it has read off the
other screen. The curve, the hash and the key derivation are libraries and so a parameter; their
outputs are values of their own, of which a session key is one.
-/

namespace Paranoia

/-- A key of 32 bytes. -/
abbrev Key32 := { bytes : List UInt8 // bytes.length = 32 }

/-- What the exchange is built from. Hashing and derivation have no collisions, both sides of an
agreement get the same secret, and no secret agreed on with a public key is zero. -/
class ExchangeCrypto (δ κ : outParam Type) where
  publicKey : Key32 → Key32
  diffieHellman : Key32 → Key32 → Key32
  hash : List UInt8 → δ
  /-- The number made of the first three bytes of a hash. -/
  leading : δ → Nat
  /-- Extract and expand, with the hash for a salt. -/
  derive : δ → Key32 → κ
  hash_injective : Function.Injective hash
  derive_injective : ∀ h s h' s', derive h s = derive h' s' → h = h' ∧ s = s'
  diffieHellman_comm : ∀ a b, diffieHellman a (publicKey b) = diffieHellman b (publicKey a)
  contributory : ∀ a b, ∃ x ∈ (diffieHellman a (publicKey b)).1, x ≠ 0

/-! ## Base64 -/

def base64Char (n : Nat) : Char :=
  if n < 26 then Char.ofNat ('A'.toNat + n)
  else if n < 52 then Char.ofNat ('a'.toNat + (n - 26))
  else if n < 62 then Char.ofNat ('0'.toNat + (n - 52))
  else if n = 62 then '+' else '/'

def encodeB64 : List UInt8 → List Char
  | [] => []
  | [a] => [base64Char (a.toNat / 4), base64Char (a.toNat % 4 * 16), '=', '=']
  | [a, b] =>
      [base64Char (a.toNat / 4), base64Char (a.toNat % 4 * 16 + b.toNat / 16),
        base64Char (b.toNat % 16 * 4), '=']
  | a :: b :: c :: rest =>
      [base64Char (a.toNat / 4), base64Char (a.toNat % 4 * 16 + b.toNat / 16),
        base64Char (b.toNat % 16 * 4 + c.toNat / 64), base64Char (c.toNat % 64)] ++ encodeB64 rest

def decodeKey32 (encoded field : String) : Except String Key32 :=
  match decodeB64 encoded.toList with
  | none => .error ("invalid " ++ field ++ " base64")
  | some bytes =>
      if h : bytes.length = 32 then .ok ⟨bytes.map UInt8.ofNat, by rw [List.length_map, h]⟩
      else .error ("invalid " ++ field ++ " length")

/-! ## States and codes -/

def exchangeVersion : Nat := 1

def exchangeTtlSecs : Int := 300

def exchangeProtocol : String := "paranoia.qr-ecdh"

def roleInitiator : String := "initiator"

def roleResponder : String := "responder"

def ecdhAlg : String := "X25519"

def kdfAlg : String := "HKDF-SHA256"

structure ExchangePayload where
  protocol : String
  version : Nat
  role : String
  exchangeId : String
  initiatorId : String
  responderId : String
  publicKeyB64 : String
  expiresAtUnix : Int
  ecdh : String
  kdf : String
deriving DecidableEq

structure ExchangeState where
  protocol : String
  version : Nat
  role : String
  exchangeId : String
  initiatorId : String
  responderId : String
  privateKeyB64 : String
  publicKeyB64 : String
  expiresAtUnix : Int
  ecdh : String
  kdf : String
deriving DecidableEq

structure ExchangeBundle where
  state : ExchangeState
  payload : ExchangePayload
deriving DecidableEq

/-- The session key is kept as it was derived; its base64 is what the source stores. -/
structure CompletedExchange (κ : Type) where
  exchangeId : String
  initiatorId : String
  responderId : String
  sessionKey : κ
  fingerprint : String
deriving DecidableEq

/-! ## Checks -/

/-- Give up with a message. -/
def bailIf (p : Prop) [Decidable p] (message : String) : Except String Unit :=
  if p then .error message else .ok ()

def validateId (name id : String) : Except String Unit := bailIf (id = "") (name ++ " is empty")

def validateStaticFields (protocol : String) (version : Nat) (ecdh kdf : String) :
    Except String Unit := do
  bailIf (protocol ≠ exchangeProtocol) "unsupported exchange protocol"
  bailIf (version ≠ exchangeVersion) "unsupported exchange version"
  bailIf (ecdh ≠ ecdhAlg ∨ kdf ≠ kdfAlg) "unsupported exchange crypto parameters"

def validateNotExpired (expiresAtUnix nowUnix : Int) : Except String Unit :=
  bailIf (expiresAtUnix < nowUnix) "exchange payload expired"

/-- Only an invitation may leave the responder open. -/
def validatePayload (payload : ExchangePayload) (expectedRole : String) (nowUnix : Int) :
    Except String Unit := do
  validateStaticFields payload.protocol payload.version payload.ecdh payload.kdf
  bailIf (payload.role ≠ expectedRole) "unexpected exchange payload role"
  validateId "exchange_id" payload.exchangeId
  validateId "initiator_id" payload.initiatorId
  bailIf (expectedRole ≠ roleInitiator ∧ payload.responderId = "") "responder_id is empty"
  let _ ← decodeKey32 payload.publicKeyB64 "public_key"
  validateNotExpired payload.expiresAtUnix nowUnix

def validateState (state : ExchangeState) (nowUnix : Int) : Except String Unit := do
  validateStaticFields state.protocol state.version state.ecdh state.kdf
  bailIf (state.role ≠ roleInitiator ∧ state.role ≠ roleResponder) "unexpected exchange state role"
  validateId "exchange_id" state.exchangeId
  validateId "initiator_id" state.initiatorId
  bailIf (state.role ≠ roleInitiator ∧ state.responderId = "") "responder_id is empty"
  let _ ← decodeKey32 state.privateKeyB64 "private_key"
  let _ ← decodeKey32 state.publicKeyB64 "public_key"
  validateNotExpired state.expiresAtUnix nowUnix

def validatePair (localState : ExchangeState) (peerPayload : ExchangePayload) :
    Except String Unit := do
  bailIf (localState.exchangeId ≠ peerPayload.exchangeId) "exchange_id mismatch"
  bailIf (localState.initiatorId ≠ peerPayload.initiatorId) "initiator_id mismatch"
  bailIf (localState.responderId ≠ "" ∧ peerPayload.responderId ≠ ""
    ∧ localState.responderId ≠ peerPayload.responderId) "responder_id mismatch"

/-! ## The transcript -/

/-- The UTF-8 of a text. -/
def utf8 (s : String) : List UInt8 := s.toByteArray.data.toList

/-- What is hashed: the version, the names, and the keys of both sides. -/
def transcript (exchangeId initiatorId responderId : String) (initiatorPub responderPub : Key32) :
    List UInt8 :=
  UInt8.ofNat exchangeVersion
    :: (utf8 exchangeId ++ (utf8 initiatorId ++ (utf8 responderId
      ++ (initiatorPub.1 ++ responderPub.1))))

section Exchange

variable {δ κ : Type} [ExchangeCrypto δ κ]

def transcriptHashB64 (exchangeId initiatorId responderId initiatorPubB64 responderPubB64 : String) :
    Except String δ := do
  let initiatorPub ← decodeKey32 initiatorPubB64 "initiator_public_key"
  let responderPub ← decodeKey32 responderPubB64 "responder_public_key"
  return ExchangeCrypto.hash (transcript exchangeId initiatorId responderId initiatorPub
    responderPub)

/-- Six digits. -/
def fingerprintFromHash (hash : δ) : String :=
  String.ofList (Decimal.padded 6 (ExchangeCrypto.leading hash % 1000000))

/-! ## The exchange -/

/-- The state and the code of one side, with the private key it has drawn. -/
def bundle (role exchangeId initiatorId responderId : String) (privateKey : Key32)
    (expiresAtUnix : Int) : ExchangeBundle where
  state :=
    { protocol := exchangeProtocol, version := exchangeVersion, role := role
      exchangeId := exchangeId, initiatorId := initiatorId, responderId := responderId
      privateKeyB64 := String.ofList (encodeB64 privateKey.1)
      publicKeyB64 := String.ofList (encodeB64 (ExchangeCrypto.publicKey privateKey).1)
      expiresAtUnix := expiresAtUnix, ecdh := ecdhAlg, kdf := kdfAlg }
  payload :=
    { protocol := exchangeProtocol, version := exchangeVersion, role := role
      exchangeId := exchangeId, initiatorId := initiatorId, responderId := responderId
      publicKeyB64 := String.ofList (encodeB64 (ExchangeCrypto.publicKey privateKey).1)
      expiresAtUnix := expiresAtUnix, ecdh := ecdhAlg, kdf := kdfAlg }

/-- An invitation, with the identifier and the private key that were drawn for it. -/
def createInvitation (initiatorId exchangeId : String) (privateKey : Key32) (nowUnix : Int) :
    Except String ExchangeBundle := do
  validateId "initiator_id" initiatorId
  return bundle roleInitiator exchangeId initiatorId "" privateKey (nowUnix + exchangeTtlSecs)

def createResponse (invitation : ExchangePayload) (responderId : String) (privateKey : Key32)
    (nowUnix : Int) : Except String ExchangeBundle := do
  validatePayload invitation roleInitiator nowUnix
  validateId "responder_id" responderId
  bailIf (invitation.responderId ≠ "" ∧ invitation.responderId ≠ responderId)
    "responder_id mismatch"
  return bundle roleResponder invitation.exchangeId invitation.initiatorId responderId privateKey
    (nowUnix + exchangeTtlSecs)

def completeExchange (localState : ExchangeState) (peerPayload : ExchangePayload) (nowUnix : Int) :
    Except String (CompletedExchange κ) := do
  validateState localState nowUnix
  let expectedPeerRole := if localState.role = roleInitiator then roleResponder else roleInitiator
  validatePayload peerPayload expectedPeerRole nowUnix
  validatePair localState peerPayload
  let localPrivate ← decodeKey32 localState.privateKeyB64 "private_key"
  bailIf (String.ofList (encodeB64 (ExchangeCrypto.publicKey localPrivate).1)
    ≠ localState.publicKeyB64) "local public key does not match private key"
  let peerPublic ← decodeKey32 peerPayload.publicKeyB64 "public_key"
  let shared := ExchangeCrypto.diffieHellman localPrivate peerPublic
  bailIf (∀ x ∈ shared.1, x = 0) "non-contributory x25519 shared secret"
  let initiatorPub :=
    if localState.role = roleInitiator then localState.publicKeyB64 else peerPayload.publicKeyB64
  let responderPub :=
    if localState.role = roleInitiator then peerPayload.publicKeyB64 else localState.publicKeyB64
  -- an open invitation has left the responder to be learnt from the response
  let responderId :=
    if localState.role = roleInitiator then peerPayload.responderId else localState.responderId
  let transcriptHash ← transcriptHashB64 localState.exchangeId localState.initiatorId responderId
    initiatorPub responderPub
  return {
    exchangeId := localState.exchangeId
    initiatorId := localState.initiatorId
    responderId := responderId
    sessionKey := ExchangeCrypto.derive transcriptHash shared
    fingerprint := fingerprintFromHash transcriptHash }

end Exchange

end Paranoia
