import Mathlib.Logic.Function.Basic
import Paranoia.Client.CallController
import Paranoia.Lib.BigEndian
import Paranoia.Server.Signing

/-!
# Media sessions

A session seals voice and video under keys of its own and sends them as datagrams, from the moment
it knows where to. Its keys are derived from the key of the dialogue and from an identifier which
the caller draws at random and puts in the offer. Derivation and sealing are a library and so a
parameter. What is received, and what is sent to find an address or a relay, is left out.
-/

namespace Paranoia

inductive StreamId where
  | voice
  | video
deriving DecidableEq

inductive Direction where
  | initiatorToResponder
  | responderToInitiator
deriving DecidableEq

inductive Role where
  | initiator
  | responder
deriving DecidableEq

def StreamId.asByte : StreamId → UInt8
  | voice => 0
  | video => 1

def Direction.asByte : Direction → UInt8
  | initiatorToResponder => 0
  | responderToInitiator => 1

def Role.txDirection : Role → Direction
  | initiator => .initiatorToResponder
  | responder => .responderToInitiator

/-! ## Keys -/

/-- Derivation has no collisions: of salts and keys of the lengths of a session, and of labels. -/
class VoipCrypto (κ : Type) where
  /-- Extract with a salt, and expand under a label. -/
  hkdf : List Nat → List Nat → String → κ
  /-- `none` for what cannot be sealed. -/
  aeadEncrypt : κ → List UInt8 → List UInt8 → List UInt8 → Option (List UInt8)
  hkdf_inj : ∀ salt key info salt' key' info', salt.length = 16 → key.length = 32 →
    salt'.length = 16 → key'.length = 32 → hkdf salt key info = hkdf salt' key' info' →
    salt = salt' ∧ key = key' ∧ info = info'
  hkdf_info : ∀ salt key info info', hkdf salt key info = hkdf salt key info' → info = info'

def hkdfInfo : StreamId → Bool → String
  | .voice, true => "paranoia-voice-tx"
  | .voice, false => "paranoia-voice-rx"
  | .video, true => "paranoia-video-tx"
  | .video, false => "paranoia-video-rx"

structure SessionKeys (κ : Type) where
  tx : κ
  rx : κ

/-- What the keys of a session depend on. -/
structure SessionParams where
  role : Role
  master : List Nat
  sessionId : List Nat
deriving DecidableEq

variable {κ : Type} [VoipCrypto κ]

/-- What the initiator sends under, the responder receives under, and the other way round. -/
def SessionKeys.derive (params : SessionParams) (stream : StreamId) : SessionKeys κ :=
  match params.role with
  | .initiator =>
      ⟨VoipCrypto.hkdf params.sessionId params.master (hkdfInfo stream true),
        VoipCrypto.hkdf params.sessionId params.master (hkdfInfo stream false)⟩
  | .responder =>
      ⟨VoipCrypto.hkdf params.sessionId params.master (hkdfInfo stream false),
        VoipCrypto.hkdf params.sessionId params.master (hkdfInfo stream true)⟩

/-- The lengths of a key and of an identifier. -/
def SessionParams.Sized (params : SessionParams) : Prop :=
  params.master.length = 32 ∧ params.sessionId.length = 16

/-- A key and an identifier as they are given, in base64. -/
def SessionParams.read (role : Role) (masterKeyB64 sessionIdB64 : String) : Option SessionParams :=
  match decodeB64 masterKeyB64.toList, decodeB64 sessionIdB64.toList with
  | some master, some sessionId =>
      if master.length = 32 ∧ sessionId.length = 16 then some ⟨role, master, sessionId⟩ else none
  | _, _ => none

/-! ## Datagrams -/

def buildNonce (stream : StreamId) (direction : Direction) (seq : Nat) : List UInt8 :=
  [stream.asByte, direction.asByte] ++ BigEndian.bytes 8 seq ++ [0, 0]

def voipVersion : UInt8 := 1

def comfortNoise : UInt8 := 1

def frameStart : UInt8 := 2

def reservedMask : UInt8 := ~~~(comfortNoise ||| frameStart)

structure VoipHeader where
  streamId : StreamId
  flags : UInt8
  sequence : Nat
  rtpTimestamp : Nat
deriving DecidableEq

def VoipHeader.encode (h : VoipHeader) : List UInt8 :=
  [voipVersion, h.streamId.asByte, h.flags, 0] ++ BigEndian.bytes 8 h.sequence
    ++ BigEndian.bytes 4 h.rtpTimestamp

/-- A datagram, with what it was sealed under. -/
structure SealedDatagram (κ : Type) where
  key : κ
  nonce : List UInt8
  header : VoipHeader
  payload : List UInt8
  bytes : List UInt8
deriving DecidableEq

def pack (header : VoipHeader) (key : κ) (direction : Direction) (payload : List UInt8) :
    Option (SealedDatagram κ) :=
  let nonce := buildNonce header.streamId direction header.sequence
  (VoipCrypto.aeadEncrypt key nonce header.encode payload).map
    (fun ciphertext => ⟨key, nonce, header, payload, header.encode ++ ciphertext⟩)

/-! ## A session -/

structure VoipSession where
  params : SessionParams
  /-- The number of the next datagram of a stream. -/
  txSeq : StreamId → Nat
  peer : Option String

namespace VoipSession

def spawn (params : SessionParams) : VoipSession where
  params := params
  txSeq _ := 0
  peer := none

variable (s : VoipSession)

def key (stream : StreamId) : κ := (SessionKeys.derive s.params stream).tx

/-- A datagram is sealed once there is somebody to send it to, and only then counted. -/
def sendOn (header : VoipHeader) (payload : List UInt8) :
    VoipSession × Option (SealedDatagram κ) :=
  match s.peer with
  | none => (s, none)
  | some _ =>
      match pack header (s.key header.streamId) s.params.role.txDirection payload with
      | none => (s, none)
      | some d =>
          ({ s with
            txSeq := Function.update s.txSeq header.streamId
              (saturatingAdd (s.txSeq header.streamId) 1) }, some d)

end VoipSession

/-- What the loop of a session reacts to. -/
inductive VoipEvent where
  | voice (frame : List UInt8)
  | video (flags : UInt8) (rtpTimestamp : Nat) (payload : List UInt8)
  | keepalive
  /-- A route was set, or an authentic packet has come from this address. -/
  | peer (address : String)
deriving DecidableEq

/-- The stream an event seals something for. -/
def VoipEvent.stream? : VoipEvent → Option StreamId
  | voice _ | keepalive => some .voice
  | video _ _ _ => some .video
  | peer _ => none

/-- `seq as u32` times 960, wrapping. -/
def voiceTimestamp (seq : Nat) : Nat := seq % 2 ^ 32 * 960 % 2 ^ 32

def VoipSession.handle (s : VoipSession) : VoipEvent → VoipSession × Option (SealedDatagram κ)
  | .voice frame =>
      s.sendOn ⟨.voice, 0, s.txSeq .voice, voiceTimestamp (s.txSeq .voice)⟩ frame
  | .video flags rtpTimestamp payload =>
      s.sendOn ⟨.video, flags &&& ~~~reservedMask, s.txSeq .video, rtpTimestamp⟩ payload
  | .keepalive =>
      s.sendOn ⟨.voice, comfortNoise, s.txSeq .voice, voiceTimestamp (s.txSeq .voice)⟩ []
  | .peer address => ({ s with peer := some address }, none)

end Paranoia
