import Paranoia.Client.ReplayWindow
import Paranoia.Client.Voip
import Paranoia.Stun

/-!
# What a media session receives

Both sides of a call have keys, a replay window and a channel to the application for each stream.
A datagram comes from the socket, or a relay has wrapped it and names the address it is from; it
is opened under the keys of the stream its second byte tells. What opens and is new sets
the address of the peer and goes into the channel, unless that is full.
-/

namespace Paranoia

def Role.rxDirection : Role → Direction
  | .initiator => .responderToInitiator
  | .responder => .initiatorToResponder

/-- The other side of the call. -/
def Role.other : Role → Role
  | .initiator => .responder
  | .responder => .initiator

def StreamId.ofByte (b : UInt8) : Option StreamId :=
  if b = 0 then some .voice else if b = 1 then some .video else none

/-! ## Reading a datagram -/

def voipHeaderLen : Nat := 16

def voipTagLen : Nat := 16

def maxDatagram : Nat := 1200

/-- A byte as `#04x` shows it. -/
def hexByte (b : UInt8) : String :=
  "0x" ++ String.ofList [Nat.digitChar (b.toNat / 16), Nat.digitChar (b.toNat % 16)]

def VoipHeader.decode (bytes : List UInt8) : Except String VoipHeader :=
  if bytes.length < voipHeaderLen then .error "VoIP packet shorter than header"
  else if byteAt bytes 0 ≠ voipVersion then
    .error ("Unsupported VoIP version: " ++ toString (byteAt bytes 0))
  else
    match StreamId.ofByte (byteAt bytes 1) with
    | none => .error ("Unknown VoIP stream id: " ++ toString (byteAt bytes 1))
    | some streamId =>
        let flags := byteAt bytes 2
        if flags &&& reservedMask ≠ 0 then
          .error ("Reserved VoIP flag bits set: " ++ hexByte flags)
        else if byteAt bytes 3 ≠ 0 then .error "Reserved VoIP header byte non-zero"
        else .ok
          { streamId := streamId
            flags := flags
            sequence := BigEndian.ofBytes (slice bytes 4 8)
            rtpTimestamp := BigEndian.ofBytes (slice bytes 12 4) }

/-- What was sealed opens, and is longer by the tag. -/
class VoipAead (κ : Type) extends VoipCrypto κ where
  aeadDecrypt : κ → List UInt8 → List UInt8 → List UInt8 → Except String (List UInt8)
  aeadDecrypt_aeadEncrypt : ∀ key nonce aad plaintext ciphertext,
    aeadEncrypt key nonce aad plaintext = some ciphertext →
      aeadDecrypt key nonce aad ciphertext = .ok plaintext
  length_aeadEncrypt : ∀ key nonce aad plaintext ciphertext,
    aeadEncrypt key nonce aad plaintext = some ciphertext →
      ciphertext.length = plaintext.length + voipTagLen

variable {κ : Type} [VoipAead κ]

def unpack (bytes : List UInt8) (key : κ) (direction : Direction) :
    Except String (VoipHeader × List UInt8) :=
  if bytes.length < voipHeaderLen + voipTagLen then .error "VoIP packet too short"
  else
    match VoipHeader.decode (bytes.take voipHeaderLen) with
    | .error e => .error e
    | .ok header =>
        let nonce := buildNonce header.streamId direction header.sequence
        match VoipAead.aeadDecrypt key nonce (bytes.take voipHeaderLen)
            (bytes.drop voipHeaderLen) with
        | .error e => .error e
        | .ok plain => .ok (header, plain)

/-! ## The channels to the application -/

structure InboundFrame where
  stream : StreamId
  sequence : Nat
  rtpTimestamp : Nat
  flags : UInt8
  opus : List UInt8
deriving DecidableEq

/-- A bounded channel, whose receiver may have gone. -/
structure Inbound where
  capacity : Nat
  queue : List InboundFrame
  closed : Bool
deriving DecidableEq

inductive TrySend where
  | ok (ch : Inbound)
  | full
  | closed
deriving DecidableEq

def Inbound.trySend (ch : Inbound) (frame : InboundFrame) : TrySend :=
  if ch.closed then .closed
  else if ch.capacity ≤ ch.queue.length then .full
  else .ok { ch with queue := ch.queue ++ [frame] }

/-! ## A side of a call -/

structure MediaSide where
  /-- What it sends with, and the address of its peer. -/
  tx : VoipSession
  window : StreamId → ReplayWindow
  inbound : StreamId → Inbound
  /-- The numbers of each stream that were accepted, the last one first. -/
  accepted : StreamId → List UInt64
  /-- What the application has taken from each channel. -/
  taken : StreamId → List InboundFrame
  /-- The datagrams that were accepted, with the address each was from. -/
  arrived : List (VoipHeader × String)
  /-- The addresses the application has set. -/
  told : List String
  running : Bool

namespace MediaSide

/-- `inboundBuffer` is the capacity the session is started with. -/
def spawn (params : SessionParams) (inboundBuffer : Nat) : MediaSide where
  tx := .spawn params
  window _ := .new
  inbound
    | .voice => ⟨inboundBuffer, [], false⟩
    | .video => ⟨max inboundBuffer 256, [], false⟩
  accepted _ := []
  taken _ := []
  arrived := []
  told := []
  running := true

variable (s : MediaSide)

def rxKey (stream : StreamId) : κ := (SessionKeys.derive s.tx.params stream).rx

/-- A datagram that opened, with a number that is new. -/
def acceptFrom (header : VoipHeader) (window : ReplayWindow) (src : String) : MediaSide :=
  { s with
    window := Function.update s.window header.streamId window
    accepted := Function.update s.accepted header.streamId
      (UInt64.ofNat header.sequence :: s.accepted header.streamId)
    arrived := (header, src) :: s.arrived
    tx := if s.tx.peer = some src then s.tx else { s.tx with peer := some src } }

/-- Hand a frame to the application; a session whose application has gone ends. -/
def handOver (frame : InboundFrame) : MediaSide :=
  match (s.inbound frame.stream).trySend frame with
  | .ok ch => { s with inbound := Function.update s.inbound frame.stream ch }
  | .full => s
  | .closed => { s with running := false }

def processMediaDatagram (κ : Type) [VoipAead κ] (data : List UInt8) (src : String) : MediaSide :=
  if data.length < voipHeaderLen then s
  else
    match StreamId.ofByte (byteAt data 1) with
    | none => s
    | some peeked =>
        match unpack data (s.rxKey peeked : κ) s.tx.params.role.rxDirection with
        | .error _ => s
        | .ok (header, payload) =>
            if header.streamId ≠ peeked then s
            else
              match (s.window header.streamId).checkAndUpdate (UInt64.ofNat header.sequence) with
              | (false, _) => s
              | (true, window) =>
                  (s.acceptFrom header window src).handOver
                    { stream := header.streamId
                      sequence := header.sequence
                      rtpTimestamp := header.rtpTimestamp
                      flags := header.flags
                      opus := payload }

/-- What the socket receives: the rest of a long datagram is lost, and what looks like STUN is a
control message. -/
def recvFrom (κ : Type) [VoipAead κ] (bytes : List UInt8) (src : String) : MediaSide :=
  let data := bytes.take (maxDatagram + 512)
  if isStun data then s else s.processMediaDatagram κ data src

/-- The addresses the application has set, after an event. -/
def toldAfter : VoipEvent → List String
  | .peer address => address :: s.told
  | _ => s.told

/-- The application takes the next frame of a stream. -/
def take (stream : StreamId) : MediaSide :=
  match (s.inbound stream).queue with
  | [] => s
  | frame :: queue =>
      { s with
        inbound := Function.update s.inbound stream { s.inbound stream with queue := queue }
        taken := Function.update s.taken stream (s.taken stream ++ [frame]) }

/-- The application drops the receiver of a stream, and what waits in it. -/
def close (stream : StreamId) : MediaSide :=
  { s with
    inbound := Function.update s.inbound stream
      { s.inbound stream with queue := [], closed := true } }

/-- The frames of a stream that reached the application, in the order they came. -/
def heard (stream : StreamId) : List InboundFrame :=
  s.taken stream ++ (s.inbound stream).queue

end MediaSide

/-! ## A call -/

structure MediaWorld (κ : Type) where
  side : Role → MediaSide
  /-- What the two sides have sealed. -/
  sealings : List (SealedDatagram κ)

inductive MediaLabel where
  /-- Something to send, or an address the application sets. -/
  | media (r : Role) (e : VoipEvent)
  /-- The network delivers some bytes to a socket. -/
  | datagram (r : Role) (bytes : List UInt8) (src : String)
  /-- The relay delivers some bytes, as from an address. -/
  | indication (r : Role) (payload : List UInt8) (src : String)
  | take (r : Role) (stream : StreamId)
  | close (r : Role) (stream : StreamId)
deriving DecidableEq

/-- Numbers fit their types. -/
def VoipEvent.Bounded : VoipEvent → Prop
  | .video _ rtpTimestamp _ => rtpTimestamp < 2 ^ 32
  | .voice _ | .keepalive | .peer _ => True

instance (e : VoipEvent) : Decidable e.Bounded :=
  match e with
  | .voice _ | .video .. | .keepalive | .peer _ => by unfold VoipEvent.Bounded; infer_instance

namespace MediaWorld

/-- Two sides that share the key of their dialogue and the identifier of the call. -/
def init (master sessionId : List Nat) (inboundBuffer : Role → Nat) : MediaWorld κ where
  side r := .spawn ⟨r, master, sessionId⟩ (inboundBuffer r)
  sealings := []

variable (w : MediaWorld κ)

def put (r : Role) (s : MediaSide) : MediaWorld κ := { w with side := Function.update w.side r s }

def media (r : Role) (e : VoipEvent) : MediaWorld κ :=
  let s := w.side r
  let out := s.tx.handle e
  { (w.put r { s with tx := out.1, told := s.toldAfter e }) with
    sealings := out.2.toList ++ w.sealings }

def step : MediaLabel → Option (MediaWorld κ)
  | .media r e =>
      if (w.side r).running = true ∧ e.Bounded then some (w.media r e) else none
  | .datagram r bytes src =>
      if (w.side r).running then some (w.put r ((w.side r).recvFrom κ bytes src)) else none
  | .indication r payload src =>
      if (w.side r).running then some (w.put r ((w.side r).processMediaDatagram κ payload src))
      else none
  | .take r stream => some (w.put r ((w.side r).take stream))
  | .close r stream => some (w.put r ((w.side r).close stream))

end MediaWorld

end Paranoia
