import Paranoia.Client.MediaReceive
import Paranoia.Client.VideoReassembly

/-!
# The video of a call

The engine cuts what its camera films, and its session seals one packet after the other, under
numbers of its own. The engine of the other side takes what its session hands it, and puts it
together for its decoder. Voice, keepalives, addresses and the network go on beside.
-/

namespace Paranoia

/-- What the engine gives its session to send. -/
structure VideoOutboundPacket where
  flags : UInt8
  rtpTimestamp : Nat
  payload : Bytes
deriving DecidableEq

def VideoFragment.packet (f : VideoFragment) : VideoOutboundPacket where
  flags := f.flags
  rtpTimestamp := f.rtpTimestamp
  payload := f.payload

/-- A frame of video as the engine gets it. -/
def InboundFrame.fragment (frame : InboundFrame) : VideoFragment where
  payload := frame.opus
  sequence := frame.sequence
  rtpTimestamp := frame.rtpTimestamp
  flags := frame.flags

/-- What is pushed of these units; the numbers are the session's. -/
def CallEngine.packets (units : List (Bytes × Int)) : List VideoOutboundPacket :=
  (pushed 0 units).map VideoFragment.packet

/-- `teardownAll`, as far as video goes. -/
def CallEngine.VideoIn.teardown (e : CallEngine.VideoIn) : CallEngine.VideoIn :=
  { e with
    sessionGeneration := e.sessionGeneration + 1
    receivedVideoPacket := false
    hasDecoder := false
    decoderFailed := false
    reassembly := .empty }

structure VideoCall (κ : Type) where
  media : MediaWorld κ
  /-- What a camera has pushed and its session has not taken, oldest first. -/
  outbound : Role → List VideoOutboundPacket
  engine : Role → CallEngine.VideoIn
  /-- The generation of an engine that its session hands frames to. -/
  generation : Role → Nat
  /-- The units each side has filmed. -/
  filmed : Role → List (Bytes × Int)
  /-- What each decoder was given, with the number it starts at. -/
  decoded : Role → List (Nat × Bytes)

inductive VideoLabel where
  /-- A picture has been encoded into these units. -/
  | film (r : Role) (encoded : List Bytes) (pts90khz : Int)
  /-- The session takes the next packet. -/
  | send (r : Role)
  /-- The engine takes the next frame; `inits` tells whether a decoder can be made. -/
  | play (r : Role) (inits : Bool)
  /-- `attachVideo` has made a decoder, or could not. -/
  | decoder (r : Role) (has : Bool)
  | teardown (r : Role)
  | other (l : MediaLabel)

/-- A step of the sessions that sends no video and takes none. -/
def MediaLabel.isAside : MediaLabel → Bool
  | .media _ (.video ..) | .take _ .video => false
  | _ => true

namespace VideoCall

variable {κ : Type} [VoipAead κ]

def init (master sessionId : List Nat) (inboundBuffer : Role → Nat) (hasSink : Role → Bool) :
    VideoCall κ where
  media := .init master sessionId inboundBuffer
  outbound _ := []
  engine r := ⟨0, false, false, false, hasSink r, .empty⟩
  generation _ := 0
  filmed _ := []
  decoded _ := []

variable (w : VideoCall κ)

def setEngine (r : Role) (e : CallEngine.VideoIn) : VideoCall κ :=
  { w with engine := Function.update w.engine r e }

/-- The engine gets a frame. -/
def hand (r : Role) (inits : Bool) (frame : InboundFrame) : VideoCall κ :=
  let out := CallEngine.enqueueIncomingVideoFragment (w.engine r) inits frame.fragment
    (w.generation r)
  { w.setEngine r out.1 with
    decoded := Function.update w.decoded r (w.decoded r ++ out.2.toList) }

def step : VideoLabel → Option (VideoCall κ)
  | .film r encoded pts90khz =>
      if (w.media.side r).running then
        let units := encoded.map (fun nal => (nal, pts90khz))
        some { w with
          outbound := Function.update w.outbound r (w.outbound r ++ CallEngine.packets units)
          filmed := Function.update w.filmed r (w.filmed r ++ units) }
      else none
  | .send r =>
      match w.outbound r with
      | [] => none
      | p :: rest =>
          (w.media.step (.media r (.video p.flags p.rtpTimestamp p.payload))).map
            (fun media => { w with media, outbound := Function.update w.outbound r rest })
  | .play r inits =>
      match ((w.media.side r).inbound .video).queue with
      | [] => none
      | frame :: _ =>
          (w.media.step (.take r .video)).map
            (fun media => ({ w with media } : VideoCall κ).hand r inits frame)
  | .decoder r has => some (w.setEngine r { w.engine r with hasDecoder := has })
  | .teardown r => some (w.setEngine r (w.engine r).teardown)
  | .other l =>
      if l.isAside then (w.media.step l).map (fun media => { w with media }) else none

end VideoCall

end Paranoia
