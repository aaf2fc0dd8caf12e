import Paranoia.Client.VideoFragments
import Paranoia.Lib.OrdMap
import Paranoia.Types

/-!
# Video fragments out of order

The engine of a call cuts the units of video itself, and puts what comes in together by the
numbers of the fragments: from the first fragment of a unit on, what comes too early waits in a map
until its turn. A unit goes to the decoder when there is no gap up to a last fragment.
-/

namespace Paranoia

structure VideoFragment where
  payload : Bytes
  sequence : Nat
  rtpTimestamp : Nat
  flags : UInt8
deriving DecidableEq

namespace VideoFragment

def first (f : VideoFragment) : Bool := f.flags &&& frameStart != 0

def last (f : VideoFragment) : Bool := f.flags &&& fragmentEndBit != 0

end VideoFragment

namespace CallEngine

def kMaxFragmentPayload : Nat := 1200 - 16 - 16

/-! ## Cutting -/

/-- The loop over a unit, from `start`; the session numbers what is pushed. -/
def cutNal (nal : Bytes) (rtpTs sequence start : Nat) : List VideoFragment :=
  if start < nal.length then
    let fin := min (start + kMaxFragmentPayload) nal.length
    ⟨(nal.drop start).take (fin - start), sequence, rtpTs,
      Fragmenter.flagBits start fin nal.length⟩ :: cutNal nal rtpTs (sequence + 1) fin
  else []
termination_by nal.length - start
decreasing_by
  unfold kMaxFragmentPayload
  omega

/-- The units of `onCameraFrameI420`, each with its time stamp, and their fragments. Empty
units are skipped. -/
def cutUnits : Nat → List (Bytes × Int) → List (Bytes × List VideoFragment)
  | _, [] => []
  | sequence, (nal, pts90khz) :: units =>
      if nal.isEmpty then cutUnits sequence units
      else
        let fragments := cutNal nal (pts90khz % 2 ^ 32).toNat sequence 0
        (nal, fragments) :: cutUnits (sequence + fragments.length) units

/-- All that is pushed, in order. -/
def pushed (sequence : Nat) (units : List (Bytes × Int)) : List VideoFragment :=
  (cutUnits sequence units).flatMap Prod.snd

/-! ## Putting together -/

def kMaxNalBytes : Nat := 4 * 1024 * 1024

def kMaxPendingFrags : Nat := 256

end CallEngine

structure VideoReassembly where
  rtpTs : Nat
  active : Bool
  startSeq : Nat
  nextExpected : Nat
  hasEnd : Bool
  endSeq : Nat
  nal : Bytes
  pending : OrdMap Nat Bytes

namespace VideoReassembly

/-- `{}`. -/
def empty : VideoReassembly := ⟨0, false, 0, 0, false, 0, [], .empty⟩

def pendingBytes (pending : OrdMap Nat Bytes) : Nat :=
  (pending.entries.map (fun e => e.2.length)).sum

/-- Another time stamp: the unit under assembly is given up. -/
def changeTs (r : VideoReassembly) (rtpTimestamp : Nat) : VideoReassembly :=
  if r.active && rtpTimestamp != r.rtpTs then empty else r

/-- A unit begins. -/
def begin (rtpTimestamp sequence : Nat) : VideoReassembly :=
  { empty with
    active := true
    rtpTs := rtpTimestamp
    startSeq := sequence
    nextExpected := sequence }

def noteEnd (r : VideoReassembly) (f : VideoFragment) : VideoReassembly :=
  if f.last then { r with hasEnd := true, endSeq := f.sequence } else r

/-- Put the payload that is next to the unit. -/
def glue (r : VideoReassembly) (payload : Bytes) : VideoReassembly :=
  { r with nal := r.nal ++ payload, nextExpected := (r.nextExpected + 1) % u64Size }

/-- Put to it what waits for its turn. -/
def absorb (r : VideoReassembly) : VideoReassembly :=
  match _h : r.pending.get? r.nextExpected with
  | none => r
  | some payload =>
      absorb ({ r with
        pending := r.pending.eraseWhere (fun k => k = r.nextExpected) }.glue payload)
termination_by r.pending.entries.length
decreasing_by
  exact OrdMap.length_eraseWhere_lt (OrdMap.mem_keys.mpr ⟨payload, _h⟩) (by simp)

def store (r : VideoReassembly) (f : VideoFragment) : VideoReassembly :=
  if f.sequence = r.nextExpected then (r.glue f.payload).absorb
  else { r with pending := r.pending.put f.sequence f.payload }

def startCode : Bytes := [0, 0, 0, 1]

/-- Hand the unit over, if it is complete; with it, for the record, goes the number it starts
at. -/
def deliver (r : VideoReassembly) : VideoReassembly × Option (Nat × Bytes) :=
  if r.hasEnd && !(r.nextExpected ≤ r.endSeq) then
    (empty, some (r.startSeq, startCode ++ r.nal))
  else (r, none)

/-- Take in a fragment of the unit under assembly. -/
def place (r : VideoReassembly) (f : VideoFragment) : VideoReassembly × Option (Nat × Bytes) :=
  let r := r.noteEnd f
  if r.nal.length + pendingBytes r.pending + f.payload.length > CallEngine.kMaxNalBytes
      ∨ CallEngine.kMaxPendingFrags ≤ r.pending.entries.length then (empty, none)
  else (r.store f).deliver

/-- Take in a fragment, and hand over what is complete. -/
def push (r : VideoReassembly) (f : VideoFragment) : VideoReassembly × Option (Nat × Bytes) :=
  let r := r.changeTs f.rtpTimestamp
  if f.first then (begin f.rtpTimestamp f.sequence).place f
  else if !r.active then (r, none)
  else if f.sequence < r.startSeq then (r, none)
  else r.place f

end VideoReassembly

namespace CallEngine

/-- What the engine keeps about the video it receives. -/
structure VideoIn where
  sessionGeneration : Nat
  receivedVideoPacket : Bool
  hasDecoder : Bool
  decoderFailed : Bool
  hasSink : Bool
  reassembly : VideoReassembly

/-- Make a decoder if there is none; `inits` tells whether it can be. -/
def VideoIn.makeDecoder (e : VideoIn) (inits : Bool) : VideoIn :=
  if !e.hasDecoder && !e.decoderFailed then
    if inits then { e with hasDecoder := true } else { e with decoderFailed := true }
  else e

/-- The fragment of a session arrives. -/
def enqueueIncomingVideoFragment (e : VideoIn) (inits : Bool) (f : VideoFragment)
    (generation : Nat) : VideoIn × Option (Nat × Bytes) :=
  if generation ≠ e.sessionGeneration then (e, none)
  else
    let e := { e with receivedVideoPacket := true }.makeDecoder inits
    if !e.hasDecoder || !e.hasSink then (e, none)
    else
      let (r, out) := e.reassembly.push f
      ({ e with reassembly := r }, out)

/-- Fragments of the session arrive one after the other: what each hands over, and the state
afterwards. -/
def receiveVideo (e : VideoIn) (inits : Bool) : List VideoFragment →
    List (Nat × Bytes) × VideoIn
  | [] => ([], e)
  | f :: fs =>
      let (e, out) := enqueueIncomingVideoFragment e inits f e.sessionGeneration
      let (outs, e) := receiveVideo e inits fs
      (out.toList ++ outs, e)

end CallEngine

end Paranoia
