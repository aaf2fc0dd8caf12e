import Paranoia.Client.Voip

/-!
# Fragments of video units

A unit of video does not fit into a datagram. `Fragmenter` cuts it into fragments with the same
timestamp, the first and the last of them marked, and `Reassembler` puts them together again from
what comes in. The sequence numbers are the transport's: the reassembler does not look at them.
-/

namespace Paranoia

abbrev Bytes := List UInt8

/-- Comfort noise means nothing in a video stream, and its bit marks the last fragment there. -/
def fragmentEndBit : UInt8 := comfortNoise

structure FragmentOut where
  header : VoipHeader
  payload : Bytes
deriving DecidableEq

def FragmentOut.first (f : FragmentOut) : Bool := f.header.flags &&& frameStart != 0

def FragmentOut.last (f : FragmentOut) : Bool := f.header.flags &&& fragmentEndBit != 0

/-! ## Cutting -/

structure Fragmenter where
  stream : StreamId
  maxPayload : Nat
  nextSeq : Nat
  /-- `with_max_payload` refuses `0`. -/
  maxPayload_pos : 0 < maxPayload

namespace Fragmenter

/-- The flags of the fragment from `start` to `fin` of a unit of `total` bytes. -/
def flagBits (start fin total : Nat) : UInt8 :=
  (if start = 0 then frameStart else 0) ||| (if fin = total then fragmentEndBit else 0)

/-- The loop of `fragment`, from `start`. -/
def fragmentFrom (f : Fragmenter) (nal : Bytes) (rtpTimestamp start : Nat) :
    List FragmentOut × Fragmenter :=
  if start < nal.length then
    let fin := min (start + f.maxPayload) nal.length
    let header : VoipHeader :=
      ⟨f.stream, flagBits start fin nal.length, f.nextSeq, rtpTimestamp⟩
    let (rest, f') :=
      fragmentFrom { f with nextSeq := saturatingAdd f.nextSeq 1 } nal rtpTimestamp fin
    (⟨header, (nal.drop start).take (fin - start)⟩ :: rest, f')
  else ([], f)
termination_by nal.length - start
decreasing_by
  have := f.maxPayload_pos
  omega

/-- Cut a unit into fragments with one timestamp. -/
def fragment (f : Fragmenter) (nal : Bytes) (rtpTimestamp : Nat) : List FragmentOut × Fragmenter :=
  if nal.isEmpty then ([], f) else f.fragmentFrom nal rtpTimestamp 0

/-- Cut units, each with its timestamp. -/
def fragmentAll (f : Fragmenter) : List (Bytes × Nat) → List (List FragmentOut) × Fragmenter
  | [] => ([], f)
  | (nal, rtpTimestamp) :: units =>
      let (fragments, f) := f.fragment nal rtpTimestamp
      let (rest, f) := f.fragmentAll units
      (fragments :: rest, f)

end Fragmenter

/-! ## Putting together -/

structure Reassembler where
  currentTs : Option Nat
  buffer : Bytes
  expecting : Bool
  maxNalSize : Nat
deriving DecidableEq

namespace Reassembler

def new : Reassembler := ⟨none, [], false, 4 * 1024 * 1024⟩

def withMaxNalSize (r : Reassembler) (max : Nat) : Reassembler := { r with maxNalSize := max }

def reset (r : Reassembler) : Reassembler :=
  { r with currentTs := none, buffer := [], expecting := false }

/-- Another timestamp ends the unit under assembly: what there is of it is handed out. -/
def changeTs (r : Reassembler) (ts : Nat) : Option Bytes × Reassembler :=
  match r.currentTs with
  | some prevTs =>
      if ts ≠ prevTs then
        (if !r.buffer.isEmpty && r.expecting then some r.buffer else none, r.reset)
      else (none, r)
  | none => (none, r)

/-- Take a fragment into the buffer. -/
def append (r : Reassembler) (completed : Option Bytes) (last : Bool) (payload : Bytes) :
    Option Bytes × Reassembler :=
  if r.buffer.length + payload.length > r.maxNalSize then (completed, r.reset)
  else if last then (some (r.buffer ++ payload), r.reset)
  else (completed, { r with buffer := r.buffer ++ payload })

/-- Take in the next fragment, and hand out a unit if one is ready. -/
def push (r : Reassembler) (f : FragmentOut) : Option Bytes × Reassembler :=
  let ts := f.header.rtpTimestamp
  let (completed, r) := r.changeTs ts
  if f.first then
    { r with buffer := [], expecting := true, currentTs := some ts }.append completed f.last
      f.payload
  else if !r.expecting then (completed, r)
  else if r.currentTs.isNone then (completed, { r with buffer := [], expecting := false })
  else r.append completed f.last f.payload

/-- Take in fragments one after the other: what each push hands out, and the state afterwards. -/
def feed (r : Reassembler) : List FragmentOut → List (Option Bytes) × Reassembler
  | [] => ([], r)
  | f :: rest =>
      let (out, r) := r.push f
      let (outs, r) := r.feed rest
      (out :: outs, r)

/-- No unit is under assembly. -/
def Idle (r : Reassembler) : Prop := r.currentTs = none ∧ r.buffer = [] ∧ r.expecting = false

instance (r : Reassembler) : Decidable r.Idle :=
  inferInstanceAs (Decidable (_ ∧ _ ∧ _))

end Reassembler

end Paranoia
