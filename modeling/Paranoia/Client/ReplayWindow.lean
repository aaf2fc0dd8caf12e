import Mathlib.Algebra.Order.Ring.Int
import Mathlib.Data.List.Basic

/-!
# The replay window of a media stream

A session keeps one for each stream it receives: the greatest sequence number it has accepted, and
a word whose bit `i` tells whether the number `i` below that has been accepted. Numbers and the word
are `u64`.
-/

namespace Paranoia

structure ReplayWindow where
  highest : UInt64
  bitmap : UInt64
  seenAny : Bool
deriving DecidableEq

namespace ReplayWindow

def new : ReplayWindow := ⟨0, 0, false⟩

/-- Accept a number or not, and the window after it. -/
def checkAndUpdate (w : ReplayWindow) (seq : UInt64) : Bool × ReplayWindow :=
  if !w.seenAny then (true, ⟨seq, 1, true⟩)
  else if seq > w.highest then
    let shift := seq - w.highest
    (true, { w with
      highest := seq
      bitmap := if shift ≥ 64 then 1 else (w.bitmap <<< shift) ||| 1 })
  else
    let delta := w.highest - seq
    if delta ≥ 64 then (false, w)
    else
      let mask : UInt64 := 1 <<< delta
      if w.bitmap &&& mask ≠ 0 then (false, w)
      else (true, { w with bitmap := w.bitmap ||| mask })

/-- Present numbers one after the other; `accepted` are those accepted so far, the last one first. -/
def present (w : ReplayWindow) (accepted : List UInt64) :
    List UInt64 → ReplayWindow × List UInt64
  | [] => (w, accepted)
  | seq :: rest =>
      match w.checkAndUpdate seq with
      | (true, w) => w.present (seq :: accepted) rest
      | (false, w) => w.present accepted rest

/-- The window after the numbers have been presented to a new one. -/
def after (seqs : List UInt64) : ReplayWindow := (new.present [] seqs).1

/-- Those of them that were accepted. -/
def accepted (seqs : List UInt64) : List UInt64 := (new.present [] seqs).2

end ReplayWindow

/-! ## What the window is for -/

/-- What the window keeps, as a set: a number is admitted if it has not been accepted, and is above
the greatest accepted one or less than `width` below it. -/
def Admits (width : Nat) (accepted : List UInt64) (seq : UInt64) : Prop :=
  seq ∉ accepted ∧
    ∀ h ∈ accepted, (∀ a ∈ accepted, a ≤ h) → h < seq ∨ h.toNat - seq.toNat < width

end Paranoia
