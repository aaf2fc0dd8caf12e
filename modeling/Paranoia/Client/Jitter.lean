import Paranoia.Client.VideoFragments
import Paranoia.Lib.Lts
import Paranoia.Lib.OrdMap
import Paranoia.Types

/-!
# The jitter buffer

Frames of voice come in out of order and are played in order, one at each tick of the player. The
buffer starts when it has gathered a few frames; from then on it knows which number is due, plays it
or, if there are only later ones, leaves a gap. After too many gaps in a row it starts anew. The
client has the buffer twice, in its library and in the engine of its calls.
-/

namespace Paranoia

/-- What the player is given. -/
inductive JitterOut where
  | frame (opus : Bytes)
  | plc
  | wait
deriving DecidableEq

/-- Both buffers, with their limits. -/
structure Jitter where
  initialDelay : Nat
  maxDepth : Nat
  maxPlcStreak : Nat
  items : OrdMap Nat Bytes
  expected : Option Nat
  plcStreak : Nat

namespace Jitter

def contains (jb : Jitter) (seq : Nat) : Bool := (jb.items.get? seq).isSome

/-- Put a frame in, unless it is late or there already; the oldest makes room. -/
def push (jb : Jitter) (seq : Nat) (opus : Bytes) : Jitter :=
  if jb.expected.any (seq < ·) then jb
  else if jb.contains seq then jb
  else
    let items := if jb.maxDepth ≤ jb.items.entries.length then
        jb.items.eraseWhere (fun k => some k = jb.items.firstKey?) else jb.items
    { jb with items := items.put seq opus }

/-- Play, or leave a gap, where the number `exp` is due. -/
def popAt (jb : Jitter) (exp : Nat) : JitterOut × Jitter :=
  match jb.items.get? exp with
  | some frame =>
      (.frame frame, { jb with
        items := jb.items.eraseWhere (fun k => k = exp)
        expected := some (exp + 1)
        plcStreak := 0 })
  | none =>
      if jb.items.firstKey?.any (exp < ·) then
        if jb.plcStreak + 1 > jb.maxPlcStreak then
          (.plc, { jb with expected := none, plcStreak := 0 })
        else (.plc, { jb with expected := some (exp + 1), plcStreak := jb.plcStreak + 1 })
      else (.wait, jb)

/-- One tick. Where the buffer is to start and has no frame, there is no first one: `none`. -/
def popNext (jb : Jitter) : Option (JitterOut × Jitter) :=
  match jb.expected with
  | some exp => some (jb.popAt exp)
  | none =>
      if jb.items.entries.length < jb.initialDelay then some (.wait, jb)
      else jb.items.firstKey?.map (fun first => { jb with expected := some first }.popAt first)

/-- The number that is due at the next tick. -/
def due (jb : Jitter) : Option Nat := jb.expected.or jb.items.firstKey?

end Jitter

/-! ## The buffer of the library -/

structure JitterConfig where
  initialDelay : Nat
  maxDepth : Nat
deriving DecidableEq

def JitterConfig.default : JitterConfig := ⟨3, 16⟩

/-- The greatest number of gaps in a row is a product of machine words. -/
def JitterBuffer.new (cfg : JitterConfig) : Jitter :=
  ⟨cfg.initialDelay, cfg.maxDepth, cfg.initialDelay * 4 % u64Size, .empty, none, 0⟩

def JitterBuffer.push (jb : Jitter) (seq : Nat) (opus : Bytes) : Jitter := jb.push seq opus

/-- `none` where `unwrap` finds nothing. -/
def JitterBuffer.popNext (jb : Jitter) : Option (JitterOut × Jitter) := jb.popNext

/-! ## The buffer of the engine -/

namespace CallEngine

def kJitterInitialDelay : Nat := 1

def kJitterMaxDepth : Nat := 16

def kJitterMaxPlcStreak : Nat := 12

def newJitter : Jitter :=
  ⟨kJitterInitialDelay, kJitterMaxDepth, kJitterMaxPlcStreak, .empty, none, 0⟩

/-- A frame of another session is dropped. -/
def enqueueIncomingFrame (sessionGeneration : Nat) (jb : Jitter) (opus : Bytes)
    (sequence generation : Nat) : Jitter :=
  if generation ≠ sessionGeneration then jb else jb.push sequence opus

def popFromJitter (jb : Jitter) : Option (JitterOut × Jitter) := jb.popNext

end CallEngine

/-! ## Runs -/

/-- A buffer, and what has been put in and played so far, the last one first. -/
structure JitterRun where
  buffer : Jitter
  pushed : List (Nat × Bytes)
  popped : List (Nat × Bytes)

inductive JitterLabel where
  | push (seq : Nat) (opus : Bytes)
  | popNext
deriving DecidableEq

/-- In the engine a frame comes with the session it is of. -/
inductive EngineLabel where
  | enqueueIncomingFrame (opus : Bytes) (sequence generation : Nat)
  | popFromJitter
deriving DecidableEq

/-- Numbers are below the greatest `u64`, so that the next one is a `u64` as well. -/
def JitterLabel.InRange : JitterLabel → Prop
  | .push seq _ => seq < u64Size - 1
  | .popNext => True

instance JitterLabel.decidableInRange : (l : JitterLabel) → Decidable l.InRange
  | .push seq _ => inferInstanceAs (Decidable (seq < u64Size - 1))
  | .popNext => isTrue trivial

def EngineLabel.InRange : EngineLabel → Prop
  | .enqueueIncomingFrame _ sequence _ => sequence < u64Size - 1
  | .popFromJitter => True

instance EngineLabel.decidableInRange : (l : EngineLabel) → Decidable l.InRange
  | .enqueueIncomingFrame _ sequence _ => inferInstanceAs (Decidable (sequence < u64Size - 1))
  | .popFromJitter => isTrue trivial

namespace JitterRun

def init (buffer : Jitter) : JitterRun := ⟨buffer, [], []⟩

/-- A tick, after which a frame that was played is written down with its number. -/
def tick (run : JitterRun) (pop : Jitter → Option (JitterOut × Jitter)) : Option JitterRun :=
  match pop run.buffer with
  | some (.frame opus, buffer) =>
      some { run with
        buffer := buffer
        popped := run.buffer.due.toList.map (fun seq => (seq, opus)) ++ run.popped }
  | some (_, buffer) => some { run with buffer := buffer }
  | none => none

def step (run : JitterRun) : JitterLabel → Option JitterRun
  | .push seq opus =>
      some { run with
        buffer := JitterBuffer.push run.buffer seq opus, pushed := (seq, opus) :: run.pushed }
  | .popNext => run.tick JitterBuffer.popNext

def engineStep (sessionGeneration : Nat) (run : JitterRun) : EngineLabel → Option JitterRun
  | .enqueueIncomingFrame opus sequence generation =>
      some { run with
        buffer := CallEngine.enqueueIncomingFrame sessionGeneration run.buffer opus sequence generation
        pushed := if generation = sessionGeneration then (sequence, opus) :: run.pushed
          else run.pushed }
  | .popFromJitter => run.tick CallEngine.popFromJitter

/-! ## What the buffer is for -/

/-- What was played was played in order, none of it twice and each as it came in, and no more is kept
than the buffer may hold. -/
structure InOrder (run : JitterRun) : Prop where
  increasing : (run.popped.map (·.1)).Pairwise (· > ·)
  pushed : ∀ p ∈ run.popped, p ∈ run.pushed
  depth : run.buffer.items.entries.length ≤ run.buffer.maxDepth

/-- While no number is due, what comes in is later than all that was played. -/
def NotPlayed (run : JitterRun) (seq : Nat) : Prop :=
  run.buffer.expected = none → ∀ p ∈ run.popped, p.1 < seq

instance decidableNotPlayed (run : JitterRun) (seq : Nat) : Decidable (run.NotPlayed seq) :=
  inferInstanceAs (Decidable (_ → _))

def Allowed (run : JitterRun) : JitterLabel → Prop
  | .push seq _ => run.NotPlayed seq
  | .popNext => True

instance decidableAllowed (run : JitterRun) : (l : JitterLabel) → Decidable (run.Allowed l)
  | .push seq _ => inferInstanceAs (Decidable (run.NotPlayed seq))
  | .popNext => isTrue trivial

def EngineAllowed (run : JitterRun) (sessionGeneration : Nat) : EngineLabel → Prop
  | .enqueueIncomingFrame _ sequence generation =>
      generation = sessionGeneration → run.NotPlayed sequence
  | .popFromJitter => True

instance decidableEngineAllowed (sessionGeneration : Nat) (run : JitterRun) :
    (l : EngineLabel) → Decidable (run.EngineAllowed sessionGeneration l)
  | .enqueueIncomingFrame _ sequence generation =>
      inferInstanceAs (Decidable (generation = sessionGeneration → run.NotPlayed sequence))
  | .popFromJitter => isTrue trivial

end JitterRun

end Paranoia
