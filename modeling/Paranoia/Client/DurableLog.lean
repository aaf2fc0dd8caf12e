import Mathlib.Data.List.ReduceOption
import Mathlib.Logic.Function.Basic
import Paranoia.Client.Incoming
import Paranoia.Lib.Lts

/-!
# The durable log of messages

Several processes append messages to one file, a line each. A process reads the file once and
remembers the ids it has seen there; it writes what it has not seen, a line as two writes, and
remembers what it was to write, whatever became of the writes.

A write can end after any byte. What is left of a character that was cut is `none`: the file is
then no longer UTF-8.
-/

namespace Paranoia

/-- How messages are told apart, and how they are written as lines. -/
structure LogCodec (μ : Type) where
  id : μ → Option String
  sender : μ → Option String
  text : μ → List Char
  parse : List Char → Option μ

def trimLine (line : List Char) : List Char :=
  ((line.dropWhile Client.isWhitespace).reverse.dropWhile Client.isWhitespace).reverse

/-- Messages are written as objects: on one line, with nothing around them, and no part of one that
lacks its end is a value. -/
structure LogCodec.Lawful {μ : Type} (codec : LogCodec μ) : Prop where
  parse_text : ∀ m, (codec.id m).isSome → codec.parse (codec.text m) = some m
  one_line : ∀ m, '\n' ∉ codec.text m
  trimmed : ∀ m, (codec.id m).isSome → trimLine (codec.text m) = codec.text m
  nonempty : ∀ m, (codec.id m).isSome → codec.text m ≠ []
  torn : ∀ m, (codec.id m).isSome → ∀ t, t <+: codec.text m → t ≠ codec.text m →
    codec.parse (trimLine t) = none

/-! ## The file -/

abbrev LogFile := List (Option Char)

namespace LogFile

/-- What `n` bytes leave of a text. -/
def takeBytes : Nat → List Char → LogFile
  | _, [] => []
  | n, c :: cs =>
      if c.utf8Size ≤ n then some c :: takeBytes (n - c.utf8Size) cs
      else if n = 0 then [] else [none]

def readToString (file : LogFile) : Option (List Char) :=
  if none ∈ file then none else some file.reduceOption

/-- A line can begin here. -/
def Fresh (file : LogFile) : Prop := file = [] ∨ file.getLast? = some (some '\n')

instance (file : LogFile) : Decidable file.Fresh := inferInstanceAs (Decidable (_ ∨ _))

end LogFile

namespace LogCodec

variable {μ : Type} (codec : LogCodec μ)

/-- What a line says. -/
def row (line : List Char) : Option μ :=
  let line := trimLine line
  if line = [] then none else codec.parse line

/-- The messages of the file. -/
def rows (file : LogFile) : List μ :=
  match file.readToString with
  | none => []
  | some text => (text.splitOn '\n').filterMap codec.row

def read (file : LogFile) (limit : Int) (sender : Option String) : List μ :=
  let rows := match sender with
    | none => codec.rows file
    | some sender => (codec.rows file).filter fun r => codec.sender r = some sender
  if 0 < limit ∧ limit < rows.length then rows.drop (rows.length - limit.toNat) else rows

end LogCodec

/-! ## The processes -/

/-- A `persist` that is at work. -/
structure LogWork (μ : Type) where
  new : List μ
  /-- What is not yet written. -/
  todo : List μ
  /-- Of the first of these only the end of the line is missing. -/
  half : Bool

structure LogProcess (μ : Type) where
  seen : List String
  loaded : Bool
  work : Option (LogWork μ)

structure LogWorld (μ : Type) where
  file : LogFile
  process : Nat → LogProcess μ
  /-- Proof only: the messages whose lines were written as a whole. -/
  written : List μ

inductive LogStep (μ : Type) where
  /-- A process is given messages; the file can be opened or not. -/
  | persist (p : Nat) (msgs : List μ) (opens : Bool)
  | write (p : Nat)
  /-- The disk is full after some bytes; the rest of the line is left out. -/
  | fail (p : Nat) (bytes : Nat)
  | finish (p : Nat)
  /-- The process dies after some bytes of what it was to write, and is started again. -/
  | crash (p : Nat) (bytes : Nat)

namespace LogProcess

variable {μ : Type}

def fresh : LogProcess μ := ⟨[], false, none⟩

/-- The message that is written next, and whether only the end of its line is. -/
def next (x : LogProcess μ) : Option (μ × Bool) :=
  x.work.bind fun k => k.todo.head?.map (·, k.half)

def loadSeen (codec : LogCodec μ) (file : LogFile) (x : LogProcess μ) : LogProcess μ :=
  if x.loaded then x
  else { x with loaded := true, seen := x.seen ++ (codec.rows file).filterMap codec.id }

/-- Those of the messages that have an id that was not seen. -/
def unseen (codec : LogCodec μ) (x : LogProcess μ) (msgs : List μ) : List μ :=
  msgs.filter fun m => match codec.id m with
    | some id => id ∉ x.seen
    | none => false

end LogProcess

namespace LogCodec

variable {μ : Type} (codec : LogCodec μ)

/-- What the next write is to write. -/
def piece : μ × Bool → List Char
  | (_, true) => ['\n']
  | (m, false) => codec.text m

end LogCodec

namespace LogWorld

variable {μ : Type}

def init : LogWorld μ := ⟨[], fun _ => .fresh, []⟩

def set (w : LogWorld μ) (p : Nat) (x : LogProcess μ) : LogWorld μ :=
  { w with process := Function.update w.process p x }

def append (w : LogWorld μ) (chars : LogFile) : LogWorld μ := { w with file := w.file ++ chars }

def step (codec : LogCodec μ) (w : LogWorld μ) : LogStep μ → Option (LogWorld μ)
  | .persist p msgs opens =>
      match (w.process p).work with
      | some _ => none
      | none =>
          if msgs.isEmpty then some w
          else
            let x := (w.process p).loadSeen codec w.file
            let new := x.unseen codec msgs
            some (w.set p (if new.isEmpty ∨ opens = false then x
              else { x with work := some ⟨new, new, false⟩ }))
  | .write p =>
      match (w.process p).work with
      | some ⟨new, m :: todo, false⟩ =>
          some ((w.append ((codec.text m).map some)).set p
            { w.process p with work := some ⟨new, m :: todo, true⟩ })
      | some ⟨new, m :: todo, true⟩ =>
          some { (w.append [some '\n']).set p { w.process p with work := some ⟨new, todo, false⟩ } with
            written := w.written ++ [m] }
      | _ => none
  | .fail p bytes =>
      match (w.process p).work with
      | some ⟨new, m :: todo, half⟩ =>
          some ((w.append (LogFile.takeBytes bytes (codec.piece (m, half)))).set p
            { w.process p with work := some ⟨new, todo, false⟩ })
      | _ => none
  | .finish p =>
      match (w.process p).work with
      | some ⟨new, [], _⟩ =>
          some (w.set p { w.process p with
            seen := (w.process p).seen ++ new.filterMap codec.id, work := none })
      | _ => none
  | .crash p bytes =>
      match (w.process p).next with
      | some next => some ((w.append (LogFile.takeBytes bytes (codec.piece next))).set p .fresh)
      | none => some (w.set p .fresh)

/-- The line of the message can begin, and there is no other one of its id. -/
def Begins (codec : LogCodec μ) (w : LogWorld μ) (m : μ) : Prop :=
  w.file.Fresh ∧ codec.id m ∉ (codec.rows w.file).map codec.id

instance (codec : LogCodec μ) (w : LogWorld μ) (m : μ) : Decidable (w.Begins codec m) :=
  inferInstanceAs (Decidable (_ ∧ _))

/-- No write fails, and a line begins only where one can and no other line has its id; a process
that dies does not do so inside a character. -/
def StepOk (codec : LogCodec μ) (w : LogWorld μ) : LogStep μ → Prop
  | .write p =>
      match (w.process p).next with
      | some (m, false) => w.Begins codec m
      | _ => True
  | .fail _ _ => False
  | .crash p bytes =>
      match (w.process p).next with
      | some (m, false) => bytes = 0 ∨ (w.Begins codec m ∧ none ∉ LogFile.takeBytes bytes (codec.text m))
      | _ => True
  | _ => True

instance (codec : LogCodec μ) (w : LogWorld μ) (l : LogStep μ) : Decidable (w.StepOk codec l) := by
  unfold StepOk
  split
  · split <;> infer_instance
  · infer_instance
  · split <;> infer_instance
  · infer_instance

/-- What the log promises. -/
structure Sound (codec : LogCodec μ) (w : LogWorld μ) : Prop where
  /-- What a process takes as seen is on a line. -/
  seen : ∀ p, ∀ id ∈ (w.process p).seen, ∃ r ∈ codec.rows w.file, codec.id r = some id
  /-- What is on no line is written by the next `persist` that is given it. -/
  again : ∀ p msgs, ∀ m ∈ msgs, (codec.id m).isSome → (∀ r ∈ codec.rows w.file, codec.id r ≠ codec.id m) →
    m ∈ ((w.process p).loadSeen codec w.file).unseen codec msgs
  /-- A line that was written as a whole can be parsed. -/
  lines : ∀ m ∈ w.written, m ∈ codec.rows w.file
  once : (codec.rows w.file).Pairwise fun a b => codec.id a ≠ codec.id b
  read : ∀ m ∈ w.written, (codec.read w.file 0 none).filter (fun r => codec.id r = codec.id m) = [m]

end LogWorld

end Paranoia
