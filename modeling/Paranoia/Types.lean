import Mathlib.Algebra.Order.Ring.Int
import Mathlib.Data.List.Basic

/-!
# Data model of a client

The types of the client library: messages and their contents, the plaintext of a
packet, dialogue keys and keyrings. Times are Unix milliseconds, byte strings
are lists of bytes; sizes and sequence numbers are the natural numbers their
unsigned machine types hold.
-/

namespace Paranoia

abbrev MessageId := String

/-- Life cycle of a local message. -/
inductive MessageStatus where
  | sending
  | sent
  | delivered
  | read
  | failed
deriving DecidableEq

inductive AttachmentKind where
  | file
  | image
  | voice
  | video
deriving DecidableEq

structure FileAttachment where
  filename : String
  mimeType : String
  size : Nat
  data : List UInt8
  transferId : Option String
  cachePath : Option String
  chunkCount : Nat
  bodyFromSeq : Nat
  bodyToSeq : Nat
  downloaded : Bool
  groupId : Option String
  ephemeralFileId : Option String
  ephemeralExpiresAt : Option Nat
  ephemeralFileKey : Option String
deriving DecidableEq

/-- What a message says. `fileHeader` announces `chunks` body packets, carried by
the sequence numbers right after its own; `fileChunk` is one of them. -/
inductive MessageContent where
  | text (text : String)
  | textReply (text : String) (replyToId : MessageId) (replySender replyText : String)
  | file (file : FileAttachment)
  | image (file : FileAttachment)
  | voice (file : FileAttachment)
  | video (file : FileAttachment)
  | photoGroup (groupId caption : String)
  | fileHeader (transferId : String) (kind : AttachmentKind) (filename mimeType : String)
      (totalSize chunks : Nat) (groupId : Option String)
  | fileChunk (transferId : String) (index total : Nat) (filename mimeType : String)
      (totalSize : Nat) (data : List UInt8)
  | readReceipt (upToSeq : Nat)
  | delete (targetId : MessageId)
  | reaction (targetId : MessageId) (emoji : String)
deriving DecidableEq

/-- The plaintext of a packet. -/
structure PacketInner where
  id : String
  timestamp : Int
  sender : String
  content : MessageContent
  topicName : Option String
deriving DecidableEq

/-- A dialogue is its pair of participants in order. -/
structure DialogueKey where
  a : String
  b : String
deriving DecidableEq

/-- The key of the dialogue between `x` and `y`, the same from both sides. -/
def DialogueKey.new (x y : String) : DialogueKey :=
  if x < y then ⟨x, y⟩ else ⟨y, x⟩

structure Message where
  id : MessageId
  dialogue : DialogueKey
  sender : String
  content : MessageContent
  timestamp : Int
  status : MessageStatus
  serverSeq : Option Nat
  topicId : Option String
  topicName : Option String
deriving DecidableEq

/-- A packet as the server returns it. -/
structure RawPacket (π : Type) where
  seq : Nat
  payload : π
deriving DecidableEq

/-! ## Keyrings -/

structure DialogueKeyEntry (κ : Type) where
  startSeq : Nat
  key : κ
deriving DecidableEq

/-- The key in force at `seq`: the last entry that starts at or before it. -/
def keyForSeq {κ : Type} (keyring : List (DialogueKeyEntry κ)) (seq : Nat) : Option κ :=
  (keyring.reverse.find? (fun entry => entry.startSeq ≤ seq)).map DialogueKeyEntry.key

/-! ## Machine integers -/

/-- One more than the greatest `u64`. -/
def u64Size : Nat := 2 ^ 64

/-- One more than the greatest `i64`. -/
def i64Size : Nat := 2 ^ 63

def checkedAdd (a b : Nat) : Option Nat := if a + b < u64Size then some (a + b) else none

def saturatingAdd (a b : Nat) : Nat := min (a + b) (u64Size - 1)

/-- `x as i64`. -/
def toI64 (x : Nat) : Int :=
  if x % u64Size < i64Size then ((x % u64Size : Nat) : Int)
  else ((x % u64Size : Nat) : Int) - (u64Size : Nat)

/-- `i as u64`. -/
def toU64 (i : Int) : Nat := (i % (u64Size : Nat)).toNat

theorem toU64_toI64 {x : Nat} (h : x < u64Size) : toU64 (toI64 x) = x := by
  unfold toU64 toI64
  split <;> (simp only [u64Size, i64Size] at *; omega)

/-- Going through `i64` never makes a number greater. -/
theorem toU64_toI64_le (x : Nat) : toU64 (toI64 x) ≤ x := by
  unfold toU64 toI64
  split <;> (simp only [u64Size, i64Size] at *; omega)

/-- Reading a nonnegative number as a `u64` never makes it greater. -/
theorem toU64_le {i : Int} (h : 0 ≤ i) : (toU64 i : Int) ≤ i := by
  obtain ⟨k, rfl⟩ := Int.eq_ofNat_of_zero_le h
  unfold toU64
  rw [← Int.natCast_emod, Int.toNat_natCast]
  exact Int.ofNat_le.mpr (Nat.mod_le k u64Size)

/-- Below the sign bit the cast is the identity. -/
theorem toI64_of_lt {x : Nat} (h : x < i64Size) : toI64 x = x := by
  unfold toI64
  split <;> (simp only [u64Size, i64Size] at *; omega)

theorem checkedAdd_eq_some {a b c : Nat} : checkedAdd a b = some c ↔ a + b = c ∧ c < u64Size := by
  unfold checkedAdd
  split
  · simp only [Option.some.injEq]
    omega
  · simp only [reduceCtorEq, false_iff]
    omega

end Paranoia
