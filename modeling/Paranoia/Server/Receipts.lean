import Paranoia.Types

/-!
# Read positions

For every account and dialogue the server keeps one record: the highest position the
account has seen and whether it lets the other party know. Records are read and written
whole, under a key of their own, and a record that was never written has its defaults.
-/

namespace Paranoia

structure ReceiptState where
  lastSeq : Nat
  receiptsEnabled : Bool
  /-- Unix time of the last write. -/
  updatedAt : Nat
deriving DecidableEq

namespace ReceiptState

/-- The record of an account that was never written. -/
def default : ReceiptState := ⟨0, true, 0⟩

/-- What `updateLastSeq` writes over the record it has read, if anything. -/
def raised (s : ReceiptState) (pulledSeq now : Nat) : Option ReceiptState :=
  if !s.receiptsEnabled then none
  else some { s with lastSeq := max s.lastSeq pulledSeq, updatedAt := now }

/-- What `setReceiptsEnabled` writes over the record it has read. -/
def switched (s : ReceiptState) (receiptsEnabled : Bool) (now : Nat) : ReceiptState :=
  { s with receiptsEnabled := receiptsEnabled, updatedAt := now }

end ReceiptState

/-- The records, by account and dialogue. -/
structure ReceiptDb where
  record : String → DialogueKey → Option ReceiptState

namespace ReceiptDb

def empty : ReceiptDb := ⟨fun _ _ => none⟩

def receiptState (db : ReceiptDb) (username : String) (dialogue : DialogueKey) : ReceiptState :=
  (db.record username dialogue).getD ReceiptState.default

def writeReceiptState (db : ReceiptDb) (username : String) (dialogue : DialogueKey)
    (state : ReceiptState) : ReceiptDb :=
  ⟨fun u k => if u = username ∧ k = dialogue then some state else db.record u k⟩

/-- Raise the position of an account, unless it has opted out. -/
def updateLastSeq (db : ReceiptDb) (username : String) (dialogue : DialogueKey)
    (pulledSeq now : Nat) : ReceiptDb :=
  match (db.receiptState username dialogue).raised pulledSeq now with
  | none => db
  | some state => db.writeReceiptState username dialogue state

def setReceiptsEnabled (db : ReceiptDb) (username : String) (dialogue : DialogueKey)
    (receiptsEnabled : Bool) (now : Nat) : ReceiptDb :=
  db.writeReceiptState username dialogue
    ((db.receiptState username dialogue).switched receiptsEnabled now)

variable {db : ReceiptDb} {username username' : String} {dialogue dialogue' : DialogueKey}

@[simp] theorem receiptState_empty :
    empty.receiptState username dialogue = ReceiptState.default := rfl

@[simp] theorem receiptState_write_self (state : ReceiptState) :
    (db.writeReceiptState username dialogue state).receiptState username dialogue = state := by
  simp [receiptState, writeReceiptState]

theorem receiptState_write_of_ne (state : ReceiptState)
    (h : ¬ (username' = username ∧ dialogue' = dialogue)) :
    (db.writeReceiptState username dialogue state).receiptState username' dialogue' =
      db.receiptState username' dialogue' := by
  simp [receiptState, writeReceiptState, h]

end ReceiptDb

end Paranoia
