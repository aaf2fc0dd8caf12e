import Paranoia.Lib.Glued
import Paranoia.Server.Keys
import Paranoia.Server.Receipts

/-!
# What the server does with the keys of its database

A dialogue is known to the store by the hash of its two names. Its packets are reached by their
keys: a push reads and writes one, and everything over a range is a scan from the key of the first
number until a key begins in another way. A record of a read position is one value, written in
JSON, under a key with the name of the account and the dialogue.
-/

namespace Paranoia

/-! ## The hash of a dialogue -/

def dialogueText (key : DialogueKey) : String := key.a ++ ":" ++ key.b

/-- The hash of two names in order. The hash function is a parameter. -/
def makeDialogueId (hash : String → DialogueId) (a b : String) : DialogueId :=
  hash (dialogueText (DialogueKey.new a b))

/-- The client's own function for the same. -/
def Client.makeDialogueId (hash : String → DialogueId) (a b : String) : DialogueId :=
  let (first, second) := if a < b then (a, b) else (b, a)
  hash (first ++ ":" ++ second)

/-- Whether the key is one of a packet. -/
def StoreKey.isPacket : StoreKey → Bool
  | .packet _ _ => true
  | _ => false

namespace KeyStore

variable {ν : Type}

/-! ## Packets -/

/-- Store a packet, unless its key is taken. -/
def push (ks : KeyStore (List UInt8)) (dialogueId : DialogueId) (seq : Nat) (h : seq < u64Size)
    (data : List UInt8) : Except String (KeyStore (List UInt8)) :=
  match ks.db.get? (StoreKey.makeKey dialogueId seq) with
  | some _ => .error ("Duplicate seq " ++ toString seq)
  | none => .ok (ks.put (.packet dialogueId seq) h data)

/-- The loop of `pull` over the entries that are left. -/
def pullEntries (dialogueId : List Char) (toSeq : Nat) :
    List (List Char × ν) → Except String (List (RawPacket ν))
  | [] => .ok []
  | entry :: rest =>
      if ¬ dialogueId ++ [':'] <+: entry.1 then .ok []
      else match parseSeq entry.1 dialogueId with
        | .error e => .error e
        | .ok seq =>
            if toSeq < seq then .ok []
            else (pullEntries dialogueId toSeq rest).map (⟨seq, entry.2⟩ :: ·)

/-- The packets in `(afterSeq, toSeq]`. -/
def pull (ks : KeyStore ν) (dialogueId : DialogueId) (afterSeq toSeq : Nat) :
    Except String (List (RawPacket ν)) :=
  if toSeq = 0 || toSeq ≤ afterSeq then .error "Invalid pull range"
  else match checkedAdd afterSeq 1 with
    | none => .ok []
    | some startSeq =>
        pullEntries dialogueId toSeq
          (ks.db.entries.filter (fun e => StoreKey.makeKey dialogueId startSeq ≤ e.1))

/-- How many keys of the dialogue there are from that of `afterSeq + 1` on. -/
def countAfter (ks : KeyStore ν) (dialogueId : DialogueId) (afterSeq : Nat) : Nat :=
  ((ks.db.keys.filter (fun k =>
    StoreKey.makeKey dialogueId (saturatingAdd afterSeq 1) ≤ k)).takeWhile
      (fun k => dialogueId.keyPrefix <+: k)).foldl (fun count _ => saturatingAdd count 1) 0

/-- The loop of `remove_range` over the keys that are left. -/
def batchKeys (dialogueId : List Char) (toSeq : Nat) :
    List (List Char) → Except String (List (List Char))
  | [] => .ok []
  | key :: rest =>
      if ¬ dialogueId ++ [':'] <+: key then .ok []
      else match parseSeq key dialogueId with
        | .error e => .error e
        | .ok seq =>
            if toSeq < seq then .ok []
            else (batchKeys dialogueId toSeq rest).map (key :: ·)

/-- What `remove_range` will delete. -/
def rangeBatch (ks : KeyStore ν) (dialogueId : List Char) (fromSeq toSeq : Nat) :
    Except String (List (List Char)) :=
  if toSeq < fromSeq ∧ fromSeq ≠ 0 then .error "Invalid range"
  else batchKeys dialogueId toSeq
    (ks.db.keys.filter (fun k => StoreKey.makeKey dialogueId (max fromSeq 1) ≤ k))

/-- Delete the keys of a batch. -/
def deleteBatch (ks : KeyStore ν) (batch : List (List Char)) : KeyStore ν where
  db := ks.db.eraseWhere (fun k => k ∈ batch)
  known k hk := ks.known k (OrdMap.mem_keys_eraseWhere.mp hk).1

/-- Delete the packets in `[fromSeq, toSeq]`; `fromSeq = 0` starts at the first one. -/
def removeRange (ks : KeyStore ν) (dialogueId : DialogueId) (fromSeq toSeq : Nat) :
    Except String (KeyStore ν) :=
  (ks.rangeBatch dialogueId fromSeq toSeq).map ks.deleteBatch

/-! ## Dialogues -/

/-- A dialogue, its greatest number and how many bytes its packets have. -/
abbrev Listed := List Char × Nat × Nat

/-- One entry of the store in `list_dialogues`, after the dialogues that are done with and the
one its scan is in. -/
def listEntry (s : List Listed × Option Listed) (entry : List Char × List UInt8) :
    List Listed × Option Listed :=
  if "receipt:".toList <+: entry.1 then s
  else match Glued.splitOnce ':' entry.1 with
    | none => s
    | some (id, seqStr) =>
        match Decimal.parse u64Size seqStr with
        | none => s
        | some seq =>
            match s.2 with
            | some (cur, last, bytes) =>
                if cur = id then
                  (s.1, some (cur, max last seq, saturatingAdd bytes entry.2.length))
                else (s.1 ++ [(cur, last, bytes)], some (id, seq, entry.2.length))
            | none => (s.1, some (id, seq, entry.2.length))

/-- The dialogues the store has packets of. -/
def listDialogues (ks : KeyStore (List UInt8)) : List Listed :=
  let (result, current) := ks.db.entries.foldl listEntry ([], none)
  result ++ current.toList

end KeyStore

/-! ## Read positions -/

/-- How records are written as bytes. -/
structure ReceiptCodec where
  toVec : ReceiptState → List UInt8
  fromSlice : List UInt8 → Option ReceiptState

namespace KeyStore

variable (codec : ReceiptCodec) (ks : KeyStore (List UInt8))

def receiptState (username : String) (dialogueId : List Char) : Except String ReceiptState :=
  match ks.db.get? (StoreKey.makeReceiptKey username.toList dialogueId) with
  | none => .ok ReceiptState.default
  | some value =>
      match codec.fromSlice value with
      | some state => .ok state
      | none => .error "Cannot decode receipt state"

def writeReceiptState (username : String) (dialogueId : List Char) (state : ReceiptState) :
    KeyStore (List UInt8) :=
  ks.put (.receipt username.toList dialogueId) trivial (codec.toVec state)

/-- Raise the position of an account, unless it has opted out. -/
def updateLastSeq (username : String) (dialogueId : List Char) (pulledSeq now : Nat) :
    Except String (KeyStore (List UInt8)) :=
  match ks.receiptState codec username dialogueId with
  | .error e => .error e
  | .ok state =>
      match state.raised pulledSeq now with
      | none => .ok ks
      | some state => .ok (ks.writeReceiptState codec username dialogueId state)

def setReceiptsEnabled (username : String) (dialogueId : List Char) (receiptsEnabled : Bool)
    (now : Nat) : Except String (KeyStore (List UInt8)) :=
  match ks.receiptState codec username dialogueId with
  | .error e => .error e
  | .ok state =>
      .ok (ks.writeReceiptState codec username dialogueId (state.switched receiptsEnabled now))

/-- How many packets count as new for an account. -/
def countNewForUser (dialogueId : DialogueId) (afterSeq : Nat) (username : String) :
    Except String Nat :=
  match ks.receiptState codec username dialogueId with
  | .error e => .error e
  | .ok state =>
      let effectiveFloor := max afterSeq state.lastSeq
      match ks.lastSeq dialogueId with
      | .error e => .error e
      | .ok last =>
          if last ≤ effectiveFloor then .ok 0 else .ok (ks.countAfter dialogueId effectiveFloor)

end KeyStore

end Paranoia
