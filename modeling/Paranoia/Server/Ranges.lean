import Paranoia.Server.KeyOps

/-!
# Ranges of packets, and what may go wrong

A range is read and deleted by a scan of the keys. An iterator of the database may fail at any entry,
and a batch may fail to be written; it is written as a whole or not at all. The operations are those
of `KeyOps` with both.
-/

namespace Paranoia

/-- What goes wrong while a request is served: the iterator at an entry, or the write. -/
structure DbFaults where
  read : Option Nat
  write : Bool
deriving DecidableEq

def DbFaults.none : DbFaults := ⟨Option.none, false⟩

/-- What an iterator yields over the entries. -/
def DbFaults.iterate {α : Type} (faults : DbFaults) (entries : List α) : List (Except String α) :=
  match faults.read with
  | .none => entries.map .ok
  | some n => (entries.take n).map .ok ++ [.error "RocksDB iterator error"]

namespace KeyStore

variable {ν : Type}

/-- The loop of `pull` over what the iterator yields. -/
def pullItems (dialogueId : List Char) (toSeq : Nat) :
    List (Except String (List Char × ν)) → Except String (List (RawPacket ν))
  | [] => .ok []
  | .error e :: _ => .error e
  | .ok entry :: rest =>
      if ¬ dialogueId ++ [':'] <+: entry.1 then .ok []
      else match parseSeq entry.1 dialogueId with
        | .error e => .error e
        | .ok seq =>
            if toSeq < seq then .ok []
            else (pullItems dialogueId toSeq rest).map (⟨seq, entry.2⟩ :: ·)

/-- The packets in `(afterSeq, toSeq]`. -/
def pullWith (faults : DbFaults) (ks : KeyStore ν) (dialogueId : DialogueId)
    (afterSeq toSeq : Nat) : Except String (List (RawPacket ν)) :=
  if toSeq = 0 || toSeq ≤ afterSeq then .error "Invalid pull range"
  else match checkedAdd afterSeq 1 with
    | none => .ok []
    | some startSeq =>
        pullItems dialogueId toSeq (faults.iterate
          (ks.db.entries.filter (fun e => StoreKey.makeKey dialogueId startSeq ≤ e.1)))

/-- The loop of `remove_range` over what the iterator yields. -/
def batchItems (dialogueId : List Char) (toSeq : Nat) :
    List (Except String (List Char)) → Except String (List (List Char))
  | [] => .ok []
  | .error e :: _ => .error e
  | .ok key :: rest =>
      if ¬ dialogueId ++ [':'] <+: key then .ok []
      else match parseSeq key dialogueId with
        | .error e => .error e
        | .ok seq =>
            if toSeq < seq then .ok []
            else (batchItems dialogueId toSeq rest).map (key :: ·)

/-- Delete the packets in `[fromSeq, toSeq]`: what is answered, and the store afterwards. -/
def removeRangeWith (faults : DbFaults) (ks : KeyStore ν) (dialogueId : DialogueId)
    (fromSeq toSeq : Nat) : Except String Unit × KeyStore ν :=
  if toSeq < fromSeq ∧ fromSeq ≠ 0 then (.error "Invalid range", ks)
  else match batchItems dialogueId toSeq (faults.iterate
      (ks.db.keys.filter (fun k => StoreKey.makeKey dialogueId (max fromSeq 1) ≤ k))) with
    | .error e => (.error e, ks)
    | .ok batch =>
        if faults.write then (.error "RocksDB write batch failed", ks)
        else (.ok (), ks.deleteBatch batch)

/-! ## What the operations are for -/

/-- The packets of the dialogue in the range, in ascending order and no other. -/
structure PulledExactly (ks : KeyStore ν) (dialogueId : DialogueId) (afterSeq toSeq : Nat)
    (packets : List (RawPacket ν)) : Prop where
  ascending : packets.Pairwise (fun a b => a.seq < b.seq)
  exact : ∀ pkt, pkt ∈ packets ↔ afterSeq < pkt.seq ∧ pkt.seq ≤ toSeq
    ∧ ks.db.get? (StoreKey.makeKey dialogueId pkt.seq) = some pkt.payload

/-- The packets of the dialogue in the range are gone and every other key is as it was; where an
error is answered, all keys are. -/
structure RemovedExactly (ks : KeyStore ν) (dialogueId : DialogueId) (fromSeq toSeq : Nat)
    (result : Except String Unit × KeyStore ν) : Prop where
  gone : result.1 = .ok () → ∀ n, fromSeq ≤ n → n ≤ toSeq →
    result.2.db.get? (StoreKey.makeKey dialogueId n) = none
  kept : result.1 = .ok () → ∀ k,
    (∀ n, fromSeq ≤ n → n ≤ toSeq → k ≠ StoreKey.makeKey dialogueId n) →
    result.2.db.get? k = ks.db.get? k
  unchanged : ∀ e, result.1 = .error e → result.2 = ks

end KeyStore

end Paranoia
