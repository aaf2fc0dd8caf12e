import Mathlib.Data.Char
import Paranoia.Lib.Decimal
import Paranoia.Lib.OrdMap
import Paranoia.Server.PacketStore

/-!
# The keys of the server's database

One RocksDB holds everything the server keeps: packets under `dialogue_id:seq`, with the
number padded to twenty digits, receipts under `receipt:username:dialogue_id`, and the chunks
and metadata of ephemeral files under `eph:` and `ephmeta:`. Its keys are texts in
lexicographic order, and `map` is a scan over them from the key of the first number asked for
until a key of something else comes. `PacketStore` keeps the packets of each dialogue apart
and in numeric order; that a scan of the keys amounts to a scan of the numbers is proved in
`Proof.Paging`.
-/

namespace Paranoia

/-- The hash of the two names of a dialogue, in hexadecimal. -/
structure DialogueId where
  text : List Char
  length : text.length = 64
  hex : ∀ c ∈ text, c ∈ "0123456789abcdef".toList

instance : Coe DialogueId (List Char) := ⟨DialogueId.text⟩

theorem length_zeros : (List.replicate 64 '0').length = 64 := List.length_replicate

theorem hex_zeros : ∀ c ∈ List.replicate 64 '0', c ∈ "0123456789abcdef".toList := by
  intro c hc
  rw [List.eq_of_mem_replicate hc]
  decide

/-- What a key of the database is a key of. A receipt is kept for any text that was sent as the
dialogue. -/
inductive StoreKey where
  | packet (dialogueId : DialogueId) (seq : Nat)
  | receipt (username dialogueId : List Char)
  | ephChunk (dialogueId : DialogueId) (fileId : List Char) (chunkIndex : Nat)
  | ephMeta (dialogueId : DialogueId) (fileId : List Char)

namespace StoreKey

def makeKey (dialogueId : List Char) (seq : Nat) : List Char :=
  dialogueId ++ ':' :: Decimal.padded 20 seq

def makeReceiptKey (username dialogueId : List Char) : List Char :=
  "receipt:".toList ++ (username ++ ':' :: dialogueId)

def makeEphChunkKey (dialogueId : DialogueId) (fileId : List Char) (chunkIndex : Nat) :
    List Char :=
  "eph:".toList ++ (dialogueId.text ++ ':' :: (fileId ++ ':' :: Decimal.padded 20 chunkIndex))

def makeEphMetaKey (dialogueId : DialogueId) (fileId : List Char) : List Char :=
  "ephmeta:".toList ++ (dialogueId.text ++ ':' :: fileId)

/-- The key as it is stored. -/
def text : StoreKey → List Char
  | packet dialogueId seq => makeKey dialogueId seq
  | receipt username dialogueId => makeReceiptKey username dialogueId
  | ephChunk dialogueId fileId chunkIndex => makeEphChunkKey dialogueId fileId chunkIndex
  | ephMeta dialogueId fileId => makeEphMetaKey dialogueId fileId

/-- The number of a packet is a `u64`. -/
def Bounded : StoreKey → Prop
  | packet _ seq => seq < u64Size
  | _ => True

instance : (key : StoreKey) → Decidable key.Bounded
  | packet _ seq => inferInstanceAs (Decidable (seq < u64Size))
  | receipt _ _ => isTrue trivial
  | ephChunk _ _ _ => isTrue trivial
  | ephMeta _ _ => isTrue trivial

end StoreKey

/-- The database: texts in order, each of them the key of something. -/
structure KeyStore (ν : Type) where
  db : OrdMap (List Char) ν
  known : ∀ k ∈ db.keys, ∃ key : StoreKey, key.Bounded ∧ key.text = k

/-- What the keys of a dialogue's packets begin with. -/
def DialogueId.keyPrefix (dialogueId : DialogueId) : List Char := dialogueId.text ++ [':']

/-- The number in a key of the dialogue. -/
def parseSeq (key dialogueId : List Char) : Except String Nat :=
  match Decimal.parse u64Size (key.drop (dialogueId.length + 1)) with
  | some seq => .ok seq
  | none => .error ("Cannot parse seq from key: " ++ String.ofList key)

namespace KeyStore

variable {ν : Type}

def empty : KeyStore ν := ⟨OrdMap.empty, fun _ h => absurd h List.not_mem_nil⟩

/-- Write under a key. -/
def put (ks : KeyStore ν) (key : StoreKey) (h : key.Bounded) (value : ν) : KeyStore ν where
  db := ks.db.put key.text value
  known k hk := by
    rcases OrdMap.mem_keys_put.mp hk with rfl | hk
    · exact ⟨key, h, rfl⟩
    · exact ks.known k hk

/-- The loop of `map` over the keys that are left. -/
def scanKeys (dialogueId : DialogueId) (toSeq maxRuns : Nat) :
    List (List Char) → List (Nat × Nat) → Option (Nat × Nat) →
      Except String (List (Nat × Nat) × Bool)
  | [], runs, current => .ok (runs ++ current.toList, false)
  | key :: rest, runs, current =>
      if ¬ dialogueId.keyPrefix <+: key then .ok (runs ++ current.toList, false)
      else match parseSeq key dialogueId with
        | .error e => .error e
        | .ok seq =>
            if toSeq ≠ 0 ∧ toSeq < seq then .ok (runs ++ current.toList, false)
            else match current with
              | some (first, last) =>
                  if seq = last + 1 then
                    scanKeys dialogueId toSeq maxRuns rest runs (some (first, seq))
                  else if maxRuns ≤ (runs ++ [(first, last)]).length then
                    .ok (runs ++ [(first, last)], true)
                  else
                    scanKeys dialogueId toSeq maxRuns rest (runs ++ [(first, last)])
                      (some (seq, seq))
              | none =>
                  if maxRuns ≤ runs.length then .ok (runs, true)
                  else scanKeys dialogueId toSeq maxRuns rest runs (some (seq, seq))

/-- The greatest number of the dialogue: one step back from where its keys end. -/
def lastSeq (ks : KeyStore ν) (dialogueId : DialogueId) : Except String Nat :=
  match (ks.db.keys.filter (fun k => k ≤ dialogueId.text ++ [';'])).getLast? with
  | none => .ok 0
  | some key => if dialogueId.keyPrefix <+: key then parseSeq key dialogueId else .ok 0

/-- The scan of `map`, from the key of the first number asked for. -/
def mapRuns (ks : KeyStore ν) (dialogueId : DialogueId) (afterSeq toSeq maxRuns : Nat) :
    Except String (List (Nat × Nat) × Bool) :=
  match checkedAdd afterSeq 1 with
  | none => .ok ([], false)
  | some startSeq =>
      scanKeys dialogueId toSeq maxRuns
        (ks.db.keys.filter (fun k => StoreKey.makeKey dialogueId startSeq ≤ k)) [] none

/-- The map of live sequence numbers. -/
def map (ks : KeyStore ν) (dialogueId : DialogueId) (afterSeq toSeq maxRuns : Nat) :
    Except String MapResult :=
  if toSeq ≠ 0 ∧ toSeq ≤ afterSeq then .error "Invalid map range"
  else match ks.mapRuns dialogueId afterSeq toSeq maxRuns with
    | .error e => .error e
    | .ok (runs, truncated) =>
        match ks.lastSeq dialogueId with
        | .error e => .error e
        | .ok last => .ok ⟨runs, last, truncated⟩

/-- The number of a key, if it is one of the dialogue. -/
def number? (dialogueId : DialogueId) (key : List Char) : Option Nat :=
  if dialogueId.keyPrefix <+: key then (parseSeq key dialogueId).toOption else none

/-- The live numbers of a dialogue. -/
def live (ks : KeyStore ν) (dialogueId : DialogueId) : List Nat :=
  ks.db.keys.filterMap (number? dialogueId)

end KeyStore

end Paranoia
