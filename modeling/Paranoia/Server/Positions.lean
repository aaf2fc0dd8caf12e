import Paranoia.Server.Receipts
import Paranoia.Server.Routes

/-!
# Handlers that move read positions

`/push` raises the position of the sender to the number it pushed at, `/pull` that of the
signer to the greatest number of its answer, both before they answer. `/notify` counts the
packets above the position of the account and the cursor of the device that asks.
-/

namespace Paranoia

/-- The server with its read positions. -/
structure PositionServer (π : Type) where
  core : Server π
  receipts : ReceiptDb

/-- A request of one device for the number of new packets. -/
structure NotifyRequest where
  sender : String
  partner : String
  seq : Nat
  sig : String
deriving DecidableEq

def NotifyRequest.dialogue (req : NotifyRequest) : DialogueKey :=
  DialogueKey.new req.sender req.partner

/-- The participant whose key made the signature; the first one is tried first. -/
def RangeRequest.signer (req : RangeRequest) : String :=
  if req.sig = req.sender then req.sender else req.recver

/-- The number of live packets above `afterSeq`. -/
def PacketStore.countAfter {π : Type} (ps : PacketStore π) (dialogue : DialogueKey)
    (afterSeq : Nat) : Nat :=
  ((ps.live dialogue).filter (fun s => saturatingAdd afterSeq 1 ≤ s)).length

namespace PositionServer

variable {π : Type}

/-- The read position of an account. -/
def lastSeqOf (srv : PositionServer π) (username : String) (dialogue : DialogueKey) : Nat :=
  (srv.receipts.receiptState username dialogue).lastSeq

def doPush (srv : PositionServer π) (req : PushRequest π) (now : Nat) :
    PositionServer π × ApiResponse :=
  let (core, resp) := srv.core.doPush req
  if resp.success then
    (⟨core, srv.receipts.updateLastSeq req.sender req.dialogue req.seq now⟩, resp)
  else (⟨core, srv.receipts⟩, resp)

def doPull (srv : PositionServer π) (req : RangeRequest) (now : Nat) :
    PositionServer π × Except String (List (RawPacket π)) :=
  match srv.core.doPull req with
  | .error msg => (srv, .error msg)
  | .ok packets =>
      match (packets.map RawPacket.seq).max? with
      | none => (srv, .ok packets)
      | some pulledSeq =>
          ({ srv with
              receipts := srv.receipts.updateLastSeq req.signer req.dialogue pulledSeq now },
            .ok packets)

/-- How many packets count as new for an account. -/
def countNewForUser (srv : PositionServer π) (dialogue : DialogueKey) (afterSeq : Nat)
    (username : String) : Nat :=
  let effectiveFloor := max afterSeq (srv.lastSeqOf username dialogue)
  if srv.core.store.lastSeq dialogue ≤ effectiveFloor then 0
  else srv.core.store.countAfter dialogue effectiveFloor

def doNotify (srv : PositionServer π) (req : NotifyRequest) : Except String Nat :=
  if !srv.core.users.contains req.partner then .error "One user in pair not registered"
  else if !srv.core.users.contains req.sender then .error "One user in pair not registered"
  else if req.sig ≠ req.sender then .error "Invalid signature"
  else .ok (srv.countNewForUser req.dialogue req.seq req.sender)

/-- Whatever is live above the position and the cursor makes the count positive. -/
theorem countNewForUser_pos {srv : PositionServer π} {dialogue : DialogueKey}
    {afterSeq s : Nat} {username : String} (hs : s ∈ srv.core.store.live dialogue)
    (hafter : afterSeq < s) (hlast : srv.lastSeqOf username dialogue < s) :
    0 < srv.countNewForUser dialogue afterSeq username := by
  have hle := PacketStore.le_lastSeq hs
  unfold countNewForUser
  dsimp only
  rw [if_neg (by omega)]
  refine List.length_pos_of_mem (a := s) (List.mem_filter.mpr ⟨hs, decide_eq_true ?_⟩)
  unfold saturatingAdd
  omega

end PositionServer

end Paranoia
