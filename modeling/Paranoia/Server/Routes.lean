import Paranoia.Server.PacketStore

/-!
# Request handlers of the server

What `/push`, `/pull` and `/map` check before they touch the packet store. A
signature is modelled by the account whose key made it over the fields of the
request; verifying it under an account's key is comparing the two.
-/

namespace Paranoia

structure Server (π : Type) where
  /-- The registered accounts. -/
  users : List String
  store : PacketStore π

structure PushRequest (π : Type) where
  sender : String
  recver : String
  seq : Nat
  payload : π
  /-- Whose key signed the fields above. -/
  sig : String
deriving DecidableEq

/-- A pull or a map request: a range of the dialogue of two accounts. -/
structure RangeRequest where
  sender : String
  recver : String
  afterSeq : Nat
  toSeq : Nat
  sig : String
deriving DecidableEq

structure ApiResponse where
  success : Bool
  message : String
deriving DecidableEq

def ok (msg : String) : ApiResponse := ⟨true, msg⟩

def fail (msg : String) : ApiResponse := ⟨false, msg⟩

/-- The dialogue a push belongs to. -/
def PushRequest.dialogue {π : Type} (req : PushRequest π) : DialogueKey :=
  DialogueKey.new req.sender req.recver

def RangeRequest.dialogue (req : RangeRequest) : DialogueKey :=
  DialogueKey.new req.sender req.recver

namespace Server

variable {π : Type}

/-- Why a push is refused before the store is asked; a number that is no `u64` does not
parse. -/
def refusePush (users : List String) (req : PushRequest π) : Option String :=
  if u64Size ≤ req.seq then some "Bad cover"
  else if !users.contains req.recver then some "One user in pair not registered"
  else if !users.contains req.sender then some "One user in pair not registered"
  else if req.sig ≠ req.sender then some "Invalid signature"
  else none

def doPush (srv : Server π) (req : PushRequest π) : Server π × ApiResponse :=
  match refusePush srv.users req with
  | some msg => (srv, fail msg)
  | none =>
      match srv.store.push req.dialogue req.seq req.payload with
      | .ok store => ({ srv with store := store }, ok "OK")
      | .error msg => (srv, fail msg)

/-- Why a pull or a map request is refused after its range was found valid: either
participant of the dialogue may sign it. -/
def refuseRange (users : List String) (req : RangeRequest) : Option String :=
  if !(users.contains req.sender && users.contains req.recver) then
    some "One user in pair not registered"
  else if req.sig ≠ req.sender ∧ req.sig ≠ req.recver then some "Invalid signature"
  else none

def doPull (srv : Server π) (req : RangeRequest) : Except String (List (RawPacket π)) :=
  if req.toSeq = 0 || req.toSeq ≤ req.afterSeq then .error "Invalid pull range"
  else match refuseRange srv.users req with
    | some msg => .error msg
    | none => srv.store.pull req.dialogue req.afterSeq req.toSeq

def doMap (srv : Server π) (req : RangeRequest) : Except String MapResult :=
  if req.toSeq ≠ 0 ∧ req.toSeq ≤ req.afterSeq then .error "Invalid map range"
  else match refuseRange srv.users req with
    | some msg => .error msg
    | none => srv.store.map req.dialogue req.afterSeq req.toSeq mapMaxRuns

/-! ## What the handlers do -/

theorem refusePush_eq_none {users : List String} {req : PushRequest π} :
    refusePush users req = none ↔ req.seq < u64Size ∧
      req.recver ∈ users ∧ req.sender ∈ users ∧ req.sig = req.sender := by
  unfold refusePush
  by_cases hq : u64Size ≤ req.seq
  · simp only [hq, if_true, reduceCtorEq, false_iff]
    omega
  · by_cases hr : req.recver ∈ users <;> by_cases hs : req.sender ∈ users <;>
      simp [hq, hr, hs, Nat.lt_of_not_le hq]

/-- An accepted push was signed by its sender, went to a free number and is stored now. -/
theorem doPush_success {srv srv' : Server π} {req : PushRequest π} {resp : ApiResponse}
    (h : srv.doPush req = (srv', resp)) (hs : resp.success = true) :
    req.seq < u64Size ∧ req.sig = req.sender ∧ srv.store.get req.dialogue req.seq = none
      ∧ srv' = { srv with store := srv.store.put req.dialogue req.seq req.payload } := by
  unfold doPush at h
  split at h
  · cases h
    exact absurd hs (by simp [fail])
  · rename_i hr
    split at h
    · rename_i store hp
      obtain ⟨hfree, rfl⟩ := PacketStore.push_eq_ok.mp hp
      cases h
      obtain ⟨hlt, _, _, hsig⟩ := refusePush_eq_none.mp hr
      exact ⟨hlt, hsig, hfree, rfl⟩
    · cases h
      exact absurd hs (by simp [fail])

/-- A refused push leaves the server as it was. -/
theorem doPush_failure {srv srv' : Server π} {req : PushRequest π} {resp : ApiResponse}
    (h : srv.doPush req = (srv', resp)) (hs : resp.success = false) : srv' = srv := by
  unfold doPush at h
  split at h
  · cases h
    rfl
  · split at h
    · cases h
      exact absurd hs (by simp [ok])
    · cases h
      rfl

theorem doPush_users {srv srv' : Server π} {req : PushRequest π} {resp : ApiResponse}
    (h : srv.doPush req = (srv', resp)) : srv'.users = srv.users := by
  cases hs : resp.success with
  | true => rw [(doPush_success h hs).2.2.2]
  | false => rw [doPush_failure h hs]

end Server

end Paranoia
