import Paranoia.Lib.Lts
import Paranoia.Lib.Notify
import Paranoia.Server.Positions
import Paranoia.Server.Signing

/-!
# Pushes and the long polls that wait for them

A `/push` stores its packet, raises the read position of its sender, which it first reads and then
writes, and wakes who waits for the dialogue. A `/pull` raises the position of who asks in the same
way. A `/notify` counts what is new in each of its dialogues; if nothing is, it takes the notifier of
each, makes a future of each, counts again, and waits for the first future that is ready or for the
time it was given, and counts once more. A count reads the position, looks for the greatest number
and scans. The notifiers are in a table which a collector clears of those that nobody holds. All of
these are steps of their own, and any number of requests are under way at once. The request for one
dialogue is the one with a list of one. Of a packet only who pushed it is kept here.
-/

namespace Paranoia

/-- Where a push is. `wake` holds the notifier it has looked up. -/
inductive PushPoint where
  | store
  | read
  | write (state : ReceiptState)
  | lookup
  | wake (waker : Nat)
  | respond
  | done
  | failed (message : String)
deriving DecidableEq

structure PushTask where
  sender : String
  recver : String
  seq : Nat
  point : PushPoint
deriving DecidableEq

def PushTask.dialogue (p : PushTask) : DialogueKey := DialogueKey.new p.sender p.recver

/-- Where the raise of a pull is. -/
inductive RaisePoint where
  | read
  | write (state : ReceiptState)
  | done
deriving DecidableEq

structure RaiseTask where
  username : String
  dialogue : DialogueKey
  pulledSeq : Nat
  point : RaisePoint
deriving DecidableEq

/-- Where a count is; `seek` and `scan` know the greater of cursor and position. -/
inductive CountPoint where
  | position
  | seek (effectiveFloor : Nat)
  | scan (effectiveFloor : Nat)
deriving DecidableEq

/-- Which of its three scans a long poll is in. -/
inductive ScanPhase where
  | first
  | second
  | last
deriving DecidableEq

/-- Where a long poll is: counting in item `i` with what it has found before, taking notifiers,
making futures, waiting, or over. -/
inductive PollPoint where
  | scan (phase : ScanPhase) (i : Nat) (count : CountPoint) (lit : List (String × Nat))
  | subscribe
  | futures
  | wait
  | answered (lit : List (String × Nat))
  | failed
deriving DecidableEq

/-- A long poll holds the notifiers it has taken until it is over. -/
structure PollTask where
  sender : String
  items : List NotifyItem
  longPoll : Bool
  wakers : List Nat
  notified : List Notified
  point : PollPoint
deriving DecidableEq

def PollTask.dialogue (t : PollTask) (item : NotifyItem) : DialogueKey :=
  DialogueKey.new t.sender item.partner

structure NotifyWorld where
  store : PacketStore String
  receipts : ReceiptDb
  /-- The notifier of a dialogue, by its number. -/
  inner : DialogueKey → Option Nat
  notifiers : List Notify
  pushes : List PushTask
  raises : List RaiseTask
  polls : List PollTask

inductive NotifyLabel where
  | push (sender recver : String) (seq : Nat)
  | pushStep (i : Nat) (now : Nat)
  /-- The position cannot be read or written. -/
  | pushError (i : Nat)
  | pull (username partner : String) (afterSeq toSeq : Nat)
  | raiseStep (i : Nat) (now : Nat)
  | notify (sender : String) (items : List NotifyItem) (longPoll : Bool)
  | pollStep (i : Nat)
  | timeout (i : Nat)
  | pollError (i : Nat)
  /-- Who asked has gone away. -/
  | cancel (i : Nat)
  | gc
deriving DecidableEq

/-- The long poll is over. -/
def PollPoint.Over : PollPoint → Bool
  | .answered _ => true
  | .failed => true
  | _ => false

/-- Hold on to a notifier: long polls until they are over, pushes until they have used it. -/
def PollTask.holds (t : PollTask) (waker : Nat) : Bool := !t.point.Over && t.wakers.contains waker

def PushTask.holds (p : PushTask) (waker : Nat) : Bool := p.point = .wake waker

namespace NotifyWorld

def init (receipts : ReceiptDb) : NotifyWorld :=
  ⟨.empty, receipts, fun _ => none, [], [], [], []⟩

def lastSeqOf (w : NotifyWorld) (username : String) (dialogue : DialogueKey) : Nat :=
  (w.receipts.receiptState username dialogue).lastSeq

/-! ## Pushes and pulls -/

def setPush (w : NotifyWorld) (i : Nat) (p : PushTask) (point : PushPoint) : NotifyWorld :=
  { w with pushes := w.pushes.set i { p with point := point } }

def stepPush (w : NotifyWorld) (i : Nat) (p : PushTask) (now : Nat) : Option NotifyWorld :=
  match p.point with
  | .store =>
      match w.store.push p.dialogue p.seq p.sender with
      | .ok store => some ({ w with store := store }.setPush i p .read)
      | .error message => some (w.setPush i p (.failed message))
  | .read =>
      let state := w.receipts.receiptState p.sender p.dialogue
      some (w.setPush i p (if !state.receiptsEnabled then .lookup else .write state))
  | .write state =>
      match state.raised p.seq now with
      | some state =>
          some ({ w with receipts := w.receipts.writeReceiptState p.sender p.dialogue state }.setPush
            i p .lookup)
      | none => some (w.setPush i p .lookup)
  | .lookup =>
      match w.inner p.dialogue with
      | some waker => some (w.setPush i p (.wake waker))
      | none => some (w.setPush i p .respond)
  | .wake waker =>
      some ({ w with notifiers := w.notifiers.modify waker Notify.notifyWaiters }.setPush i p .respond)
  | .respond => some (w.setPush i p .done)
  | .done => none
  | .failed _ => none

/-- A position that cannot be raised is only logged. -/
def errorPush (w : NotifyWorld) (i : Nat) (p : PushTask) : Option NotifyWorld :=
  match p.point with
  | .read => some (w.setPush i p .lookup)
  | .write _ => some (w.setPush i p .lookup)
  | _ => none

def setRaise (w : NotifyWorld) (i : Nat) (r : RaiseTask) (point : RaisePoint) : NotifyWorld :=
  { w with raises := w.raises.set i { r with point := point } }

def stepPull (w : NotifyWorld) (username partner : String) (afterSeq toSeq : Nat) : NotifyWorld :=
  let dialogue := DialogueKey.new username partner
  match w.store.pull dialogue afterSeq toSeq with
  | .error _ => w
  | .ok packets =>
      match (packets.map RawPacket.seq).max? with
      | none => w
      | some pulledSeq => { w with raises := w.raises ++ [⟨username, dialogue, pulledSeq, .read⟩] }

def stepRaise (w : NotifyWorld) (i : Nat) (r : RaiseTask) (now : Nat) : Option NotifyWorld :=
  match r.point with
  | .read =>
      let state := w.receipts.receiptState r.username r.dialogue
      some (w.setRaise i r (if !state.receiptsEnabled then .done else .write state))
  | .write state =>
      match state.raised r.pulledSeq now with
      | some state =>
          some ({ w with receipts := w.receipts.writeReceiptState r.username r.dialogue state }.setRaise
            i r .done)
      | none => some (w.setRaise i r .done)
  | .done => none

/-! ## Long polls -/

/-- One step of a count: the next one, or how many are new. -/
def stepCount (w : NotifyWorld) (username : String) (dialogue : DialogueKey) (afterSeq : Nat) :
    CountPoint → CountPoint ⊕ Nat
  | .position => .inl (.seek (max afterSeq (w.lastSeqOf username dialogue)))
  | .seek effectiveFloor =>
      if w.store.lastSeq dialogue ≤ effectiveFloor then .inr 0 else .inl (.scan effectiveFloor)
  | .scan effectiveFloor => .inr (w.store.countAfter dialogue effectiveFloor)

/-- What comes after a scan. -/
def afterScan (phase : ScanPhase) (longPoll : Bool) (lit : List (String × Nat)) : PollPoint :=
  match phase with
  | .first => if !lit.isEmpty || !longPoll then .answered lit else .subscribe
  | .second => if !lit.isEmpty then .answered lit else .wait
  | .last => .answered lit

def setPoll (w : NotifyWorld) (i : Nat) (t : PollTask) : NotifyWorld :=
  { w with polls := w.polls.set i t }

def stepScan (w : NotifyWorld) (t : PollTask) (phase : ScanPhase) (i : Nat) (count : CountPoint)
    (lit : List (String × Nat)) : PollPoint :=
  match t.items[i]? with
  | none => afterScan phase t.longPoll lit
  | some item =>
      match w.stepCount t.sender (t.dialogue item) item.seq count with
      | .inl count => .scan phase i count lit
      | .inr n => .scan phase (i + 1) .position (if n > 0 then lit ++ [(item.partner, n)] else lit)

/-- The notifier of a dialogue, made if there is none. -/
def waker (w : NotifyWorld) (dialogue : DialogueKey) : NotifyWorld × Nat :=
  match w.inner dialogue with
  | some waker => (w, waker)
  | none =>
      ({ w with
          inner := fun d => if d = dialogue then some w.notifiers.length else w.inner d
          notifiers := w.notifiers ++ [.new] }, w.notifiers.length)

/-- The future of one of the notifiers a long poll holds is ready. -/
def Woken (w : NotifyWorld) (t : PollTask) : Prop :=
  ∃ e ∈ t.wakers.zip t.notified, ∃ n ∈ w.notifiers[e.1]?, e.2.Ready n

instance (w : NotifyWorld) (t : PollTask) : Decidable (w.Woken t) := by
  unfold Woken
  infer_instance

def stepPoll (w : NotifyWorld) (i : Nat) (t : PollTask) : Option NotifyWorld :=
  match t.point with
  | .scan phase j count lit =>
      some (w.setPoll i { t with point := w.stepScan t phase j count lit })
  | .subscribe =>
      match t.items[t.wakers.length]? with
      | some item =>
          let (w, waker) := w.waker (t.dialogue item)
          some (w.setPoll i { t with wakers := t.wakers ++ [waker] })
      | none => some (w.setPoll i { t with point := .futures })
  | .futures =>
      match t.wakers[t.notified.length]? with
      | some waker =>
          let n := (w.notifiers[waker]?).getD .new
          some (w.setPoll i { t with notified := t.notified ++ [n.notified] })
      | none => some (w.setPoll i { t with point := .scan .second 0 .position [] })
  | .wait =>
      if w.Woken t then some (w.setPoll i { t with point := .scan .last 0 .position [] }) else none
  | .answered _ => none
  | .failed => none

/-- Clear the table of the notifiers nobody holds. -/
def gc (w : NotifyWorld) : NotifyWorld :=
  { w with
    inner := fun d => (w.inner d).filter (fun waker =>
      w.polls.any (·.holds waker) || w.pushes.any (·.holds waker)) }

def step (w : NotifyWorld) : NotifyLabel → Option NotifyWorld
  | .push sender recver seq =>
      if seq < u64Size then some { w with pushes := w.pushes ++ [⟨sender, recver, seq, .store⟩] }
      else none
  | .pushStep i now => (w.pushes[i]?).bind (fun p => w.stepPush i p now)
  | .pushError i => (w.pushes[i]?).bind (fun p => w.errorPush i p)
  | .pull username partner afterSeq toSeq => some (w.stepPull username partner afterSeq toSeq)
  | .raiseStep i now => (w.raises[i]?).bind (fun r => w.stepRaise i r now)
  | .notify sender items longPoll =>
      some { w with
        polls := w.polls ++ [⟨sender, items, longPoll, [], [], .scan .first 0 .position []⟩] }
  | .pollStep i => (w.polls[i]?).bind (fun t => w.stepPoll i t)
  | .timeout i =>
      (w.polls[i]?).bind (fun t =>
        if t.point = .wait then some (w.setPoll i { t with point := .scan .last 0 .position [] })
        else none)
  | .pollError i =>
      (w.polls[i]?).bind (fun t =>
        match t.point with
        | .scan .. => some (w.setPoll i { t with point := .failed })
        | _ => none)
  | .cancel i => (w.polls[i]?).map (fun t => w.setPoll i { t with point := .failed })
  | .gc => some w.gc

end NotifyWorld

end Paranoia
