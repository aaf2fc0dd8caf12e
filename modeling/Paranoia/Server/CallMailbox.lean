import Paranoia.Lib.Lts
import Paranoia.Lib.Notify
import Paranoia.Server.Signing

/-!
# The mailboxes of call signals

`/call/signal` puts an envelope at the end of its receiver's queue, which drops its oldest one when
it is full, and wakes who waits for the queue. `/call/poll` takes all there is; if that is nothing, it
gets the notifier of the queue, makes a future of it, looks once more, waits for the future or for
the time it was given, and takes what there is then. A collector drops what is too old, and queues
that are empty and whose notifier nobody holds. The queues are under one lock; what is done under it
is one step here, and any number of requests are under way at once. Besides the queues the world
keeps which requests were accepted for a user and what has left a queue how, both in order.
-/

namespace Paranoia

namespace Mailbox

/-- Milliseconds an envelope may wait. -/
def envelopeTtl : Nat := 60 * 1000

def maxQueueLen : Nat := 64

structure CallEnvelope where
  sender : String
  kind : Nat
  payload : List Nat
  tsMs : Int
  received : Nat
deriving DecidableEq

/-- A queue, and the number of its notifier. -/
structure Queue where
  items : List CallEnvelope
  waker : Nat
deriving DecidableEq

/-- How an envelope has left its queue: by a poll, too old at that time, or dropped from a queue of
that length. -/
inductive Fate where
  | returned (poll : Nat)
  | expired (now : Nat)
  | overflow (length : Nat)
deriving DecidableEq

inductive SignalPoint where
  | push
  | wake (waker : Nat)
  | answered (success : Bool) (message : String)
  | cancelled
deriving DecidableEq

structure SignalTask where
  recver : String
  envelope : CallEnvelope
  point : SignalPoint
deriving DecidableEq

/-- Where a poll is; it holds the notifier from when it has got it to its end. -/
inductive PollPoint where
  | first
  | subscribe
  | future (waker : Nat)
  | second (waker : Nat) (notified : Notified)
  | wait (waker : Nat) (notified : Notified)
  | last (waker : Nat)
  | answered (items : List CallEnvelope)
  | refused (message : String)
  | cancelled
deriving DecidableEq

structure PollTask where
  user : String
  longPollMs : Nat
  point : PollPoint
deriving DecidableEq

def SignalPoint.waker? : SignalPoint → Option Nat
  | .wake waker => some waker
  | _ => none

def PollPoint.waker? : PollPoint → Option Nat
  | .future waker => some waker
  | .second waker _ => some waker
  | .wait waker _ => some waker
  | .last waker => some waker
  | _ => none

structure World where
  cfg : Config
  now : Nat
  inner : String → Option Queue
  notifiers : List Notify
  signals : List SignalTask
  polls : List PollTask
  /-- The requests accepted for a user, in order. -/
  accepted : String → List Nat
  /-- What has left the queue of a user, in order. -/
  gone : String → List (CallEnvelope × Fate)

inductive Label where
  | tick (ms : Nat)
  /-- Users come and go. -/
  | configure (cfg : Config)
  | signal (sender recver : String) (kind : Nat) (tsMs : Int) (payload : String)
      (sig : Option Signature)
  | signalStep (i : Nat)
  | signalCancel (i : Nat)
  | poll (user : String) (nonce longPollMs : Nat) (sig : Option Signature)
  | pollStep (i : Nat)
  | timeout (i : Nat)
  | cancel (i : Nat)
  | gc
deriving DecidableEq

namespace World

def init (cfg : Config) (now : Nat) : World :=
  ⟨cfg, now, fun _ => none, [], [], [], fun _ => [], fun _ => []⟩

/-- What is in the queue of a user. -/
def items (w : World) (user : String) : List CallEnvelope :=
  match w.inner user with
  | some q => q.items
  | none => []

/-- The queue of a user, made if there is none. -/
def entry (w : World) (user : String) : World × Queue :=
  match w.inner user with
  | some q => (w, q)
  | none =>
      let q : Queue := ⟨[], w.notifiers.length⟩
      ({ w with
          inner := fun u => if u = user then some q else w.inner u
          notifiers := w.notifiers ++ [.new] }, q)

/-- The queue of a user holds these now, and these have left it. -/
def setItems (w : World) (user : String) (waker : Nat) (items : List CallEnvelope)
    (left : List (CallEnvelope × Fate)) : World :=
  { w with
    inner := fun u => if u = user then some ⟨items, waker⟩ else w.inner u
    gone := fun u => if u = user then w.gone u ++ left else w.gone u }

/-! ## Signals -/

def setSignal (w : World) (i : Nat) (s : SignalTask) (point : SignalPoint) : World :=
  { w with signals := w.signals.set i { s with point := point } }

/-- Put the envelope at the end of its queue, from which the oldest one goes if it is full. -/
def push (w : World) (i : Nat) (s : SignalTask) : World :=
  let (w, q) := w.entry s.recver
  let full := q.items.length ≥ maxQueueLen
  let dropped := if full then q.items.take 1 else []
  let kept := if full then q.items.drop 1 else q.items
  { w.setItems s.recver q.waker (kept ++ [s.envelope])
      (dropped.map (fun e => (e, .overflow q.items.length))) with
    accepted := fun u => if u = s.recver then w.accepted u ++ [i] else w.accepted u
    signals := w.signals.set i { s with point := .wake q.waker } }

def stepSignal (w : World) (i : Nat) (s : SignalTask) : Option World :=
  match s.point with
  | .push => some (w.push i s)
  | .wake waker =>
      some ({ w with notifiers := w.notifiers.modify waker Notify.notifyWaiters }.setSignal i s
        (.answered true "queued"))
  | .answered _ _ => none
  | .cancelled => none

def beginSignal (w : World) (sender recver : String) (kind : Nat) (tsMs : Int) (payload : String)
    (sig : Option Signature) : World :=
  let envelope : CallEnvelope :=
    ⟨sender, kind, (decodeB64 payload.toList).getD [], tsMs, w.now⟩
  match w.cfg.refuseSignal sender recver kind tsMs payload sig with
  | some message =>
      { w with signals := w.signals ++ [⟨recver, envelope, .answered false message⟩] }
  | none => { w with signals := w.signals ++ [⟨recver, envelope, .push⟩] }

/-! ## Polls -/

def setPoll (w : World) (i : Nat) (t : PollTask) (point : PollPoint) : World :=
  { w with polls := w.polls.set i { t with point := point } }

/-- Take all there is for a user. -/
def drain (w : World) (i : Nat) (user : String) : World :=
  match w.inner user with
  | some q => w.setItems user q.waker [] (q.items.map (fun e => (e, .returned i)))
  | none => w

def beginPoll (w : World) (user : String) (nonce longPollMs : Nat) (sig : Option Signature) :
    World :=
  match w.cfg.refusePoll user nonce longPollMs sig with
  | some message => { w with polls := w.polls ++ [⟨user, longPollMs, .refused message⟩] }
  | none => { w with polls := w.polls ++ [⟨user, longPollMs, .first⟩] }

/-- The future of a notifier is ready. -/
def Woken (w : World) (waker : Nat) (notified : Notified) : Prop :=
  ∃ n ∈ w.notifiers[waker]?, notified.Ready n

instance (w : World) (waker : Nat) (notified : Notified) : Decidable (w.Woken waker notified) := by
  unfold Woken
  infer_instance

def stepPoll (w : World) (i : Nat) (t : PollTask) : Option World :=
  match t.point with
  | .first =>
      if w.items t.user ≠ [] then
        some ((w.drain i t.user).setPoll i t (.answered (w.items t.user)))
      else if t.longPollMs = 0 then some ((w.drain i t.user).setPoll i t (.answered []))
      else some ((w.drain i t.user).setPoll i t .subscribe)
  | .subscribe =>
      let (w, q) := w.entry t.user
      some (w.setPoll i t (.future q.waker))
  | .future waker =>
      some (w.setPoll i t (.second waker ((w.notifiers[waker]?).getD .new).notified))
  | .second waker notified =>
      if w.items t.user ≠ [] then
        some ((w.drain i t.user).setPoll i t (.answered (w.items t.user)))
      else some ((w.drain i t.user).setPoll i t (.wait waker notified))
  | .wait waker notified =>
      if w.Woken waker notified then some (w.setPoll i t (.last waker)) else none
  | .last _ => some ((w.drain i t.user).setPoll i t (.answered (w.items t.user)))
  | .answered _ => none
  | .refused _ => none
  | .cancelled => none

/-! ## The collector -/

def TooOld (now : Nat) (e : CallEnvelope) : Bool := now - e.received > envelopeTtl

/-- Somebody besides the queue holds the notifier. -/
def held (w : World) (waker : Nat) : Bool :=
  w.polls.any (fun t => t.point.waker? = some waker)
    || w.signals.any (fun s => s.point.waker? = some waker)

def gc (w : World) : World :=
  { w with
    inner := fun u => (w.inner u).bind (fun q =>
      let items := q.items.dropWhile (TooOld w.now)
      if items ≠ [] || w.held q.waker then some { q with items := items } else none)
    gone := fun u =>
      w.gone u ++ ((w.items u).takeWhile (TooOld w.now)).map (fun e => (e, .expired w.now)) }

def step (w : World) : Label → Option World
  | .tick ms => some { w with now := w.now + ms }
  | .configure cfg => some { w with cfg := cfg }
  | .signal sender recver kind tsMs payload sig =>
      some (w.beginSignal sender recver kind tsMs payload sig)
  | .signalStep i => (w.signals[i]?).bind (fun s => w.stepSignal i s)
  | .signalCancel i =>
      (w.signals[i]?).bind (fun s =>
        if s.point = .push then some (w.setSignal i s .cancelled) else none)
  | .poll user nonce longPollMs sig => some (w.beginPoll user nonce longPollMs sig)
  | .pollStep i => (w.polls[i]?).bind (fun t => w.stepPoll i t)
  | .timeout i =>
      (w.polls[i]?).bind (fun t =>
        match t.point with
        | .wait waker _ => some (w.setPoll i t (.last waker))
        | _ => none)
  | .cancel i =>
      (w.polls[i]?).bind (fun t =>
        match t.point with
        | .answered _ => none
        | .refused _ => none
        | _ => some (w.setPoll i t .cancelled))
  | .gc => some w.gc

end World

end Mailbox

end Paranoia
