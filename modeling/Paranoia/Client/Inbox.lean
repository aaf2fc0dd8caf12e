import Paranoia.World

/-!
# What a client is told

One device runs one call after the other; answers of the server are whatever they are, and a call
may end with an error at any point. What `receive` has stored and what it could not decrypt is
remembered, and so is what the calls of `receive` returned to whoever called the library.
-/

namespace Paranoia

structure Inbox (π : Type) where
  store : LocalStore
  task : Option (Task π)
  /-- The messages of the other party that `receive` has stored. -/
  stored : List Message
  /-- The packets that `receive` could not decrypt. -/
  undecrypted : List Nat
  /-- The results of the calls of `receive`. -/
  returned : List (List Message × List Nat)

inductive InboxLabel (π : Type) where
  | start (call : Call)
  | localStep (env : Env)
  | map (m : MapResult)
  | pull (packets : List (RawPacket π))
  | notified (fresh : Bool)
  | pushed (result : PushResult)
  | timeout (retry : Bool)
  | existing (m : Option MapResult)
  /-- A request or the database fails, and the call with it. -/
  | fail

/-- The messages that were not there before, at their place. -/
def newMessages (st st' : LocalStore) : List Message :=
  st'.messages.rows.filter fun m =>
    st.messages.rows.all fun old => ¬ (old.id = m.id ∧ old.serverSeq = m.serverSeq)

namespace Inbox

variable {κ π : Type}

def init (store : LocalStore) : Inbox π := ⟨store, none, [], [], []⟩

/-- What a finished `receive` returns; one inside another call returns nothing to the caller. -/
def result (t : Task π) : List (List Message × List Nat) :=
  match t.rx, t.outer with
  | some rx, .receive =>
      match rx.run.point with
      | .done => [(rx.run.messages, rx.run.decryptErrors)]
      | _ => []
  | _, _ => []

/-- A call inside `receive` goes on with `f`. -/
def onRx (s : Inbox π) (f : Receive π → Option (Receive π)) : Option (Inbox π) :=
  match s.task with
  | some ⟨some rx, outer⟩ =>
      (f rx.run).map fun run => { s with task := some ⟨some { rx with run := run }, outer⟩ }
  | _ => none

/-- A call outside of `receive` goes on with `f`. -/
def onOuter (s : Inbox π) (f : Outer π → Option (Option (Task π))) : Option (Inbox π) :=
  match s.task with
  | some ⟨none, outer⟩ => (f outer).map fun task => { s with task := task }
  | _ => none

section Step

variable [Aead κ π] (c : Client κ)

/-- The packet that is to be processed next, if it cannot be decrypted. -/
def undecryptable (t : Task π) : List Nat :=
  match t.rx with
  | some rx =>
      match rx.run.point with
      | .packet pkt _ _ _ _ =>
          if (c.decryptPacket pkt.seq pkt.payload).isNone then [pkt.seq] else []
      | _ => []
  | none => []

def after (s : Inbox π) (t : Task π) (out : Local π) : Inbox π where
  store := out.store
  task := out.task
  stored := if t.rx.isSome then
    s.stored ++ (newMessages s.store out.store).filter (·.sender ≠ c.username) else s.stored
  undecrypted := s.undecrypted ++ undecryptable c t
  returned := s.returned ++ result t

def step (s : Inbox π) : InboxLabel π → Option (Inbox π)
  | .start call =>
      if s.task.isNone ∧ call.allowed then some { s with task := some (World.firstTask 0 call) }
      else none
  | .localStep env => s.task.bind fun t => (t.localStep c env s.store).map fun out => s.after c t out
  | .map m => s.onRx fun r =>
      match r.point with
      | .map _ => some (r.onMap m)
      | _ => none
  | .pull packets => s.onRx fun r =>
      match r.point with
      | .pull seq stop todo => some (r.onPull packets seq stop todo)
      | _ => none
  | .notified fresh => s.onOuter fun outer =>
      match outer with
      | .notify call => some (some ⟨if fresh then some ⟨0, Receive.start⟩ else none, .compose call 3⟩)
      | _ => none
  | .pushed result => s.onOuter fun outer => Task.onPushResult 0 outer result
  | .timeout retry => s.onOuter fun outer => Task.onTimeout retry outer
  | .existing m => s.onOuter fun outer => Task.onExisting outer m
  | .fail => s.task.map fun _ => { s with task := none }

end Step

end Inbox

end Paranoia
