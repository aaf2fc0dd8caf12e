import Paranoia.Client.CodexChannel
import Paranoia.Lib.Lts

/-!
# The push channel of the agents

Several processes share the store of one account: each reads it for the topic of its agent, by a
cursor that is kept on the disk for each topic. One of them holds the lock and also receives from the
server; the others read only when the version of the store has changed, or the topic has.

Reminders to set a topic are left out, and so are reactions. A process that stops takes with it what
it knows, so what it does with one batch is one step.
-/

namespace Paranoia

/-- A topic by its name, as the engine normalizes it. -/
structure TopicName where
  name : String
  nonempty : name ≠ ""
deriving DecidableEq

inductive TopicScope where
  | unset
  | main
  | named (topic : TopicName)
deriving DecidableEq

def TopicScope.scopeKey : TopicScope → Option String
  | .unset => none
  | .main => some ""
  | .named topic => some topic.name

/-- What was sent to the agent, and the topic that was set then. -/
structure PushedRow where
  key : String
  topic : TopicScope
  row : StoreRow
deriving DecidableEq

inductive PushPc where
  | top
  /-- The topic has been read, and whether it is another one than before. -/
  | waiting (scope : TopicScope) (changed : Bool)
  | reading (scope : TopicScope)
  | batch (key : String) (scope : TopicScope) (rows : List StoreRow)
deriving DecidableEq

structure PushProcess where
  /-- The topic that the agent has set. -/
  topic : TopicScope
  puller : Bool
  sessionFloor : ServerSeq
  activeKey : Option String
  cursor : Option ServerSeq
  lastDv : Option Nat
  pc : PushPc
  /-- The cursor that its topic was begun with. -/
  start : ServerSeq
  sent : List PushedRow
deriving DecidableEq

structure PushWorld where
  selfHash : String
  deriveTopicId : String → String
  store : List StoreRow
  /-- It changes with every write. -/
  dataVersion : Nat
  cursors : String → Option ServerSeq
  processes : List PushProcess

inductive PushLabel where
  | start (topic : TopicScope)
  | stop (i : Nat)
  | setTopic (i : Nat) (topic : TopicScope)
  | tick (i : Nat)
  /-- The puller has waited, and received or not. -/
  | receive (i : Nat) (ok : Bool)
  /-- A monitor asks for the version of the store. -/
  | gate (i : Nat) (ok : Bool)
  | read (i : Nat) (ok : Bool)
  /-- The batch is sent, and the cursor is saved, or cannot be. -/
  | deliver (i : Nat) (saved : Bool)
  | save (r : StoreRow)
  | remove (id : String)
  /-- Another write to the store. -/
  | touch
deriving DecidableEq

namespace PushProcess

def from_ (p : PushProcess) : ServerSeq := p.cursor.getD p.sessionFloor

def hand (p : PushProcess) : List StoreRow :=
  match p.pc with
  | .batch _ _ rows => rows
  | _ => []

/-- The greatest number that was read. -/
def newcur (p : PushProcess) : ServerSeq := p.hand.foldl (fun cur m => max cur m.seq) p.from_

end PushProcess

namespace PushWorld

def topicId (w : PushWorld) : TopicScope → Option String
  | .named topic => some (w.deriveTopicId topic.name)
  | _ => none

def inScope (w : PushWorld) (scope : TopicScope) (r : StoreRow) : Bool :=
  match scope with
  | .unset => false
  | _ => r.topicId = w.topicId scope

def own (w : PushWorld) (r : StoreRow) : Bool := w.selfHash ≠ "" && r.sender = w.selfHash

def loadCursor (w : PushWorld) (p : PushProcess) (key : String) : ServerSeq :=
  (w.cursors key).getD p.sessionFloor

def maxServerSeq (w : PushWorld) : ServerSeq := w.store.foldl (fun cur m => max cur m.seq) 0

/-- A step of one process. -/
def act (w : PushWorld) (i : Nat) (f : PushProcess → Option PushProcess) : Option PushWorld :=
  w.processes[i]?.bind fun p =>
    (f p).map fun p' => { w with processes := w.processes.set i p' }

def begin_ (w : PushWorld) (topic : TopicScope) : PushProcess where
  topic := topic
  puller := false
  sessionFloor := w.maxServerSeq
  activeKey := none
  cursor := none
  lastDv := none
  pc := .top
  start := w.maxServerSeq
  sent := []

/-- The lock is taken if it is free, and the cursor goes with the topic. -/
def tick (w : PushWorld) (p : PushProcess) : Option PushProcess :=
  if p.pc = .top then
    let p := { p with puller := p.puller || !w.processes.any (·.puller) }
    let key := p.topic.scopeKey
    if key ≠ p.activeKey then
      -- of a topic without a cursor, what came since the process began is new
      let cursor := key.map (w.loadCursor p)
      some { p with
        activeKey := key
        cursor
        pc := .waiting p.topic true
        start := cursor.getD p.sessionFloor }
    else some { p with pc := .waiting p.topic false }
  else none

def receive (p : PushProcess) (ok : Bool) : Option PushProcess :=
  match p.pc with
  | .waiting scope _ =>
      if p.puller then some { p with pc := if ok then .reading scope else .top } else none
  | _ => none

def gate (w : PushWorld) (p : PushProcess) (ok : Bool) : Option PushProcess :=
  match p.pc with
  | .waiting scope changed =>
      if p.puller then none
      else if changed then some { p with pc := .reading scope }
      -- if the version cannot be read, the store is
      else if ¬ok then some { p with pc := .reading scope }
      else if p.lastDv ≠ some w.dataVersion then
        some { p with lastDv := some w.dataVersion, pc := .reading scope }
      else some { p with pc := .top }
  | _ => none

def read (w : PushWorld) (p : PushProcess) (ok : Bool) : Option PushProcess :=
  match p.pc with
  | .reading scope =>
      if ok then
        match scope.scopeKey with
        | none => some { p with pc := .top }
        -- rows of all topics count for the limit
        | some key =>
            some { p with
              pc := .batch key scope (StoreRow.messagesAfterSeq w.store p.from_ 256) }
      else some { p with pc := .top }
  | _ => none

/-- The cursor moves over all that was read. -/
def deliver (w : PushWorld) (p : PushProcess) : Option PushProcess :=
  match p.pc with
  | .batch key scope rows =>
      -- what is of other topics is passed all the same
      let out := rows.filter fun m => !w.own m && w.inScope scope m
      some { p with
        cursor := if p.newcur ≠ p.from_ then some p.newcur else p.cursor
        pc := .top
        sent := p.sent ++ out.map fun m => ⟨key, p.topic, m⟩ }
  | _ => none

def saveCursor (w : PushWorld) (p : PushProcess) (saved : Bool) : String → Option ServerSeq :=
  match p.pc with
  | .batch key _ _ =>
      if saved ∧ p.newcur ≠ p.from_ then Function.update w.cursors key (some p.newcur)
      else w.cursors
  | _ => w.cursors

def write (w : PushWorld) (store : List StoreRow) : PushWorld :=
  { w with store, dataVersion := w.dataVersion + 1 }

def step (w : PushWorld) : PushLabel → Option PushWorld
  | .start topic => some { w with processes := w.processes ++ [w.begin_ topic] }
  | .stop i => some { w with processes := w.processes.eraseIdx i }
  | .setTopic i topic => w.act i fun p => some { p with topic }
  | .tick i => w.act i w.tick
  | .receive i ok => w.act i fun p => receive p ok
  | .gate i ok => w.act i fun p => w.gate p ok
  | .read i ok => w.act i fun p => w.read p ok
  | .deliver i saved => w.processes[i]?.bind fun p =>
      ({ w with cursors := w.saveCursor p saved } : PushWorld).act i w.deliver
  | .save r => (StoreRow.save w.store r).map w.write
  | .remove id => some (w.write (w.store.filter (·.id ≠ id)))
  | .touch => some (w.write w.store)

/-! ## What an agent gets -/

/-- A partner's message of the topic with this key. -/
def OfTopic (w : PushWorld) (key : String) (r : StoreRow) : Prop :=
  r.sender ≠ w.selfHash ∧ r.topicId = if key = "" then none else some (w.deriveTopicId key)

instance (w : PushWorld) (key : String) (r : StoreRow) : Decidable (w.OfTopic key r) :=
  inferInstanceAs (Decidable (_ ∧ _))

/-- Its topic stays as it is, and a round more would read nothing: nothing is above the cursor of the
puller, and a monitor sees no change. -/
def OnlyWaits (w : PushWorld) (p : PushProcess) : Prop :=
  p.pc = .top ∧ p.topic.scopeKey = p.activeKey
    ∧ if p.puller then StoreRow.messagesAfterSeq w.store p.from_ 256 = []
      else p.lastDv = some w.dataVersion

instance (w : PushWorld) (p : PushProcess) : Decidable (w.OnlyWaits p) :=
  inferInstanceAs (Decidable (p.pc = .top ∧ p.topic.scopeKey = p.activeKey
    ∧ if p.puller then StoreRow.messagesAfterSeq w.store p.from_ 256 = []
      else p.lastDv = some w.dataVersion))

structure Pushed (w : PushWorld) (p : PushProcess) : Prop where
  all : w.OnlyWaits p → ∀ key ∈ p.activeKey, ∀ r ∈ w.store, w.OfTopic key r → p.start < r.seq →
    ∃ s ∈ p.sent, s.key = key ∧ s.row = r
  topic : ∀ s ∈ p.sent, w.inScope s.topic s.row
  once : (p.sent.map fun s => (s.key, s.row.key)).Nodup

/-- Rows can be read, and come in above what has been read by processes that want them; a monitor's
read that the version vouches for succeeds and is not cut off; a cursor that is loaded is not below
what the process has sent for the topic; and the topic is set between rounds. -/
def Undisturbed (w : PushWorld) : PushLabel → Prop
  | .save r => r.content.isSome ∧ ∀ p ∈ w.processes, ∀ key ∈ p.activeKey, w.OfTopic key r →
      p.start < r.seq → p.newcur < r.seq
  | .read i ok => ∀ p ∈ w.processes[i]?, p.puller ∨ p.activeKey = none
      ∨ p.lastDv ≠ some w.dataVersion
      ∨ ok ∧ (w.store.filter (p.from_ < ·.seq)).length ≤ 256
  | .tick i => ∀ p ∈ w.processes[i]?, ∀ key ∈ p.topic.scopeKey, ∀ s ∈ p.sent, s.key = key →
      some key ≠ p.activeKey → s.row.seq ≤ w.loadCursor p key
  | .setTopic i topic => ∀ p ∈ w.processes[i]?, p.pc = .top ∨ topic = p.topic
  | _ => True

instance (w : PushWorld) (l : PushLabel) : Decidable (w.Undisturbed l) :=
  match l with
  | .save r => inferInstanceAs (Decidable (_ ∧ ∀ p ∈ w.processes, ∀ key ∈ p.activeKey,
      w.OfTopic key r → p.start < r.seq → p.newcur < r.seq))
  | .read i ok => inferInstanceAs (Decidable (∀ p ∈ w.processes[i]?, p.puller ∨ p.activeKey = none
      ∨ p.lastDv ≠ some w.dataVersion
      ∨ ok ∧ (w.store.filter (p.from_ < ·.seq)).length ≤ 256))
  | .tick i => inferInstanceAs (Decidable (∀ p ∈ w.processes[i]?, ∀ key ∈ p.topic.scopeKey,
      ∀ s ∈ p.sent, s.key = key → some key ≠ p.activeKey → s.row.seq ≤ w.loadCursor p key))
  | .setTopic i topic => inferInstanceAs (Decidable (∀ p ∈ w.processes[i]?, p.pc = .top
      ∨ topic = p.topic))
  | .start _ | .stop _ | .receive .. | .gate .. | .deliver .. | .remove _ | .touch => .isTrue trivial

end PushWorld

end Paranoia
