import Mathlib.Data.List.Sort
import Paranoia.Lib.Lts
import Paranoia.Lib.Places

/-!
# The timeline of a dialogue

What an open dialogue shows is kept in a cache beside the history that the store has on the disk.
What is sent is put into the cache at once, and into the outbox; workers push it, receive, push what
was left over from another day, load the history and delete from it, and what a worker brings is
merged into the cache later, on the GUI thread.

What a reaction or a receipt changes in an entry is left out, and so are previews, the state of a file,
the guard against a second tap and the deletion of messages that are picked by their ids. The
application is in the foreground.
-/

namespace Paranoia

inductive MessageKind where
  | text
  | reaction
  /-- Files, pictures and the like. -/
  | attachment
deriving DecidableEq

structure TimelineRow where
  id : String
  clientToken : Option String
  kind : MessageKind
  sender : String
  text : String
  /-- `0` if it has no number yet. -/
  seq : Nat
  ts : Int
  status : String
deriving DecidableEq

structure TimelineItem where
  clientToken : String
  text : String
  ts : Int
  status : String
deriving DecidableEq

/-! ## The cache -/

def isPendingId (id : String) : Bool := "pending:txt:".toList.isPrefixOf id.toList

namespace TimelineRow

def idKey (r : TimelineRow) : Option String := if r.id = "" then none else some r.id

def seqKey (r : TimelineRow) : Option Nat := if r.seq = 0 then none else some r.seq

def pendingKey (r : TimelineRow) : Option String :=
  if isPendingId r.id ∧ r.text ≠ "" then some r.text else none

/-- It takes the place of another one, whose token stays if it has none itself. -/
def inPlaceOf (r old : TimelineRow) : TimelineRow :=
  { r with clientToken := r.clientToken <|> old.clientToken }

structure Merge where
  cache : List TimelineRow
  idToIndex : List (String × Nat)
  seqToIndex : List (Nat × Nat)
deriving DecidableEq

def Merge.ofCache (cache : List TimelineRow) : Merge :=
  ⟨cache, Places.indexBy idKey cache, Places.indexBy seqKey cache⟩

/-- The place of the entry that this one is, by its id, its number, or its text if it is a text of
the account itself. -/
def Merge.find (m : Merge) (pendingTextToIndex : List (String × Nat)) (myId : String)
    (r : TimelineRow) : Option Nat :=
  (r.idKey.bind fun id => m.idToIndex.lookup id)
    <|> (r.seqKey.bind fun seq => m.seqToIndex.lookup seq)
    <|> if myId ≠ "" ∧ r.kind = .text ∧ r.sender = myId then pendingTextToIndex.lookup r.text
        else none

def Merge.note (m : Merge) (i : Nat) (r : TimelineRow) : Merge :=
  { m with
    idToIndex := (r.idKey.map (·, i)).toList ++ m.idToIndex
    seqToIndex := (r.seqKey.map (·, i)).toList ++ m.seqToIndex }

def Merge.add (pendingTextToIndex : List (String × Nat)) (myId : String) (m : Merge)
    (r : TimelineRow) : Merge :=
  match m.find pendingTextToIndex myId r with
  | some i => ({ m with cache := m.cache.modify i r.inPlaceOf } : Merge).note i r
  | none => ({ m with cache := m.cache ++ [r] } : Merge).note m.cache.length r

def maxCachedPerPeer : Nat := 2000

def sortByTs (cache : List TimelineRow) : List TimelineRow :=
  cache.insertionSort fun a b => a.ts ≤ b.ts

/-- The messages of a batch that have entries of their own. -/
def visible (messages : List TimelineRow) : List TimelineRow :=
  messages.filter (·.kind ≠ .reaction)

/-- The index of the texts is made once for the batch. -/
def mergeAll (cache : List TimelineRow) (myId : String) (messages : List TimelineRow) :
    List TimelineRow :=
  ((visible messages).foldl (Merge.add (Places.indexBy pendingKey cache) myId)
    (Merge.ofCache cache)).cache

def appendMessages (cache : List TimelineRow) (myId : String) (messages : List TimelineRow) :
    List TimelineRow :=
  if messages = [] then cache
  else
    let cache := sortByTs (mergeAll cache myId messages)
    cache.drop (cache.length - maxCachedPerPeer)

/-- The first entry with the token gets the status. -/
def setStatus (cache : List TimelineRow) (clientToken status : String) : List TimelineRow :=
  match cache.findIdx? (·.clientToken = some clientToken) with
  | some i => cache.modify i fun r => { r with status }
  | none => cache

def ofItem (item : TimelineItem) (sender : String) : TimelineRow :=
  ⟨item.clientToken, some item.clientToken, .text, sender, item.text, 0, item.ts, item.status⟩

def reinjectOutbox (outbox : List TimelineItem) (cache : List TimelineRow) : List TimelineRow :=
  sortByTs <| outbox.foldl (fun cache item =>
    if cache.any (·.clientToken = some item.clientToken) then cache
    else cache ++ [ofItem item ""]) cache

/-- The unsent text that a text of the account is taken for. -/
def pendingRow (cache : List TimelineRow) (text : String) : Option TimelineRow :=
  ((Places.indexBy pendingKey cache).lookup text).bind (cache[·]?)

def histMaxSeq (messages : List TimelineRow) : Nat := (messages.map TimelineRow.seq).foldl max 0

/-- The history takes the place of the cache; what is newer than it stays. -/
def liveNewerThanHistory (cache messages : List TimelineRow) : List TimelineRow :=
  cache.filter (histMaxSeq messages < ·.seq)

def reload (outbox : List TimelineItem) (cache : List TimelineRow) (myId : String)
    (messages : List TimelineRow) : List TimelineRow :=
  reinjectOutbox outbox
    (appendMessages (appendMessages [] myId messages) myId (liveNewerThanHistory cache messages))

/-- A message as the store has it: with an id and a number, and without a token. -/
structure Numbered (r : TimelineRow) : Prop where
  id : r.id ≠ ""
  pending : isPendingId r.id = false
  seq : r.seq ≠ 0
  token : r.clientToken = none

instance (r : TimelineRow) : Decidable r.Numbered :=
  decidable_of_iff (r.id ≠ "" ∧ isPendingId r.id = false ∧ r.seq ≠ 0 ∧ r.clientToken = none)
    ⟨fun h => ⟨h.1, h.2.1, h.2.2.1, h.2.2.2⟩, fun h => ⟨h.1, h.2, h.3, h.4⟩⟩

def Distinct (a b : TimelineRow) : Prop := a.id ≠ b.id ∧ a.seq ≠ b.seq

instance (a b : TimelineRow) : Decidable (Distinct a b) := inferInstanceAs (Decidable (_ ∧ _))

end TimelineRow

/-! ## Workers -/

inductive TimelineTask where
  | send (clientToken text : String)
  | receive
  | resume
  | load (clearCache : Bool)
  | deleteUntil (cutSeq : Nat)
deriving DecidableEq

def TimelineTask.clientToken? : TimelineTask → Option String
  | .send clientToken _ => some clientToken
  | _ => none

inductive WorkerResult where
  | running
  /-- The message of a send is on the server. -/
  | pushed (message : TimelineRow)
  | failed
  | brought (messages : List TimelineRow)
  | removed
deriving DecidableEq

structure TimelineWorker where
  task : TimelineTask
  result : WorkerResult
deriving DecidableEq

/-- What it has to tell, or will have if it does not fail. -/
def TimelineWorker.batch (k : TimelineWorker) : List TimelineRow :=
  match k.result with
  | .pushed message => [message]
  | .brought messages => messages
  | _ => []

/-- What the library does for a worker. -/
inductive WorkOutcome where
  | fail
  /-- A `receive`, of a send too: new messages are stored, and of those that were made before these
  are told; messages that are gone from the server are removed. -/
  | pull (new : List TimelineRow) (told removed : List String) (ok : Bool)
  | push (id : String) (seq : Nat) (ts : Int)
  /-- The message that was pushed is stored. -/
  | save
  /-- What was left over of these messages is pushed. -/
  | resumed (told : List String)
  /-- The history is read at this time. -/
  | read (now : Int)
  | removed
deriving DecidableEq

structure Timeline where
  /-- Every message of the dialogue that was ever made. -/
  ever : List TimelineRow
  history : List TimelineRow
  cache : List TimelineRow
  outbox : List TimelineItem
  sendInFlight : List String
  receiveInFlight : Bool
  receiveAgain : Bool
  resumeInFlight : Bool
  workers : List TimelineWorker
deriving DecidableEq

inductive TimelineLabel where
  | sendText (clientToken text : String) (ts : Int)
  | retrySend (clientToken : String)
  | fetchMessages
  | resumePendingTransfers
  | loadHistory (clearCache : Bool)
  | deleteMessagesUntil (cutSeq : Nat)
  | work (i : Nat) (outcome : WorkOutcome)
  | deliver (i : Nat)
deriving DecidableEq

namespace Timeline

open TimelineRow hiding id

/-- The dialogue is opened: nothing is cached, and the history is on its way. -/
def openChat (history : List TimelineRow) : Timeline where
  ever := history
  history := history
  cache := []
  outbox := []
  sendInFlight := []
  receiveInFlight := true
  receiveAgain := false
  resumeInFlight := true
  workers := [⟨.load true, .running⟩, ⟨.receive, .running⟩, ⟨.resume, .running⟩]

def start (w : Timeline) (task : TimelineTask) : Timeline :=
  { w with workers := w.workers ++ [⟨task, .running⟩] }

def markOutboxFailed (w : Timeline) (clientToken : String) : Timeline :=
  { w with
    outbox := w.outbox.map fun item =>
      if item.clientToken = clientToken then { item with status := "failed" } else item
    cache := setStatus w.cache clientToken "failed" }

def dispatchOutbox (w : Timeline) (clientToken : String) : Timeline :=
  match w.outbox.find? (·.clientToken = clientToken) with
  | none => w
  | some item =>
      if clientToken ∈ w.sendInFlight then w
      else ({ w with sendInFlight := clientToken :: w.sendInFlight } : Timeline).start
        (.send clientToken item.text)

/-- `insertOptimisticText` puts it behind the last entry. -/
def sendTextMessage (w : Timeline) (me clientToken text : String) (ts : Int) : Timeline :=
  let item : TimelineItem := ⟨clientToken, text, ts, "sending"⟩
  ({ w with
    outbox := w.outbox.filter (·.clientToken ≠ clientToken) ++ [item]
    cache := w.cache ++ [ofItem item me] } : Timeline).dispatchOutbox clientToken

def retrySend (w : Timeline) (clientToken : String) : Timeline :=
  if w.outbox.any (·.clientToken = clientToken) then
    ({ w with cache := setStatus w.cache clientToken "sending" } : Timeline).dispatchOutbox
      clientToken
  else w

def fetchMessages (w : Timeline) : Timeline :=
  if w.receiveInFlight then { w with receiveAgain := true }
  else ({ w with receiveInFlight := true } : Timeline).start .receive

def fetchAgain (w : Timeline) : Timeline :=
  if w.receiveAgain then ({ w with receiveAgain := false } : Timeline).fetchMessages else w

def resumePendingTransfers (w : Timeline) : Timeline :=
  if w.resumeInFlight then w else ({ w with resumeInFlight := true } : Timeline).start .resume

/-! ### The library -/

/-- Ids and numbers are new. -/
def New (w : Timeline) (new : List TimelineRow) : Prop :=
  (∀ m ∈ new, m.Numbered) ∧ (w.ever ++ new).Pairwise Distinct

instance (w : Timeline) (new : List TimelineRow) : Decidable (w.New new) :=
  inferInstanceAs (Decidable (_ ∧ _))

def make (w : Timeline) (new : List TimelineRow) : Timeline := { w with ever := w.ever ++ new }

/-- Messages that are stored already are not stored again. -/
def save (w : Timeline) (messages : List TimelineRow) : Timeline :=
  { w with history := w.history ++ messages.filter (· ∉ w.history) }

def sweep (w : Timeline) (removed : List String) : Timeline :=
  { w with history := w.history.filter (·.id ∉ removed) }

/-- The messages of a `receive`. -/
def pulled (w : Timeline) (new : List TimelineRow) (told : List String) : List TimelineRow :=
  w.ever.filter (·.id ∈ told) ++ new

def pull (w : Timeline) (new : List TimelineRow) (told removed : List String) : Timeline :=
  ((w.make new).save (w.pulled new told)).sweep removed

def historyLimit : Nat := 2000

/-- The newest messages before a time. -/
def snapshot (w : Timeline) (now : Int) : List TimelineRow :=
  ((w.history.filter (·.ts < now)).insertionSort (fun a b => b.ts ≤ a.ts)).take historyLimit

def finish (w : Timeline) (i : Nat) (result : WorkerResult) : Timeline :=
  { w with workers := w.workers.modify i fun k => { k with result } }

def textOf (me text id : String) (seq : Nat) (ts : Int) : TimelineRow :=
  ⟨id, none, .text, me, text, seq, ts, "sent"⟩

def work (w : Timeline) (me : String) (i : Nat) (outcome : WorkOutcome) : Option Timeline :=
  w.workers[i]?.bind fun k =>
    match k, outcome with
    | ⟨_, .running⟩, .fail => some (w.finish i .failed)
    | ⟨.send .., .pushed _⟩, .fail => some (w.finish i .failed)
    | ⟨.send .., .running⟩, .pull new told removed ok =>
        -- a send drops what its own `receive` has got
        if w.New new then
          let w := w.pull new told removed
          some (if ok then w else w.finish i .failed)
        else none
    | ⟨.send _ text, .running⟩, .push id seq ts =>
        let m := textOf me text id seq ts
        if w.New [m] then some ((w.make [m]).finish i (.pushed m)) else none
    | ⟨.send .., .pushed m⟩, .save => some ((w.save [m]).finish i (.brought [m]))
    | ⟨.receive, .running⟩, .pull new told removed ok =>
        if w.New new then
          some ((w.pull new told removed).finish i
            (if ok then .brought (w.pulled new told) else .failed))
        else none
    | ⟨.resume, .running⟩, .resumed told =>
        some (w.finish i (.brought (w.history.filter (·.id ∈ told))))
    | ⟨.load _, .running⟩, .read now => some (w.finish i (.brought (w.snapshot now)))
    | ⟨.deleteUntil cutSeq, .running⟩, .removed =>
        some (({ w with history := w.history.filter (cutSeq < ·.seq) } : Timeline).finish i
          .removed)
    | _, _ => none

/-! ### What is delivered -/

def append (w : Timeline) (me : String) (messages : List TimelineRow) : Timeline :=
  { w with cache := appendMessages w.cache me messages }

/-- What the GUI thread does with the result of a worker that is gone. -/
def take (w : Timeline) (me : String) : TimelineWorker → Option Timeline
  | ⟨.send clientToken _, .failed⟩ =>
      some (({ w with sendInFlight := w.sendInFlight.filter (· ≠ clientToken) } :
        Timeline).markOutboxFailed clientToken)
  | ⟨.send clientToken _, .brought messages⟩ =>
      some ((({ w with
        sendInFlight := w.sendInFlight.filter (· ≠ clientToken)
        outbox := w.outbox.filter (·.clientToken ≠ clientToken) } : Timeline).append me
          (messages.map fun m => { m with clientToken := some clientToken })).fetchMessages)
  | ⟨.receive, .failed⟩ => some ({ w with receiveInFlight := false } : Timeline).fetchAgain
  | ⟨.receive, .brought messages⟩ =>
      some (({ w with receiveInFlight := false } : Timeline).append me messages).fetchAgain
  | ⟨.resume, .failed⟩ => some { w with resumeInFlight := false }
  | ⟨.resume, .brought messages⟩ =>
      let w := { w with resumeInFlight := false }
      some (if messages = [] then w else (w.append me messages).fetchMessages)
  | ⟨.load _, .failed⟩ => some w
  | ⟨.load true, .brought messages⟩ =>
      some { w with cache := reload w.outbox w.cache me messages }
  | ⟨.load false, .brought messages⟩ => some (w.append me messages)
  | ⟨.deleteUntil _, .failed⟩ => some w
  | ⟨.deleteUntil cutSeq, .removed⟩ =>
      some { w with cache := w.cache.filter (cutSeq < ·.seq) }
  | _ => none

def deliver (w : Timeline) (me : String) (i : Nat) : Option Timeline :=
  w.workers[i]?.bind fun k => ({ w with workers := w.workers.eraseIdx i } : Timeline).take me k

def step (me : String) (w : Timeline) : TimelineLabel → Option Timeline
  | .sendText clientToken text ts =>
      if isPendingId clientToken then some (w.sendTextMessage me clientToken text ts) else none
  | .retrySend clientToken => some (w.retrySend clientToken)
  | .fetchMessages => some w.fetchMessages
  | .resumePendingTransfers => some w.resumePendingTransfers
  | .loadHistory clearCache => some (w.start (.load clearCache))
  | .deleteMessagesUntil cutSeq =>
      some (if cutSeq = 0 then w else w.start (.deleteUntil cutSeq))
  | .work i outcome => w.work me i outcome
  | .deliver i => w.deliver me i

/-! ## What it ought to show -/

/-- The entry of a message: its token and its status are its own. -/
def Shows (r m : TimelineRow) : Prop :=
  r = { m with clientToken := r.clientToken, status := r.status }

instance (r m : TimelineRow) : Decidable (Shows r m) := inferInstanceAs (Decidable (_ = _))

/-- The entry of a text that is not sent. -/
def Pends (r : TimelineRow) (item : TimelineItem) : Prop :=
  r = { ofItem item r.sender with status := r.status }

instance (r : TimelineRow) (item : TimelineItem) : Decidable (Pends r item) :=
  inferInstanceAs (Decidable (_ = _))

/-- No two entries share an id, a number or a token. With no worker in flight the cache holds, in the
order of time, each message that a load of the history would show and each text of the outbox exactly
once, and nothing else. -/
structure Exact (w : Timeline) : Prop where
  ids : w.cache.Pairwise fun a b => a.id ≠ b.id
  seqs : w.cache.Pairwise fun a b => a.seq ≠ 0 → a.seq ≠ b.seq
  tokens : w.cache.Pairwise fun a b => a.clientToken ≠ none → a.clientToken ≠ b.clientToken
  order : w.workers = [] → w.cache.Pairwise fun a b => a.ts ≤ b.ts
  shown : w.workers = [] → ∀ now, ∀ m ∈ visible (w.snapshot now),
    w.cache.countP (fun r => Shows r m) = 1
  unsent : w.workers = [] → ∀ item ∈ w.outbox, w.cache.countP (fun r => Pends r item) = 1
  only : w.workers = [] → ∀ r ∈ w.cache,
    (∃ m ∈ visible w.history, Shows r m) ∨ ∃ item ∈ w.outbox, Pends r item

/-! ### Steps that keep it so -/

/-- The message is that of the send with this token. -/
def Sent (ks : List TimelineWorker) (clientToken : String) (m : TimelineRow) : Prop :=
  ∃ k ∈ ks, k.task.clientToken? = some clientToken ∧ m ∈ k.batch

instance (ks : List TimelineWorker) (clientToken : String) (m : TimelineRow) :
    Decidable (Sent ks clientToken m) :=
  inferInstanceAs (Decidable (∃ k ∈ ks, _ ∧ _))

/-- A load that has not read the history yet brings all there is. -/
def Brings (k : TimelineWorker) (m : TimelineRow) : Prop :=
  m ∈ k.batch ∨ (k.task = .load true ∨ k.task = .load false) ∧ k.result = .running

instance (k : TimelineWorker) (m : TimelineRow) : Decidable (Brings k m) :=
  inferInstanceAs (Decidable (_ ∨ _))

def Deletes (k : TimelineWorker) (m : TimelineRow) : Prop :=
  match k with
  | ⟨.deleteUntil cutSeq, .removed⟩ => m.seq ≤ cutSeq
  | _ => False

instance (k : TimelineWorker) (m : TimelineRow) : Decidable (Deletes k m) := by
  unfold Deletes
  split <;> infer_instance

/-- The message was deleted, and its entry is about to be. -/
def Doomed (ks : List TimelineWorker) (m : TimelineRow) : Prop := ∃ k ∈ ks, Deletes k m

instance (ks : List TimelineWorker) (m : TimelineRow) : Decidable (Doomed ks m) :=
  inferInstanceAs (Decidable (∃ k ∈ ks, _))

def Covered (cache : List TimelineRow) (ks : List TimelineWorker) (m : TimelineRow) : Prop :=
  (∃ r ∈ cache, Shows r m) ∨ ∃ k ∈ ks, Brings k m

instance (cache : List TimelineRow) (ks : List TimelineWorker) (m : TimelineRow) :
    Decidable (Covered cache ks m) :=
  inferInstanceAs (Decidable ((∃ r ∈ cache, _) ∨ ∃ k ∈ ks, _))

/-- A worker that fails, or that stores what it does not tell, leaves it to others or to the cache; a
send fails after the push only while its text is shown as unsent. What is swept away is not shown. A
load reads what nobody else brings. -/
def CarefulWork (w : Timeline) (rest : List TimelineWorker) (k : TimelineWorker) :
    WorkOutcome → Prop
  | .fail => (∀ m ∈ visible w.history, Covered w.cache rest m)
      ∧ ∀ clientToken ∈ k.task.clientToken?, k.batch ≠ [] → ∃ r ∈ w.cache, r.id = clientToken
  | .pull new told removed ok =>
      (∀ m ∈ visible w.history, m.id ∈ removed →
        (∀ r ∈ w.cache, ¬ Shows r m) ∨ Doomed w.workers m)
      ∧ (k.task = .receive ∧ ok = true
        ∨ ∀ m ∈ visible (w.pulled new told), m.id ∉ removed → Covered w.cache rest m)
  | .read now => ∀ m ∈ visible w.history, m ∈ w.snapshot now ∨ Covered w.cache rest m
  | _ => True

instance (w : Timeline) (rest : List TimelineWorker) (k : TimelineWorker) (o : WorkOutcome) :
    Decidable (w.CarefulWork rest k o) :=
  match o with
  | .fail => inferInstanceAs (Decidable (_ ∧ ∀ clientToken ∈ k.task.clientToken?, _ → _))
  | .pull .. => inferInstanceAs (Decidable ((∀ m ∈ _, _ → _) ∧ (_ ∨ ∀ m ∈ _, _ → _)))
  | .read _ => inferInstanceAs (Decidable (∀ m ∈ visible w.history, _ ∨ _))
  | .push .. | .save | .resumed _ | .removed => .isTrue trivial

/-- What is delivered is not deleted, or the deletion is still to come; an own text is taken for the
unsent one that it was made of; and the cap is not reached. -/
def CarefulMerge (w : Timeline) (me : String) (rest : List TimelineWorker)
    (messages : List TimelineRow) : Prop :=
  (∀ m ∈ visible messages, m ∈ w.history ∨ Doomed rest m)
  ∧ (∀ m ∈ visible messages, m.kind = .text → m.sender = me → (∀ r ∈ w.cache, r.id ≠ m.id) →
    ∀ r ∈ pendingRow w.cache m.text, Sent w.workers r.id m)
  ∧ w.cache.length + ((visible messages).filter fun m => ∀ r ∈ w.cache, r.id ≠ m.id).length
    ≤ maxCachedPerPeer

instance (w : Timeline) (me : String) (rest : List TimelineWorker) (messages : List TimelineRow) :
    Decidable (w.CarefulMerge me rest messages) :=
  inferInstanceAs (Decidable ((∀ m ∈ _, _ ∨ _)
    ∧ (∀ m ∈ visible messages, _ → _ → _ → ∀ r ∈ pendingRow w.cache m.text, _) ∧ _))

/-- What the load has not read is newer, or another brings it; and the message of a send that is not
delivered is neither read nor kept without its token. -/
def CarefulReload (w : Timeline) (rest : List TimelineWorker) (messages : List TimelineRow) :
    Prop :=
  (∀ m ∈ visible messages, m ∈ w.history ∨ Doomed rest m)
  ∧ (∀ m ∈ visible w.history, m ∈ messages
    ∨ (histMaxSeq messages < m.seq ∧ ∃ r ∈ w.cache, Shows r m) ∨ ∃ k ∈ rest, Brings k m)
  ∧ (∀ k ∈ rest, k.task.clientToken? ≠ none → ∀ m ∈ k.batch, m ∉ messages
    ∧ ∀ r ∈ w.cache, Shows r m → histMaxSeq messages < m.seq →
      r.clientToken = k.task.clientToken?)
  ∧ (visible messages).length + (liveNewerThanHistory w.cache messages).length ≤ maxCachedPerPeer

instance (w : Timeline) (rest : List TimelineWorker) (messages : List TimelineRow) :
    Decidable (w.CarefulReload rest messages) :=
  inferInstanceAs (Decidable ((∀ m ∈ _, _ ∨ _) ∧ (∀ m ∈ _, _ ∨ _)
    ∧ (∀ k ∈ rest, _ → ∀ m ∈ k.batch, _ ∧ ∀ r ∈ w.cache, _ → _ → _) ∧ _))

/-- Nothing is unsent when a deletion is delivered, and nothing has come since that it is not of. -/
def CarefulDelivery (w : Timeline) (me : String) (rest : List TimelineWorker) :
    TimelineWorker → Prop
  | ⟨.load true, .brought messages⟩ => w.CarefulReload rest messages
  | ⟨.deleteUntil cutSeq, .removed⟩ => (∀ r ∈ w.cache, r.seq ≠ 0)
      ∧ ∀ m ∈ visible w.history, cutSeq < m.seq ∨ ∃ k ∈ rest, Brings k m
  | ⟨_, .brought messages⟩ => w.CarefulMerge me rest messages
  | _ => True

instance (w : Timeline) (me : String) (rest : List TimelineWorker) (k : TimelineWorker) :
    Decidable (w.CarefulDelivery me rest k) := by
  unfold CarefulDelivery
  split <;> infer_instance

/-- A text is not empty and has a new token, and no entry is ahead of the clock. -/
def Careful (me : String) (w : Timeline) : TimelineLabel → Prop
  | .sendText clientToken text ts => text ≠ ""
      ∧ (∀ r ∈ w.cache, r.ts ≤ ts ∧ r.clientToken ≠ some clientToken)
      ∧ ∀ item ∈ w.outbox, item.clientToken ≠ clientToken
  | .work i outcome => ∀ k ∈ w.workers[i]?, w.CarefulWork (w.workers.eraseIdx i) k outcome
  | .deliver i => ∀ k ∈ w.workers[i]?, w.CarefulDelivery me (w.workers.eraseIdx i) k
  | _ => True

instance (me : String) (w : Timeline) (l : TimelineLabel) : Decidable (Careful me w l) :=
  match l with
  | .sendText .. => inferInstanceAs (Decidable (_ ∧ (∀ r ∈ w.cache, _ ∧ _) ∧ ∀ item ∈ w.outbox, _))
  | .work i _ => inferInstanceAs (Decidable (∀ k ∈ w.workers[i]?, _))
  | .deliver i => inferInstanceAs (Decidable (∀ k ∈ w.workers[i]?, _))
  | .retrySend _ | .fetchMessages | .resumePendingTransfers | .loadHistory _
  | .deleteMessagesUntil _ => .isTrue trivial

end Timeline

end Paranoia
