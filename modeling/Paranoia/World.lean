import Paranoia.Lib.Lts
import Paranoia.Client.Outgoing

/-!
# A dialogue as a transition system

Two accounts, any number of devices of each, and one server. A device runs any
number of calls at once; a step is one database access of one call, one request
served, or something the surroundings do: an answer that never comes, a delayed
request that arrives after all, a call that is killed, a push made by hand, an
answer made up by a relay, a range of packets deleted.

`log` and `issued` are ghosts. The log records what the server accepted and what
the clients composed, pulled, counted and finished, so that properties of a whole
run can be stated about its last state.
-/

namespace Paranoia

/-- The dialogue, its two accounts and their devices. -/
structure Setup (κ : Type) (n : Nat) where
  key : DialogueKey
  /-- The participants are stored in order. -/
  ordered : key.a < key.b
  device : Fin n → Client κ
  shared : ∀ d, (device d).key = key
  member : ∀ d, (device d).username = key.a ∨ (device d).username = key.b

/-- A running call of a device. -/
structure Job (π : Type) (n : Nat) where
  id : Nat
  dev : Fin n
  task : Task π

/-- A push on its way to the server whose sender no longer waits for the answer. -/
structure Flight (π : Type) where
  job : Nat
  req : PushRequest π
deriving DecidableEq

/-- A random id, with the place and the device it was drawn for. -/
structure Issued (n : Nat) where
  id : String
  seq : Nat
  dev : Fin n
deriving DecidableEq

inductive Event (π : Type) (n : Nat) where
  /-- The server stored this push, made by that call. -/
  | accepted (job : Option Nat) (req : PushRequest π)
  | notice (dev : Fin n) (job : Nat) (what : Notice π)
deriving DecidableEq

structure World (π : Type) (n : Nat) where
  server : Server π
  store : Fin n → LocalStore
  jobs : Table (Job π n) Job.id
  nextJob : Nat
  net : List (Flight π)
  issued : List (Issued n)
  log : List (Event π n)

inductive Call where
  | receive
  | send (call : SendCall)
  | upload (call : UploadCall)
  | resume
deriving DecidableEq

/-- The contents the public methods of a dialogue send in a packet of their own. -/
def MessageContent.isSendable : MessageContent → Bool
  | .fileHeader .. => false
  | .fileChunk .. => false
  | .delete _ => false
  | _ => true

def Call.allowed : Call → Bool
  | .send call => call.content.isSendable
  | _ => true

inductive Label (π : Type) (n : Nat) where
  | start (dev : Fin n) (call : Call)
  /-- The next step of a call that waits for nothing. -/
  | localStep (job : Nat) (env : Env)
  /-- `/notify` answered, or failed, which counts as nothing new. -/
  | notified (job : Nat) (fresh : Bool)
  /-- The server scans the map page a call waits for. -/
  | scan (job : Nat)
  /-- The server reads the greatest number and answers with the page. -/
  | lastSeq (job : Nat)
  | pull (job : Nat)
  /-- The map page a resume waits for is served. -/
  | existing (job : Nat)
  /-- The push a call waits for is served and answered. -/
  | push (job : Nat)
  /-- The request a call waits for brings no usable answer. -/
  | timeout (job : Nat) (retry : Bool)
  /-- A request given up by its sender reaches the server. -/
  | arrive (i : Nat)
  /-- A push made by hand. -/
  | raw (req : PushRequest π)
  /-- The answers of a hostile relay. -/
  | relayMap (job : Nat) (m : MapResult)
  | relayPull (job : Nat) (packets : List (RawPacket π))
  | relayExisting (job : Nat) (m : MapResult)
  | kill (job : Nat)
  | remove (fromSeq toSeq : Nat)
deriving DecidableEq

/-- Is this an answer a relay makes up? -/
def Label.isRelay {π : Type} {n : Nat} : Label π n → Bool
  | .relayMap _ _ => true
  | .relayPull _ _ => true
  | .relayExisting _ _ => true
  | _ => false

def Label.isRemoval {π : Type} {n : Nat} : Label π n → Bool
  | .remove _ _ => true
  | _ => false

def Label.isRaw {π : Type} {n : Nat} : Label π n → Bool
  | .raw _ => true
  | _ => false

namespace World

variable {κ π : Type} {n : Nat}

def init (cfg : Setup κ n) : World π n where
  server := ⟨[cfg.key.a, cfg.key.b], PacketStore.empty⟩
  store := fun _ => LocalStore.empty
  jobs := Table.empty
  nextJob := 0
  net := []
  issued := []
  log := []

def job (w : World π n) (id : Nat) : Option (Job π n) := w.jobs.find? (fun j => j.id = id)

/-- Replace the task of a call, or end the call. -/
def setTask (w : World π n) (job : Job π n) (task : Option (Task π)) : World π n :=
  match task with
  | some task => { w with jobs := w.jobs.insertOrReplace { job with task := task } }
  | none => { w with jobs := w.jobs.deleteWhere (fun j => j.id = job.id) }

def setStore (w : World π n) (dev : Fin n) (st : LocalStore) : World π n :=
  { w with store := fun d => if d = dev then st else w.store d }

/-- Remember what a call did. -/
def note (w : World π n) (job : Job π n) (notices : List (Notice π)) : World π n :=
  { w with log := w.log ++ notices.map (.notice job.dev job.id) }

def issue (w : World π n) (dev : Fin n) (ids : List (String × Nat)) : World π n :=
  { w with issued := w.issued ++ ids.map (fun i => ⟨i.1, i.2, dev⟩) }

/-- The pushes the server stored, each with the call that made it. -/
def accepted (w : World π n) : List (Option Nat × PushRequest π) :=
  w.log.filterMap (fun
    | .accepted job req => some (job, req)
    | _ => none)

/-- What the calls of a device are remembered by. -/
def notices (w : World π n) (dev : Fin n) : List (Notice π) :=
  w.log.filterMap (fun
    | .notice dev' _ what => if dev' = dev then some what else none
    | _ => none)

/-- The packets a device has pulled. -/
def pulled (w : World π n) (dev : Fin n) : List (RawPacket π) :=
  (w.notices dev).flatMap (fun
    | .pulled packets => packets
    | _ => [])

def isFresh (w : World π n) (id : String) : Bool := w.issued.all (fun i => i.id ≠ id)

def firstTask (since : Nat) : Call → Task π
  | .receive => ⟨some ⟨since, Receive.start⟩, .receive⟩
  | .send call => ⟨none, .notify call⟩
  | .upload call => ⟨some ⟨since, Receive.start⟩, .reserve call⟩
  | .resume => ⟨none, .list⟩

/-- Serve a push made by `job`. -/
def serve (w : World π n) (job : Option Nat) (req : PushRequest π) : World π n × ApiResponse :=
  let (server, resp) := w.server.doPush req
  ({ w with
      server := server
      log := if resp.success then w.log ++ [.accepted job req] else w.log }, resp)

/-- The push a step brings to the server, with the call that made it. -/
def incoming (w : World π n) : Label π n → Option (Option Nat × PushRequest π)
  | .push id => (w.job id).bind (fun job =>
      (Task.request job.task.outer).map (fun req => (some id, req)))
  | .arrive i => (w.net[i]?).map (fun flight => (some flight.job, flight.req))
  | .raw req => some (none, req)
  | _ => none

/-- A call waiting inside `receive` goes on with `f`. -/
def onRx (w : World π n) (id : Nat)
    (f : Job π n → Receive π → Option (Receive π × List (Notice π))) : Option (World π n) :=
  match w.job id with
  | none => none
  | some job =>
      match job.task.rx with
      | none => none
      | some rx =>
          match f job rx.run with
          | none => none
          | some (run, notices) =>
              some ((w.setTask job (some { job.task with rx := some { rx with run := run } })).note
                job notices)

/-- A call waiting outside of `receive` goes on with `f`. -/
def onOuter (w : World π n) (id : Nat)
    (f : Job π n → Outer π → Option (Option (Task π))) : Option (World π n) :=
  match w.job id with
  | none => none
  | some job =>
      match job.task.rx with
      | some _ => none
      | none =>
          match f job job.task.outer with
          | none => none
          | some task => some (w.setTask job task)

/-- The request a device makes for a range of its dialogue. -/
def rangeRequest (c : Client κ) (afterSeq toSeq : Nat) : RangeRequest :=
  ⟨c.username, c.partner, afterSeq, toSeq, c.username⟩

section Step

variable [Aead κ π] (cfg : Setup κ n)

/-- A local step of a call; ids it draws were never drawn before. -/
def stepLocal (w : World π n) (id : Nat) (env : Env) : Option (World π n) :=
  match w.job id with
  | none => none
  | some job =>
      match job.task.localStep (cfg.device job.dev) env (w.store job.dev) with
      | none => none
      | some out =>
          if out.issued.all (fun i => w.isFresh i.1) then
            some ((((w.setStore job.dev out.store).setTask job out.task).note job
              out.notices).issue job.dev out.issued)
          else none

def stepScan (w : World π n) (id : Nat) : Option (World π n) :=
  w.onRx id (fun job r =>
    match r.point with
    | .map after =>
        let req := rangeRequest (cfg.device job.dev) after 0
        match Server.refuseRange w.server.users req with
        | some _ => none
        | none =>
            let scan := w.server.store.mapRuns req.dialogue after 0 mapMaxRuns
            some ({ r with point := .scanned scan.1 scan.2 }, [])
    | _ => none)

def stepLastSeq (w : World π n) (id : Nat) : Option (World π n) :=
  w.onRx id (fun job r =>
    match r.point with
    | .scanned runs truncated =>
        let req := rangeRequest (cfg.device job.dev) 0 0
        some (r.onMap ⟨runs, w.server.store.lastSeq req.dialogue, truncated⟩, [])
    | _ => none)

def stepPull (w : World π n) (id : Nat) : Option (World π n) :=
  w.onRx id (fun job r =>
    match r.point with
    | .pull seq stop todo =>
        match w.server.doPull
            (rangeRequest (cfg.device job.dev) (seq - 1) (Receive.batchEnd seq stop)) with
        | .error _ => none
        | .ok packets =>
            some (r.onPull packets seq stop todo, [.pulled packets])
    | _ => none)

def stepExisting (w : World π n) (id : Nat) : Option (World π n) :=
  w.onOuter id (fun job outer =>
    match outer with
    | .existing _ t after _ =>
        match w.server.doMap
            (rangeRequest (cfg.device job.dev) after (t.headerSeq + t.chunkCount)) with
        | .error _ => Task.onExisting outer none
        | .ok m => Task.onExisting outer (some m)
    | _ => none)

/-- Serve the push a call waits for and hand it the answer. -/
def stepPush (w : World π n) (id : Nat) : Option (World π n) :=
  match w.job id with
  | none => none
  | some job =>
      match job.task.rx, Task.request job.task.outer with
      | none, some req =>
          let served := w.serve (some id) req
          served.1.onOuter id (fun _ outer =>
            Task.onPushResult served.1.log.length outer (pushResult served.2))
      | _, _ => none

/-- The request of a call gets lost or delayed, or its answer does. -/
def stepTimeout (w : World π n) (id : Nat) (retry : Bool) : Option (World π n) :=
  match w.job id with
  | none => none
  | some job =>
      match Task.request job.task.outer with
      | some req =>
          let w : World π n := { w with net := w.net ++ [⟨id, req⟩] }
          w.onOuter id (fun _ outer => Task.onTimeout retry outer)
      | none => w.onOuter id (fun _ outer => Task.onExisting outer none)

def step (w : World π n) : Label π n → Option (World π n)
  | .start dev call =>
      if call.allowed then
        some { w with
          jobs := w.jobs.insertOrReplace ⟨w.nextJob, dev, firstTask w.log.length call⟩
          nextJob := w.nextJob + 1 }
      else none
  | .localStep id env => w.stepLocal cfg id env
  | .notified id fresh => w.onOuter id (fun _ outer =>
      match outer with
      | .notify call =>
          some (some ⟨if fresh then some ⟨w.log.length, Receive.start⟩ else none, .compose call 3⟩)
      | _ => none)
  | .scan id => w.stepScan cfg id
  | .lastSeq id => w.stepLastSeq cfg id
  | .pull id => w.stepPull cfg id
  | .existing id => w.stepExisting cfg id
  | .push id => w.stepPush id
  | .timeout id retry => w.stepTimeout id retry
  | .arrive i =>
      match w.net[i]? with
      | none => none
      | some flight =>
          some ({ w with net := w.net.eraseIdx i }.serve (some flight.job) flight.req).1
  | .raw req => some (w.serve none req).1
  | .relayMap id m => w.onRx id (fun _ r =>
      match r.point with
      | .map _ => some (r.onMap m, [])
      | _ => none)
  | .relayPull id packets => w.onRx id (fun _ r =>
      match r.point with
      | .pull seq stop todo =>
          some (r.onPull packets seq stop todo, [.pulled packets])
      | _ => none)
  | .relayExisting id m => w.onOuter id (fun _ outer => Task.onExisting outer (some m))
  | .kill id =>
      match w.job id with
      | none => none
      | some job => some (w.setTask job none)
  | .remove fromSeq toSeq =>
      match w.server.store.removeRange cfg.key fromSeq toSeq with
      | .error _ => none
      | .ok store => some { w with server := { w.server with store := store } }

end Step

end World

end Paranoia
