import Paranoia.Lib.Lts
import Paranoia.Lib.Notify
import Paranoia.Lib.Table
import Paranoia.Stun

/-!
# The TURN relay

One task reads the control socket and handles one message after the other. For each client that
asks it opens a relay socket and starts a task of its own, the relay loop, which forwards what
comes in there; and a collector looks for allocations that have expired. The table of allocations is
under a lock, which each of them takes and gives back several times while it does one thing: what
happens under the lock is one step. A relay loop waits for a datagram and for its shutdown at once,
with a future it makes each time it comes back to waiting, and while it forwards a datagram it has
none. The system gives a socket an address of the family asked for that no open socket has, and a
socket receives from addresses of its own family only.
-/

namespace Paranoia

def turnLifetime : Nat := 600

namespace IpAddr

def isV4 : IpAddr → Bool
  | v4 _ => true
  | v6 _ => false

def isUnspecified : IpAddr → Bool
  | v4 octets => octets = Vector.replicate 4 0
  | v6 octets => octets = Vector.replicate 16 0

end IpAddr

/-- The address of `relay_bind_addr`, without the port. -/
def relayBindAddr (controlBind client : IpAddr) : IpAddr :=
  match client, controlBind with
  | .v4 _, .v4 bindIp => if !(IpAddr.v4 bindIp).isUnspecified then .v4 bindIp else .v4 (.replicate 4 0)
  | .v4 _, .v6 _ => .v4 (.replicate 4 0)
  | .v6 _, .v6 bindIp => if !(IpAddr.v6 bindIp).isUnspecified then .v6 bindIp else .v6 (.replicate 16 0)
  | .v6 _, .v4 _ => .v6 (.replicate 16 0)

def publicAddr (localAddr : SocketAddr) (publicIp : Option IpAddr) : SocketAddr :=
  match publicIp with
  | some ip => ⟨ip, localAddr.port⟩
  | none => localAddr

/-! ## The table -/

/-- `shutdown` is the number of the relay loop it is shared with. -/
structure Allocation where
  client : SocketAddr
  relaySocket : SocketAddr
  relayedAddr : SocketAddr
  expiresAt : Nat
  shutdown : Nat
deriving DecidableEq

/-- The allocations of the clients, and the client of each relayed address. -/
structure AllocTable where
  byClient : Table Allocation Allocation.client
  byRelayed : Table (SocketAddr × SocketAddr) Prod.fst

namespace AllocTable

def empty : AllocTable := ⟨.empty, .empty⟩

def get (t : AllocTable) (client : SocketAddr) : Option Allocation :=
  t.byClient.find? (fun a => a.client = client)

def clientOf (t : AllocTable) (relayed : SocketAddr) : Option SocketAddr :=
  (t.byRelayed.find? (fun e => e.1 = relayed)).map (·.2)

def insert (t : AllocTable) (a : Allocation) : AllocTable :=
  ⟨t.byClient.insertOrReplace a, t.byRelayed.insertOrReplace (a.relayedAddr, a.client)⟩

/-- Remove an allocation and the entry of its relayed address. -/
def remove (t : AllocTable) (a : Allocation) : AllocTable :=
  ⟨t.byClient.deleteWhere (fun b => b.client = a.client),
    t.byRelayed.deleteWhere (fun e => e.1 = a.relayedAddr)⟩

def extend (t : AllocTable) (client : SocketAddr) (expiresAt : Nat) : AllocTable :=
  { t with
    byClient := t.byClient.updateWhere (fun a => a.client = client)
      (fun a => { a with expiresAt := expiresAt }) (fun _ => rfl) }

end AllocTable

/-! ## The tasks -/

/-- Where a relay loop is: not yet run, waiting, forwarding what came from a peer, or over. -/
inductive RelayPoint where
  | spawned
  | select (shutdown : Notified)
  | forward (peer : SocketAddr)
  | ended
deriving DecidableEq

structure RelayLoop where
  client : SocketAddr
  relaySocket : SocketAddr
  shutdown : Notify
  point : RelayPoint
deriving DecidableEq

/-- Where the task of the control socket is in `get_or_create_allocation`. -/
inductive ListenerPoint where
  | idle
  | lookup (client : SocketAddr) (now : Nat)
  | bind (client : SocketAddr) (now : Nat)
  | insert (allocation : Allocation)
deriving DecidableEq

inductive CollectorPoint where
  | waiting
  | scan (now : Nat)
  | remove (expired : List SocketAddr)
deriving DecidableEq

structure TurnConfig where
  controlBind : SocketAddr
  publicIp : Option IpAddr
  relayPortRange : Option (UInt16 × UInt16)

structure TurnWorld where
  now : Nat
  table : AllocTable
  listener : ListenerPoint
  collector : CollectorPoint
  relays : List RelayLoop

/-- What becomes of a relay loop. -/
inductive RelayEvent where
  | run
  | recv (peer : SocketAddr)
  | recvFailed
  | sent
  | stop
deriving DecidableEq

inductive TurnLabel where
  | tick (now : Nat)
  | allocate (client : SocketAddr)
  | lookup
  | bind (socket : Option SocketAddr)
  | insert
  | refresh (client : SocketAddr) (lifetime : Nat)
  | send (client peer : SocketAddr)
  | collect
  | relay (id : Nat) (event : RelayEvent)
deriving DecidableEq

namespace TurnWorld

def init (now : Nat) : TurnWorld := ⟨now, .empty, .idle, .waiting, []⟩

def signal (w : TurnWorld) (id : Nat) : TurnWorld :=
  { w with relays := w.relays.modify id (fun r => { r with shutdown := r.shutdown.notifyWaiters }) }

/-- Take an allocation out of the table and tell its relay loop. -/
def drop (w : TurnWorld) (a : Allocation) : TurnWorld :=
  ({ w with table := w.table.remove a }).signal a.shutdown

/-- Remove what is in the table of these clients. -/
def removeAll (w : TurnWorld) : List SocketAddr → TurnWorld
  | [] => w
  | client :: rest =>
      match w.table.get client with
      | some a => (w.drop a).removeAll rest
      | none => w.removeAll rest

/-- The addresses of the sockets that are open: the table and the relay loops hold them, and the
listener between opening one and entering it. -/
def openSockets (w : TurnWorld) : List SocketAddr :=
  w.table.byClient.rows.map (·.relaySocket)
    ++ (w.relays.filter (fun r => r.point ≠ .ended)).map (·.relaySocket)
    ++ match w.listener with
      | .insert a => [a.relaySocket]
      | _ => []

def stepLookup (w : TurnWorld) (client : SocketAddr) (now : Nat) : TurnWorld :=
  match w.table.get client with
  | some existing =>
      if existing.expiresAt > now then
        { w with table := w.table.extend client (now + turnLifetime), listener := .idle }
      else { w.drop existing with listener := .bind client now }
  | none => { w with listener := .bind client now }

def stepBound (w : TurnWorld) (cfg : TurnConfig) (client socket : SocketAddr) (now : Nat) :
    TurnWorld :=
  { w with
    relays := w.relays ++ [⟨client, socket, .new, .spawned⟩]
    listener := .insert ⟨client, socket, publicAddr socket cfg.publicIp, now + turnLifetime,
      w.relays.length⟩ }

def stepRefresh (w : TurnWorld) (client : SocketAddr) (lifetime : Nat) : TurnWorld :=
  if lifetime = 0 then
    match w.table.get client with
    | some a => w.drop a
    | none => w
  else { w with table := w.table.extend client (w.now + lifetime) }

/-- What `handle_send` does under the lock: the client a datagram to `peer` is handed to at once, if
`peer` is a relayed address. -/
def stepSend (w : TurnWorld) (client peer : SocketAddr) : TurnWorld × Option SocketAddr :=
  match w.table.get client with
  | some _ =>
      ({ w with table := w.table.extend client (w.now + turnLifetime) }, w.table.clientOf peer)
  | none => (w, none)

def stepCollect (w : TurnWorld) : TurnWorld :=
  match w.collector with
  | .waiting => { w with collector := .scan w.now }
  | .scan now =>
      match (w.table.byClient.rows.filter (fun a => a.expiresAt ≤ now)).map (·.client) with
      | [] => { w with collector := .waiting }
      | expired => { w with collector := .remove expired }
  | .remove expired => { w.removeAll expired with collector := .waiting }

end TurnWorld

def RelayLoop.step (r : RelayLoop) (event : RelayEvent) : Option RelayLoop :=
  match r.point, event with
  | .spawned, .run => some { r with point := .select r.shutdown.notified }
  | .select _, .recv peer => some { r with point := .forward peer }
  | .select _, .recvFailed => some { r with point := .ended }
  | .select f, .stop => if f.Ready r.shutdown then some { r with point := .ended } else none
  | .forward _, .sent => some { r with point := .select r.shutdown.notified }
  | _, _ => none

namespace TurnWorld

/-- A socket the system can give. -/
def Bindable (w : TurnWorld) (cfg : TurnConfig) (client socket : SocketAddr) : Prop :=
  socket.ip = relayBindAddr cfg.controlBind.ip client.ip
    ∧ cfg.relayPortRange.all (fun range => range.1 ≤ socket.port && socket.port ≤ range.2)
    ∧ socket ∉ w.openSockets

instance (w : TurnWorld) (cfg : TurnConfig) (client socket : SocketAddr) :
    Decidable (w.Bindable cfg client socket) := by
  unfold Bindable
  infer_instance

def step (cfg : TurnConfig) (w : TurnWorld) : TurnLabel → Option TurnWorld
  | .tick now => if w.now ≤ now then some { w with now := now } else none
  | .allocate client =>
      if w.listener = .idle ∧ client.ip.isV4 = cfg.controlBind.ip.isV4 then
        some { w with listener := .lookup client w.now }
      else none
  | .lookup =>
      match w.listener with
      | .lookup client now => some (w.stepLookup client now)
      | _ => none
  | .bind socket =>
      match w.listener, socket with
      | .bind client now, some socket =>
          if w.Bindable cfg client socket then some (w.stepBound cfg client socket now) else none
      | .bind _ _, none => some { w with listener := .idle }
      | _, _ => none
  | .insert =>
      match w.listener with
      | .insert a => some { w with table := w.table.insert a, listener := .idle }
      | _ => none
  | .refresh client lifetime =>
      if w.listener = .idle then some (w.stepRefresh client lifetime) else none
  | .send client peer => if w.listener = .idle then some (w.stepSend client peer).1 else none
  | .collect => some w.stepCollect
  | .relay id event =>
      match w.relays[id]? with
      | some r => (r.step event).map (fun r' => { w with relays := w.relays.set id r' })
      | none => none

end TurnWorld

end Paranoia
