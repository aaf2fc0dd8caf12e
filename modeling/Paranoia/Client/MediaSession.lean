import Paranoia.Lib.Lts
import Paranoia.Lib.Notify
import Paranoia.Lib.Table
import Paranoia.Stun

/-!
# The loop of a media session

One task serves the socket of a session. What it knows of STUN and TURN, a route and the requests it
waits for, changes with what comes in, with what its handle asks for and with its timers. A request
is known by a transaction identifier drawn at random; what asked for it waits for one answer. Times
are in milliseconds. What is sent, and media, is left out: neither touches the route.

The task waits for its shutdown with one future for its whole life, which it makes after its first
wait.
-/

namespace Paranoia

def turnDefaultLifetime : Nat := 600 * 1000
def turnPermissionLifetime : Nat := 300 * 1000
def turnRefreshMargin : Nat := 60 * 1000
def turnPermissionMargin : Nat := 60 * 1000

structure StunPending where
  tid : TransactionId
  server : SocketAddr
  reply : Nat
  deadline : Nat
deriving DecidableEq

/-- What a TURN request waits for; `reply` is who waits for its answer. -/
inductive TurnPending where
  | allocate (server : SocketAddr) (reply : Nat) (deadline : Nat)
  | createPermission (deadline : Nat)
  | refresh (deadline : Nat)
deriving DecidableEq

def TurnPending.deadline : TurnPending → Nat
  | allocate _ _ deadline => deadline
  | createPermission deadline => deadline
  | refresh deadline => deadline

def TurnPending.reply : TurnPending → Option Nat
  | allocate _ reply _ => some reply
  | _ => none

structure TurnRoute where
  server : Option SocketAddr
  relayed : Option SocketAddr
  peerRelay : Option SocketAddr
  allocationLifetime : Nat
  nextRefreshAt : Option Nat
  nextPermissionAt : Option Nat
deriving DecidableEq

def TurnRoute.default : TurnRoute := ⟨none, none, none, 0, none, none⟩

/-- What went wrong with a request. -/
inductive SessionError where
  | stunSendTo (server : SocketAddr)
  | stunWithoutAddress
  | stunTimeout
  | allocateSendTo (server : SocketAddr)
  | allocateWithoutAddress
  | allocateRejected
  | allocateTimeout
  | peerBeforeAllocation
deriving DecidableEq

/-- The answer to a request of the handle. -/
inductive SessionReply where
  | address (addr : SocketAddr)
  | done
  | failed (e : SessionError)
deriving DecidableEq

structure TurnSession where
  now : Nat
  stunPending : Table StunPending StunPending.tid
  turnPending : Table (TransactionId × TurnPending) Prod.fst
  turnRoute : TurnRoute
  peer : Option SocketAddr
  /-- How many have asked for an answer. -/
  requests : Nat
  /-- The answers given, with who asked. -/
  answers : List (Nat × SessionReply)

inductive SessionLabel where
  | tick (now : Nat)
  | datagram (data : List UInt8)
  | stunDiscover (server : SocketAddr) (timeout : Nat) (tid : TransactionId) (sent : Bool)
  | turnAllocate (server : SocketAddr) (timeout : Nat) (tid : TransactionId) (sent : Bool)
  | setTurnPeer (server peer : SocketAddr) (tid : TransactionId) (sent : Bool)
  | stunGc
  | turnRefresh (tid : TransactionId) (sent : Bool) (permissionTid : TransactionId)
      (permissionSent : Bool)
deriving DecidableEq

namespace TurnSession

def init (now : Nat) : TurnSession := ⟨now, .empty, .empty, .default, none, 0, []⟩

def answer (s : TurnSession) (reply : Nat) (a : SessionReply) : TurnSession :=
  { s with answers := (reply, a) :: s.answers }

def pending (s : TurnSession) (tid : TransactionId) : Option TurnPending :=
  (s.turnPending.find? (fun e => e.1 = tid)).map (·.2)

def insertPending (s : TurnSession) (tid : TransactionId) (p : TurnPending) : TurnSession :=
  { s with turnPending := s.turnPending.insertOrReplace (tid, p) }

def removePending (s : TurnSession) (tid : TransactionId) : TurnSession :=
  { s with turnPending := s.turnPending.deleteWhere (fun e => e.1 = tid) }

def removeStun (s : TurnSession) (tid : TransactionId) : TurnSession :=
  { s with stunPending := s.stunPending.deleteWhere (fun e => e.tid = tid) }

/-! ## What comes in -/

def bindingSuccess (s : TurnSession) (data : List UInt8) (tid : TransactionId) : TurnSession :=
  match s.stunPending.find? (fun e => e.tid = tid) with
  | some e =>
      match Stun.parseXorMappedAddress data tid with
      | some reflexive => (s.removeStun tid).answer e.reply (.address reflexive)
      | none => (s.removeStun tid).answer e.reply (.failed .stunWithoutAddress)
  | none => s

def allocateSuccess (s : TurnSession) (m : Turn.Message) : TurnSession :=
  let tid := m.header.transactionId
  let rest := s.removePending tid
  match s.pending tid with
  | some (.allocate server reply _) =>
      match m.findXorAddress Turn.attrXorRelayedAddress with
      | some relayed =>
          let lifetime := (m.findLifetime.map (· * 1000)).getD turnDefaultLifetime
          { rest with
            turnRoute := { rest.turnRoute with
              server := some server
              relayed := some relayed
              allocationLifetime := lifetime
              nextRefreshAt := some (s.now + (lifetime - turnRefreshMargin)) } }.answer reply
                (.address relayed)
      | none => rest.answer reply (.failed .allocateWithoutAddress)
  | _ => rest

def refreshSuccess (s : TurnSession) (m : Turn.Message) : TurnSession :=
  let rest := s.removePending m.header.transactionId
  match rest.turnRoute.server with
  | some _ =>
      let lifetime := (m.findLifetime.map (· * 1000)).getD rest.turnRoute.allocationLifetime
      -- a lifetime of 0 answers a request to close
      if lifetime / 1000 > 0 then
        { rest with
          turnRoute := { rest.turnRoute with
            allocationLifetime := lifetime
            nextRefreshAt := some (s.now + (lifetime - turnRefreshMargin)) } }
      else rest
  | none => rest

def allocateError (s : TurnSession) (m : Turn.Message) : TurnSession :=
  let tid := m.header.transactionId
  match s.pending tid with
  | some (.allocate _ reply _) =>
      (s.removePending tid).answer reply (.failed .allocateRejected)
  | _ => s.removePending tid

def control (s : TurnSession) (data : List UInt8) (m : Turn.Message) : TurnSession :=
  let tid := m.header.transactionId
  let method := m.header.method
  match m.header.cls with
  | .successResponse =>
      if method = Turn.methodBinding then s.bindingSuccess data tid
      else if method = Turn.methodAllocate then s.allocateSuccess m
      else if method = Turn.methodRefresh then s.refreshSuccess m
      else if method = Turn.methodCreatePermission then s.removePending tid
      else s
  | .errorResponse =>
      if method = Turn.methodRefresh then s.removePending tid
      else if method = Turn.methodAllocate then s.allocateError m
      else if method = Turn.methodCreatePermission then s.removePending tid
      else s
  | _ => s

/-! ## Requests of the handle -/

def stunDiscover (s : TurnSession) (server : SocketAddr) (timeout : Nat) (tid : TransactionId)
    (sent : Bool) : TurnSession :=
  let asked := { s with requests := s.requests + 1 }
  if sent then
    { asked with
      stunPending := asked.stunPending.insertOrReplace ⟨tid, server, s.requests, s.now + timeout⟩ }
  else asked.answer s.requests (.failed (.stunSendTo server))

def turnAllocate (s : TurnSession) (server : SocketAddr) (timeout : Nat) (tid : TransactionId)
    (sent : Bool) : TurnSession :=
  let asked := { s with requests := s.requests + 1 }
  if sent then asked.insertPending tid (.allocate server s.requests (s.now + timeout))
  else asked.answer s.requests (.failed (.allocateSendTo server))

/-- Ask for a permission, and ask again before it ends. -/
def askPermission (s : TurnSession) (tid : TransactionId) (sent : Bool) : TurnSession :=
  if sent then
    { s.insertPending tid (.createPermission (s.now + 3000)) with
      turnRoute := { s.turnRoute with
        nextPermissionAt := some (s.now + (turnPermissionLifetime - turnPermissionMargin)) } }
  else s

def setTurnPeer (s : TurnSession) (server peerRelay : SocketAddr) (tid : TransactionId)
    (sent : Bool) : TurnSession :=
  let asked := { s with requests := s.requests + 1 }
  if s.turnRoute.server ≠ some server ∨ s.turnRoute.relayed = none then
    asked.answer s.requests (.failed .peerBeforeAllocation)
  else
    ({ asked with
      turnRoute := { s.turnRoute with peerRelay := some peerRelay }
      peer := some peerRelay }.askPermission tid sent).answer s.requests .done

/-! ## Timers -/

/-- What a request that has timed out is answered. -/
def timeOut (s : TurnSession) (p : TurnPending) : TurnSession :=
  match p with
  | .allocate _ reply _ => s.answer reply (.failed .allocateTimeout)
  | _ => s

def expire (s : TurnSession) : List (TransactionId × TurnPending) → TurnSession
  | [] => s
  | e :: rest => ((s.removePending e.1).timeOut e.2).expire rest

def stunExpire (s : TurnSession) : List StunPending → TurnSession
  | [] => s
  | e :: rest => ((s.removeStun e.tid).answer e.reply (.failed .stunTimeout)).stunExpire rest

def stunGc (s : TurnSession) : TurnSession :=
  (s.stunExpire (s.stunPending.rows.filter (fun e => e.deadline ≤ s.now))).expire
    (s.turnPending.rows.filter (fun e => e.2.deadline ≤ s.now))

def refreshTick (s : TurnSession) (tid : TransactionId) (sent : Bool) : TurnSession :=
  match s.turnRoute.server, s.turnRoute.nextRefreshAt with
  | some _, some refreshAt =>
      if s.now ≥ refreshAt ∧ sent then
        { s.insertPending tid (.refresh (s.now + 3000)) with
          turnRoute := { s.turnRoute with
            nextRefreshAt := some (s.now + (s.turnRoute.allocationLifetime - turnRefreshMargin)) } }
      else s
  | _, _ => s

def permissionTick (s : TurnSession) (tid : TransactionId) (sent : Bool) : TurnSession :=
  match s.turnRoute.server, s.turnRoute.peerRelay, s.turnRoute.nextPermissionAt with
  | some _, some _, some permAt => if s.now ≥ permAt then s.askPermission tid sent else s
  | _, _, _ => s

def step (s : TurnSession) : SessionLabel → Option TurnSession
  | .tick now => if s.now ≤ now then some { s with now := now } else none
  | .datagram data =>
      match controlMessage data with
      | some m => some (s.control data m)
      | none => some s
  | .stunDiscover server timeout tid sent => some (s.stunDiscover server timeout tid sent)
  | .turnAllocate server timeout tid sent => some (s.turnAllocate server timeout tid sent)
  | .setTurnPeer server peer tid sent => some (s.setTurnPeer server peer tid sent)
  | .stunGc => some s.stunGc
  | .turnRefresh tid sent permissionTid permissionSent =>
      some ((s.refreshTick tid sent).permissionTick permissionTid permissionSent)

end TurnSession

/-! ## The task -/

/-- Where the task is: not yet past its first wait, between the future and the loop, waiting for what
comes first, in a branch that waits for something else, or over. -/
inductive TaskPoint where
  | starting
  | preparing (shutdown : Notified)
  | select (shutdown : Notified)
  | branch (shutdown : Notified)
  | ended
deriving DecidableEq

structure SessionTask where
  shutdown : Notify
  point : TaskPoint
deriving DecidableEq

/-- `shutdown` and `join` of the handle both signal; the rest is the task's own. -/
inductive TaskLabel where
  | shutdown
  | join
  | start
  | enter
  | serve
  | served
  | closed
  | stop
deriving DecidableEq

namespace SessionTask

def init : SessionTask := ⟨.new, .starting⟩

def step (t : SessionTask) : TaskLabel → Option SessionTask
  | .shutdown => some { t with shutdown := t.shutdown.notifyWaiters }
  | .join => some { t with shutdown := t.shutdown.notifyWaiters }
  | .start =>
      match t.point with
      | .starting => some { t with point := .preparing t.shutdown.notified }
      | _ => none
  | .enter =>
      match t.point with
      | .preparing f => some { t with point := .select f }
      | _ => none
  | .serve =>
      match t.point with
      | .select f => some { t with point := .branch f }
      | _ => none
  | .served =>
      match t.point with
      | .branch f => some { t with point := .select f }
      | _ => none
  | .closed =>
      match t.point with
      | .select _ => some { t with point := .ended }
      | .branch _ => some { t with point := .ended }
      | _ => none
  | .stop =>
      match t.point with
      | .select f => if f.Ready t.shutdown then some { t with point := .ended } else none
      | _ => none

end SessionTask

end Paranoia
