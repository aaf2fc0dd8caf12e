import Mathlib.Data.String.Basic
import Paranoia.Lib.Lts
import Paranoia.Lib.OrdMap

/-!
# The controller of calls

One controller sees to the calls of a user, one at a time. It reacts to the user, to the envelopes
of the other side, to timers, and to the results of what it has started in the background: the
discovery of its own address, allocations on relays, and probes of the addresses the other side has
named. Results come back through a queue, with the address or the relay they are about.

A handler runs to its end before the next one. What the engine, the network and the clock answer
during it is an argument. Video is left out, and so is the old switch to a relay, which nothing
calls. The texts of candidates are taken apart and put together by functions of which nothing is
known.
-/

namespace Paranoia

inductive CallPhase where
  | idle
  | outgoing
  | incoming
  | running
deriving DecidableEq

/-- How media goes, the best way first. -/
inductive CallPath where
  | none
  | lan
  | stun
  | ourTurn
  | backupTurn
deriving DecidableEq

namespace CallPath

def rank : CallPath → Nat
  | none => 0
  | lan => 1
  | stun => 2
  | ourTurn => 3
  | backupTurn => 4

def isTurn (p : CallPath) : Bool := p = ourTurn || p = backupTurn

end CallPath

/-! ## Envelopes -/

inductive CallSignal where
  | offer (callId sessionId : String) (candidates : List String)
  | answer (callId : String) (accept : Bool) (candidates : List String) (reason : String)
  | hangup (callId reason : String)
  | ice (callId candidate : String)
deriving DecidableEq

structure CallEnvelope where
  recver : String
  key : String
  signal : CallSignal
deriving DecidableEq

/-! ## What a controller keeps -/

structure DirectCandidate where
  category : CallPath
  reachable : Bool
  inFlight : Bool
  lastProbeMs : Int
deriving DecidableEq

structure TurnAlloc where
  category : CallPath
  localRelay : String
  allocateInFlight : Bool
  allocateFailed : Bool
  peerRelay : String
deriving DecidableEq

def TurnAlloc.blank : TurnAlloc := ⟨.ourTurn, "", false, false, ""⟩

/-- Allocations by relay. A relay that was only asked about is blank, and one that is blank is not
listed: nobody can tell the two apart. -/
abbrev TurnAllocs := OrdMap String TurnAlloc

namespace TurnAllocs

def of (allocs : TurnAllocs) (server : String) : TurnAlloc := (allocs.get? server).getD .blank

def set (allocs : TurnAllocs) (server : String) (info : TurnAlloc) : TurnAllocs :=
  if info = .blank then allocs.eraseWhere (fun s => s = server) else allocs.put server info

end TurnAllocs

inductive EngineState where
  | idle
  | prepared
  | running
deriving DecidableEq

/-- Where the engine sends media. -/
inductive EnginePeer where
  | direct (address : String)
  | relayed (server relay : String)
deriving DecidableEq

structure CallEngine where
  state : EngineState
  peer : Option EnginePeer
deriving DecidableEq

/-- What was started in the background, and during which of the controller's calls. -/
inductive CallTask where
  | stun (call : Nat)
  | turn (call : Nat) (server : String)
  | probe (call : Nat) (address : String)
deriving DecidableEq

def CallTask.call : CallTask → Nat
  | stun call | turn call _ | probe call _ => call

structure CallController where
  phase : CallPhase
  peer : String
  peerUserId : String
  callId : String
  masterKey : String
  sessionId : String
  pendingPeerAddr : String
  pendingTurnServer : String
  pendingTurnRelay : String
  localTurnRelay : String
  turnServer : String
  turnFallbackStarted : Bool
  turnRouteActive : Bool
  candidates : OrdMap String DirectCandidate
  allocs : TurnAllocs
  currentPath : CallPath
  rxPath : CallPath
  activeTurnServer : String
  activePeerAddr : String
  lastObservedPeer : String
  engine : CallEngine
  /-- Timers that will look for a better path. -/
  promoteTimers : Nat
  tasks : List CallTask
  /-- Every envelope it has sent, the last one first. -/
  sent : List CallEnvelope
  /-- The number of calls that have ended. -/
  call : Nat

/-- What does not change: the settings, and the texts of candidates. -/
structure CallSetup where
  stunServer : String
  backupTurnServers : List String
  peerUserIdFor : String → String
  displayPeerFor : String → String
  masterKeyFor : String → String
  isTurnCandidate : String → Bool
  parseTurnCandidate : String → Option (String × String)
  formatTurnCandidate : String → String → String
  normalizeRelayAddress : String → String → String
  isIpv6Endpoint : String → Bool

/-- What a handler is answered while it runs. -/
structure CallWeather where
  nowMs : Int
  /-- The engine can be prepared, and sound attached to it. -/
  prepares : Bool
  attaches : Bool
  /-- The addresses of its socket. -/
  localCandidates : List String
  sends : Bool
  setsPeer : String → Bool
  setsTurnPeer : String → String → Bool
  classify : String → CallPath
  mediaReceived : Bool
  /-- Sound has come, and none for longer than allowed. -/
  stalled : Bool
  enginePeer : String

namespace CallController

def new (turnServer : String) : CallController where
  phase := .idle
  peer := ""
  peerUserId := ""
  callId := ""
  masterKey := ""
  sessionId := ""
  pendingPeerAddr := ""
  pendingTurnServer := ""
  pendingTurnRelay := ""
  localTurnRelay := ""
  turnServer := turnServer
  turnFallbackStarted := false
  turnRouteActive := false
  candidates := .empty
  allocs := .empty
  currentPath := .none
  rxPath := .none
  activeTurnServer := ""
  activePeerAddr := ""
  lastObservedPeer := ""
  engine := ⟨.idle, none⟩
  promoteTimers := 0
  tasks := []
  sent := []
  call := 0

variable (cfg : CallSetup) (env : CallWeather) (c : CallController)

/-- Whose envelopes are about the call. -/
def expectedPeer : String := if c.peerUserId = "" then c.peer else c.peerUserId

/-! ## The engine -/

def stopEngine : CallController := { c with engine := ⟨.idle, none⟩ }

/-- An engine that has a session is not prepared for another one. -/
def prepareEngine : CallController × Bool :=
  if c.engine.state = .idle ∧ env.prepares then ({ c with engine := ⟨.prepared, none⟩ }, true)
  else (c, false)

/-- Attaching sound to an engine that has it changes nothing. -/
def attachAudio : CallController × Bool :=
  match c.engine.state with
  | .idle => (c, false)
  | .running => (c, true)
  | .prepared =>
      if env.attaches then ({ c with engine := { c.engine with state := .running } }, true)
      else (c, false)

def setPeer (address : String) : CallController × Bool :=
  if c.engine.state ≠ .idle ∧ env.setsPeer address then
    ({ c with engine := { c.engine with peer := some (.direct address) } }, true)
  else (c, false)

def setTurnPeer (server relay : String) : CallController × Bool :=
  if c.engine.state ≠ .idle ∧ server ≠ "" ∧ relay ≠ "" ∧ env.setsTurnPeer server relay then
    ({ c with engine := { c.engine with peer := some (.relayed server relay) } }, true)
  else (c, false)

/-! ## Sending, and the end of a call -/

def sendSignal (signal : CallSignal) : CallController × Bool :=
  if c.peer = "" ∨ c.expectedPeer = "" ∨ c.masterKey = "" ∨ ¬ env.sends then (c, false)
  else ({ c with sent := ⟨c.expectedPeer, c.masterKey, signal⟩ :: c.sent }, true)

def resetProbingState : CallController :=
  { c with
    candidates := .empty, allocs := .empty, activePeerAddr := "", lastObservedPeer := ""
    currentPath := .none, rxPath := .none, activeTurnServer := "" }

def resetCallState : CallController :=
  { c.resetProbingState with
    peer := "", peerUserId := "", callId := "", masterKey := "", sessionId := ""
    pendingPeerAddr := "", pendingTurnServer := "", pendingTurnRelay := "", localTurnRelay := ""
    turnFallbackStarted := false, turnRouteActive := false, phase := .idle, call := c.call + 1 }

def hangupCall (reason : String) : CallController :=
  if c.phase = .idle then c
  else (c.sendSignal env (.hangup c.callId reason)).1.stopEngine.resetCallState

def rejectIncomingCall (reason : String) : CallController :=
  if c.phase = .incoming then
    (c.sendSignal env (.answer c.callId false [] reason)).1.resetCallState
  else c

/-! ## Paths -/

def orderedTurnServers : List String :=
  cfg.backupTurnServers.foldl
    (fun out s => if s = "" ∨ out.any (fun o => o.toLower = s.toLower) then out else out ++ [s])
    (if c.turnServer = "" then [] else [c.turnServer])

/-- The first of the ordered relays is the user's own. -/
def turnCategory (server : String) : CallPath :=
  if (c.orderedTurnServers cfg).head? = some server then .ourTurn else .backupTurn

def launchStun : CallController :=
  if cfg.stunServer = "" then c else { c with tasks := .stun c.call :: c.tasks }

def launchTurnAllocateOn (server : String) (category : CallPath) : CallController :=
  if server = "" then c
  else
    let info := { c.allocs.of server with category := category }
    if info.allocateInFlight ∨ info.localRelay ≠ "" ∧ ¬ info.allocateFailed then
      { c with allocs := TurnAllocs.set c.allocs server info }
    else
      { c with
        allocs := TurnAllocs.set c.allocs server
          { info with allocateInFlight := true, allocateFailed := false }
        tasks := .turn c.call server :: c.tasks }

def launchTurnAllocateIfConfigured : CallController :=
  if c.turnServer = "" ∨ c.turnFallbackStarted ∨ c.engine.state = .idle then c
  else { c with turnFallbackStarted := true }.launchTurnAllocateOn c.turnServer .ourTurn

def startProbe (address : String) : CallController :=
  if c.engine.state = .idle then c
  else match c.candidates.get? address with
    | none => c
    | some info =>
        if info.inFlight then c
        else { c with
          candidates := c.candidates.put address
            { info with inFlight := true, lastProbeMs := env.nowMs }
          tasks := .probe c.call address :: c.tasks }

def registerDirectCandidate (candidate : String) : CallController :=
  if candidate = "" ∨ (c.candidates.get? candidate).isSome then c
  else { c with
    candidates := c.candidates.put candidate ⟨env.classify candidate, false, false, -1⟩ }.startProbe
      env candidate

/-- The direct candidates of a list. -/
def registerAll (candidates : List String) : CallController :=
  candidates.foldl
    (fun c a => if a = "" ∨ cfg.isTurnCandidate a then c else c.registerDirectCandidate env a) c

/-- A way media could go: how, the address, and the relay if there is one. -/
structure Route where
  path : CallPath
  address : String
  server : String
deriving DecidableEq

/-- A way replaces the best one so far if it is strictly better. -/
def Route.better (best : Option Route) (r : Route) : Option Route :=
  match best with
  | none => some r
  | some b => if r.path.rank < b.path.rank then some r else some b

def bestRoute : Option Route :=
  let direct := (c.candidates.entries.filter (fun e => e.2.reachable)).map
    (fun e => (⟨e.2.category, e.1, ""⟩ : Route))
  let relayed := (c.allocs.entries.filter
    (fun e => e.2.localRelay ≠ "" ∧ e.2.peerRelay ≠ "")).map
    (fun e => (⟨e.2.category, e.2.peerRelay, e.1⟩ : Route))
  (direct ++ relayed).foldl Route.better none

def promoteBestPath : CallController :=
  match c.bestRoute with
  | none => c
  | some r =>
      if c.currentPath ≠ .none ∧ c.currentPath.rank < r.path.rank then c
      else if r.path = c.currentPath ∧ r.address = c.activePeerAddr
          ∧ r.server = c.activeTurnServer then c
      else if r.path.isTurn ∧ c.candidates.entries.any (fun e => e.2.inFlight) then
        { c with promoteTimers := c.promoteTimers + 1 }
      else if r.path.isTurn ∧ (c.rxPath = .lan ∨ c.rxPath = .stun) ∧ env.mediaReceived then
        if c.currentPath = .none then { c with currentPath := c.rxPath, activeTurnServer := "" }
        else c
      else if r.path.isTurn then
        match c.setTurnPeer env r.server r.address with
        | (c, true) =>
            { c with
              turnRouteActive := true, activePeerAddr := r.address, currentPath := r.path
              activeTurnServer := r.server }
        | (c, false) => c
      else
        match c.setPeer env r.address with
        | (c, true) =>
            { c with
              turnRouteActive := false, activePeerAddr := r.address, currentPath := r.path
              activeTurnServer := "" }
        | (c, false) => c

def ensureTurnRouteForPeer (server peerRelay : String) : CallController :=
  if server = "" ∨ peerRelay = "" then c
  else
    let c := { c with
      pendingTurnServer := server, pendingTurnRelay := peerRelay
      allocs := TurnAllocs.set c.allocs server { c.allocs.of server with peerRelay := peerRelay } }
    let c := if c.turnServer = "" then { c with turnServer := server } else c
    c.launchTurnAllocateIfConfigured.promoteBestPath env

/-! ## The user -/

def startOutgoingCall (peer masterKey callId sessionId : String) : CallController :=
  if c.phase ≠ .idle then c
  else
    let c := { c with
      peer := peer, peerUserId := cfg.peerUserIdFor peer, masterKey := masterKey
      callId := callId, sessionId := sessionId, phase := .outgoing }
    match c.prepareEngine env with
    | (c, false) => c.stopEngine.resetCallState
    | (c, true) =>
        match c.sendSignal env (.offer callId sessionId env.localCandidates) with
        | (c, false) => c.stopEngine.resetCallState
        | (c, true) => (c.launchStun cfg).launchTurnAllocateIfConfigured

/-- The first candidate that is direct, of the older protocol if there is one. -/
def selectPeerCandidate (candidates : List String) : String :=
  let direct := candidates.filter (fun a => a ≠ "" ∧ ¬ cfg.isTurnCandidate a)
  ((direct.find? (fun a => ¬ cfg.isIpv6Endpoint a)).orElse (fun _ => direct.head?)).getD ""

def turnCandidate (candidates : List String) : Option (String × String) :=
  (candidates.find? cfg.isTurnCandidate).bind cfg.parseTurnCandidate

/-- The candidates that have come with the offer and after it are tried. -/
def seekPeer : CallController :=
  let c :=
    if c.pendingPeerAddr = "" then c
    else { (c.setPeer env c.pendingPeerAddr).1 with
      activePeerAddr := c.pendingPeerAddr }.registerDirectCandidate env c.pendingPeerAddr
  let c := c.candidates.keys.foldl (fun c a => c.startProbe env a) c
  c.ensureTurnRouteForPeer env c.pendingTurnServer c.pendingTurnRelay

def acceptIncomingCall : CallController :=
  if c.phase ≠ .incoming ∨ c.masterKey = "" then c
  else match c.prepareEngine env with
    | (c, false) => c.stopEngine.resetCallState
    | (c, true) =>
        match c.sendSignal env (.answer c.callId true env.localCandidates "") with
        | (c, false) => c.stopEngine.resetCallState
        | (c, true) =>
            match (c.seekPeer env).attachAudio env with
            | (c, false) => c.stopEngine.resetCallState
            | (c, true) =>
                ({ c with phase := .running }.launchStun cfg).launchTurnAllocateIfConfigured

/-! ## Envelopes of the other side -/

/-- Busy with another call: the one offered is refused under the key of the call there is. -/
def sendBusy (fromPeer callId : String) : CallController :=
  if c.masterKey = "" ∨ ¬ env.sends then c
  else { c with sent := ⟨fromPeer, c.masterKey, .hangup callId "busy"⟩ :: c.sent }

def onOffer (fromPeer callId sessionId : String) (candidates : List String) : CallController :=
  if c.phase ≠ .idle then
    if callId = c.callId then c else c.sendBusy env fromPeer callId
  else
    let pendingTurn := (turnCandidate cfg candidates).map
      (fun turn : String × String => (turn.1, cfg.normalizeRelayAddress turn.1 turn.2))
    let c := { c with
      peer := cfg.displayPeerFor fromPeer, peerUserId := fromPeer, callId := callId
      sessionId := sessionId, pendingPeerAddr := selectPeerCandidate cfg candidates
      pendingTurnServer := (pendingTurn.map Prod.fst).getD ""
      pendingTurnRelay := (pendingTurn.map Prod.snd).getD "" }
    let c := c.registerAll cfg env candidates
    let key := cfg.masterKeyFor fromPeer
    { c with
      masterKey := if key = "" ∧ c.peer ≠ fromPeer then cfg.masterKeyFor c.peer else key
      phase := .incoming }

/-- The candidates that have come with the answer are tried. -/
def meetPeer (candidates : List String) : CallController :=
  let address := selectPeerCandidate cfg candidates
  let c := if address = "" then c else { (c.setPeer env address).1 with activePeerAddr := address }
  let c := c.registerAll cfg env candidates
  match turnCandidate cfg candidates with
  | some (server, relay) =>
      c.ensureTurnRouteForPeer env server (cfg.normalizeRelayAddress server relay)
  | none => c

def onAnswer (fromPeer callId : String) (accept : Bool) (candidates : List String) :
    CallController :=
  if c.phase ≠ .outgoing ∨ fromPeer ≠ c.expectedPeer ∨ callId ≠ c.callId then c
  else if ¬ accept then c.stopEngine.resetCallState
  else match (c.meetPeer cfg env candidates).attachAudio env with
    | (c, false) => c.hangupCall env "engine_attach_failed"
    | (c, true) => { c with phase := .running }.promoteBestPath env

def onHangup (fromPeer callId : String) : CallController :=
  if c.phase = .idle ∨ fromPeer ≠ c.expectedPeer ∨ callId ≠ c.callId then c
  else c.stopEngine.resetCallState

def onIce (fromPeer callId candidate : String) : CallController :=
  if fromPeer ≠ c.expectedPeer ∨ callId ≠ c.callId ∨ candidate = "" then c
  else match cfg.parseTurnCandidate candidate with
    | some (server, relay) =>
        c.ensureTurnRouteForPeer env server (cfg.normalizeRelayAddress server relay)
    | none =>
        if c.engine.state = .idle then
          { c with pendingPeerAddr := candidate }.registerDirectCandidate env candidate
        else
          let c := c.registerDirectCandidate env candidate
          if c.currentPath = .none ∧ c.activePeerAddr = "" then
            { (c.setPeer env candidate).1 with activePeerAddr := candidate }
          else c

/-- What the signalling client hands on; it drops what has no sender. -/
def onSignal (fromPeer : String) : CallSignal → CallController
  | .offer callId sessionId candidates => c.onOffer cfg env fromPeer callId sessionId candidates
  | .answer callId accept candidates _ => c.onAnswer cfg env fromPeer callId accept candidates
  | .hangup callId _ => c.onHangup fromPeer callId
  | .ice callId candidate => c.onIce cfg env fromPeer callId candidate

/-! ## Results -/

def onStunResolved (reflexive : String) : CallController :=
  if reflexive = "" ∨ c.phase = .idle then c
  else (c.sendSignal env (.ice c.callId reflexive)).1

/-- The relay after this one, if this is one of the ordered relays. -/
def nextTurnServer (server : String) : Option String :=
  ((c.orderedTurnServers cfg).dropWhile (fun s => s ≠ server))[1]?

def onTurnRelayReady (server relay : String) : CallController :=
  let info := { c.allocs.of server with allocateInFlight := false }
  if relay = "" then
    let c := { c with
      allocs := TurnAllocs.set c.allocs server { info with allocateFailed := true } }
    match c.nextTurnServer cfg server with
    | some next => c.launchTurnAllocateOn next .backupTurn
    | none => c
  else if c.phase = .idle then { c with allocs := TurnAllocs.set c.allocs server info }
  else
    let normalized := cfg.normalizeRelayAddress server relay
    let info := { info with
      localRelay := normalized
      category := if info.category = .none then c.turnCategory cfg server else info.category }
    let c := { c with
      allocs := TurnAllocs.set c.allocs server info
      localTurnRelay :=
        if c.localTurnRelay = "" ∨ server = c.turnServer then normalized else c.localTurnRelay }
    let c := (c.sendSignal env (.ice c.callId (cfg.formatTurnCandidate server normalized))).1
    if info.peerRelay = "" then c else c.promoteBestPath env

def onProbeResult (address : String) (reachable : Bool) : CallController :=
  match c.candidates.get? address with
  | none => c
  | some info =>
      let info := { info with inFlight := false, reachable := reachable }
      { c with candidates := c.candidates.put address info }.promoteBestPath env

/-! ## Timers -/

def onRingTimeout : CallController :=
  match c.phase with
  | .incoming => c.rejectIncomingCall env "timeout"
  | .outgoing => c.hangupCall env "timeout"
  | _ => c

def onReprobeTick : CallController :=
  if c.phase = .idle ∨ c.engine.state = .idle then c
  else
    let better (p : CallPath) (c : CallController) : Bool :=
      c.currentPath = .none || p.rank < c.currentPath.rank
    let c := c.candidates.keys.foldl (fun c a =>
      match c.candidates.get? a with
      | none => c
      | some info =>
          if ¬ better info.category c ∨ info.inFlight
              ∨ 0 < info.lastProbeMs ∧ env.nowMs - info.lastProbeMs < 5000 then c
          else c.startProbe env a) c
    (c.orderedTurnServers cfg).foldl (fun c s =>
      let info := c.allocs.of s
      if ¬ better (c.turnCategory cfg s) c ∨ info.allocateInFlight
          ∨ info.localRelay ≠ "" ∧ ¬ info.allocateFailed then c
      else c.launchTurnAllocateOn s (c.turnCategory cfg s)) c

def onPromoteTimer : CallController :=
  if c.promoteTimers = 0 then c
  else { c with promoteTimers := c.promoteTimers - 1 }.promoteBestPath env

/-- The relay, if any, through which the other side is heard. -/
def relayOf (peer : String) : Option (String × TurnAlloc) :=
  c.allocs.entries.find? (fun e => e.2.peerRelay = peer)

/-- How the other side is heard, once media has come. -/
def heardPath : CallPath :=
  let relayed := ((c.relayOf env.enginePeer).map (fun e => e.2.category)).getD .none
  let direct := env.classify env.enginePeer
  if env.enginePeer = "" then .none
  else if relayed ≠ .none then relayed
  else if direct = .none then .stun else direct

/-- Media has come from an address that was not noted, or noted without media. -/
def noteHeard : CallController :=
  if env.enginePeer = c.lastObservedPeer ∧ (c.rxPath ≠ .none ∨ ¬ env.mediaReceived) then c
  else
    let c := { c with lastObservedPeer := env.enginePeer }
    if ¬ env.mediaReceived then { c with rxPath := .none }
    else
      let heard := c.heardPath env
      let c := { c with rxPath := heard }
      if heard = .none ∨ c.currentPath = heard then c
      else { c with
        currentPath := heard
        activeTurnServer :=
          if heard.isTurn then ((c.relayOf env.enginePeer).map (·.1)).getD "" else ""
        activePeerAddr := env.enginePeer
        turnRouteActive := heard.isTurn }

/-- Media means that the other side has answered, whatever became of its answer. -/
def joinHeard : CallController :=
  if env.mediaReceived ∧ c.phase = .outgoing then { (c.attachAudio env).1 with phase := .running }
  else c

def pollRxPath : CallController :=
  if c.phase = .idle then c
  else
    let c := c.joinHeard env
    if c.phase = .running ∧ env.mediaReceived ∧ env.stalled then c.hangupCall env "media_timeout"
    else c.noteHeard env

end CallController

end Paranoia
