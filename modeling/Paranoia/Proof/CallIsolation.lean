import Paranoia.Proof.CallMoves

/-!
# Calls of one controller, kept apart

A result comes back with the address or the relay it is about, and nothing says which call it was
obtained for. The controller takes it for one of the call there is: the address that was discovered
for a call that has ended is sent to the other side of the next one (`late_address_sent`). Only
where the next call is not concerned does a late result go by without a trace, and then the run is
the one in which it had never come (`isolated`).
-/

namespace Paranoia

inductive ControllerLabel where
  | start (peer masterKey callId sessionId : String) (env : CallWeather)
  | accept (env : CallWeather)
  | reject (reason : String) (env : CallWeather)
  | hangup (reason : String) (env : CallWeather)
  | signal (fromPeer : String) (signal : CallSignal) (env : CallWeather)
  | ringTimeout (env : CallWeather)
  | reprobe (env : CallWeather)
  | promote (env : CallWeather)
  | poll (env : CallWeather)
  /-- The results of what was started during a call. -/
  | stun (call : Nat) (reflexive : String) (env : CallWeather)
  | turn (call : Nat) (server relay : String) (env : CallWeather)
  | probe (call : Nat) (address : String) (reachable : Bool) (env : CallWeather)

namespace ControllerLabel

/-- What this is the result of. -/
def task? : ControllerLabel → Option CallTask
  | stun call _ _ => some (.stun call)
  | turn call server _ _ => some (.turn call server)
  | probe call address _ _ => some (.probe call address)
  | _ => none

end ControllerLabel

namespace CallController

variable (cfg : CallSetup) (c : CallController)

/-- The handler of a label. -/
def handle : ControllerLabel → CallController
  | .start peer masterKey callId sessionId env =>
      c.startOutgoingCall cfg env peer masterKey callId sessionId
  | .accept env => c.acceptIncomingCall cfg env
  | .reject reason env => c.rejectIncomingCall env reason
  | .hangup reason env => c.hangupCall env reason
  | .signal fromPeer signal env => c.onSignal cfg env fromPeer signal
  | .ringTimeout env => c.onRingTimeout env
  | .reprobe env => c.onReprobeTick cfg env
  | .promote env => c.onPromoteTimer env
  | .poll env => c.pollRxPath env
  | .stun _ reflexive env => c.onStunResolved env reflexive
  | .turn _ server relay env => c.onTurnRelayReady cfg env server relay
  | .probe _ address reachable env => c.onProbeResult env address reachable

/-- A signal without a sender is dropped before it gets here. -/
def Possible : ControllerLabel → Prop
  | .signal fromPeer _ _ => fromPeer ≠ ""
  | l => ∀ t ∈ l.task?, t ∈ c.tasks

instance (l : ControllerLabel) : Decidable (c.Possible l) := by
  cases l <;> unfold Possible <;> infer_instance

/-- What was started is no longer under way. -/
def finish (l : ControllerLabel) : CallController :=
  match l.task? with
  | some t => { c with tasks := c.tasks.erase t }
  | none => c

def step (l : ControllerLabel) : Option CallController :=
  if c.Possible l then some ((c.finish l).handle cfg l) else none

/-- The result of something that was started during an earlier call. -/
def Late (l : ControllerLabel) : Prop := ∃ t ∈ l.task?, t.call ≠ c.call

instance (l : ControllerLabel) : Decidable (c.Late l) := by
  unfold Late
  infer_instance

/-- As if late results never came. -/
def stepWithout (l : ControllerLabel) : Option CallController :=
  if c.Possible l then
    if c.Late l then some (c.finish l) else some ((c.finish l).handle cfg l)
  else none

/-- The result concerns no call: there is none when an address or a relay comes, and a relay does
come; and an address that was probed is not one of the candidates. -/
def Aimless : ControllerLabel → Prop
  | .stun _ reflexive _ => reflexive = "" ∨ c.phase = .idle
  | .turn _ _ relay _ => relay ≠ "" ∧ c.phase = .idle
  | .probe _ address _ _ => c.candidates.get? address = none
  | _ => True

instance (l : ControllerLabel) : Decidable (c.Aimless l) := by
  cases l <;> unfold Aimless <;> infer_instance

/-- No late result concerns the call there is. -/
def Harmless (l : ControllerLabel) : Prop := c.Late l → c.Aimless l

instance (l : ControllerLabel) : Decidable (c.Harmless l) :=
  inferInstanceAs (Decidable (_ → _))

/-! ## Between calls -/

/-- What was started was started for this call or an earlier one; between two calls nothing is left
of the last one. -/
structure Settled : Prop where
  tasks : ∀ t ∈ c.tasks, t.call ≤ c.call
  idleTasks : c.phase = .idle → ∀ t ∈ c.tasks, t.call < c.call
  candidates : c.phase = .idle → c.candidates = .empty
  allocs : c.phase = .idle → c.allocs = .empty
  expectedPeer : c.phase = .idle → c.expectedPeer = ""

variable {cfg : CallSetup} {c c' : CallController} {env : CallWeather} {l : ControllerLabel}

theorem settled_new (turnServer : String) : (new turnServer).Settled := by
  constructor <;> simp [new, CallController.expectedPeer]

/-- Whatever the call there was, nothing is left of it. -/
theorem settled_reset (h : ∀ t ∈ c.tasks, t.call ≤ c.call) : c.resetCallState.Settled where
  tasks t ht := Nat.le_succ_of_le (h t ht)
  idleTasks _ t ht := Nat.lt_succ_of_le (h t ht)
  candidates _ := rfl
  allocs _ := rfl
  expectedPeer _ := rfl

theorem settled_of_phase (hphase : c.phase ≠ .idle) (h : ∀ t ∈ c.tasks, t.call ≤ c.call) :
    c.Settled :=
  ⟨h, fun hi => absurd hi hphase, fun hi => absurd hi hphase, fun hi => absurd hi hphase,
    fun hi => absurd hi hphase⟩

theorem Aside.bound (h : Aside c c') (hb : ∀ t ∈ c.tasks, t.call ≤ c.call) :
    ∀ t ∈ c'.tasks, t.call ≤ c'.call := by
  intro t ht
  rw [h.call]
  rcases h.tasks t ht with ht | ht
  · exact hb t ht
  · exact le_of_eq ht

theorem Settled.aside (hi : c.Settled) (h : Aside c c') (hphase : c.phase ≠ .idle) : c'.Settled :=
  settled_of_phase (by rw [h.phase]; exact hphase) (h.bound hi.tasks)

theorem Settled.finish (hi : c.Settled) (l : ControllerLabel) : (c.finish l).Settled := by
  unfold CallController.finish
  split
  · exact ⟨fun t ht => hi.tasks t (List.mem_of_mem_erase ht),
      fun hp t ht => hi.idleTasks hp t (List.mem_of_mem_erase ht), hi.candidates, hi.allocs,
      hi.expectedPeer⟩
  · exact hi

@[simp] theorem sendSignal_tasks (s : CallSignal) : (c.sendSignal env s).1.tasks = c.tasks := by
  unfold sendSignal
  split <;> rfl

@[simp] theorem sendSignal_call (s : CallSignal) : (c.sendSignal env s).1.call = c.call := by
  unfold sendSignal
  split <;> rfl

@[simp] theorem sendSignal_phase (s : CallSignal) : (c.sendSignal env s).1.phase = c.phase := by
  unfold sendSignal
  split <;> rfl

theorem bound_send (hb : ∀ t ∈ c.tasks, t.call ≤ c.call) (s : CallSignal) :
    ∀ t ∈ (c.sendSignal env s).1.tasks, t.call ≤ (c.sendSignal env s).1.call := by
  simpa using hb

/-! ## The handlers -/

theorem Settled.hangupCall (hi : c.Settled) (reason : String) : (c.hangupCall env reason).Settled := by
  unfold CallController.hangupCall
  split
  · exact hi
  · exact settled_reset (bound_send hi.tasks _)

theorem Settled.rejectIncomingCall (hi : c.Settled) (reason : String) :
    (c.rejectIncomingCall env reason).Settled := by
  unfold CallController.rejectIncomingCall
  split
  · exact settled_reset (bound_send hi.tasks _)
  · exact hi

theorem Settled.startOutgoingCall (hi : c.Settled) (peer masterKey callId sessionId : String) :
    (c.startOutgoingCall cfg env peer masterKey callId sessionId).Settled := by
  unfold CallController.startOutgoingCall
  split
  · exact hi
  · dsimp only
    generalize hc₁ : ({ c with
      peer := peer, peerUserId := cfg.peerUserIdFor peer, masterKey := masterKey
      callId := callId, sessionId := sessionId, phase := .outgoing } : CallController) = c₁
    have hphase : c₁.phase ≠ .idle := by simp [← hc₁]
    have hb : ∀ t ∈ c₁.tasks, t.call ≤ c₁.call := by
      rw [← hc₁]
      exact hi.tasks
    have hprep : Aside c₁ (c₁.prepareEngine env).1 := aside_prepareEngine _
    split <;> rename_i hp <;> rw [hp] at hprep
    · exact settled_reset (hprep.bound hb)
    · rename_i c₂
      have hsend : ∀ s, ∀ t ∈ (c₂.sendSignal env s).1.tasks, t.call ≤ (c₂.sendSignal env s).1.call :=
        bound_send (hprep.bound hb)
      specialize hsend (.offer callId sessionId env.localCandidates)
      have hphase' : (c₂.sendSignal env (.offer callId sessionId env.localCandidates)).1.phase
          ≠ .idle := by
        rw [sendSignal_phase, hprep.phase]
        exact hphase
      split <;> rename_i hs <;> rw [hs] at hsend hphase'
      · exact settled_reset hsend
      · exact (settled_of_phase hphase' hsend).aside
          ((aside_launchStun _).trans (aside_launchTurnAllocateIfConfigured _)) hphase'

theorem Settled.acceptIncomingCall (hi : c.Settled) : (c.acceptIncomingCall cfg env).Settled := by
  unfold CallController.acceptIncomingCall
  split
  · exact hi
  · have hprep : Aside c (c.prepareEngine env).1 := aside_prepareEngine _
    split <;> rename_i hp <;> rw [hp] at hprep
    · exact settled_reset (hprep.bound hi.tasks)
    · rename_i c₂
      have hsend : ∀ s, ∀ t ∈ (c₂.sendSignal env s).1.tasks, t.call ≤ (c₂.sendSignal env s).1.call :=
        bound_send (hprep.bound hi.tasks)
      specialize hsend (.answer c₂.callId true env.localCandidates "")
      split <;> rename_i hs <;> rw [hs] at hsend
      · exact settled_reset hsend
      · rename_i c₃
        have hseek : Aside c₃ ((c₃.seekPeer env).attachAudio env).1 :=
          (aside_seekPeer _).trans (aside_attachAudio _)
        split <;> rename_i ha <;> rw [ha] at hseek
        · exact settled_reset (hseek.bound hsend)
        · rename_i c₄
          have hrun : ({ c₄ with phase := .running } : CallController).Settled :=
            settled_of_phase (by simp) (hseek.bound hsend)
          exact hrun.aside
            ((aside_launchStun _).trans (aside_launchTurnAllocateIfConfigured _)) (by simp)

theorem Settled.onOffer (hi : c.Settled) (fromPeer callId sessionId : String)
    (candidates : List String) :
    (c.onOffer cfg env fromPeer callId sessionId candidates).Settled := by
  unfold CallController.onOffer
  split
  · rename_i hphase
    split
    · exact hi
    · unfold sendBusy
      split
      · exact hi
      · exact settled_of_phase hphase hi.tasks
  · dsimp only
    refine settled_of_phase (by simp) ?_
    exact (aside_registerAll _ _).bound hi.tasks

theorem Settled.onAnswer (hi : c.Settled) (fromPeer callId : String) (accept : Bool)
    (candidates : List String) :
    (c.onAnswer cfg env fromPeer callId accept candidates).Settled := by
  unfold CallController.onAnswer
  split
  · exact hi
  · rename_i hmatch
    have hphase : c.phase ≠ .idle := by
      intro h
      simp [h] at hmatch
    split
    · exact settled_reset hi.tasks
    · have hmeet : Aside c ((c.meetPeer cfg env candidates).attachAudio env).1 :=
        (aside_meetPeer _ _).trans (aside_attachAudio _)
      split <;> rename_i ha <;> rw [ha] at hmeet
      · exact (hi.aside hmeet hphase).hangupCall _
      · rename_i c'
        have hrun : ({ c' with phase := .running } : CallController).Settled :=
          settled_of_phase (by simp) (hmeet.bound hi.tasks)
        exact hrun.aside (aside_promoteBestPath _) (by simp)

theorem Settled.onSignal (hi : c.Settled) {fromPeer : String} (hfrom : fromPeer ≠ "")
    (s : CallSignal) : (c.onSignal cfg env fromPeer s).Settled := by
  cases s with
  | offer callId sessionId candidates => exact hi.onOffer _ _ _ _
  | answer callId accept candidates reason => exact hi.onAnswer _ _ _ _
  | hangup callId reason =>
      show (c.onHangup fromPeer callId).Settled
      unfold onHangup
      split
      · exact hi
      · exact settled_reset hi.tasks
  | ice callId candidate =>
      show (c.onIce cfg env fromPeer callId candidate).Settled
      by_cases hphase : c.phase = .idle
      · -- between calls no other side is expected
        have hne : fromPeer ≠ c.expectedPeer := by
          rw [hi.expectedPeer hphase]
          exact hfrom
        unfold onIce
        rw [if_pos (.inl hne)]
        exact hi
      · exact hi.aside (aside_onIce _ _ _ _) hphase

theorem Settled.pollRxPath (hi : c.Settled) : (c.pollRxPath env).Settled := by
  unfold CallController.pollRxPath
  split
  · exact hi
  · rename_i hphase
    have hjoin : (c.joinHeard env).Settled ∧ (c.joinHeard env).phase ≠ .idle := by
      unfold joinHeard
      split
      · exact ⟨settled_of_phase (by simp) ((aside_attachAudio _).bound hi.tasks), by simp⟩
      · exact ⟨hi, hphase⟩
    dsimp only
    split
    · exact hjoin.1.hangupCall _
    · exact hjoin.1.aside (aside_noteHeard _) hjoin.2

/-- Between calls there is no way media could go. -/
theorem Settled.promote_idle (hi : c.Settled) (hphase : c.phase = .idle) (n : Nat) :
    { c with promoteTimers := n }.promoteBestPath env = { c with promoteTimers := n } := by
  have hroute : ({ c with promoteTimers := n } : CallController).bestRoute = none := by
    unfold bestRoute
    rw [show ({ c with promoteTimers := n } : CallController).candidates = .empty from
        hi.candidates hphase,
      show ({ c with promoteTimers := n } : CallController).allocs = .empty from hi.allocs hphase]
    rfl
  unfold promoteBestPath
  rw [hroute]

theorem set_blank (server : String) : TurnAllocs.set .empty server .blank = .empty := rfl

/-! ## Late results -/

/-- A result that concerns no call leaves no trace. -/
theorem Settled.handle_aimless (hi : c.Settled) (h : c.Aimless l) (ht : l.task? ≠ none) :
    c.handle cfg l = c := by
  cases l with
  | stun call reflexive env =>
      show c.onStunResolved env reflexive = c
      unfold onStunResolved
      exact if_pos h
  | turn call server relay env =>
      obtain ⟨hrelay, hphase⟩ := h
      show c.onTurnRelayReady cfg env server relay = c
      have hallocs := hi.allocs hphase
      have hset : TurnAllocs.set c.allocs server
          { c.allocs.of server with allocateInFlight := false } = c.allocs := by
        rw [hallocs]
        exact set_blank server
      unfold onTurnRelayReady
      dsimp only
      rw [if_neg hrelay, if_pos hphase, hset]
  | probe call address reachable env =>
      show c.onProbeResult env address reachable = c
      unfold onProbeResult
      rw [show c.candidates.get? address = none from h]
  | start | accept | reject | hangup | signal | ringTimeout | reprobe | promote | poll =>
      exact absurd rfl ht

@[simp] theorem finish_phase : (c.finish l).phase = c.phase := by
  unfold CallController.finish
  split <;> rfl

theorem aimless_finish : (c.finish l).Aimless l ↔ c.Aimless l := by
  cases l <;> rfl

/-- **A late result that concerns nobody leaves no trace.** -/
theorem Settled.late (hi : c.Settled) (hlate : c.Late l) (hok : c.Harmless l) :
    (c.finish l).handle cfg l = c.finish l := by
  have ht : l.task? ≠ none := by
    obtain ⟨t, ht, _⟩ := hlate
    intro h
    rw [h] at ht
    cases ht
  exact (hi.finish l).handle_aimless (aimless_finish.mpr (hok hlate)) ht

/-- The result of something that was started during this call comes while there is one. -/
theorem Settled.phase_of_task (hi : c.Settled) {t : CallTask} (ht : t ∈ c.tasks)
    (hcall : t.call = c.call) : c.phase ≠ .idle := by
  intro hphase
  have := hi.idleTasks hphase t ht
  omega

theorem Settled.step (hi : c.Settled) (hok : c.Harmless l) (hs : c.step cfg l = some c') :
    c'.Settled := by
  unfold CallController.step at hs
  split at hs
  · rename_i hpos
    cases hs
    by_cases hlate : c.Late l
    · rw [hi.late hlate hok]
      exact hi.finish l
    · have hif := hi.finish l
      -- a result that is not late is about the call there is
      have hcurrent : ∀ t ∈ l.task?, (c.finish l).phase ≠ .idle := by
        intro t ht
        rw [finish_phase]
        have hmem : t ∈ c.tasks := by
          cases l <;> first
            | exact hpos t ht
            | cases ht
        exact hi.phase_of_task hmem (by_contra (fun h => hlate ⟨t, ht, h⟩))
      cases l with
      | start peer masterKey callId sessionId env => exact hif.startOutgoingCall _ _ _ _
      | accept env => exact hif.acceptIncomingCall
      | reject reason env => exact hif.rejectIncomingCall _
      | hangup reason env => exact hif.hangupCall _
      | signal fromPeer s env => exact hif.onSignal hpos s
      | ringTimeout env =>
          show (CallController.onRingTimeout env _).Settled
          unfold onRingTimeout
          split
          · exact hif.rejectIncomingCall _
          · exact hif.hangupCall _
          · exact hif
      | reprobe env =>
          show (CallController.onReprobeTick cfg env _).Settled
          by_cases hphase : (c.finish (.reprobe env)).phase = .idle
          · unfold onReprobeTick
            rw [if_pos (.inl hphase)]
            exact hif
          · exact hif.aside (aside_onReprobeTick _) hphase
      | promote env =>
          show (CallController.onPromoteTimer env _).Settled
          by_cases hphase : (c.finish (.promote env)).phase = .idle
          · unfold onPromoteTimer
            split
            · exact hif
            · rw [hif.promote_idle hphase]
              exact ⟨hif.tasks, hif.idleTasks, hif.candidates, hif.allocs, hif.expectedPeer⟩
          · exact hif.aside (aside_onPromoteTimer _) hphase
      | poll env => exact hif.pollRxPath
      | stun call reflexive env =>
          exact hif.aside (aside_onStunResolved _ _) (hcurrent _ rfl)
      | turn call server relay env =>
          exact hif.aside (aside_onTurnRelayReady _ _ _) (hcurrent _ rfl)
      | probe call address reachable env =>
          exact hif.aside (aside_onProbeResult _ _ _) (hcurrent _ rfl)
  · cases hs

/-- A run in which late results are harmless goes on as if they never came. -/
theorem Settled.apart (hi : c.Settled) {ls : List ControllerLabel}
    (h : Lts.execWhile (CallController.step cfg) Harmless c ls = some c') :
    Lts.exec (stepWithout cfg) c ls = some c' := by
  induction ls generalizing c with
  | nil => exact h
  | cons l ls ih =>
      rw [Lts.execWhile] at h
      split at h
      · rename_i hok
        split at h
        · rename_i c₁ hs
          have hsame : c.stepWithout cfg l = some c₁ := by
            rw [← hs]
            unfold stepWithout CallController.step
            split
            · split
              · rename_i hlate
                rw [hi.late hlate hok]
              · rfl
            · rfl
          rw [Lts.exec, hsame]
          exact ih (hi.step hok hs) h
        · cases h
      · cases h

/-- **Calls are kept apart** in every run in which no late result concerns the call there is: it
ends in the state it would have ended in had the late results never come. -/
theorem isolated {turnServer : String} {ls : List ControllerLabel}
    (h : Lts.execWhile (CallController.step cfg) Harmless (new turnServer) ls = some c) :
    Lts.exec (stepWithout cfg) (new turnServer) ls = some c :=
  (settled_new turnServer).apart h

/-! ## An address that comes too late -/

section Example

/-- A user with a server to ask for the address, and no relay. -/
def plainSetup : CallSetup where
  stunServer := "stun"
  backupTurnServers := []
  peerUserIdFor peer := peer
  displayPeerFor userId := userId
  masterKeyFor _ := "key"
  isTurnCandidate _ := false
  parseTurnCandidate _ := none
  formatTurnCandidate server relay := server ++ relay
  normalizeRelayAddress _ relay := relay
  isIpv6Endpoint _ := false

/-- Everything works, and no media comes. -/
def fair : CallWeather where
  nowMs := 0
  prepares := true
  attaches := true
  localCandidates := []
  sends := true
  setsPeer _ := true
  setsTurnPeer _ _ := true
  classify _ := .stun
  mediaReceived := false
  stalled := false
  enginePeer := ""

/-- A call to `bob` that ends before its address is known, and then one to `carol`. -/
def lateAddressRun : List ControllerLabel :=
  [.start "bob" "key" "c1" "s1" fair, .hangup "" fair, .start "carol" "key" "c2" "s2" fair,
    .stun 0 "192.0.2.1:7" fair]

theorem late_address_sent :
    ∃ c c', Lts.exec (CallController.step plainSetup) (new "") lateAddressRun = some c
      ∧ Lts.exec (stepWithout plainSetup) (new "") lateAddressRun = some c'
      ∧ c.sent = ⟨"carol", "key", .ice "c2" "192.0.2.1:7"⟩ :: c'.sent :=
  ⟨_, _, rfl, rfl, by decide +kernel⟩

/-- The address comes between the two calls. -/
def betweenRun : List ControllerLabel :=
  [.start "bob" "key" "c1" "s1" fair, .hangup "" fair, .stun 0 "192.0.2.1:7" fair,
    .start "carol" "key" "c2" "s2" fair]

theorem isolated_betweenRun :
    ∃ c, Lts.execWhile (CallController.step plainSetup) Harmless (new "") betweenRun = some c
      ∧ Lts.exec (stepWithout plainSetup) (new "") betweenRun = some c :=
  ⟨_, rfl, isolated rfl⟩

end Example

end CallController

end Paranoia
