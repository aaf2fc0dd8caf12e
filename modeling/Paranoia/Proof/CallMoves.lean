import Paranoia.Client.CallController

/-!
# What the handlers of a controller do to its call

Most of a controller is about the way media goes. What looks for a better way leaves the call
itself as it is: its phase, the other side, its identifiers and its key; it sends candidates at
most, and what it starts in the background it starts for this call.
-/

namespace Paranoia

namespace CallSignal

def isIce : CallSignal → Bool
  | ice .. => true
  | _ => false

end CallSignal

namespace CallController

variable {cfg : CallSetup} {env : CallWeather} {c c' c'' : CallController}

/-- The call is as it was. -/
structure Aside (c c' : CallController) : Prop where
  phase : c'.phase = c.phase
  peer : c'.peer = c.peer
  peerUserId : c'.peerUserId = c.peerUserId
  callId : c'.callId = c.callId
  masterKey : c'.masterKey = c.masterKey
  sessionId : c'.sessionId = c.sessionId
  call : c'.call = c.call
  /-- An engine that has a session keeps it. -/
  engine : c.engine.state ≠ .idle → c'.engine.state ≠ .idle
  tasks : ∀ t ∈ c'.tasks, t ∈ c.tasks ∨ t.call = c.call
  sent : ∃ new, c'.sent = new ++ c.sent ∧ ∀ e ∈ new, e.signal.isIce = true

theorem Aside.refl (c : CallController) : Aside c c :=
  ⟨rfl, rfl, rfl, rfl, rfl, rfl, rfl, id, fun _ h => .inl h, [], rfl, by simp⟩

theorem Aside.trans (h : Aside c c') (h' : Aside c' c'') : Aside c c'' := by
  obtain ⟨new, hnew, hice⟩ := h.sent
  obtain ⟨new', hnew', hice'⟩ := h'.sent
  refine ⟨h'.phase.trans h.phase, h'.peer.trans h.peer, h'.peerUserId.trans h.peerUserId,
    h'.callId.trans h.callId, h'.masterKey.trans h.masterKey,
    h'.sessionId.trans h.sessionId, h'.call.trans h.call, fun he => h'.engine (h.engine he), ?_,
    new' ++ new, by rw [hnew', hnew, List.append_assoc], ?_⟩
  · intro t ht
    rcases h'.tasks t ht with ht | ht
    · exact h.tasks t ht
    · exact .inr (ht.trans h.call)
  · intro e he
    rcases List.mem_append.mp he with he | he
    · exact hice' e he
    · exact hice e he

/-- A step that sends nothing and starts at most one thing. -/
theorem Aside.of_eq (hphase : c'.phase = c.phase) (hpeer : c'.peer = c.peer)
    (hid : c'.peerUserId = c.peerUserId) (hcallId : c'.callId = c.callId)
    (hkey : c'.masterKey = c.masterKey) (hsession : c'.sessionId = c.sessionId)
    (hcall : c'.call = c.call) (hsent : c'.sent = c.sent)
    (hengine : c.engine.state ≠ .idle → c'.engine.state ≠ .idle)
    (htasks : ∀ t ∈ c'.tasks, t ∈ c.tasks ∨ t.call = c.call) : Aside c c' :=
  ⟨hphase, hpeer, hid, hcallId, hkey, hsession, hcall, hengine, htasks, [], hsent, by simp⟩

theorem Aside.after (h' : Aside c' c'') (h : Aside c c') : Aside c c'' := h.trans h'

/-- A loop over steps that leave the call as it is. -/
theorem Aside.foldl {α : Type} {f : CallController → α → CallController}
    (hf : ∀ c a, Aside c (f c a)) (l : List α) (c : CallController) : Aside c (l.foldl f c) := by
  induction l generalizing c with
  | nil => exact .refl c
  | cons a l ih => exact (hf c a).trans (ih (f c a))

theorem aside_prepareEngine (c : CallController) : Aside c (c.prepareEngine env).1 := by
  unfold prepareEngine
  split
  · exact .of_eq rfl rfl rfl rfl rfl rfl rfl rfl (by simp) (fun _ h => .inl h)
  · exact .refl c

theorem aside_attachAudio (c : CallController) : Aside c (c.attachAudio env).1 := by
  unfold attachAudio
  split
  · exact .refl c
  · exact .refl c
  · split
    · exact .of_eq rfl rfl rfl rfl rfl rfl rfl rfl (by simp) (fun _ h => .inl h)
    · exact .refl c

theorem aside_setPeer (c : CallController) (address : String) :
    Aside c (c.setPeer env address).1 := by
  unfold setPeer
  split
  · exact .of_eq rfl rfl rfl rfl rfl rfl rfl rfl id (fun _ h => .inl h)
  · exact .refl c

theorem aside_setTurnPeer (c : CallController) (server relay : String) :
    Aside c (c.setTurnPeer env server relay).1 := by
  unfold setTurnPeer
  split
  · exact .of_eq rfl rfl rfl rfl rfl rfl rfl rfl id (fun _ h => .inl h)
  · exact .refl c

/-- What is started is started for the call there is. -/
theorem mem_cons_task {t t' : CallTask} {tasks : List CallTask} {n : Nat} (ht' : t'.call = n)
    (h : t ∈ t' :: tasks) : t ∈ tasks ∨ t.call = n := by
  rcases List.mem_cons.mp h with rfl | h
  · exact .inr ht'
  · exact .inl h

theorem aside_launchStun (c : CallController) : Aside c (c.launchStun cfg) := by
  unfold launchStun
  split
  · exact .refl c
  · exact .of_eq rfl rfl rfl rfl rfl rfl rfl rfl id (fun _ h => mem_cons_task rfl h)

theorem aside_launchTurnAllocateOn (c : CallController) (server : String) (category : CallPath) :
    Aside c (c.launchTurnAllocateOn server category) := by
  unfold launchTurnAllocateOn
  split
  · exact .refl c
  · dsimp only
    split
    · exact .of_eq rfl rfl rfl rfl rfl rfl rfl rfl id (fun _ h => .inl h)
    · exact .of_eq rfl rfl rfl rfl rfl rfl rfl rfl id (fun _ h => mem_cons_task rfl h)

theorem aside_launchTurnAllocateIfConfigured (c : CallController) :
    Aside c c.launchTurnAllocateIfConfigured := by
  unfold launchTurnAllocateIfConfigured
  split
  · exact .refl c
  · exact (aside_launchTurnAllocateOn _ _ _).after
          (.of_eq rfl rfl rfl rfl rfl rfl rfl rfl id (fun _ h => .inl h))

theorem aside_startProbe (c : CallController) (address : String) :
    Aside c (c.startProbe env address) := by
  unfold startProbe
  split
  · exact .refl c
  · split
    · exact .refl c
    · split
      · exact .refl c
      · exact .of_eq rfl rfl rfl rfl rfl rfl rfl rfl id (fun _ h => mem_cons_task rfl h)

theorem aside_registerDirectCandidate (c : CallController) (candidate : String) :
    Aside c (c.registerDirectCandidate env candidate) := by
  unfold registerDirectCandidate
  split
  · exact .refl c
  · exact (aside_startProbe _ _).after
          (.of_eq rfl rfl rfl rfl rfl rfl rfl rfl id (fun _ h => .inl h))

theorem aside_registerAll (c : CallController) (candidates : List String) :
    Aside c (c.registerAll cfg env candidates) := by
  refine Aside.foldl (fun c a => ?_) candidates c
  split
  · exact .refl c
  · exact aside_registerDirectCandidate c a

theorem aside_promoteBestPath (c : CallController) : Aside c (c.promoteBestPath env) := by
  unfold promoteBestPath
  split
  · exact .refl c
  · rename_i r _
    split
    · exact .refl c
    · split
      · exact .refl c
      · split
        · exact .of_eq rfl rfl rfl rfl rfl rfl rfl rfl id (fun _ h => .inl h)
        · split
          · split
            · exact .of_eq rfl rfl rfl rfl rfl rfl rfl rfl id (fun _ h => .inl h)
            · exact .refl c
          · split
            · have h : Aside c (c.setTurnPeer env r.server r.address).1 := aside_setTurnPeer _ _ _
              split <;> rename_i heq <;> rw [heq] at h
              · exact h.trans (.of_eq rfl rfl rfl rfl rfl rfl rfl rfl id (fun _ h => .inl h))
              · exact h
            · have h : Aside c (c.setPeer env r.address).1 := aside_setPeer _ _
              split <;> rename_i heq <;> rw [heq] at h
              · exact h.trans (.of_eq rfl rfl rfl rfl rfl rfl rfl rfl id (fun _ h => .inl h))
              · exact h

theorem aside_ensureTurnRouteForPeer (c : CallController) (server relay : String) :
    Aside c (c.ensureTurnRouteForPeer env server relay) := by
  unfold ensureTurnRouteForPeer
  split
  · exact .refl c
  · dsimp only
    refine Aside.trans ?_ ((aside_launchTurnAllocateIfConfigured _).trans (aside_promoteBestPath _))
    split
    · exact .of_eq rfl rfl rfl rfl rfl rfl rfl rfl id (fun _ h => .inl h)
    · exact .of_eq rfl rfl rfl rfl rfl rfl rfl rfl id (fun _ h => .inl h)

theorem aside_setActive (c : CallController) (address : String) :
    Aside c { (c.setPeer env address).1 with activePeerAddr := address } :=
  (aside_setPeer c address).trans (.of_eq rfl rfl rfl rfl rfl rfl rfl rfl id (fun _ h => .inl h))

theorem aside_seekPeer (c : CallController) : Aside c (c.seekPeer env) := by
  unfold seekPeer
  dsimp only
  refine Aside.trans ?_ ((Aside.foldl (fun c a => aside_startProbe c a) _ _).trans
    (aside_ensureTurnRouteForPeer _ _ _))
  split
  · exact .refl c
  · exact (aside_setActive c _).trans (aside_registerDirectCandidate _ _)

theorem aside_meetPeer (c : CallController) (candidates : List String) :
    Aside c (c.meetPeer cfg env candidates) := by
  unfold meetPeer
  dsimp only
  have hall : ∀ c', Aside c c' → Aside c (c'.registerAll cfg env candidates) :=
    fun c' h => h.trans (aside_registerAll _ _)
  have hset : Aside c (if selectPeerCandidate cfg candidates = "" then c
      else { (c.setPeer env (selectPeerCandidate cfg candidates)).1 with
        activePeerAddr := selectPeerCandidate cfg candidates }) := by
    split
    · exact .refl c
    · exact aside_setActive _ _
  split
  · exact (hall _ hset).trans (aside_ensureTurnRouteForPeer _ _ _)
  · exact hall _ hset

/-- Sending a candidate. -/
theorem aside_sendIce (c : CallController) (callId candidate : String) :
    Aside c (c.sendSignal env (.ice callId candidate)).1 := by
  unfold sendSignal
  split
  · exact .refl c
  · exact ⟨rfl, rfl, rfl, rfl, rfl, rfl, rfl, id, fun _ h => .inl h, [_], rfl,
      by simp [CallSignal.isIce]⟩

theorem aside_onStunResolved (c : CallController) (reflexive : String) :
    Aside c (c.onStunResolved env reflexive) := by
  unfold onStunResolved
  split
  · exact .refl c
  · exact aside_sendIce c _ _

theorem aside_onTurnRelayReady (c : CallController) (server relay : String) :
    Aside c (c.onTurnRelayReady cfg env server relay) := by
  unfold onTurnRelayReady
  dsimp only
  split
  · split
    · exact (aside_launchTurnAllocateOn _ _ _).after
          (.of_eq rfl rfl rfl rfl rfl rfl rfl rfl id (fun _ h => .inl h))
    · exact .of_eq rfl rfl rfl rfl rfl rfl rfl rfl id (fun _ h => .inl h)
  · split
    · exact .of_eq rfl rfl rfl rfl rfl rfl rfl rfl id (fun _ h => .inl h)
    · split
      · exact (aside_sendIce _ _ _).after
          (.of_eq rfl rfl rfl rfl rfl rfl rfl rfl id (fun _ h => .inl h))
      · refine (aside_promoteBestPath _).after ((aside_sendIce _ _ _).after ?_)
        exact .of_eq rfl rfl rfl rfl rfl rfl rfl rfl id (fun _ h => .inl h)

theorem aside_onProbeResult (c : CallController) (address : String) (reachable : Bool) :
    Aside c (c.onProbeResult env address reachable) := by
  unfold onProbeResult
  dsimp only
  split
  · exact .refl c
  · exact (aside_promoteBestPath _).after
          (.of_eq rfl rfl rfl rfl rfl rfl rfl rfl id (fun _ h => .inl h))

theorem aside_onReprobeTick (c : CallController) : Aside c (c.onReprobeTick cfg env) := by
  unfold onReprobeTick
  split
  · exact .refl c
  · dsimp only
    refine (Aside.foldl (fun c a => ?_) _ c).trans (Aside.foldl (fun c s => ?_) _ _)
    · split
      · exact .refl c
      · split
        · exact .refl c
        · exact aside_startProbe c a
    · split
      · exact .refl c
      · exact aside_launchTurnAllocateOn c s _

theorem aside_onPromoteTimer (c : CallController) : Aside c (c.onPromoteTimer env) := by
  unfold onPromoteTimer
  split
  · exact .refl c
  · exact (aside_promoteBestPath _).after
          (.of_eq rfl rfl rfl rfl rfl rfl rfl rfl id (fun _ h => .inl h))

theorem aside_noteHeard (c : CallController) : Aside c (c.noteHeard env) := by
  unfold noteHeard
  split
  · exact .refl c
  · dsimp only
    split
    · exact .of_eq rfl rfl rfl rfl rfl rfl rfl rfl id (fun _ h => .inl h)
    · split
      · exact .of_eq rfl rfl rfl rfl rfl rfl rfl rfl id (fun _ h => .inl h)
      · exact .of_eq rfl rfl rfl rfl rfl rfl rfl rfl id (fun _ h => .inl h)

theorem aside_onIce (c : CallController) (fromPeer callId candidate : String) :
    Aside c (c.onIce cfg env fromPeer callId candidate) := by
  unfold onIce
  split
  · exact .refl c
  · split
    · exact aside_ensureTurnRouteForPeer _ _ _
    · split
      · exact (aside_registerDirectCandidate _ _).after
          (.of_eq rfl rfl rfl rfl rfl rfl rfl rfl id (fun _ h => .inl h))
      · dsimp only
        have h : Aside c (c.registerDirectCandidate env candidate) :=
          aside_registerDirectCandidate _ _
        split
        · exact h.trans (aside_setActive _ _)
        · exact h

end CallController

end Paranoia
