import Paranoia.Lib.Lts
import Paranoia.Proof.CallIsolation
import Paranoia.Proof.CallPair

/-!
# Agreement on a call

Two controllers of one dialogue, and the envelopes between them, which arrive once each and in any
order. No media flows, so that nothing but an envelope tells a controller of the other one.

They agree once nothing is on its way (`agreement`), as long as a party that accepts a call is able
to go on with it, and has not been told before that the call is over. It answers before it attaches
sound, and where that fails it leaves without a word (`caller_alone`); and a hangup that comes
before the offer it belongs to is forgotten (`callee_alone`).
-/

namespace Paranoia

/-- Two users who share a key. -/
structure CallDialogue where
  name : Bool → String
  key : String
  cfg : Bool → CallSetup
  named : ∀ p, name p ≠ ""
  keyed : key ≠ ""
  displays : ∀ p, (cfg p).displayPeerFor (name !p) ≠ ""
  holds : ∀ p, (cfg p).masterKeyFor (name !p) = key

structure CallWorld where
  ctrl : Bool → CallController
  /-- What is on its way, by the party that has sent it. -/
  inFlight : List (Bool × CallSignal)
  /-- Who has started a call. -/
  owner : String → Option Bool
  /-- The calls whose offer has arrived, and those whose hangup has arrived at a party. -/
  offered : List String
  hungUp : List (Bool × String)

inductive PairLabel where
  /-- A party does something. -/
  | act (p : Bool) (l : ControllerLabel)
  /-- What a party has sent arrives. -/
  | deliver (p : Bool) (s : CallSignal) (env : CallWeather)

namespace ControllerLabel

def env : ControllerLabel → CallWeather
  | start _ _ _ _ env | accept env | reject _ env | hangup _ env | signal _ _ env | ringTimeout env
  | reprobe env | promote env | poll env | stun _ _ env | turn _ _ _ env | probe _ _ _ env => env

end ControllerLabel

namespace CallWorld

def new (turnServer : Bool → String) : CallWorld where
  ctrl p := .new (turnServer p)
  inFlight := []
  owner _ := none
  offered := []
  hungUp := []

/-- The signals a controller has sent since. -/
def sentBy (c c' : CallController) : List CallSignal :=
  (c'.sent.take (c'.sent.length - c.sent.length)).map CallEnvelope.signal

variable (D : CallDialogue) (w : CallWorld)

/-- A party goes on as this one, and what it has sent is on its way. -/
def put (p : Bool) (c : CallController) : CallWorld :=
  { w with
    ctrl := Function.update w.ctrl p c
    inFlight := (sentBy (w.ctrl p) c).map (fun s => (p, s)) ++ w.inFlight }

def taken (p : Bool) (s : CallSignal) : CallWorld :=
  { w with
    inFlight := w.inFlight.erase (p, s)
    offered := match s with
      | .offer c _ _ => c :: w.offered
      | _ => w.offered
    hungUp := match s with
      | .hangup c _ => (!p, c) :: w.hungUp
      | _ => w.hungUp }

/-- What a party does, signals aside; a call it starts is one to the other party, under their key
and an identifier of its own. -/
def Acts (p : Bool) : ControllerLabel → Prop
  | .start peer masterKey callId _ _ =>
      peer ≠ "" ∧ (D.cfg p).peerUserIdFor peer = D.name (!p) ∧ masterKey = D.key
        ∧ w.owner callId = none
  | .signal _ _ _ => False
  | _ => True

instance (p : Bool) (l : ControllerLabel) : Decidable (w.Acts D p l) :=
  match l with
  | .start .. | .accept .. | .reject .. | .hangup .. | .signal .. | .ringTimeout .. | .reprobe ..
  | .promote .. | .poll .. | .stun .. | .turn .. | .probe .. => by unfold Acts; infer_instance

/-- Envelopes can be sent, and no media comes. -/
def Silent (env : CallWeather) : Prop := env.sends = true ∧ env.mediaReceived = false

instance (env : CallWeather) : Decidable (Silent env) := inferInstanceAs (Decidable (_ ∧ _))

instance : LawfulBEq (Bool × CallSignal) := inferInstance

def step : PairLabel → Option CallWorld
  | .act p l =>
      if Silent l.env ∧ w.Acts D p l then
        ((w.ctrl p).step (D.cfg p) l).map (fun c =>
          match l with
          | .start _ _ callId _ _ =>
              { w with owner := Function.update w.owner callId (some p) }.put p c
          | _ => w.put p c)
      else none
  | .deliver p s env =>
      if Silent env ∧ (p, s) ∈ w.inFlight then
        some ((w.taken p s).put (!p)
          ((w.ctrl (!p)).onSignal (D.cfg (!p)) env (D.name p) s))
      else none

/-- A party that accepts a call goes on with it, and has not been told that it is over. -/
def Sure : PairLabel → Prop
  | .act p (.accept env) => (w.ctrl p).phase = .incoming →
      (env.prepares = true → env.attaches = true) ∧ (p, (w.ctrl p).callId) ∉ w.hungUp
  | _ => True

instance (l : PairLabel) : Decidable (w.Sure l) := by
  unfold Sure
  split <;> infer_instance

end CallWorld

/-! ## What a controller does, in a word -/

namespace CallController

open CallView (Says)

variable {n k : String} {cfg : CallSetup} {env : CallWeather} {c c' c'' : CallController}
  {phase : CallPhase} {callId : String} {l l' : List CallSignal}

/-- What a controller has sent since, candidates aside. -/
def Spoke (c c' : CallController) (l : List CallSignal) : Prop :=
  ∃ new, c'.sent = new ++ c.sent ∧ Says (new.map CallEnvelope.signal) l

theorem Spoke.of_sent (h : c'.sent = c.sent) : Spoke c c' [] := ⟨[], h, rfl⟩

theorem Aside.spoke (h : Aside c c') : Spoke c c' [] := by
  obtain ⟨new, hnew, hice⟩ := h.sent
  refine ⟨new, hnew, List.filter_eq_nil_iff.mpr (fun s hs => ?_)⟩
  obtain ⟨e, he, rfl⟩ := List.mem_map.mp hs
  simp [hice e he]

theorem Spoke.trans (h : Spoke c c' l) (h' : Spoke c' c'' l') : Spoke c c'' (l' ++ l) := by
  obtain ⟨new, hnew, rfl⟩ := h
  obtain ⟨new', hnew', rfl⟩ := h'
  refine ⟨new' ++ new, by rw [hnew', hnew, List.append_assoc], ?_⟩
  simp [Says]

/-- What is done without a word. -/
theorem Spoke.silently (h : Spoke c c' l) (h' : c''.sent = c'.sent) : Spoke c c'' l :=
  h.trans (.of_sent h')

theorem Spoke.says (h : Spoke c c' l) : Says (CallWorld.sentBy c c') l := by
  obtain ⟨new, hnew, hl⟩ := h
  have htake : c'.sent.take (c'.sent.length - c.sent.length) = new := by
    rw [hnew, List.length_append, Nat.add_sub_cancel, List.take_left]
  unfold CallWorld.sentBy
  rw [htake]
  exact hl

/-- The call is one with this party, under this key. -/
structure Ready (n k : String) (c : CallController) : Prop where
  peer : c.peer ≠ ""
  expected : c.expectedPeer = n
  key : c.masterKey = k

theorem Ready.aside (hr : Ready n k c) (h : Aside c c') : Ready n k c' :=
  ⟨by rw [h.peer]; exact hr.peer,
    by unfold expectedPeer; rw [h.peerUserId, h.peer]; exact hr.expected,
    by rw [h.masterKey]; exact hr.key⟩

/-- What became of a controller: where it is, and what it has said. -/
structure Makes (n k : String) (c c' : CallController) (phase : CallPhase) (callId : String)
    (l : List CallSignal) : Prop where
  stands : c'.phase = phase
  engaged : phase ≠ .idle → c'.callId = callId ∧ Ready n k c'
  spoke : Spoke c c' l

theorem Makes.aside (h : Makes n k c c' phase callId l) (h' : Aside c' c'') :
    Makes n k c c'' phase callId l where
  stands := h'.phase.trans h.stands
  engaged hp := ⟨h'.callId.trans (h.engaged hp).1, (h.engaged hp).2.aside h'⟩
  spoke := by simpa using h.spoke.trans h'.spoke

theorem Makes.refl (hr : c.phase ≠ .idle → Ready n k c) : Makes n k c c c.phase c.callId [] :=
  ⟨rfl, fun h => ⟨rfl, hr h⟩, .of_sent rfl⟩

/-- The call is over. -/
theorem Spoke.reset (h : Spoke c c' l) : Makes n k c c'.resetCallState .idle "" l :=
  ⟨rfl, fun hp => absurd rfl hp, h.silently rfl⟩

section

variable (hn : n ≠ "") (hk : k ≠ "") (hsends : env.sends = true)

include hn hk hsends

theorem Ready.sendSignal (hr : Ready n k c) (s : CallSignal) :
    c.sendSignal env s = ({ c with sent := ⟨n, k, s⟩ :: c.sent }, true) := by
  unfold CallController.sendSignal
  rw [if_neg (by simp [hr.peer, hr.expected, hr.key, hn, hk, hsends]), hr.expected, hr.key]

theorem Ready.spoke_send (hr : Ready n k c) {s : CallSignal} (hs : s.isIce = false) :
    Spoke c (c.sendSignal env s).1 [s] := by
  rw [hr.sendSignal hn hk hsends]
  exact ⟨[⟨n, k, s⟩], rfl, by simp [Says, hs]⟩

theorem makes_hangup (hr : Ready n k c) (hphase : c.phase ≠ .idle) (reason : String) :
    Makes n k c (c.hangupCall env reason) .idle "" [.hangup c.callId reason] := by
  unfold hangupCall
  rw [if_neg hphase]
  have hspoke := hr.spoke_send hn hk hsends (s := .hangup c.callId reason) rfl
  have hstop : Spoke c (c.sendSignal env (.hangup c.callId reason)).1.stopEngine
      [.hangup c.callId reason] := hspoke.silently rfl
  exact hstop.reset

theorem makes_reject (hr : Ready n k c) (hphase : c.phase = .incoming) (reason : String) :
    Makes n k c (c.rejectIncomingCall env reason) .idle ""
      [.answer c.callId false [] reason] := by
  unfold rejectIncomingCall
  rw [if_pos hphase]
  exact (hr.spoke_send hn hk hsends rfl).reset

theorem makes_start (cfg : CallSetup) (callId sid : String) {peer : String} (hpeer : peer ≠ "")
    (hid : cfg.peerUserIdFor peer = n) (hphase : c.phase = .idle) :
    Makes n k c (c.startOutgoingCall cfg env peer k callId sid) .idle "" []
      ∨ Makes n k c (c.startOutgoingCall cfg env peer k callId sid) .outgoing callId
          [.offer callId sid env.localCandidates] := by
  unfold startOutgoingCall
  rw [if_neg (by simp [hphase])]
  dsimp only
  generalize hc₁ : ({ c with
    peer := peer, peerUserId := cfg.peerUserIdFor peer, masterKey := k
    callId := callId, sessionId := sid, phase := .outgoing } : CallController) = c₁
  have hsent : Spoke c c₁ [] := .of_sent (by rw [← hc₁])
  have hr : Ready n k c₁ := by
    rw [← hc₁]
    exact ⟨hpeer, by simp [expectedPeer, hid, hn], rfl⟩
  have hprep : Aside c₁ (c₁.prepareEngine env).1 := aside_prepareEngine _
  split <;> rename_i c₂ hp <;> rw [hp] at hprep
  · have hstop : Spoke c c₂.stopEngine [] := (hsent.trans hprep.spoke).silently rfl
    exact .inl hstop.reset
  · have hr₂ := hr.aside hprep
    have hsend := hr₂.sendSignal hn hk hsends (.offer callId sid env.localCandidates)
    rw [hsend]
    dsimp only
    have hmakes : Makes n k c
        { c₂ with sent := ⟨n, k, .offer callId sid env.localCandidates⟩ :: c₂.sent } .outgoing callId
        [.offer callId sid env.localCandidates] := by
      refine ⟨?_, fun _ => ⟨?_, ⟨hr₂.peer, hr₂.expected, hr₂.key⟩⟩, ?_⟩
      · show c₂.phase = .outgoing
        rw [hprep.phase, ← hc₁]
      · show c₂.callId = callId
        rw [hprep.callId, ← hc₁]
      · have hone := hr₂.spoke_send hn hk hsends
          (s := .offer callId sid env.localCandidates) rfl
        rw [hsend] at hone
        simpa using (hsent.trans hprep.spoke).trans hone
    exact .inr (hmakes.aside ((aside_launchStun _).trans (aside_launchTurnAllocateIfConfigured _)))

theorem makes_accept (cfg : CallSetup) (hr : Ready n k c) (hphase : c.phase = .incoming)
    (hsure : env.prepares = true → env.attaches = true) :
    Makes n k c (c.acceptIncomingCall cfg env) .idle "" []
      ∨ Makes n k c (c.acceptIncomingCall cfg env) .running c.callId
          [.answer c.callId true env.localCandidates ""] := by
  unfold acceptIncomingCall
  rw [if_neg (by simp [hphase, hr.key, hk])]
  have hprep : Aside c (c.prepareEngine env).1 := aside_prepareEngine _
  split <;> rename_i c₂ hp
  · rw [hp] at hprep
    have hstop : Spoke c c₂.stopEngine [] := hprep.spoke.silently rfl
    exact .inl hstop.reset
  · -- the engine has a session now, and sound can be attached to it
    have hready : c₂.engine.state ≠ .idle ∧ env.attaches = true := by
      unfold prepareEngine at hp
      split at hp
      · rename_i hcan
        cases hp
        exact ⟨by simp, hsure hcan.2⟩
      · cases hp
    rw [hp] at hprep
    have hr₂ := hr.aside hprep
    have hone := hr₂.spoke_send hn hk hsends
      (s := .answer c₂.callId true env.localCandidates "") rfl
    rw [hr₂.sendSignal hn hk hsends] at hone ⊢
    dsimp only at hone ⊢
    generalize hc₃ : ({ c₂ with
      sent := ⟨n, k, .answer c₂.callId true env.localCandidates ""⟩ :: c₂.sent } :
        CallController) = c₃ at hone ⊢
    have hseek : Aside c₃ (c₃.seekPeer env) := aside_seekPeer _
    have hattach : Aside c₃ ((c₃.seekPeer env).attachAudio env).1 :=
      hseek.trans (aside_attachAudio _)
    have hengine : (c₃.seekPeer env).engine.state ≠ .idle :=
      hseek.engine (by rw [← hc₃]; exact hready.1)
    split <;> rename_i c₄ ha
    · unfold attachAudio at ha
      split at ha
      · rename_i hidle
        exact absurd hidle hengine
      · cases ha
      · rw [if_pos hready.2] at ha
        cases ha
    · rw [ha] at hattach
      have hid : c₃.callId = c.callId := by
        rw [← hc₃]
        exact hprep.callId
      have hr₃ : Ready n k c₃ := by
        rw [← hc₃]
        exact ⟨hr₂.peer, hr₂.expected, hr₂.key⟩
      have hr₄ := hr₃.aside hattach
      have hspoke : Spoke c c₄ [.answer c.callId true env.localCandidates ""] := by
        rw [← hprep.callId]
        simpa using (hprep.spoke.trans hone).trans hattach.spoke
      have hmakes : Makes n k c { c₄ with phase := .running } .running c.callId
          [.answer c.callId true env.localCandidates ""] :=
        ⟨rfl, fun _ => ⟨hattach.callId.trans hid, ⟨hr₄.peer, hr₄.expected, hr₄.key⟩⟩,
          hspoke.silently rfl⟩
      exact .inr (hmakes.aside
        ((aside_launchStun _).trans (aside_launchTurnAllocateIfConfigured _)))

theorem makes_onAnswer (cfg : CallSetup) (hr : Ready n k c) (hphase : c.phase = .outgoing)
    (candidates : List String) :
    Makes n k c (c.onAnswer cfg env n c.callId true candidates) .running c.callId []
      ∨ Makes n k c (c.onAnswer cfg env n c.callId true candidates) .idle ""
          [.hangup c.callId "engine_attach_failed"] := by
  unfold onAnswer
  rw [if_neg (by simp [hphase, hr.expected])]
  simp only [not_true_eq_false, if_false]
  have hmeet : Aside c ((c.meetPeer cfg env candidates).attachAudio env).1 :=
    (aside_meetPeer _ _).trans (aside_attachAudio _)
  split <;> rename_i c' ha <;> rw [ha] at hmeet
  · have hengaged : c'.phase ≠ .idle := by
      rw [hmeet.phase, hphase]
      simp
    have h := makes_hangup hn hk hsends (hr.aside hmeet) hengaged
      "engine_attach_failed"
    rw [hmeet.callId] at h
    exact .inr ⟨h.stands, h.engaged, by simpa using hmeet.spoke.trans h.spoke⟩
  · have hr' := hr.aside hmeet
    have hmakes : Makes n k c { c' with phase := .running } .running c.callId [] :=
      ⟨rfl, fun _ => ⟨hmeet.callId, ⟨hr'.peer, hr'.expected, hr'.key⟩⟩,
        hmeet.spoke.silently rfl⟩
    exact .inl (hmakes.aside (aside_promoteBestPath _))

end

theorem makes_busy (hk : k ≠ "") (hsends : env.sends = true) (hr : Ready n k c)
    (hphase : c.phase ≠ .idle) (hne : callId ≠ c.callId) (sid : String)
    (candidates : List String) :
    Makes n k c (c.onOffer cfg env n callId sid candidates) c.phase c.callId
      [.hangup callId "busy"] := by
  unfold onOffer
  rw [if_pos hphase, if_neg hne]
  unfold sendBusy
  rw [if_neg (by simp [hr.key, hk, hsends])]
  exact ⟨rfl, fun _ => ⟨rfl, ⟨hr.peer, hr.expected, hr.key⟩⟩, [⟨n, _, _⟩], rfl,
    by simp [Says, CallSignal.isIce]⟩

theorem makes_onOffer (hn : n ≠ "") (hk : k ≠ "") (hdisplay : cfg.displayPeerFor n ≠ "")
    (hkey : cfg.masterKeyFor n = k) (hphase : c.phase = .idle) (sid : String)
    (candidates : List String) :
    Makes n k c (c.onOffer cfg env n callId sid candidates) .incoming callId [] := by
  unfold onOffer
  rw [if_neg (by simp [hphase])]
  dsimp only
  generalize hc₁ : ({ c with
    peer := cfg.displayPeerFor n, peerUserId := n, callId := callId, sessionId := sid
    pendingPeerAddr := selectPeerCandidate cfg candidates
    pendingTurnServer := (((turnCandidate cfg candidates).map
      (fun turn : String × String => (turn.1, cfg.normalizeRelayAddress turn.1 turn.2))).map
        Prod.fst).getD ""
    pendingTurnRelay := (((turnCandidate cfg candidates).map
      (fun turn : String × String => (turn.1, cfg.normalizeRelayAddress turn.1 turn.2))).map
        Prod.snd).getD "" } : CallController) = c₁
  have hall : Aside c₁ (c₁.registerAll cfg env candidates) := aside_registerAll _ _
  have hsent : Spoke c c₁ [] := .of_sent (by rw [← hc₁])
  refine ⟨rfl, fun _ => ⟨?_, ⟨?_, ?_, ?_⟩⟩, ?_⟩
  · show (c₁.registerAll cfg env candidates).callId = callId
    rw [hall.callId, ← hc₁]
  · show (c₁.registerAll cfg env candidates).peer ≠ ""
    rw [hall.peer, ← hc₁]
    exact hdisplay
  · show (if (c₁.registerAll cfg env candidates).peerUserId = "" then _ else _) = n
    have hid : (c₁.registerAll cfg env candidates).peerUserId = n := by
      rw [hall.peerUserId, ← hc₁]
    rw [hid, if_neg hn]
  · show (if cfg.masterKeyFor n = "" ∧ _ then _ else _) = k
    rw [hkey, if_neg (fun h => hk h.1)]
  · exact (hsent.trans hall.spoke).silently rfl

end CallController

namespace CallWorld

open CallController

variable {D : CallDialogue} {w w' : CallWorld} {p : Bool} {phase : CallPhase} {callId : String}
  {l : List CallSignal} {env : CallWeather} {c : CallController}

/-- What there is to know of the calls. -/
def view (w : CallWorld) : CallView where
  phase p := (w.ctrl p).phase
  callId p := (w.ctrl p).callId
  flying := w.inFlight
  owner := w.owner
  offered := w.offered
  hungUp := w.hungUp

theorem view_put : (w.put p c).view = w.view.moved p c.phase c.callId (sentBy (w.ctrl p) c) := by
  have hphase : (fun q => (Function.update w.ctrl p c q).phase)
      = Function.update (fun q => (w.ctrl q).phase) p c.phase := by
    funext q
    by_cases hq : q = p
    · subst hq
      simp
    · simp [hq]
  have hid : (fun q => (Function.update w.ctrl p c q).callId)
      = Function.update (fun q => (w.ctrl q).callId) p c.callId := by
    funext q
    by_cases hq : q = p
    · subst hq
      simp
    · simp [hq]
  simp [view, put, CallView.moved, hphase, hid]

theorem view_taken (s : CallSignal) : (w.taken p s).view = w.view.taken p s := by
  cases s <;> rfl

/-- The parties agree on their calls, and every call is one with the other party. -/
structure Inv (D : CallDialogue) (w : CallWorld) : Prop where
  view : w.view.Inv
  ready : ∀ p, (w.ctrl p).phase ≠ .idle → Ready (D.name !p) D.key (w.ctrl p)

theorem inv_new (turnServer : Bool → String) : Inv D (new turnServer) := by
  refine ⟨⟨⟨?_, ?_, ?_, ?_, ?_, ?_, ?_⟩, ?_⟩, ?_⟩ <;> simp [new, view, CallController.new]

/-- A party has made its move. -/
theorem Inv.put (hi : ∀ q, q ≠ p → (w.ctrl q).phase ≠ .idle → Ready (D.name !q) D.key (w.ctrl q))
    (hm : Makes (D.name !p) D.key (w.ctrl p) c phase callId l)
    (hview : ∀ callId' new, (phase ≠ .idle → callId' = callId) → CallView.Says new l →
      (w.view.moved p phase callId' new).Inv) : Inv D (w.put p c) := by
  refine ⟨?_, fun q hq => ?_⟩
  · rw [view_put, hm.stands]
    exact hview _ _ (fun h => (hm.engaged h).1) hm.spoke.says
  · by_cases hqp : q = p
    · subst hqp
      simp only [CallWorld.put, Function.update_self] at hq ⊢
      rw [hm.stands] at hq
      exact (hm.engaged hq).2
    · simp only [CallWorld.put, Function.update_of_ne hqp] at hq ⊢
      exact hi q hqp hq

/-- A move without consequences for the call. -/
theorem Inv.put_aside
    (hi : ∀ q, (w.ctrl q).phase ≠ .idle → Ready (D.name !q) D.key (w.ctrl q))
    (h : Aside (w.ctrl p) c)
    (hview : ∀ new, CallView.Says new [] →
      (w.view.moved p (w.view.phase p) (w.view.callId p) new).Inv) : Inv D (w.put p c) := by
  refine ⟨?_, fun q hq => ?_⟩
  · rw [view_put, h.phase, h.callId]
    exact hview _ h.spoke.says
  · by_cases hqp : q = p
    · subst hqp
      simp only [CallWorld.put, Function.update_self] at hq ⊢
      rw [h.phase] at hq
      exact (hi q hq).aside h
    · simp only [CallWorld.put, Function.update_of_ne hqp] at hq ⊢
      exact hi q hq

theorem Inv.aside (hi : Inv D w) (h : Aside (w.ctrl p) c) : Inv D (w.put p c) :=
  Inv.put_aside hi.ready h (fun _ hsaid => hi.view.quiet hsaid (.inl ⟨rfl, rfl⟩))

theorem aside_finish (c : CallController) (l : ControllerLabel) : Aside c (c.finish l) := by
  unfold CallController.finish
  split
  · exact .of_eq rfl rfl rfl rfl rfl rfl rfl rfl id (fun _ h => .inl (List.mem_of_mem_erase h))
  · exact .refl c

/-! ## What a party does -/

section

variable (hsilent : Silent env)

include hsilent

theorem Inv.hangup (hi : Inv D w) (reason : String) :
    Inv D (w.put p ((w.ctrl p).hangupCall env reason)) := by
  by_cases hphase : (w.ctrl p).phase = .idle
  · have hsame : (w.ctrl p).hangupCall env reason = w.ctrl p := by
      unfold hangupCall
      rw [if_pos hphase]
    rw [hsame]
    exact hi.aside (.refl _)
  · refine Inv.put (fun q _ => hi.ready q)
      (makes_hangup (D.named _) D.keyed hsilent.1 (hi.ready p hphase) hphase reason) ?_
    exact fun _ _ _ hsaid => hi.view.hangup hphase hsaid

theorem Inv.reject (hi : Inv D w) (reason : String) :
    Inv D (w.put p ((w.ctrl p).rejectIncomingCall env reason)) := by
  by_cases hphase : (w.ctrl p).phase = .incoming
  · refine Inv.put (fun q _ => hi.ready q)
      (makes_reject (D.named _) D.keyed hsilent.1 (hi.ready p (by simp [hphase])) hphase reason) ?_
    exact fun _ _ _ hsaid => hi.view.reject hphase hsaid
  · have hsame : (w.ctrl p).rejectIncomingCall env reason = w.ctrl p := by
      unfold rejectIncomingCall
      rw [if_neg hphase]
    rw [hsame]
    exact hi.aside (.refl _)

theorem Inv.accept (hi : Inv D w) (hsure : w.Sure (.act p (.accept env))) :
    Inv D (w.put p ((w.ctrl p).acceptIncomingCall (D.cfg p) env)) := by
  by_cases hphase : (w.ctrl p).phase = .incoming
  · obtain ⟨hattach, hup⟩ := hsure hphase
    rcases makes_accept (D.named _) D.keyed hsilent.1 (D.cfg p)
        (hi.ready p (by simp [hphase])) hphase hattach with hm | hm
    · exact Inv.put (fun q _ => hi.ready q) hm (fun _ _ _ hsaid => hi.view.drop hphase hsaid)
    · refine Inv.put (fun q _ => hi.ready q) hm (fun callId' new hid hsaid => ?_)
      rw [hid (by simp)]
      exact hi.view.accept hphase hup hsaid
  · have hsame : (w.ctrl p).acceptIncomingCall (D.cfg p) env = w.ctrl p := by
      unfold acceptIncomingCall
      rw [if_pos (.inl hphase)]
    rw [hsame]
    exact hi.aside (.refl _)

theorem Inv.start (hi : Inv D w) {peer callId sid : String} (hpeer : peer ≠ "")
    (hid : (D.cfg p).peerUserIdFor peer = D.name (!p)) (hfresh : w.owner callId = none) :
    Inv D ({ w with owner := Function.update w.owner callId (some p) }.put p
      ((w.ctrl p).startOutgoingCall (D.cfg p) env peer D.key callId sid)) := by
  have his : Inv D { w with owner := Function.update w.owner callId (some p) } :=
    ⟨hi.view.started hfresh, hi.ready⟩
  by_cases hphase : (w.ctrl p).phase = .idle
  · rcases makes_start (D.named _) D.keyed hsilent.1 (D.cfg p) callId sid hpeer hid
        hphase with hm | hm
    · exact Inv.put (fun q _ => hi.ready q) hm
        (fun _ _ _ hsaid => his.view.quiet hsaid (.inr ⟨rfl, hphase⟩))
    · refine Inv.put (fun q _ => hi.ready q) hm (fun callId' new hid hsaid => ?_)
      rw [hid (by simp)]
      exact hi.view.call hfresh hphase hsaid
  · have hsame : (w.ctrl p).startOutgoingCall (D.cfg p) env peer D.key callId sid = w.ctrl p := by
      unfold startOutgoingCall
      rw [if_pos hphase]
    rw [hsame]
    exact his.aside (.refl _)

theorem aside_pollRxPath (c : CallController) : Aside c (c.pollRxPath env) := by
  unfold pollRxPath
  split
  · exact .refl c
  · have hjoin : c.joinHeard env = c := by
      unfold joinHeard
      rw [if_neg (by simp [hsilent.2])]
    dsimp only
    rw [hjoin, if_neg (by simp [hsilent.2])]
    exact aside_noteHeard c

end

theorem Inv.act (hi : Inv D w) {l : ControllerLabel} (hsure : w.Sure (.act p l))
    (hs : w.step D (.act p l) = some w') : Inv D w' := by
  unfold CallWorld.step at hs
  dsimp only at hs
  split at hs
  · rename_i hok
    obtain ⟨hsilent, hacts⟩ := hok
    obtain ⟨c', hc', rfl⟩ := Option.map_eq_some_iff.mp hs
    have hhandle : c' = ((w.ctrl p).finish l).handle (D.cfg p) l := by
      unfold CallController.step at hc'
      split at hc'
      · cases hc'
        rfl
      · cases hc'
    subst hhandle
    have hfinish := aside_finish (w.ctrl p) l
    cases l with
    | start peer masterKey callId sessionId env =>
        obtain ⟨hpeer, hid, rfl, hfresh⟩ := hacts
        exact hi.start hsilent hpeer hid hfresh
    | accept env => exact hi.accept hsilent hsure
    | reject reason env => exact hi.reject hsilent reason
    | hangup reason env => exact hi.hangup hsilent reason
    | signal fromPeer s env => exact hacts.elim
    | ringTimeout env =>
        show Inv D (w.put p ((w.ctrl p).onRingTimeout env))
        unfold onRingTimeout
        split
        · exact hi.reject hsilent _
        · exact hi.hangup hsilent _
        · exact hi.aside (.refl _)
    | reprobe env => exact hi.aside (aside_onReprobeTick _)
    | promote env => exact hi.aside (aside_onPromoteTimer _)
    | poll env => exact hi.aside (aside_pollRxPath hsilent _)
    | stun call reflexive env => exact hi.aside (hfinish.trans (aside_onStunResolved _ _))
    | turn call server relay env => exact hi.aside (hfinish.trans (aside_onTurnRelayReady _ _ _))
    | probe call address reachable env =>
        exact hi.aside (hfinish.trans (aside_onProbeResult _ _ _))
  · cases hs

/-! ## What arrives -/

theorem Inv.receives {s : CallSignal} (hi : Inv D w)
    (hm : Makes (D.name p) D.key (w.ctrl (!p)) c phase callId l)
    (hview : ∀ callId' new, (phase ≠ .idle → callId' = callId) → CallView.Says new l →
      ((w.view.taken p s).moved (!p) phase callId' new).Inv) :
    Inv D ((w.taken p s).put (!p) c) := by
  have hm' : Makes (D.name !(!p)) D.key ((w.taken p s).ctrl (!p)) c phase callId l := by
    rw [Bool.not_not]
    exact hm
  refine Inv.put (fun q _ => hi.ready q) hm' ?_
  intro callId' new hid hsaid
  rw [view_taken]
  exact hview callId' new hid hsaid

theorem Inv.ignores {s : CallSignal} (hi : Inv D w) (h : Aside (w.ctrl (!p)) c)
    (hview : ∀ new, CallView.Says new [] →
      ((w.view.taken p s).moved (!p) (w.view.phase (!p)) (w.view.callId (!p)) new).Inv) :
    Inv D ((w.taken p s).put (!p) c) := by
  refine Inv.put_aside hi.ready h (fun new hsaid => ?_)
  rw [view_taken]
  exact hview new hsaid

/-- The call of a party is one with the other party. -/
theorem Inv.ready_other (hi : Inv D w) (hphase : (w.ctrl (!p)).phase ≠ .idle) :
    Ready (D.name p) D.key (w.ctrl (!p)) := by
  have h := hi.ready (!p) hphase
  rwa [Bool.not_not] at h

variable {candidates : List String}

theorem Inv.offer (hi : Inv D w) (hsends : env.sends = true) {sid : String}
    (hs : (p, .offer callId sid candidates) ∈ w.inFlight) :
    Inv D ((w.taken p (.offer callId sid candidates)).put (!p)
      ((w.ctrl (!p)).onOffer (D.cfg (!p)) env (D.name p) callId sid candidates)) := by
  have hdisplay := D.displays (!p)
  have hholds := D.holds (!p)
  rw [Bool.not_not] at hdisplay hholds
  by_cases hphase : (w.ctrl (!p)).phase = .idle
  · refine hi.receives (makes_onOffer (D.named p) D.keyed hdisplay hholds hphase sid candidates) ?_
    intro callId' new hid hsaid
    rw [hid (by simp)]
    exact hi.view.offer hs hphase hsaid
  · have hne : callId ≠ (w.ctrl (!p)).callId := (hi.view.offer_new hs hphase).symm
    refine hi.receives
      (makes_busy D.keyed hsends (hi.ready_other hphase) hphase hne sid candidates) ?_
    intro callId' new hid hsaid
    rw [hid hphase]
    exact hi.view.busy hs hsaid

theorem Inv.answer (hi : Inv D w) (hsends : env.sends = true) {a : Bool} {reason : String}
    (hs : (p, .answer callId a candidates reason) ∈ w.inFlight) :
    Inv D ((w.taken p (.answer callId a candidates reason)).put (!p)
      ((w.ctrl (!p)).onAnswer (D.cfg (!p)) env (D.name p) callId a candidates)) := by
  by_cases hwaits : (w.ctrl (!p)).phase = .outgoing ∧ (w.ctrl (!p)).callId = callId
  · obtain ⟨hphase, rfl⟩ := hwaits
    have hready : Ready (D.name p) D.key (w.ctrl (!p)) := hi.ready_other (by simp [hphase])
    cases a with
    | true =>
        rcases makes_onAnswer (D.named p) D.keyed hsends (D.cfg (!p)) hready
            hphase candidates with hm | hm
        · refine hi.receives hm (fun callId' new hid hsaid => ?_)
          rw [hid (by simp)]
          exact hi.view.accepted hs hphase rfl hsaid
        · exact hi.receives hm (fun _ _ _ hsaid => hi.view.acceptFails hs hphase rfl hsaid)
    | false =>
        have hreset : Makes (D.name p) D.key (w.ctrl (!p))
            ((w.ctrl (!p)).onAnswer (D.cfg (!p)) env (D.name p) (w.ctrl (!p)).callId false candidates)
            .idle "" [] := by
          unfold onAnswer
          rw [if_neg (by simp [hphase, hready.expected])]
          have hstop : Spoke (w.ctrl (!p)) (w.ctrl (!p)).stopEngine [] := .of_sent rfl
          exact hstop.reset
        exact hi.receives hreset (fun _ _ _ hsaid => hi.view.rejected hs hphase rfl hsaid)
  · have hsame : (w.ctrl (!p)).onAnswer (D.cfg (!p)) env (D.name p) callId a candidates
        = w.ctrl (!p) := by
      unfold onAnswer
      refine if_pos ?_
      by_cases hphase : (w.ctrl (!p)).phase = .outgoing
      · exact .inr (.inr (fun h => hwaits ⟨hphase, h.symm⟩))
      · exact .inl hphase
    rw [hsame]
    exact hi.ignores (.refl _) (fun _ hsaid => hi.view.answer_passes hs hwaits hsaid)

theorem Inv.hungUp (hi : Inv D w) {reason : String}
    (hs : (p, .hangup callId reason) ∈ w.inFlight) :
    Inv D ((w.taken p (.hangup callId reason)).put (!p)
      ((w.ctrl (!p)).onHangup (D.name p) callId)) := by
  by_cases hhas : (w.ctrl (!p)).phase ≠ .idle ∧ (w.ctrl (!p)).callId = callId
  · obtain ⟨hphase, rfl⟩ := hhas
    have hready : Ready (D.name p) D.key (w.ctrl (!p)) := hi.ready_other hphase
    have hreset : Makes (D.name p) D.key (w.ctrl (!p))
        ((w.ctrl (!p)).onHangup (D.name p) (w.ctrl (!p)).callId) .idle "" [] := by
      unfold onHangup
      rw [if_neg (by simp [hphase, hready.expected])]
      have hstop : Spoke (w.ctrl (!p)) (w.ctrl (!p)).stopEngine [] := .of_sent rfl
      exact hstop.reset
    exact hi.receives hreset (fun _ _ _ hsaid => hi.view.hungUp hs rfl hsaid)
  · have hnot : (w.ctrl (!p)).phase = .idle ∨ (w.ctrl (!p)).callId ≠ callId := by
      by_cases hphase : (w.ctrl (!p)).phase = .idle
      · exact .inl hphase
      · exact .inr (fun h => hhas ⟨hphase, h⟩)
    have hsame : (w.ctrl (!p)).onHangup (D.name p) callId = w.ctrl (!p) := by
      unfold onHangup
      refine if_pos ?_
      rcases hnot with hidle | hid
      · exact .inl hidle
      · exact .inr (.inr (Ne.symm hid))
    rw [hsame]
    exact hi.ignores (.refl _) (fun _ hsaid => hi.view.hangup_passes hs hnot hsaid)

theorem Inv.deliver (hi : Inv D w) {s : CallSignal}
    (hs : w.step D (.deliver p s env) = some w') : Inv D w' := by
  unfold CallWorld.step at hs
  dsimp only at hs
  split at hs
  · rename_i hok
    obtain ⟨hsilent, hin⟩ := hok
    cases hs
    cases s with
    | offer callId sid candidates => exact hi.offer hsilent.1 hin
    | answer callId a candidates reason => exact hi.answer hsilent.1 hin
    | hangup callId reason => exact hi.hungUp hin
    | ice callId candidate =>
        exact hi.ignores (aside_onIce _ _ _ _) (fun _ hsaid => hi.view.ice hin hsaid)
  · cases hs

theorem Inv.step (hi : Inv D w) {l : PairLabel} (hsure : w.Sure l) (hs : w.step D l = some w') :
    Inv D w' := by
  cases l with
  | act p l => exact hi.act hsure hs
  | deliver p s env => exact hi.deliver hs

variable {turnServer : Bool → String}

theorem inv_reach (h : Lts.Reach (step D) Sure (new turnServer) w) : Inv D w :=
  h.invariant (inv_new turnServer) (fun _ _ _ _ hi hsure hs => hi.step hsure hs)

/-- **Where nothing is on its way, the parties agree**: a party talks in a call only if the other
one talks in it too. -/
theorem agreement (h : Lts.Reach (step D) Sure (new turnServer) w) (hquiet : w.inFlight = [])
    (hrunning : (w.ctrl p).phase = .running) :
    (w.ctrl (!p)).phase = .running ∧ (w.ctrl (!p)).callId = (w.ctrl p).callId :=
  (inv_reach h).view.agree hquiet hrunning

/-! ## Parties that do not agree -/

section Example

theorem named_plain (p : Bool) : (if p then "bob" else "alice") ≠ "" := by cases p <;> decide

/-- Two users without relays. -/
def plainDialogue : CallDialogue where
  name p := if p then "bob" else "alice"
  key := "key"
  cfg _ := plainSetup
  named := named_plain
  keyed := by decide
  displays p := by cases p <;> decide
  holds _ := rfl

/-- Alice calls, and Bob accepts. -/
def acceptedRun : List PairLabel :=
  [.act false (.start "bob" "key" "c" "s" fair), .deliver false (.offer "c" "s" []) fair,
    .act true (.accept fair), .deliver true (.answer "c" true [] "") fair]

theorem agreement_acceptedRun :
    ∃ w, Lts.Reach (step plainDialogue) Sure (new (fun _ => "")) w
      ∧ (w.ctrl false).phase = .running ∧ (w.ctrl true).phase = .running
      ∧ (w.ctrl true).callId = (w.ctrl false).callId := by
  have hrun : (Lts.execWhile (step plainDialogue) Sure (new (fun _ => "")) acceptedRun).isSome
      = true := by decide +kernel
  have hr := Lts.reach_getD hrun
  refine ⟨_, hr, by decide +kernel, ?_⟩
  exact agreement (p := false) hr (by decide +kernel) (by decide +kernel)

/-- Bob has answered, and sound cannot be attached. -/
def soundFailsRun : List PairLabel :=
  [.act false (.start "bob" "key" "c" "s" fair), .deliver false (.offer "c" "s" []) fair,
    .act true (.accept { fair with attaches := false }),
    .deliver true (.answer "c" true [] "") fair]

/-- Alice hangs up, and that comes before her offer. -/
def overtakenRun : List PairLabel :=
  [.act false (.start "bob" "key" "c" "s" fair), .act false (.hangup "" fair),
    .deliver false (.hangup "c" "") fair, .deliver false (.offer "c" "s" []) fair,
    .act true (.accept fair), .deliver true (.answer "c" true [] "") fair]

theorem caller_alone :
    ∃ w, Lts.exec (step plainDialogue) (new (fun _ => "")) soundFailsRun = some w
      ∧ w.inFlight = [] ∧ (w.ctrl false).phase = .running ∧ (w.ctrl true).phase = .idle :=
  ⟨_, rfl, by decide +kernel⟩

theorem callee_alone :
    ∃ w, Lts.exec (step plainDialogue) (new (fun _ => "")) overtakenRun = some w
      ∧ w.inFlight = [] ∧ (w.ctrl true).phase = .running ∧ (w.ctrl false).phase = .idle :=
  ⟨_, rfl, by decide +kernel⟩

end Example

end CallWorld

end Paranoia
