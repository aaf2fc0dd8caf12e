import Paranoia.Client.CallController
import Paranoia.Cover.Engine
import Paranoia.Proof.CallAgreement
import Paranoia.Proof.MediaReceive

/-!
# Nobody is connected who was not answered

What kind an envelope is and whose is written outside of what is sealed, where only the relay sees
to it. So the relay can keep what it has seen, and deliver it as often as it likes, to either party,
and as any kind. It can end calls that way, and make a phone ring that nobody has called: an
acceptance read as a hangup ends the call it accepts.

It cannot accept a call. Only an acceptance reads as one, each controller sends one only when its
user has accepted, and a party that waits for an answer to a call has not accepted this very call
itself. Nor can it speak for anyone: what a caller hears was sealed under a key of who is called, and
a session with such a key is opened only when a user accepts an offer with its identifier, of which
there is one (`Honest.heard`). So a caller is connected only if the user of the other party has
accepted the call (`connected_accepted`).
-/

namespace Paranoia

/-! ## Envelopes

What a controller sends is sealed as JSON, and what kind of envelope it is stands outside. Who gets
it reads the fields of the kind, and those that are not there as empty.
-/

namespace CallSignal

/-- The fields of the payload that are read. -/
def payload : CallSignal → Json
  | offer callId sessionId candidates => .obj [("call_id", .str callId),
      ("session_id", .str sessionId), ("candidates", .arr (candidates.map .str))]
  | answer callId accept candidates reason => .obj [("call_id", .str callId),
      ("accept", .bool accept), ("candidates", .arr (candidates.map .str)), ("reason", .str reason)]
  | hangup callId reason => .obj [("call_id", .str callId), ("reason", .str reason)]
  | ice callId candidate => .obj [("call_id", .str callId), ("candidate", .str candidate)]

def readText (payload : Json) (key : String) : String :=
  ((payload.get [.key key]).bind asStr).getD ""

def readCandidates (payload : Json) : List String :=
  match payload.get [.key "candidates"] with
  | some (.arr items) => items.filterMap asStr
  | _ => []

/-- `toBool(false)`. -/
def readAccept (payload : Json) : Bool :=
  match payload.get [.key "accept"] with
  | some (.bool accept) => accept
  | _ => false

/-- What the signalling client hands on for an envelope of a kind. -/
def dispatch (kind : Nat) (payload : Json) : Option CallSignal :=
  let callId := readText payload "call_id"
  match kind with
  | 0 => some (.offer callId (readText payload "session_id") (readCandidates payload))
  | 1 => some (.answer callId (readAccept payload) (readCandidates payload)
      (readText payload "reason"))
  | 2 => some (.hangup callId (readText payload "reason"))
  | 3 => some (.ice callId (readText payload "candidate"))
  | _ => none

/-- The call an envelope accepts. -/
def accepts : CallSignal → Option String
  | answer callId true _ _ => some callId
  | _ => none

/-- The call and the session an envelope offers. -/
def offers : CallSignal → Option (String × String)
  | offer callId sessionId _ => some (callId, sessionId)
  | _ => none

end CallSignal

/-! ## Sessions -/

/-- What comes to a session, from its application or from the network. -/
inductive SideLabel where
  | send (e : VoipEvent)
  | datagram (bytes : List UInt8) (src : String)
  | indication (payload : List UInt8) (src : String)
  | take (stream : StreamId)
  | close (stream : StreamId)

/-- What a session makes of it, and what it seals. -/
def MediaSide.react {κ : Type} [VoipAead κ] (s : MediaSide) :
    SideLabel → Option (MediaSide × Option (SealedDatagram κ))
  | .send e =>
      if s.running = true ∧ e.Bounded then
        some ({ s with tx := (s.tx.handle (κ := κ) e).1, told := s.toldAfter e },
          (s.tx.handle e).2)
      else none
  | .datagram bytes src => if s.running then some (s.recvFrom κ bytes src, none) else none
  | .indication payload src =>
      if s.running then some (s.processMediaDatagram κ payload src, none) else none
  | .take stream => some (s.take stream, none)
  | .close stream => some (s.close stream, none)

/-! ## The relay -/

/-- Two controllers with the sessions of their engines, what each has ever sent, the calls that the
user of each has accepted, and what sessions have sealed. -/
structure RelayWorld (κ : Type) where
  ctrl : Bool → CallController
  side : Bool → Option MediaSide
  said : List (Bool × CallSignal)
  accepted : List (Bool × String)
  sealings : List (SealedDatagram κ)

inductive RelayLabel where
  /-- A party does something. -/
  | act (p : Bool) (l : ControllerLabel)
  /-- The relay delivers to a party something that one of them has sent, as some kind. -/
  | deliver (p : Bool) (e : Bool × CallSignal) (kind : Nat) (env : CallWeather)
  /-- Something comes to the session of a party. -/
  | media (p : Bool) (l : SideLabel)

namespace RelayWorld

/-- What a session is started with. -/
def inboundBuffer : Nat := 128

section

variable {κ : Type}

def new (turnServer : Bool → String) : RelayWorld κ where
  ctrl p := .new (turnServer p)
  side _ := none
  said := []
  accepted := []
  sealings := []

variable (D : CallDialogue) (w : RelayWorld κ)

/-- A party goes on as this one, and the relay has what it has sent. Its session ends with the
engine's, and one is opened where the engine is prepared. -/
def put (p : Bool) (params : Option SessionParams) (c : CallController) : RelayWorld κ :=
  { w with
    ctrl := Function.update w.ctrl p c
    side := Function.update w.side p
      (if c.engine.state = .idle then none
      else if (w.ctrl p).engine.state = .idle then params.map (.spawn · inboundBuffer)
      else w.side p)
    said := (CallWorld.sentBy (w.ctrl p) c).map (fun s => (p, s)) ++ w.said }

/-- Identifiers nobody has seen. -/
def Unused (callId sessionId : String) : Prop :=
  (∀ e ∈ w.said, e.2.callId ≠ callId) ∧ (∀ e ∈ w.accepted, e.2 ≠ callId)
    ∧ ∀ e ∈ w.said, ∀ o ∈ e.2.offers, decodeB64 o.2.toList ≠ decodeB64 sessionId.toList

instance unusedDecidable (callId sessionId : String) : Decidable (w.Unused callId sessionId) :=
  inferInstanceAs (Decidable (_ ∧ _))

/-- What a party does, signals aside. A call it starts is one to the other party, under their key
and identifiers of its own; an engine is prepared only with a key and an identifier it can read; and
media is what has come to the session. -/
def Acts (p : Bool) : ControllerLabel → Prop
  | .start peer masterKey callId sessionId env =>
      peer ≠ "" ∧ (D.cfg p).peerUserIdFor peer = D.name (!p) ∧ masterKey = D.key
        ∧ w.Unused callId sessionId
        ∧ (env.prepares = true → (SessionParams.read .initiator masterKey sessionId).isSome = true)
  | .accept env => env.prepares = true →
      (SessionParams.read .responder (w.ctrl p).masterKey (w.ctrl p).sessionId).isSome = true
  | .signal _ _ _ => False
  | .poll env => env.mediaReceived = true → ∃ s ∈ w.side p, s.arrived ≠ []
  | _ => True

instance actsDecidable (p : Bool) (l : ControllerLabel) : Decidable (w.Acts D p l) :=
  match l with
  | .start .. | .accept .. | .reject .. | .hangup .. | .signal .. | .ringTimeout .. | .reprobe ..
  | .promote .. | .poll .. | .stun .. | .turn .. | .probe .. => by unfold Acts; infer_instance

/-- The call that a user accepts by this. -/
def accepting (c : CallController) : ControllerLabel → Option String
  | .accept _ => if c.phase = .incoming then some c.callId else none
  | _ => none

/-- The user of a party accepts what rings there. -/
def note (p : Bool) (l : ControllerLabel) : RelayWorld κ :=
  { w with
    accepted := ((accepting (w.ctrl p) l).map (fun callId => (p, callId))).toList ++ w.accepted }

/-- A session goes on as this one, and has sealed this. -/
def react (p : Bool) (out : MediaSide × Option (SealedDatagram κ)) : RelayWorld κ :=
  { w with
    side := Function.update w.side p (some out.1)
    sealings := out.2.toList ++ w.sealings }

end

section

variable {κ : Type} [VoipAead κ] (D : CallDialogue) (w : RelayWorld κ)

def step : RelayLabel → Option (RelayWorld κ)
  | .act p l =>
      if w.Acts D p l then
        ((w.ctrl p).step (D.cfg p) l).map
          ((w.note p l).put p (VoipWorld.openedBy (w.ctrl p) l))
      else none
  | .deliver p e kind env =>
      if e ∈ w.said then
        match CallSignal.dispatch kind e.2.payload with
        | none => some w
        | some s => some (w.put p none ((w.ctrl p).onSignal (D.cfg p) env (D.name !p) s))
      else none
  | .media p l => (w.side p).bind (fun s => (s.react l).map (w.react p))

/-- The network has made nothing that opens under a key of this session: what does was sealed by a
session of one of the two. -/
def Unforged (s : MediaSide) (data : List UInt8) : Prop :=
  ∀ stream nonce plain, VoipAead.aeadDecrypt (s.rxKey stream : κ) nonce
      (data.take voipHeaderLen) (data.drop voipHeaderLen) = .ok plain →
    ∃ d ∈ w.sealings, d.key = s.rxKey stream ∧ d.nonce = nonce
      ∧ d.header.encode = data.take voipHeaderLen ∧ d.payload = plain

/-- Sealing is left to the sessions of the two. -/
def Unforging : RelayLabel → Prop
  | .media p (.datagram bytes _) => ∀ s ∈ w.side p, w.Unforged s (bytes.take (maxDatagram + 512))
  | .media p (.indication payload _) => ∀ s ∈ w.side p, w.Unforged s payload
  | _ => True

end

end RelayWorld

namespace CallSignal

/-- What offers a session that has a name is an offer of this call and this session. -/
theorem offers_dispatch {kind : Nat} {s s' : CallSignal} {callId sessionId : String}
    (h : dispatch kind s.payload = some s') (ho : s'.offers = some (callId, sessionId)) :
    sessionId = "" ∨ s.offers = some (callId, sessionId) := by
  unfold dispatch at h
  dsimp only at h
  split at h
  · cases h
    cases ho
    cases s with
    | offer => exact .inr rfl
    | answer | hangup | ice => exact .inl rfl
  · cases h
    cases ho
  · cases h
    cases ho
  · cases h
    cases ho
  · cases h

/-- What accepts a call is an acceptance of this call, read as an answer. -/
theorem accepts_dispatch {kind : Nat} {s s' : CallSignal} {callId : String}
    (h : dispatch kind s.payload = some s') (ha : s'.accepts = some callId) :
    kind = 1 ∧ s.accepts = some callId := by
  unfold dispatch at h
  dsimp only at h
  split at h
  · cases h
    cases ha
  · cases h
    refine ⟨rfl, ?_⟩
    cases s with
    | offer => cases ha
    | hangup => cases ha
    | ice => cases ha
    | answer c a ks r =>
        cases a with
        | false => cases ha
        | true => exact ha
  · cases h
    cases ha
  · cases h
    cases ha
  · cases h

end CallSignal

namespace CallController

variable {cfg : CallSetup} {env : CallWeather} {c c' c'' : CallController}
  {a : Option String} {starts rings : Option (String × String)} {joins : Prop} {s : CallSignal}

/-! ## What is sent -/

/-- What has been sent since accepts this call at most, and offers this one at most. -/
def Sends (a : Option String) (starts : Option (String × String)) (c c' : CallController) : Prop :=
  ∃ new, c'.sent = new ++ c.sent ∧ ∀ e ∈ new,
    (∀ callId, e.signal.accepts = some callId → a = some callId)
      ∧ ∀ o, e.signal.offers = some o → starts = some o

/-- This has been sent since. -/
def Said (c c' : CallController) (s : CallSignal) : Prop :=
  ∃ new, c'.sent = new ++ c.sent ∧ ∃ e ∈ new, e.signal = s

theorem Sends.of_eq (h : c'.sent = c.sent) : Sends a starts c c' :=
  ⟨[], h, fun e he => by cases he⟩

theorem Sends.trans (h : Sends a starts c c') (h' : Sends a starts c' c'') :
    Sends a starts c c'' := by
  obtain ⟨new, hnew, hall⟩ := h
  obtain ⟨new', hnew', hall'⟩ := h'
  refine ⟨new' ++ new, by rw [hnew', hnew, List.append_assoc], fun e he => ?_⟩
  rcases List.mem_append.mp he with he | he
  · exact hall' e he
  · exact hall e he

theorem Sends.of_aside (h : Aside c c') : Sends a starts c c' := by
  obtain ⟨new, hnew, hice⟩ := h.sent
  refine ⟨new, hnew, fun e he => ?_⟩
  have hi := hice e he
  revert hi
  cases e.signal <;> simp [CallSignal.accepts, CallSignal.offers, CallSignal.isIce]

theorem sends_sendSignal (h : ∀ callId, s.accepts = some callId → a = some callId)
    (h' : ∀ o, s.offers = some o → starts = some o) :
    Sends a starts c (c.sendSignal env s).1 := by
  unfold sendSignal
  split
  · exact .of_eq rfl
  · refine ⟨[_], rfl, fun e he => ?_⟩
    cases List.mem_singleton.mp he
    exact ⟨h, h'⟩

theorem said_sendSignal (h : c.sendSignal env s = (c', true)) : Said c c' s := by
  unfold sendSignal at h
  split at h
  · cases h
  · cases h
    exact ⟨[_], rfl, _, List.mem_singleton_self _, rfl⟩

theorem Sends.sent (h : Sends a starts c c') : ∃ new, c'.sent = new ++ c.sent := by
  obtain ⟨new, hnew, -⟩ := h
  exact ⟨new, hnew⟩

theorem Said.before (h : Said c' c'' s) (h' : ∃ new, c'.sent = new ++ c.sent) : Said c c'' s := by
  obtain ⟨new', hnew', e, he, hs⟩ := h
  obtain ⟨new, hnew⟩ := h'
  exact ⟨new' ++ new, by rw [hnew', hnew, List.append_assoc], e, List.mem_append_left _ he, hs⟩

theorem Said.after (h : Said c c' s) (h' : ∃ new, c''.sent = new ++ c'.sent) : Said c c'' s := by
  obtain ⟨new, hnew, e, he, hs⟩ := h
  obtain ⟨new', hnew'⟩ := h'
  exact ⟨new' ++ new, by rw [hnew', hnew, List.append_assoc], e, List.mem_append_right _ he, hs⟩

/-! ## Where a call goes -/

/-- A handler accepts this call at most, starts this one at most (with an engine that had no session),
lets this one ring at most, and connects a party that waits for an answer under this condition only. -/
structure Goes (a : Option String) (starts rings : Option (String × String)) (joins : Prop)
    (c c' : CallController) : Prop where
  sends : Sends a starts c c'
  outgoing : c'.phase = .outgoing → c.phase = .outgoing ∧ c'.callId = c.callId
    ∨ c.engine.state = .idle ∧ ∃ sessionId candidates, starts = some (c'.callId, sessionId)
      ∧ Said c c' (.offer c'.callId sessionId candidates)
  incoming : c'.phase = .incoming →
    c.phase = .incoming ∧ c'.callId = c.callId ∧ c'.sessionId = c.sessionId
      ∨ rings = some (c'.callId, c'.sessionId)
  running : c'.phase = .running → c.phase = .outgoing → joins

theorem Goes.of_aside (h : Aside c c') : Goes a starts rings joins c c' where
  sends := .of_aside h
  outgoing ho := .inl ⟨h.phase ▸ ho, h.callId⟩
  incoming hi := .inl ⟨h.phase ▸ hi, h.callId, h.sessionId⟩
  running hr ho := by
    rw [h.phase, ho] at hr
    cases hr

theorem Goes.refl (c : CallController) : Goes a starts rings joins c c := .of_aside (.refl c)

theorem Goes.idle (h : Sends a starts c c') (hphase : c'.phase = .idle) :
    Goes a starts rings joins c c' where
  sends := h
  outgoing ho := by
    rw [hphase] at ho
    cases ho
  incoming hi := by
    rw [hphase] at hi
    cases hi
  running hr := by
    rw [hphase] at hr
    cases hr

theorem Goes.before (h : Aside c c') (h' : Goes a starts rings joins c' c'') :
    Goes a starts rings joins c c'' where
  sends := (Sends.of_aside h).trans h'.sends
  outgoing ho := by
    rcases h'.outgoing ho with ⟨hout, hsame⟩ | ⟨hidle, sessionId, candidates, hstarts, hsaid⟩
    · exact .inl ⟨h.phase ▸ hout, hsame.trans h.callId⟩
    · have hidle' : c.engine.state = .idle := by
        by_contra hne
        exact h.engine hne hidle
      obtain ⟨new, hnew, -⟩ := h.sent
      exact .inr ⟨hidle', sessionId, candidates, hstarts, hsaid.before ⟨new, hnew⟩⟩
  incoming hi := by
    refine (h'.incoming hi).imp_left (fun ⟨hin, hcall, hsession⟩ => ?_)
    exact ⟨h.phase ▸ hin, hcall.trans h.callId, hsession.trans h.sessionId⟩
  running hr ho := h'.running hr (h.phase.trans ho)

theorem Goes.after {d : CallController} (h : Goes a starts rings joins c d) (h' : Aside d c'') :
    Goes a starts rings joins c c'' where
  sends := h.sends.trans (.of_aside h')
  outgoing ho := by
    rw [h'.callId]
    refine (h.outgoing (h'.phase ▸ ho)).imp_right (fun ⟨hidle, sid, candidates, hstarts, hsaid⟩ => ?_)
    obtain ⟨new, hnew, -⟩ := h'.sent
    exact ⟨hidle, sid, candidates, hstarts, hsaid.after ⟨new, hnew⟩⟩
  incoming hi := by
    rw [h'.callId, h'.sessionId]
    exact h.incoming (h'.phase ▸ hi)
  running hr := h.running (h'.phase ▸ hr)

theorem goes_hangup (c : CallController) (reason : String) :
    Goes a starts rings joins c (c.hangupCall env reason) := by
  unfold hangupCall
  split
  · exact .refl c
  · have hsend : Sends a starts c (c.sendSignal env (.hangup c.callId reason)).1 :=
      sends_sendSignal (fun _ h => by cases h) (fun _ h => by cases h)
    exact .idle (hsend.trans (.of_eq rfl)) rfl

theorem goes_reject (c : CallController) (reason : String) :
    Goes a starts rings joins c (c.rejectIncomingCall env reason) := by
  unfold rejectIncomingCall
  split
  · have hsend : Sends a starts c (c.sendSignal env (.answer c.callId false [] reason)).1 :=
      sends_sendSignal (fun _ h => by cases h) (fun _ h => by cases h)
    exact .idle (hsend.trans (.of_eq rfl)) rfl
  · exact .refl c

theorem goes_ringTimeout (c : CallController) :
    Goes a starts rings joins c (c.onRingTimeout env) := by
  unfold onRingTimeout
  split
  · exact goes_reject c _
  · exact goes_hangup c _
  · exact .refl c

theorem idle_prepareEngine (h : c.prepareEngine env = (c', true)) : c.engine.state = .idle := by
  unfold prepareEngine at h
  split at h
  · rename_i hidle
    exact hidle.1
  · cases h

theorem goes_start (c : CallController) (peer masterKey callId sessionId : String) :
    Goes a (some (callId, sessionId)) rings joins c
      (c.startOutgoingCall cfg env peer masterKey callId sessionId) := by
  unfold startOutgoingCall
  split
  · exact .refl c
  · rename_i hidle
    dsimp only
    generalize hc₁ : ({ c with
      peer := peer, peerUserId := cfg.peerUserIdFor peer, masterKey := masterKey
      callId := callId, sessionId := sessionId, phase := .outgoing } : CallController) = c₁
    have hset : Sends a (some (callId, sessionId)) c c₁ := .of_eq (by rw [← hc₁])
    have hprep : Aside c₁ (c₁.prepareEngine env).1 := aside_prepareEngine _
    split <;> rename_i c₂ hp <;> rw [hp] at hprep
    · exact .idle ((hset.trans (.of_aside hprep)).trans (.of_eq rfl)) rfl
    · have hsent : Sends a (some (callId, sessionId)) c c₂ := hset.trans (.of_aside hprep)
      have hsend : Sends a (some (callId, sessionId)) c₂
          (c₂.sendSignal env (.offer callId sessionId env.localCandidates)).1 :=
        sends_sendSignal (fun _ h => by cases h) (fun _ h => h)
      have hkeeps : (c₂.sendSignal env (.offer callId sessionId env.localCandidates)).1.phase
            = .outgoing
          ∧ (c₂.sendSignal env (.offer callId sessionId env.localCandidates)).1.callId = callId := by
        have hphase : c₂.phase = .outgoing := by rw [hprep.phase, ← hc₁]
        have hcallId : c₂.callId = callId := by rw [hprep.callId, ← hc₁]
        unfold sendSignal
        split <;> exact ⟨hphase, hcallId⟩
      split <;> rename_i c₃ hs <;> rw [hs] at hsend hkeeps
      · exact .idle ((hsent.trans hsend).trans (.of_eq rfl)) rfl
      · have hengine : c.engine.state = .idle := by
          have h := idle_prepareEngine hp
          rwa [← hc₁] at h
        refine Goes.after (d := c₃) ⟨hsent.trans hsend, fun _ => .inr ?_, fun hi => ?_, fun hr => ?_⟩
          ((aside_launchStun _).trans (aside_launchTurnAllocateIfConfigured _))
        · rw [hkeeps.2]
          exact ⟨hengine, sessionId, env.localCandidates, rfl, (said_sendSignal hs).before hsent.sent⟩
        · rw [hkeeps.1] at hi
          cases hi
        · rw [hkeeps.1] at hr
          cases hr

theorem goes_accept (hphase : c.phase = .incoming) :
    Goes (some c.callId) starts rings joins c (c.acceptIncomingCall cfg env) := by
  unfold acceptIncomingCall
  split
  · exact .refl c
  · have hprep : Aside c (c.prepareEngine env).1 := aside_prepareEngine _
    split <;> rename_i c₂ hp <;> rw [hp] at hprep
    · exact .idle ((Sends.of_aside hprep).trans (.of_eq rfl)) rfl
    · have hsend : Sends (some c.callId) starts c₂
          (c₂.sendSignal env (.answer c₂.callId true env.localCandidates "")).1 := by
        refine sends_sendSignal (fun callId h => ?_) (fun _ h => by cases h)
        rw [← hprep.callId]
        exact h
      have hsent := (Sends.of_aside hprep).trans hsend
      split <;> rename_i c₃ hs <;> rw [hs] at hsent
      · exact .idle (hsent.trans (.of_eq rfl)) rfl
      · have hattach : Aside c₃ ((c₃.seekPeer env).attachAudio env).1 :=
          (aside_seekPeer _).trans (aside_attachAudio _)
        have hall := hsent.trans (.of_aside hattach)
        split <;> rename_i c₄ ha <;> rw [ha] at hall
        · exact .idle (hall.trans (.of_eq rfl)) rfl
        · refine Goes.after (d := { c₄ with phase := .running })
            ⟨hall.trans (.of_eq rfl), fun ho => ?_, fun hi => ?_, fun _ ho => ?_⟩
            ((aside_launchStun _).trans (aside_launchTurnAllocateIfConfigured _))
          · cases ho
          · cases hi
          · rw [hphase] at ho
            cases ho

theorem goes_poll (c : CallController) :
    Goes a starts rings (env.mediaReceived = true) c (c.pollRxPath env) := by
  unfold pollRxPath
  split
  · exact .refl c
  · dsimp only
    have hjoin : Goes a starts rings (env.mediaReceived = true) c (c.joinHeard env) := by
      unfold joinHeard
      split
      · rename_i hheard
        refine ⟨(Sends.of_aside (aside_attachAudio c)).trans (.of_eq rfl), fun ho => ?_,
          fun hi => ?_, fun _ _ => hheard.1⟩
        · cases ho
        · cases hi
      · exact .refl c
    split
    · have hangup : Goes a starts rings (env.mediaReceived = true) (c.joinHeard env)
          ((c.joinHeard env).hangupCall env "media_timeout") := goes_hangup _ _
      rename_i hstalled
      have hidle : ((c.joinHeard env).hangupCall env "media_timeout").phase = .idle := by
        unfold hangupCall
        rw [if_neg (by simp [hstalled.1])]
        rfl
      exact .idle (hjoin.sends.trans hangup.sends) hidle
    · exact hjoin.after (aside_noteHeard _)

/-! ### What arrives -/

theorem goes_offer (c : CallController) (fromPeer callId sessionId : String)
    (candidates : List String) :
    Goes a starts (some (callId, sessionId)) joins c
      (c.onOffer cfg env fromPeer callId sessionId candidates) := by
  unfold onOffer
  split
  · split
    · exact .refl c
    · unfold sendBusy
      split
      · exact .refl c
      · refine ⟨⟨[_], rfl, fun e he => ?_⟩, fun ho => .inl ⟨ho, rfl⟩, fun hi => .inl ⟨hi, rfl, rfl⟩,
          fun hr ho => ?_⟩
        · cases List.mem_singleton.mp he
          exact ⟨fun _ h => (by cases h), fun _ h => (by cases h)⟩
        · rw [show c.phase = .running from hr] at ho
          cases ho
  · dsimp only
    generalize hc₁ : ({ c with
      peer := cfg.displayPeerFor fromPeer, peerUserId := fromPeer, callId := callId
      sessionId := sessionId, pendingPeerAddr := selectPeerCandidate cfg candidates
      pendingTurnServer := (((turnCandidate cfg candidates).map
        (fun turn : String × String => (turn.1, cfg.normalizeRelayAddress turn.1 turn.2))).map
          Prod.fst).getD ""
      pendingTurnRelay := (((turnCandidate cfg candidates).map
        (fun turn : String × String => (turn.1, cfg.normalizeRelayAddress turn.1 turn.2))).map
          Prod.snd).getD "" } : CallController) = c₁
    have hset : Sends a starts c c₁ := .of_eq (by rw [← hc₁])
    have hall : Aside c₁ (c₁.registerAll cfg env candidates) := aside_registerAll _ _
    refine ⟨(hset.trans (.of_aside hall)).trans (.of_eq rfl), fun ho => ?_, fun _ => .inr ?_,
      fun hr => ?_⟩
    · cases ho
    · dsimp only
      rw [hall.callId, hall.sessionId, ← hc₁]
    · cases hr

theorem goes_answer (c : CallController) (fromPeer callId : String) (accept : Bool)
    (candidates : List String) :
    Goes a starts rings (accept = true ∧ callId = c.callId) c
      (c.onAnswer cfg env fromPeer callId accept candidates) := by
  unfold onAnswer
  split
  · exact .refl c
  · rename_i hmatch
    split
    · exact .idle (.of_eq rfl) rfl
    · rename_i haccept
      have hmeet : Aside c ((c.meetPeer cfg env candidates).attachAudio env).1 :=
        (aside_meetPeer _ _).trans (aside_attachAudio _)
      split <;> rename_i c' ha <;> rw [ha] at hmeet
      · exact .before hmeet (goes_hangup _ _)
      · refine Goes.after (d := { c' with phase := .running })
          ⟨(Sends.of_aside hmeet).trans (.of_eq rfl), fun ho => ?_, fun hi => ?_, fun _ _ => ?_⟩
          (aside_promoteBestPath _)
        · cases ho
        · cases hi
        · refine ⟨not_not.mp haccept, ?_⟩
          by_contra hne
          exact hmatch (.inr (.inr hne))

theorem goes_onHangup (c : CallController) (fromPeer callId : String) :
    Goes a starts rings joins c (c.onHangup fromPeer callId) := by
  unfold onHangup
  split
  · exact .refl c
  · exact .idle (.of_eq rfl) rfl

theorem goes_signal (c : CallController) (fromPeer : String) (s : CallSignal) :
    Goes none none s.offers (s.accepts = some c.callId) c (c.onSignal cfg env fromPeer s) := by
  cases s with
  | offer callId sessionId candidates => exact goes_offer c fromPeer callId sessionId candidates
  | answer callId accept candidates reason =>
      have h : Goes none none none (accept = true ∧ callId = c.callId) c
          (c.onAnswer cfg env fromPeer callId accept candidates) := goes_answer ..
      refine ⟨h.sends, h.outgoing, h.incoming, fun hr ho => ?_⟩
      obtain ⟨rfl, rfl⟩ := h.running hr ho
      rfl
  | hangup callId reason => exact goes_onHangup c fromPeer callId
  | ice callId candidate => exact .of_aside (aside_onIce ..)

end CallController

/-! ## What a session does -/

namespace MediaSide

variable {κ : Type} [VoipAead κ] {s : MediaSide} {out : MediaSide × Option (SealedDatagram κ)}

/-- A session keeps its keys, seals under its own, and hears nothing new, or what opens under a key
of its. -/
structure Reacts (s : MediaSide) (l : SideLabel) (out : MediaSide × Option (SealedDatagram κ)) :
    Prop where
  params : out.1.tx.params = s.tx.params
  seals : ∀ d ∈ out.2, ∃ stream, d.key = s.tx.key stream
  arrived : out.1.arrived = s.arrived ∨ ∃ data stream nonce plain,
    VoipAead.aeadDecrypt (s.rxKey stream : κ) nonce (data.take voipHeaderLen)
        (data.drop voipHeaderLen) = .ok plain
      ∧ ((∃ bytes src, l = .datagram bytes src ∧ data = bytes.take (maxDatagram + 512))
        ∨ ∃ src, l = .indication data src)

theorem Reacts.same {l : SideLabel} {s' : MediaSide} (hparams : s'.tx.params = s.tx.params)
    (harrived : s'.arrived = s.arrived) :
    Reacts s l ((s', none) : MediaSide × Option (SealedDatagram κ)) :=
  ⟨hparams, fun d hd => (by cases hd), .inl harrived⟩

theorem Reacts.process {l : SideLabel} {data : List UInt8} (src : String)
    (hdata : (∃ bytes src, l = .datagram bytes src ∧ data = bytes.take (maxDatagram + 512))
      ∨ ∃ src, l = .indication data src) :
    Reacts s l ((s.processMediaDatagram κ data src, none) :
      MediaSide × Option (SealedDatagram κ)) := by
  have hp : Processed κ s data src (s.processMediaDatagram κ data src) := processed
  revert hp
  generalize s.processMediaDatagram κ data src = s'
  intro hp
  cases hp with
  | dropped => exact .same rfl rfl
  | admitted hopens hnew =>
      refine ⟨by rw [handOver_tx, acceptFrom_params], fun d hd => (by cases hd), .inr ?_⟩
      exact ⟨data, _, _, _, (MediaWorld.unpack_eq_ok hopens).2, hdata⟩

theorem react_reacts {l : SideLabel} (h : s.react l = some out) : Reacts s l out := by
  cases l with
  | send e =>
      simp only [react] at h
      split at h
      · cases h
        refine ⟨params_handle, fun d hd => ?_, .inl rfl⟩
        have hr : VoipWorld.Reaction (κ := κ) s.tx e (s.tx.handle e) := VoipWorld.reaction s.tx e
        revert hr hd
        dsimp only
        generalize s.tx.handle (κ := κ) e = out
        intro hd hr
        cases hr with
        | none => cases hd
        | some hstream hparams hseq hkey hnonce =>
            cases hd
            exact ⟨_, hkey⟩
      · cases h
  | datagram bytes src =>
      simp only [react] at h
      split at h
      · cases h
        unfold recvFrom
        dsimp only
        split
        · exact .same rfl rfl
        · exact .process src (.inl ⟨bytes, src, rfl, rfl⟩)
      · cases h
  | indication payload src =>
      simp only [react] at h
      split at h
      · cases h
        exact .process src (.inr ⟨src, rfl⟩)
      · cases h
  | take stream =>
      cases h
      unfold MediaSide.take
      split <;> exact .same rfl rfl
  | close stream =>
      cases h
      exact .same rfl rfl

end MediaSide

namespace RelayWorld

open CallController

variable {κ : Type} {D : CallDialogue} {w w' : RelayWorld κ} {p : Bool} {l : RelayLabel}
  {c : CallController}

/-- A call was offered with a session of these bytes. -/
def Offers (w : RelayWorld κ) (callId : String) (sessionId : List Nat) : Prop :=
  ∃ e ∈ w.said, ∃ sid, e.2.offers = some (callId, sid) ∧ decodeB64 sid.toList = some sessionId

/-- A session of who is called is of an offer that a user has accepted. -/
structure Opened (w : RelayWorld κ) (params : SessionParams) : Prop where
  sized : params.Sized
  accepted : params.role = .responder →
    ∃ q callId, (q, callId) ∈ w.accepted ∧ w.Offers callId params.sessionId

/-- A call is accepted only by a user who has accepted it, and who waits for an answer has not. What
rings was offered; each session was offered for one call, and who seals as the called side in it
has accepted this call. -/
structure Honest [VoipAead κ] (w : RelayWorld κ) : Prop where
  accepts : ∀ e ∈ w.said, ∀ callId, e.2.accepts = some callId → (e.1, callId) ∈ w.accepted
  waits : ∀ p, (w.ctrl p).phase = .outgoing → (p, (w.ctrl p).callId) ∉ w.accepted
  drawn : ∀ callId callId' sessionId, w.Offers callId sessionId → w.Offers callId' sessionId →
    callId = callId'
  rings : ∀ p, (w.ctrl p).phase = .incoming → ∀ sessionId,
    decodeB64 (w.ctrl p).sessionId.toList = some sessionId → sessionId.length = 16 →
    w.Offers (w.ctrl p).callId sessionId
  opened : ∀ p, ∀ s ∈ w.side p, w.Opened s.tx.params
  calling : ∀ p, (w.ctrl p).phase = .outgoing → ∀ s ∈ w.side p,
    s.tx.params.role = .initiator ∧ w.Offers (w.ctrl p).callId s.tx.params.sessionId
  sealed : ∀ d ∈ w.sealings, ∃ params stream, w.Opened params
    ∧ d.key = (SessionKeys.derive params stream).tx
  arrived : ∀ p, ∀ s ∈ w.side p, s.arrived ≠ [] →
    ∃ d ∈ w.sealings, ∃ stream, d.key = s.rxKey stream

theorem Offers.mono {callId : String} {sessionId : List Nat} (h : w.Offers callId sessionId)
    (hsaid : w.said ⊆ w'.said) : w'.Offers callId sessionId := by
  obtain ⟨e, he, hoffer⟩ := h
  exact ⟨e, hsaid he, hoffer⟩

theorem Opened.mono {params : SessionParams} (h : w.Opened params) (hsaid : w.said ⊆ w'.said)
    (haccepted : w.accepted ⊆ w'.accepted) : w'.Opened params where
  sized := h.sized
  accepted hrole := by
    obtain ⟨q, callId, hmem, hoffers⟩ := h.accepted hrole
    exact ⟨q, callId, haccepted hmem, hoffers.mono hsaid⟩

/-! ### A party goes on -/

theorem put_other {params : Option SessionParams} {q : Bool} (h : q ≠ p) :
    (w.put p params c).ctrl q = w.ctrl q :=
  Function.update_of_ne h _ _

theorem put_self {params : Option SessionParams} : (w.put p params c).ctrl p = c :=
  Function.update_self ..

theorem said_put (w : RelayWorld κ) (p : Bool) (params : Option SessionParams)
    (c : CallController) : w.said ⊆ (w.put p params c).said :=
  List.subset_append_right _ _

/-- A session was there before, where the engine had one, or has just been opened. -/
theorem mem_side_put {params : Option SessionParams} {q : Bool} {s : MediaSide}
    (hs : s ∈ (w.put p params c).side q) :
    (q = p ∧ (w.ctrl p).engine.state = .idle ∧ c.engine.state ≠ .idle
      ∧ ∃ params' ∈ params, s = .spawn params' inboundBuffer)
    ∨ s ∈ w.side q ∧ (q = p → (w.ctrl p).engine.state ≠ .idle) := by
  unfold put at hs
  dsimp only at hs
  by_cases hq : q = p
  · subst hq
    rw [Function.update_self] at hs
    split at hs
    · cases hs
    · rename_i hopen
      split at hs
      · rename_i hidle
        obtain ⟨params', hparams, rfl⟩ := Option.map_eq_some_iff.mp hs
        exact .inl ⟨rfl, hidle, hopen, params', hparams, rfl⟩
      · rename_i hengine
        exact .inr ⟨hs, fun _ => hengine⟩
  · rw [Function.update_of_ne hq] at hs
    exact .inr ⟨hs, fun heq => absurd heq hq⟩

theorem mem_sentBy {a : Option String} {starts : Option (String × String)} {c c' : CallController}
    (h : Sends a starts c c') {s : CallSignal} (hs : s ∈ CallWorld.sentBy c c') :
    (∀ callId, s.accepts = some callId → a = some callId)
      ∧ ∀ o, s.offers = some o → starts = some o := by
  obtain ⟨new, hnew, hall⟩ := h
  have htake : c'.sent.take (c'.sent.length - c.sent.length) = new := by
    rw [hnew, List.length_append, Nat.add_sub_cancel, List.take_left]
  unfold CallWorld.sentBy at hs
  rw [htake] at hs
  obtain ⟨e, he, rfl⟩ := List.mem_map.mp hs
  exact hall e he

theorem mem_said_put {params : Option SessionParams} {s : CallSignal}
    (h : Said (w.ctrl p) c s) : (p, s) ∈ (w.put p params c).said := by
  obtain ⟨new, hnew, e, he, rfl⟩ := h
  refine List.mem_append_left _ (List.mem_map.mpr ⟨e.signal, ?_, rfl⟩)
  unfold CallWorld.sentBy
  rw [hnew, List.length_append, Nat.add_sub_cancel, List.take_left]
  exact List.mem_map.mpr ⟨e, he, rfl⟩

theorem offers_put {params : Option SessionParams} {a : Option String}
    {starts : Option (String × String)} (h : Sends a starts (w.ctrl p) c) {callId : String}
    {sessionId : List Nat} (ho : (w.put p params c).Offers callId sessionId) :
    w.Offers callId sessionId
      ∨ ∃ sid, starts = some (callId, sid) ∧ decodeB64 sid.toList = some sessionId := by
  obtain ⟨e, he, sid, hoffers, hsid⟩ := ho
  rcases List.mem_append.mp he with he | he
  · obtain ⟨s, hs, rfl⟩ := List.mem_map.mp he
    exact .inr ⟨sid, (mem_sentBy h hs).2 _ hoffers, hsid⟩
  · exact .inl ⟨e, he, sid, hoffers, hsid⟩

section

variable [VoipAead κ]

theorem honest_new (turnServer : Bool → String) : (new turnServer : RelayWorld κ).Honest where
  accepts e he := by cases he
  waits p h := by cases h
  drawn _ _ _ h := by
    obtain ⟨e, he, -⟩ := h
    cases he
  rings p h := by cases h
  opened p s hs := by cases hs
  calling p h := by cases h
  sealed d hd := by cases hd
  arrived p s hs := by cases hs

/-- A party goes on: what it accepts its user has accepted, what it starts nobody has, what rings
was offered, and so was what it opens a session for. -/
theorem Honest.put (h : w.Honest) {a : Option String} {starts rings : Option (String × String)}
    {joins : Prop} {params : Option SessionParams}
    (hgoes : Goes a starts rings joins (w.ctrl p) c)
    (haccepts : ∀ callId, a = some callId → (p, callId) ∈ w.accepted)
    (hstarts : ∀ callId sid, starts = some (callId, sid) → (p, callId) ∉ w.accepted
      ∧ ∀ callId' sessionId, decodeB64 sid.toList = some sessionId →
        ¬ w.Offers callId' sessionId)
    (hrings : ∀ callId sid, rings = some (callId, sid) → ∀ sessionId,
      decodeB64 sid.toList = some sessionId → sessionId.length = 16 → w.Offers callId sessionId)
    (hopens : (w.ctrl p).engine.state = .idle → c.engine.state ≠ .idle → ∀ params' ∈ params,
      (w.put p params c).Opened params' ∧ (c.phase = .outgoing → params'.role = .initiator
        ∧ (w.put p params c).Offers c.callId params'.sessionId)) :
    (w.put p params c).Honest where
  accepts e he callId ha := by
    rcases List.mem_append.mp he with he | he
    · obtain ⟨s, hs, rfl⟩ := List.mem_map.mp he
      exact haccepts callId ((mem_sentBy hgoes.sends hs).1 _ ha)
    · exact h.accepts e he callId ha
  waits q hq := by
    by_cases hqp : q = p
    · subst hqp
      rw [put_self] at hq ⊢
      rcases hgoes.outgoing hq with ⟨hout, hsame⟩ | ⟨-, sid, candidates, hnew, -⟩
      · rw [hsame]
        exact h.waits q hout
      · exact (hstarts _ _ hnew).1
    · rw [put_other hqp] at hq ⊢
      exact h.waits q hq
  drawn callId callId' sessionId ho ho' := by
    rcases offers_put hgoes.sends ho with hold | ⟨sid, hs, hsid⟩ <;>
      rcases offers_put hgoes.sends ho' with hold' | ⟨sid', hs', hsid'⟩
    · exact h.drawn _ _ _ hold hold'
    · exact absurd hold ((hstarts _ _ hs').2 _ _ hsid')
    · exact absurd hold' ((hstarts _ _ hs).2 _ _ hsid)
    · rw [hs] at hs'
      cases hs'
      rfl
  rings q hq sessionId hsid hlen := by
    by_cases hqp : q = p
    · subst hqp
      rw [put_self] at hq hsid ⊢
      rcases hgoes.incoming hq with ⟨hin, hcall, hsession⟩ | hnew
      · rw [hcall]
        exact (h.rings q hin sessionId (hsession ▸ hsid) hlen).mono (said_put ..)
      · exact (hrings _ _ hnew sessionId hsid hlen).mono (said_put ..)
    · rw [put_other hqp] at hq hsid ⊢
      exact (h.rings q hq sessionId hsid hlen).mono (said_put ..)
  opened q s hs := by
    rcases mem_side_put hs with ⟨-, hidle, hopen, params', hparams, rfl⟩ | ⟨hold, -⟩
    · exact (hopens hidle hopen params' hparams).1
    · exact (h.opened q s hold).mono (said_put ..) (List.Subset.refl _)
  calling q hq s hs := by
    rcases mem_side_put hs with ⟨rfl, hidle, hopen, params', hparams, rfl⟩ | ⟨hold, hengine⟩
    · rw [put_self] at hq ⊢
      exact (hopens hidle hopen params' hparams).2 hq
    · by_cases hqp : q = p
      · subst hqp
        rw [put_self] at hq ⊢
        rcases hgoes.outgoing hq with ⟨hout, hsame⟩ | ⟨hidle, -⟩
        · obtain ⟨hrole, hoffers⟩ := h.calling q hout s hold
          rw [hsame]
          exact ⟨hrole, hoffers.mono (said_put ..)⟩
        · exact absurd hidle (hengine rfl)
      · rw [put_other hqp] at hq ⊢
        obtain ⟨hrole, hoffers⟩ := h.calling q hq s hold
        exact ⟨hrole, hoffers.mono (said_put ..)⟩
  sealed d hd := by
    obtain ⟨params', stream, hopened, hkey⟩ := h.sealed d hd
    exact ⟨params', stream, hopened.mono (said_put ..) (List.Subset.refl _), hkey⟩
  arrived q s hs hne := by
    rcases mem_side_put hs with ⟨-, -, -, params', -, rfl⟩ | ⟨hold, -⟩
    · exact absurd rfl hne
    · exact h.arrived q s hold hne

/-- A session goes on. -/
theorem Honest.react (h : w.Honest) {s : MediaSide} {out : MediaSide × Option (SealedDatagram κ)}
    {l : SideLabel} (hs : s ∈ w.side p) (hreacts : MediaSide.Reacts s l out)
    (hun : w.Unforging (.media p l)) : (w.react p out).Honest := by
  have hside : ∀ q t, t ∈ (w.react p out).side q →
      ∃ t₀ ∈ w.side q, t.tx.params = t₀.tx.params
        ∧ (t.arrived ≠ [] → ∃ d ∈ w.sealings, ∃ stream, d.key = t.rxKey stream) := by
    intro q t ht
    dsimp only [RelayWorld.react] at ht
    by_cases hq : q = p
    · subst hq
      rw [Function.update_self] at ht
      cases ht
      refine ⟨s, hs, hreacts.params, fun hne => ?_⟩
      have hrx : ∀ stream, (out.1.rxKey stream : κ) = s.rxKey stream :=
        fun stream => MediaSide.rxKey_congr hreacts.params stream
      rcases hreacts.arrived with hsame | ⟨data, stream, nonce, plain, hplain, hdata⟩
      · obtain ⟨d, hd, stream, hkey⟩ := h.arrived q s hs (hsame ▸ hne)
        exact ⟨d, hd, stream, hkey.trans (hrx stream).symm⟩
      · have hunforged : w.Unforged s data := by
          rcases hdata with ⟨bytes, src, rfl, rfl⟩ | ⟨src, rfl⟩
          · exact hun s hs
          · exact hun s hs
        obtain ⟨d, hd, hkey, -⟩ := hunforged stream nonce plain hplain
        exact ⟨d, hd, stream, hkey.trans (hrx stream).symm⟩
    · rw [Function.update_of_ne hq] at ht
      exact ⟨t, ht, rfl, h.arrived q t ht⟩
  refine ⟨h.accepts, h.waits, h.drawn, h.rings, fun q t ht => ?_, fun q hq t ht => ?_,
    fun d hd => ?_, fun q t ht hne => ?_⟩
  · obtain ⟨t₀, ht₀, hparams, -⟩ := hside q t ht
    rw [hparams]
    exact (h.opened q t₀ ht₀).mono (List.Subset.refl _) (List.Subset.refl _)
  · obtain ⟨t₀, ht₀, hparams, -⟩ := hside q t ht
    rw [hparams]
    exact h.calling q hq t₀ ht₀
  · rcases List.mem_append.mp hd with hd | hd
    · obtain ⟨stream, hkey⟩ := hreacts.seals d (Option.mem_toList.mp hd)
      exact ⟨s.tx.params, stream,
        (h.opened p s hs).mono (List.Subset.refl _) (List.Subset.refl _), hkey⟩
    · obtain ⟨params, stream, hopened, hkey⟩ := h.sealed d hd
      exact ⟨params, stream, hopened.mono (List.Subset.refl _) (List.Subset.refl _), hkey⟩
  · obtain ⟨-, -, -, harrived⟩ := hside q t ht
    obtain ⟨d, hd, hkey⟩ := harrived hne
    exact ⟨d, List.mem_append_right _ hd, hkey⟩

/-! ### What a party does -/

/-- The call that is started by this, and its session. -/
def starting : ControllerLabel → Option (String × String)
  | .start _ _ callId sessionId _ => some (callId, sessionId)
  | _ => none

omit [VoipAead κ] in
theorem goes_act {p : Bool} {l : ControllerLabel} (hacts : w.Acts D p l) (c : CallController) :
    Goes (accepting c l) (starting l) none (∃ env, l = .poll env ∧ env.mediaReceived = true) c
      (c.handle (D.cfg p) l) := by
  cases l with
  | start peer masterKey callId sessionId env => exact goes_start ..
  | accept env =>
      by_cases hphase : c.phase = .incoming
      · rw [accepting, if_pos hphase]
        exact goes_accept hphase
      · have hsame : c.handle (D.cfg p) (.accept env) = c := by
          show c.acceptIncomingCall (D.cfg p) env = c
          unfold acceptIncomingCall
          exact if_pos (.inl hphase)
        rw [hsame]
        exact .refl c
  | reject reason env => exact goes_reject c reason
  | hangup reason env => exact goes_hangup c reason
  | signal fromPeer s env => exact hacts.elim
  | ringTimeout env => exact goes_ringTimeout c
  | reprobe env => exact .of_aside (aside_onReprobeTick c)
  | promote env => exact .of_aside (aside_onPromoteTimer c)
  | poll env =>
      have h : Goes none none none (env.mediaReceived = true) c (c.pollRxPath env) := goes_poll c
      exact ⟨h.sends, h.outgoing, h.incoming, fun hr ho => ⟨env, rfl, h.running hr ho⟩⟩
  | stun call reflexive env => exact .of_aside (aside_onStunResolved c reflexive)
  | turn call server relay env => exact .of_aside (aside_onTurnRelayReady c server relay)
  | probe call address reachable env => exact .of_aside (aside_onProbeResult c address reachable)

theorem accepting_finish {c : CallController} {l : ControllerLabel} :
    accepting (c.finish l) l = accepting c l := by
  have h := CallWorld.aside_finish c l
  cases l <;> simp only [accepting, h.phase, h.callId]

omit [VoipAead κ] in
theorem goes_step {p : Bool} {l : ControllerLabel} (hacts : w.Acts D p l)
    (hs : (w.ctrl p).step (D.cfg p) l = some c) :
    Goes (accepting (w.ctrl p) l) (starting l) none
      (∃ env, l = .poll env ∧ env.mediaReceived = true) (w.ctrl p) c := by
  unfold CallController.step at hs
  split at hs
  · cases hs
    rw [← accepting_finish]
    exact .before (CallWorld.aside_finish _ _) (goes_act hacts _)
  · cases hs

omit [VoipAead κ] in
theorem accepted_note {l : ControllerLabel} {e : Bool × String} :
    e ∈ (w.note p l).accepted ↔ (e.1 = p ∧ accepting (w.ctrl p) l = some e.2) ∨ e ∈ w.accepted := by
  unfold note
  dsimp only
  rw [List.mem_append, Option.mem_toList, Option.map_eq_some_iff]
  refine or_congr_left ⟨?_, ?_⟩
  · rintro ⟨callId, h, rfl⟩
    exact ⟨rfl, h⟩
  · rintro ⟨rfl, h⟩
    exact ⟨_, h, rfl⟩

theorem Honest.note (h : w.Honest) (p : Bool) (l : ControllerLabel) : (w.note p l).Honest := by
  have hmore : w.accepted ⊆ (w.note p l).accepted := List.subset_append_right _ _
  refine ⟨fun e he callId ha => hmore (h.accepts e he callId ha), fun q hq hmem => ?_, h.drawn,
    h.rings, fun q s hs => (h.opened q s hs).mono (List.Subset.refl _) hmore, h.calling,
    fun d hd => ?_, h.arrived⟩
  · rcases accepted_note.mp hmem with ⟨heq, haccepting⟩ | hmem
    · obtain rfl : q = p := heq
      -- who waits for an answer accepts nothing
      have hout : (w.ctrl q).phase = .outgoing := hq
      cases l with
      | accept env =>
          rw [accepting, hout] at haccepting
          cases haccepting
      | start | reject | hangup | signal | ringTimeout | reprobe | promote | poll | stun | turn
      | probe => cases haccepting
    · exact h.waits q hq hmem
  · obtain ⟨params, stream, hopened, hkey⟩ := h.sealed d hd
    exact ⟨params, stream, hopened.mono (List.Subset.refl _) hmore, hkey⟩

theorem role_read {role : Role} {masterKeyB64 sessionIdB64 : String} {params : SessionParams}
    (h : SessionParams.read role masterKeyB64 sessionIdB64 = some params) :
    params.role = role ∧ decodeB64 sessionIdB64.toList = some params.sessionId := by
  unfold SessionParams.read at h
  split at h
  · rename_i master sessionId hmaster hsession
    split at h
    · cases h
      exact ⟨rfl, hsession⟩
    · cases h
  · cases h

/-- A session that a party opens is for a call that it starts, or for one that its user accepts. -/
theorem Honest.opens (h : w.Honest) {l : ControllerLabel}
    (hs : (w.ctrl p).step (D.cfg p) l = some c)
    (hgoes : Goes (accepting (w.ctrl p) l) (starting l) none
      (∃ env, l = .poll env ∧ env.mediaReceived = true) (w.ctrl p) c)
    (hidle : (w.ctrl p).engine.state = .idle) (hopen : c.engine.state ≠ .idle)
    {params : SessionParams} (hparams : VoipWorld.openedBy (w.ctrl p) l = some params) :
    ((w.note p l).put p (VoipWorld.openedBy (w.ctrl p) l) c).Opened params
      ∧ (c.phase = .outgoing → params.role = .initiator
        ∧ ((w.note p l).put p (VoipWorld.openedBy (w.ctrl p) l) c).Offers c.callId
          params.sessionId) := by
  have hsized := VoipWorld.sized_openedBy hparams
  cases l with
  | start peer masterKey callId sessionId env =>
      obtain ⟨hrole, hsid⟩ := role_read hparams
      refine ⟨⟨hsized, fun hother => ?_⟩, fun ho => ⟨hrole, ?_⟩⟩
      · rw [hrole] at hother
        cases hother
      · rcases hgoes.outgoing ho with ⟨hout, -⟩ | ⟨-, sid, candidates, hstarts, hsaid⟩
        · -- a party in a call starts no other one
          have hc : (w.ctrl p).startOutgoingCall (D.cfg p) env peer masterKey callId sessionId = c :=
            Option.some.inj hs
          unfold startOutgoingCall at hc
          rw [if_pos (by rw [hout]; exact CallPhase.noConfusion)] at hc
          exact absurd (hc ▸ hidle) hopen
        · cases hstarts
          exact ⟨_, mem_said_put (w := w.note p _) hsaid, sessionId, rfl, hsid⟩
  | accept env =>
      obtain ⟨hrole, hsid⟩ := role_read hparams
      have hphase : (w.ctrl p).phase = .incoming := by
        by_contra hne
        have hc : (w.ctrl p).acceptIncomingCall (D.cfg p) env = c := Option.some.inj hs
        unfold acceptIncomingCall at hc
        rw [if_pos (.inl hne)] at hc
        exact hopen (hc ▸ hidle)
      refine ⟨⟨hsized, fun _ => ⟨p, (w.ctrl p).callId, ?_, ?_⟩⟩, fun ho => ?_⟩
      · exact accepted_note.mpr (.inl ⟨rfl, if_pos hphase⟩)
      · exact (h.rings p hphase params.sessionId hsid hsized.2).mono
          (said_put (w.note p _) p _ c)
      · rcases hgoes.outgoing ho with ⟨hout, -⟩ | ⟨-, sid, candidates, hstarts, -⟩
        · rw [hphase] at hout
          cases hout
        · cases hstarts
  | reject | hangup | signal | ringTimeout | reprobe | promote | poll | stun | turn | probe =>
      cases hparams

theorem Honest.act (h : w.Honest) {l : ControllerLabel} (hacts : w.Acts D p l)
    (hs : (w.ctrl p).step (D.cfg p) l = some c) :
    ((w.note p l).put p (VoipWorld.openedBy (w.ctrl p) l) c).Honest := by
  have hgoes := goes_step hacts hs
  refine (h.note p l).put hgoes (fun callId ha => accepted_note.mpr (.inl ⟨rfl, ha⟩))
    (fun callId sid hstarts => ?_) (fun _ _ hrings => by cases hrings)
    (fun hidle hopen params hparams => h.opens hs hgoes hidle hopen hparams)
  cases l with
  | start peer masterKey callId' sessionId env =>
      cases hstarts
      obtain ⟨-, haccepted, hoffered⟩ := hacts.2.2.2.1
      refine ⟨fun hmem => ?_, fun callId' bytes hsid ho => ?_⟩
      · rcases accepted_note.mp hmem with ⟨-, hnone⟩ | hmem
        · cases hnone
        · exact haccepted _ hmem rfl
      · obtain ⟨e, he, sid', ho', hsid'⟩ := ho
        exact hoffered e he _ ho' (hsid'.trans hsid.symm)
  | accept | reject | hangup | signal | ringTimeout | reprobe | promote | poll | stun | turn
  | probe => cases hstarts

omit [VoipAead κ] in
/-- What rings after a delivery was offered. -/
theorem offers_deliver {e : Bool × CallSignal} {kind : Nat} {s : CallSignal} (he : e ∈ w.said)
    (hread : CallSignal.dispatch kind e.2.payload = some s) {callId sid : String}
    (hs : s.offers = some (callId, sid)) {sessionId : List Nat}
    (hsid : decodeB64 sid.toList = some sessionId) (hlen : sessionId.length = 16) :
    w.Offers callId sessionId := by
  rcases CallSignal.offers_dispatch hread hs with rfl | ho
  · cases hsid
    cases hlen
  · exact ⟨e, he, sid, ho, hsid⟩

theorem Honest.step (h : w.Honest) (hun : w.Unforging l) (hs : step D w l = some w') :
    w'.Honest := by
  cases l with
  | act p l =>
      rw [RelayWorld.step] at hs
      split at hs
      · rename_i hacts
        obtain ⟨c, hc, rfl⟩ := Option.map_eq_some_iff.mp hs
        exact h.act hacts hc
      · cases hs
  | deliver p e kind env =>
      rw [RelayWorld.step] at hs
      split at hs
      · rename_i he
        split at hs
        · cases hs
          exact h
        · rename_i s hread
          cases hs
          exact h.put (goes_signal _ _ _) (fun _ ha => by cases ha)
            (fun _ _ hstart => by cases hstart)
            (fun callId sid ho sessionId hsid hlen => offers_deliver he hread ho hsid hlen)
            (fun _ _ params hparams => by cases hparams)
      · cases hs
  | media p l =>
      rw [RelayWorld.step] at hs
      obtain ⟨s, hside, hs⟩ := Option.bind_eq_some_iff.mp hs
      obtain ⟨out, hout, rfl⟩ := Option.map_eq_some_iff.mp hs
      exact h.react hside (MediaSide.react_reacts hout) hun

theorem honest_reachable {turnServer : Bool → String}
    (hr : Lts.Reach (step D) Unforging (new turnServer) w) : w.Honest :=
  hr.invariant (honest_new turnServer) (fun _ _ _ _ hi hok hs => hi.step hok hs)

/-- **Who is heard has accepted**: what comes to the session of a caller that waits for an answer was
sealed by a session of who is called, which was opened when the user of the other party accepted this
very call. -/
theorem Honest.heard (h : w.Honest) (hwaits : (w.ctrl p).phase = .outgoing) {s : MediaSide}
    (hs : s ∈ w.side p) (hne : s.arrived ≠ []) : (!p, (w.ctrl p).callId) ∈ w.accepted := by
  obtain ⟨hrole, hoffers⟩ := h.calling p hwaits s hs
  obtain ⟨d, hd, stream, hkey⟩ := h.arrived p s hs hne
  obtain ⟨params, stream', hopened, hkey'⟩ := h.sealed d hd
  have hrx : (s.rxKey stream : κ) = (SessionKeys.derive
      ⟨.responder, s.tx.params.master, s.tx.params.sessionId⟩ stream).tx := by
    have hparams : s.tx.params = ⟨.initiator, s.tx.params.master, s.tx.params.sessionId⟩ := by
      rw [← hrole]
    exact (congrArg (fun params => (SessionKeys.derive params stream : SessionKeys κ).rx)
      hparams).trans (derive_other ..)
  have hsized : SessionParams.Sized ⟨.responder, s.tx.params.master, s.tx.params.sessionId⟩ :=
    (h.opened p s hs).sized
  obtain ⟨rfl, -⟩ := VoipWorld.derive_inj hopened.sized hsized
    (hkey'.symm.trans (hkey.trans hrx))
  obtain ⟨q, callId, haccepted, hoffers'⟩ := hopened.accepted rfl
  obtain rfl := h.drawn _ _ _ hoffers' hoffers
  have hother : q ≠ p := fun heq => h.waits p hwaits (heq ▸ haccepted)
  rwa [Bool.eq_not_of_ne hother] at haccepted

/-- **Nobody is connected who was not answered**: a caller whose call goes through is connected with
someone whose user has accepted this very call. -/
theorem connected_accepted {turnServer : Bool → String}
    (hr : Lts.Reach (step D) Unforging (new turnServer : RelayWorld κ) w)
    (hs : step D w l = some w') (hwaits : (w.ctrl p).phase = .outgoing)
    (hconnected : (w'.ctrl p).phase = .running) : (!p, (w.ctrl p).callId) ∈ w.accepted := by
  have h := honest_reachable hr
  -- a party that does nothing stays where it is
  have hother : ∀ {w₁ : RelayWorld κ} {q : Bool} {params : Option SessionParams}
      {c : CallController}, w₁.ctrl = w.ctrl → q ≠ p →
      ((w₁.put q params c).ctrl p).phase ≠ .running := by
    intro w₁ q params c hctrl hq
    rw [put_other (Ne.symm hq), hctrl, hwaits]
    simp
  cases l with
  | act q l =>
      rw [RelayWorld.step] at hs
      split at hs
      · rename_i hacts
        obtain ⟨c, hc, rfl⟩ := Option.map_eq_some_iff.mp hs
        by_cases hq : q = p
        · subst hq
          rw [put_self] at hconnected
          -- only by a poll that has heard something, and that was sealed for this call
          obtain ⟨env, rfl, hmedia⟩ := (goes_step hacts hc).running hconnected hwaits
          obtain ⟨s, hside, hne⟩ := hacts hmedia
          exact h.heard hwaits hside hne
        · exact absurd hconnected (hother rfl hq)
      · cases hs
  | deliver q e kind env =>
      rw [RelayWorld.step] at hs
      split at hs
      · rename_i he
        split at hs
        · cases hs
          rw [hwaits] at hconnected
          cases hconnected
        · rename_i s hread
          cases hs
          by_cases hq : q = p
          · subst hq
            rw [put_self] at hconnected
            -- whatever kind it comes as, it reads as an acceptance of who sealed it
            have haccepts := (goes_signal _ _ _).running hconnected hwaits
            have hsaid := h.accepts e he _ (CallSignal.accepts_dispatch hread haccepts).2
            have hne : e.1 ≠ q := fun heq => h.waits q hwaits (heq ▸ hsaid)
            rwa [Bool.eq_not_of_ne hne] at hsaid
          · exact absurd hconnected (hother rfl hq)
      · cases hs
  | media q l =>
      rw [RelayWorld.step] at hs
      obtain ⟨s, -, hs⟩ := Option.bind_eq_some_iff.mp hs
      obtain ⟨out, -, rfl⟩ := Option.map_eq_some_iff.mp hs
      have hphase : (w.ctrl p).phase = .running := hconnected
      rw [hwaits] at hphase
      cases hphase

end

/-! ## Bob accepts -/

section Example

open MediaWorld (TaggedKey)
open VoipWorld (zeroKeyB64 zeroSidB64 zeroDialogue)

/-- Alice calls, and Bob accepts. -/
def acceptedCall : List RelayLabel :=
  [.act false (.start "bob" zeroKeyB64 "c" zeroSidB64 fair),
    .deliver true (false, .offer "c" zeroSidB64 []) 0 fair, .act true (.accept fair)]

/-- Then he speaks, while the relay keeps his answer. -/
def spokenCall : List RelayLabel :=
  acceptedCall ++ [.media true (.send (.peer "alice")), .media true (.send (.voice [7]))]

/-- Nothing comes from the network. -/
def Silent : RelayLabel → Bool
  | .media _ (.datagram _ _) => false
  | .media _ (.indication _ _) => false
  | _ => true

theorem unforging_silent {κ : Type} [VoipAead κ] {w : RelayWorld κ} {l : RelayLabel}
    (h : Silent l = true) : w.Unforging l := by
  cases l with
  | act p l => trivial
  | deliver p e kind env => trivial
  | media p l =>
      cases l with
      | send e => trivial
      | datagram bytes src => cases h
      | indication payload src => cases h
      | take stream => trivial
      | close stream => trivial

def after (ls : List RelayLabel) : RelayWorld TaggedKey :=
  (Lts.exec (step zeroDialogue) (new (fun _ => "")) ls).getD (new (fun _ => ""))

theorem reach_after {ls : List RelayLabel}
    (h : (Lts.execWhile (step zeroDialogue) (fun _ l => Silent l = true)
      (new (fun _ => "") : RelayWorld TaggedKey) ls).isSome = true) :
    Lts.Reach (step zeroDialogue) Unforging (new (fun _ => "")) (after ls) :=
  (Lts.reach_exec h).mono (fun _ _ => unforging_silent)

/-- What Bob has said, as it is on its way. -/
def voiceBytes : List UInt8 :=
  [1, 0, 0, 0, 0, 0, 0, 0, 0, 0, 0, 0, 0, 0, 0, 0, 7, 2, 0, 1, 0, 0, 0, 0, 0, 0, 0, 0, 0, 0, 0, 0, 0]

theorem unforging_voice :
    (after spokenCall).Unforging (.media false (.datagram voiceBytes "bob")) := by
  intro s hs stream nonce plain hopen
  have hparams : ∀ s ∈ (after spokenCall).side false,
      s.tx.params = ⟨.initiator, List.replicate 32 0, List.replicate 16 0⟩ := by decide +kernel
  have hkey : (s.rxKey stream : TaggedKey)
      = ⟨List.replicate 16 0, List.replicate 32 0, hkdfInfo stream false⟩ := by
    rw [MediaSide.rxKey, hparams s hs]
    rfl
  have hsealed : ∃ d ∈ (after spokenCall).sealings,
      d.key = ⟨List.replicate 16 0, List.replicate 32 0, hkdfInfo .voice false⟩
        ∧ d.nonce = 0 :: 1 :: List.replicate 10 0
        ∧ d.header.encode = (voiceBytes.take (maxDatagram + 512)).take voipHeaderLen
        ∧ d.payload = [7] := by decide +kernel
  have hlen : ((voiceBytes.take (maxDatagram + 512)).drop voipHeaderLen).length - voipTagLen = 1 :=
    rfl
  rw [hkey] at hopen ⊢
  simp only [VoipAead.aeadDecrypt, hlen] at hopen
  split at hopen
  · rename_i hok
    cases hopen
    obtain ⟨-, htag⟩ := hok
    cases stream with
    | voice =>
        have hnonce : 0 :: 1 :: (List.replicate 10 0 ++ [0, 0, 0]) = nonce ++ [0, 0, 0] :=
          congrArg List.tail htag
        obtain ⟨d, hd, hkey', hnonce', hheader, hpayload⟩ := hsealed
        exact ⟨d, hd, hkey', hnonce'.trans (List.append_cancel_right hnonce), hheader, hpayload⟩
    | video =>
        have hbyte : (2 : UInt8) = 4 := List.head_eq_of_cons_eq htag
        exact absurd hbyte (by decide)
  · cases hopen

/-- What he has said reaches Alice. -/
def heardCall : List RelayLabel := spokenCall ++ [.media false (.datagram voiceBytes "bob")]

/-- Bob's acceptance comes as one of this kind. -/
def acceptanceAs (kind : Nat) : RelayLabel :=
  .deliver false (true, .answer "c" true [] "") kind fair

/-- His answer connects her, and so does his voice without it. -/
theorem connected_accepted_bob :
    ((step zeroDialogue (after acceptedCall) (acceptanceAs 1)).map (fun w => (w.ctrl false).phase)
        = some .running ∧ (true, "c") ∈ (after acceptedCall).accepted)
    ∧ (step zeroDialogue (after heardCall)
        (.act false (.poll { fair with mediaReceived := true }))).map
          (fun w => (w.ctrl false).phase) = some .running
      ∧ (true, "c") ∈ (after heardCall).accepted := by
  have hanswer : (step zeroDialogue (after acceptedCall) (acceptanceAs 1)).map
      (fun w => (w.ctrl false).phase) = some .running := by decide +kernel
  obtain ⟨w', hw', hphase⟩ := Option.map_eq_some_iff.mp hanswer
  have haccepted := connected_accepted (p := false) (reach_after (by decide +kernel)) hw'
    (by decide +kernel) hphase
  have hvoice : (step zeroDialogue (after heardCall)
      (.act false (.poll { fair with mediaReceived := true }))).map
        (fun w => (w.ctrl false).phase) = some .running := by decide +kernel
  obtain ⟨v', hv', hphase'⟩ := Option.map_eq_some_iff.mp hvoice
  have hspoken : Lts.Reach (step zeroDialogue) Unforging (new (fun _ => "")) (after spokenCall) :=
    reach_after (by decide +kernel)
  have hheard : Lts.Reach (step zeroDialogue) Unforging (new (fun _ => "")) (after heardCall) :=
    .tail hspoken unforging_voice rfl
  have haccepted' := connected_accepted (p := false) hheard hv' (by decide +kernel) hphase'
  exact ⟨⟨hanswer, haccepted⟩, hvoice, haccepted'⟩

/-- Bob's acceptance, read as a hangup, ends the call. -/
example :
    (step zeroDialogue (after acceptedCall) (acceptanceAs 2)).map
      (fun w => ((w.ctrl false).phase, (w.ctrl true).phase)) = some (.idle, .running) := by
  decide +kernel

end Example

end RelayWorld

end Paranoia
