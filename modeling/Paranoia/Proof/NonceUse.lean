import Paranoia.Client.Voip
import Paranoia.Lib.Lts
import Paranoia.Proof.CallAgreement

/-!
# Nonces of media sessions

Every session of a party counts its datagrams from zero, and its keys depend on the offer alone. An
offer that is delivered once more, after its call has ended, and accepted once more gives the keys
of the call that has ended, and their nonces are used again (`nonce_reused`).

Where no session identifier is accepted a second time, and no counter comes to its end, each key
belongs to one session and each nonce to one datagram (`nonce_unique`).
-/

namespace Paranoia

structure VoipWorld (κ : Type) where
  ctrl : Bool → CallController
  session : Bool → Option VoipSession
  /-- Every signal that was sent, by the party that has sent it. -/
  recorded : List (Bool × CallSignal)
  /-- The sessions there have been. -/
  opened : List SessionParams
  sealings : List (SealedDatagram κ)

inductive VoipLabel where
  | act (p : Bool) (l : ControllerLabel)
  /-- A signal that was recorded is delivered, for the first time or once more. -/
  | deliver (p : Bool) (s : CallSignal) (env : CallWeather)
  | media (p : Bool) (e : VoipEvent)

namespace VoipWorld

variable {κ : Type} [VoipCrypto κ] [DecidableEq κ]

def new (turnServer : Bool → String) : VoipWorld κ where
  ctrl p := .new (turnServer p)
  session _ := none
  recorded := []
  opened := []
  sealings := []

variable (D : CallDialogue) (w : VoipWorld κ)

/-- The session an engine is prepared for. -/
def openedBy (c : CallController) : ControllerLabel → Option SessionParams
  | .start _ masterKey _ sessionId _ => SessionParams.read .initiator masterKey sessionId
  | .accept _ => SessionParams.read .responder c.masterKey c.sessionId
  | _ => none

/-- What a party does: a call it starts is one to the other party, under their key and an
identifier nobody has drawn. An engine is prepared only with a key and an identifier it can read. -/
def Acts (p : Bool) : ControllerLabel → Prop
  | .start peer masterKey _ sessionId env =>
      (D.cfg p).peerUserIdFor peer = D.name (!p) ∧ masterKey = D.key
        ∧ (env.prepares = true → (SessionParams.read .initiator masterKey sessionId).isSome = true)
        ∧ ∀ params ∈ SessionParams.read .initiator masterKey sessionId, params ∉ w.opened
  | .accept env => env.prepares = true →
      (SessionParams.read .responder (w.ctrl p).masterKey (w.ctrl p).sessionId).isSome = true
  | .signal _ _ _ => False
  | _ => True

instance (p : Bool) (l : ControllerLabel) : Decidable (w.Acts D p l) :=
  match l with
  | .start .. | .accept .. | .reject .. | .hangup .. | .signal .. | .ringTimeout .. | .reprobe ..
  | .promote .. | .poll .. | .stun .. | .turn .. | .probe .. => by unfold Acts; infer_instance

/-- A party goes on as this one. Its session ends with the engine's, and one is opened where the
engine is prepared. -/
def put (p : Bool) (params : Option SessionParams) (c : CallController) : VoipWorld κ :=
  let opening : Option SessionParams :=
    if (w.ctrl p).engine.state = .idle ∧ c.engine.state ≠ .idle then params else none
  { w with
    ctrl := Function.update w.ctrl p c
    session := Function.update w.session p
      (match opening with
      | some params => some (.spawn params)
      | none => if c.engine.state = .idle then none else w.session p)
    recorded := (CallWorld.sentBy (w.ctrl p) c).map (fun s => (p, s)) ++ w.recorded
    opened := opening.toList ++ w.opened }

/-- A session has reacted. -/
def react (p : Bool) (out : VoipSession × Option (SealedDatagram κ)) : VoipWorld κ :=
  { w with
    session := Function.update w.session p (some out.1)
    sealings := out.2.toList ++ w.sealings }

def step : VoipLabel → Option (VoipWorld κ)
  | .act p l =>
      if w.Acts D p l then
        ((w.ctrl p).step (D.cfg p) l).map (w.put p (openedBy (w.ctrl p) l))
      else none
  | .deliver p s env =>
      if (p, s) ∈ w.recorded then
        some (w.put (!p) none ((w.ctrl (!p)).onSignal (D.cfg (!p)) env (D.name p) s))
      else none
  | .media p e => (w.session p).map (fun s => w.react p (s.handle e))

/-- The datagrams that were sealed under a key. -/
def under (k : κ) : List (SealedDatagram κ) := w.sealings.filter (fun d => d.key = k)

/-- What is accepted was not accepted before, and no counter has come to its end. -/
def Fresh : VoipLabel → Prop
  | .act p (.accept _) => (w.ctrl p).phase = .incoming →
      ∀ params ∈ SessionParams.read .responder (w.ctrl p).masterKey (w.ctrl p).sessionId,
        params ∉ w.opened
  | .media p e => ∀ s ∈ w.session p, ∀ stream ∈ e.stream?,
      (w.under (s.key stream)).length < u64Size
  | _ => True

instance (l : VoipLabel) : Decidable (w.Fresh l) := by
  unfold Fresh
  split <;> infer_instance

/-! ## One key, one session -/

section

omit [DecidableEq κ]

theorem hkdfInfo_inj {stream stream' : StreamId} {tx tx' : Bool}
    (h : hkdfInfo stream tx = hkdfInfo stream' tx') : stream = stream' ∧ tx = tx' := by
  cases stream <;> cases stream' <;> cases tx <;> cases tx' <;> first
    | exact ⟨rfl, rfl⟩
    | exact absurd h (by decide)

/-- The key a stream is sealed under tells its side and its stream. -/
theorem derive_role {role role' : Role} {master sid : List Nat} {stream stream' : StreamId}
    (h : (SessionKeys.derive (κ := κ) ⟨role, master, sid⟩ stream).tx
      = (SessionKeys.derive ⟨role', master, sid⟩ stream').tx) : role = role' ∧ stream = stream' := by
  cases role <;> cases role' <;>
    (obtain ⟨rfl, htx⟩ := hkdfInfo_inj (VoipCrypto.hkdf_info _ _ _ _ h)
     first
       | exact ⟨rfl, rfl⟩
       | cases htx)

/-- It tells its session. -/
theorem derive_inj {params params' : SessionParams} {stream stream' : StreamId}
    (hsized : params.Sized) (hsized' : params'.Sized)
    (h : (SessionKeys.derive (κ := κ) params stream).tx
      = (SessionKeys.derive params' stream').tx) : params = params' ∧ stream = stream' := by
  obtain ⟨role, master, sid⟩ := params
  obtain ⟨role', master', sid'⟩ := params'
  have hsame : sid = sid' ∧ master = master' := by
    cases role <;> cases role' <;>
      exact (VoipCrypto.hkdf_inj _ _ _ _ _ _ hsized.2 hsized.1 hsized'.2 hsized'.1 h).imp id And.left
  obtain ⟨rfl, rfl⟩ := hsame
  obtain ⟨rfl, rfl⟩ := derive_role h
  exact ⟨rfl, rfl⟩

theorem sized_read {role : Role} {masterKeyB64 sessionIdB64 : String} {params : SessionParams}
    (h : SessionParams.read role masterKeyB64 sessionIdB64 = some params) : params.Sized := by
  unfold SessionParams.read at h
  split at h
  · split at h
    · rename_i hlen
      cases h
      exact hlen
    · cases h
  · cases h

theorem sized_openedBy {c : CallController} {l : ControllerLabel} {params : SessionParams}
    (h : openedBy c l = some params) : params.Sized := by
  cases l with
  | start => exact sized_read h
  | accept => exact sized_read h
  | reject | hangup | signal | ringTimeout | reprobe | promote | poll | stun | turn | probe => cases h

theorem buildNonce_inj {stream stream' : StreamId} {direction direction' : Direction}
    {m n : Nat} (hm : m < u64Size) (hn : n < u64Size)
    (h : buildNonce stream direction m = buildNonce stream' direction' n) : m = n := by
  unfold buildNonce at h
  have hbytes : BigEndian.bytes 8 m = BigEndian.bytes 8 n :=
    (List.append_inj (List.append_cancel_right h) rfl).2
  exact BigEndian.bytes_inj hm hn hbytes

/-! ## What a session seals -/

/-- A session has sealed nothing, or one datagram, under the next number of a stream. -/
inductive Reaction (s : VoipSession) (e : VoipEvent) :
    VoipSession × Option (SealedDatagram κ) → Prop
  | none {s' : VoipSession} (hparams : s'.params = s.params) (hseq : s'.txSeq = s.txSeq) :
      Reaction s e (s', none)
  | some {s' : VoipSession} {d : SealedDatagram κ} {stream : StreamId}
      (hstream : e.stream? = some stream) (hparams : s'.params = s.params)
      (hseq : s'.txSeq = Function.update s.txSeq stream (saturatingAdd (s.txSeq stream) 1))
      (hkey : d.key = s.key stream)
      (hnonce : d.nonce = buildNonce stream s.params.role.txDirection (s.txSeq stream)) :
      Reaction s e (s', some d)

theorem reaction_sendOn {s : VoipSession} {e : VoipEvent} {header : VoipHeader}
    {payload : List UInt8} (hstream : e.stream? = some header.streamId)
    (hseq : header.sequence = s.txSeq header.streamId) :
    Reaction (κ := κ) s e (s.sendOn header payload) := by
  unfold VoipSession.sendOn
  split
  · exact .none rfl rfl
  · split
    · exact .none rfl rfl
    · rename_i d hd
      unfold pack at hd
      obtain ⟨ciphertext, _, rfl⟩ := Option.map_eq_some_iff.mp hd
      exact .some hstream rfl rfl rfl (by rw [hseq])

theorem reaction (s : VoipSession) (e : VoipEvent) : Reaction (κ := κ) s e (s.handle e) := by
  cases e with
  | voice frame => exact reaction_sendOn rfl rfl
  | video flags rtpTimestamp payload => exact reaction_sendOn rfl rfl
  | keepalive => exact reaction_sendOn rfl rfl
  | peer address => exact .none rfl rfl

end

/-! ## One nonce, one datagram -/

/-- Every key belongs to one session, which has numbered what it has sealed. -/
structure Inv (w : VoipWorld κ) : Prop where
  known : ∀ d ∈ w.sealings, ∃ params ∈ w.opened, ∃ stream,
    d.key = (SessionKeys.derive params stream).tx
  sized : ∀ params ∈ w.opened, params.Sized
  opened : ∀ p, ∀ s ∈ w.session p, s.params ∈ w.opened
  apart : ∀ p, ∀ s ∈ w.session p, ∀ s' ∈ w.session (!p), s.params ≠ s'.params
  counted : ∀ p, ∀ s ∈ w.session p, ∀ stream,
    s.txSeq stream = min (w.under (s.key stream)).length (u64Size - 1)
  numbered : ∀ p, ∀ s ∈ w.session p, ∀ stream, ∀ d ∈ w.under (s.key stream),
    ∃ n < (w.under (s.key stream)).length,
      d.nonce = buildNonce stream s.params.role.txDirection n
  unique : ∀ d ∈ w.sealings, ∀ d' ∈ w.sealings, d.key = d'.key → d.nonce = d'.nonce →
    d.header = d'.header ∧ d.payload = d'.payload

variable {D} {w} {w' : VoipWorld κ} {p : Bool} {turnServer : Bool → String}

theorem inv_new : Inv (new turnServer : VoipWorld κ) := by
  constructor <;> simp [new]

theorem Inv.under_eq_nil (hi : Inv w) {params : SessionParams} (hsized : params.Sized)
    (hnew : params ∉ w.opened) (stream : StreamId) :
    w.under (SessionKeys.derive params stream).tx = [] := by
  refine List.filter_eq_nil_iff.mpr (fun d hd hkey => ?_)
  obtain ⟨params', hparams', stream', hkey'⟩ := hi.known d hd
  have heq := derive_inj (hi.sized _ hparams') hsized (hkey'.symm.trans (of_decide_eq_true hkey))
  exact hnew (heq.1 ▸ hparams')

/-- A party goes on, and opens no session there has been. -/
theorem Inv.put (hi : Inv w) {params : Option SessionParams} {c : CallController}
    (hsized : ∀ params' ∈ params, params'.Sized)
    (hnew : (w.ctrl p).engine.state = .idle → c.engine.state ≠ .idle →
      ∀ params' ∈ params, params' ∉ w.opened) : Inv (w.put p params c) := by
  unfold VoipWorld.put
  dsimp only
  generalize hopening : (if (w.ctrl p).engine.state = .idle ∧ c.engine.state ≠ .idle then params
    else none) = opening
  have hfresh : ∀ params' ∈ opening, params'.Sized ∧ params' ∉ w.opened := by
    intro params' h
    rw [← hopening] at h
    split at h
    · rename_i hengine
      exact ⟨hsized params' h, hnew hengine.1 hengine.2 params' h⟩
    · cases h
  -- a session there is was there before, or has just been opened
  have hsession : ∀ q s, s ∈ Function.update w.session p
      (match opening with
      | some params => some (.spawn params)
      | none => if c.engine.state = .idle then none else w.session p) q →
      s ∈ w.session q ∨ ∃ params' ∈ opening, q = p ∧ s = .spawn params' := by
    intro q s hs
    by_cases hq : q = p
    · subst hq
      rw [Function.update_self] at hs
      cases opening with
      | none =>
          dsimp only at hs
          split at hs
          · cases hs
          · exact .inl hs
      | some params' =>
          cases hs
          exact .inr ⟨params', rfl, rfl, rfl⟩
    · rw [Function.update_of_ne hq] at hs
      exact .inl hs
  constructor
  · intro d hd
    obtain ⟨params', hparams', hstream⟩ := hi.known d hd
    exact ⟨params', List.mem_append_right _ hparams', hstream⟩
  · intro params' hmem
    rcases List.mem_append.mp hmem with hmem | hmem
    · exact (hfresh params' (Option.mem_toList.mp hmem)).1
    · exact hi.sized params' hmem
  · intro q s hs
    rcases hsession q s hs with hs | ⟨params', hparams', _, rfl⟩
    · exact List.mem_append_right _ (hi.opened q s hs)
    · exact List.mem_append_left _ (Option.mem_toList.mpr hparams')
  · intro q s hs s' hs'
    rcases hsession q s hs with hs | ⟨params', hparams', hq, rfl⟩
    · rcases hsession (!q) s' hs' with hs' | ⟨params', hparams', _, rfl⟩
      · exact hi.apart q s hs s' hs'
      · intro heq
        have hmem : s.params ∈ w.opened := hi.opened q s hs
        rw [heq] at hmem
        exact (hfresh params' hparams').2 hmem
    · rcases hsession (!q) s' hs' with hs' | ⟨_, _, hq', _⟩
      · intro heq
        have hmem : s'.params ∈ w.opened := hi.opened (!q) s' hs'
        rw [← heq] at hmem
        exact (hfresh params' hparams').2 hmem
      · rw [hq] at hq'
        simp at hq'
  · intro q s hs stream
    rcases hsession q s hs with hs | ⟨params', hparams', _, rfl⟩
    · exact hi.counted q s hs stream
    · obtain ⟨hsized', hnew'⟩ := hfresh params' hparams'
      have hnil := hi.under_eq_nil hsized' hnew' stream
      show 0 = min (w.under (SessionKeys.derive params' stream).tx).length (u64Size - 1)
      rw [hnil]
      rfl
  · intro q s hs stream d hd
    rcases hsession q s hs with hs | ⟨params', hparams', _, rfl⟩
    · exact hi.numbered q s hs stream d hd
    · obtain ⟨hsized', hnew'⟩ := hfresh params' hparams'
      have hnil := hi.under_eq_nil hsized' hnew' stream
      have hd' : d ∈ w.under (SessionKeys.derive params' stream).tx := hd
      rw [hnil] at hd'
      cases hd'
  · exact hi.unique

/-! ### A datagram -/

omit [VoipCrypto κ] in
/-- What was sealed under a key, once one more datagram is. -/
theorem under_cons (d : SealedDatagram κ) (k : κ) :
    ({ w with sealings := d :: w.sealings } : VoipWorld κ).under k
      = if d.key = k then d :: w.under k else w.under k := by
  unfold under
  rw [List.filter_cons]
  simp only [decide_eq_true_eq]

theorem Inv.quiet (hi : Inv w) {s s' : VoipSession} (hs : s ∈ w.session p)
    (hparams : s'.params = s.params) (hseq : s'.txSeq = s.txSeq) :
    Inv (w.react p (s', none)) := by
  have hsession : ∀ q t, t ∈ Function.update w.session p (some s') q →
      ∃ t₀ ∈ w.session q, t.params = t₀.params ∧ t.txSeq = t₀.txSeq := by
    intro q t ht
    by_cases hq : q = p
    · subst hq
      rw [Function.update_self] at ht
      cases ht
      exact ⟨s, hs, hparams, hseq⟩
    · rw [Function.update_of_ne hq] at ht
      exact ⟨t, ht, rfl, rfl⟩
  have hkey : ∀ {t t₀ : VoipSession} (stream : StreamId), t.params = t₀.params →
      (t.key stream : κ) = t₀.key stream := by
    intro t t₀ stream h
    unfold VoipSession.key
    rw [h]
  constructor
  · exact hi.known
  · exact hi.sized
  · intro q t ht
    obtain ⟨t₀, ht₀, hp, _⟩ := hsession q t ht
    rw [hp]
    exact hi.opened q t₀ ht₀
  · intro q t ht u hu
    obtain ⟨t₀, ht₀, hp, _⟩ := hsession q t ht
    obtain ⟨u₀, hu₀, hp', _⟩ := hsession (!q) u hu
    rw [hp, hp']
    exact hi.apart q t₀ ht₀ u₀ hu₀
  · intro q t ht stream
    obtain ⟨t₀, ht₀, hp, hn⟩ := hsession q t ht
    rw [hkey stream hp, hn]
    exact hi.counted q t₀ ht₀ stream
  · intro q t ht stream d hd
    obtain ⟨t₀, ht₀, hp, _⟩ := hsession q t ht
    rw [hkey stream hp] at hd ⊢
    rw [hp]
    exact hi.numbered q t₀ ht₀ stream d hd
  · exact hi.unique

theorem Inv.seal (hi : Inv w) {s s' : VoipSession} {d : SealedDatagram κ} {stream : StreamId}
    (hs : s ∈ w.session p) (hparams : s'.params = s.params)
    (hseq : s'.txSeq = Function.update s.txSeq stream (saturatingAdd (s.txSeq stream) 1))
    (hkey : d.key = s.key stream)
    (hnonce : d.nonce = buildNonce stream s.params.role.txDirection (s.txSeq stream))
    (hroom : (w.under (s.key stream)).length < u64Size) : Inv (w.react p (s', some d)) := by
  have hcount := hi.counted p s hs stream
  have hnext : s.txSeq stream = (w.under (s.key stream)).length := by omega
  -- the number is new under the key
  have hnew : ∀ d' ∈ w.sealings, d'.key = d.key → d'.nonce ≠ d.nonce := by
    intro d' hd' hk heq
    have hunder : d' ∈ w.under (s.key stream) :=
      List.mem_filter.mpr ⟨hd', decide_eq_true (hk.trans hkey)⟩
    obtain ⟨n, hn, hnonce'⟩ := hi.numbered p s hs stream d' hunder
    rw [hnonce', hnonce] at heq
    have := buildNonce_inj (by omega) (by omega) heq
    omega
  have hunder : ∀ k, (w.react p (s', some d)).under k
      = if d.key = k then d :: w.under k else w.under k := fun k => under_cons d k
  -- another session, or another stream, has another key
  have hother : ∀ q t stream', t ∈ w.session q → (q ≠ p ∨ stream' ≠ stream) →
      (w.react p (s', some d)).under (t.key stream') = w.under (t.key stream') := by
    intro q t stream' ht hne
    rw [hunder, if_neg]
    rw [hkey]
    intro heq
    obtain ⟨hp, hstream⟩ := derive_inj (hi.sized _ (hi.opened p s hs))
      (hi.sized _ (hi.opened q t ht)) heq
    rcases hne with hq | hst
    · obtain rfl : q = !p := by
        cases q <;> cases p <;> simp_all
      exact hi.apart p s hs t ht hp
    · exact hst hstream.symm
  have hsame : (w.react p (s', some d)).under (s.key stream)
      = d :: w.under (s.key stream) := by
    rw [hunder, if_pos hkey]
  have hkeys : ∀ stream', (s'.key stream' : κ) = s.key stream' := by
    intro stream'
    unfold VoipSession.key
    rw [hparams]
  constructor
  · intro d' hd'
    rcases List.mem_cons.mp hd' with rfl | hd'
    · exact ⟨s.params, hi.opened p s hs, stream, hkey⟩
    · exact hi.known d' hd'
  · exact hi.sized
  · intro q t ht
    by_cases hq : q = p
    · subst hq
      obtain rfl : s' = t := by simpa [react] using ht
      rw [hparams]
      exact hi.opened q s hs
    · exact hi.opened q t (by simpa [react, hq] using ht)
  · intro q t ht u hu
    have hold : ∀ q t, t ∈ (w.react p (s', some d)).session q →
        ∃ t₀ ∈ w.session q, t.params = t₀.params := by
      intro q t ht
      by_cases hq : q = p
      · subst hq
        obtain rfl : s' = t := by simpa [react] using ht
        exact ⟨s, hs, hparams⟩
      · exact ⟨t, by simpa [react, hq] using ht, rfl⟩
    obtain ⟨t₀, ht₀, hp⟩ := hold q t ht
    obtain ⟨u₀, hu₀, hp'⟩ := hold (!q) u hu
    rw [hp, hp']
    exact hi.apart q t₀ ht₀ u₀ hu₀
  · intro q t ht stream'
    by_cases hq : q = p
    · subst hq
      obtain rfl : s' = t := by simpa [react] using ht
      rw [hkeys, hseq]
      by_cases hst : stream' = stream
      · subst hst
        rw [hsame, Function.update_self, List.length_cons, saturatingAdd]
        omega
      · rw [hother q s stream' hs (.inr hst), Function.update_of_ne hst]
        exact hi.counted q s hs stream'
    · have ht' : t ∈ w.session q := by simpa [react, hq] using ht
      rw [hother q t stream' ht' (.inl hq)]
      exact hi.counted q t ht' stream'
  · intro q t ht stream' d' hd'
    by_cases hq : q = p
    · subst hq
      obtain rfl : s' = t := by simpa [react] using ht
      rw [hkeys] at hd' ⊢
      rw [hparams]
      by_cases hst : stream' = stream
      · subst hst
        rw [hsame] at hd' ⊢
        rw [List.length_cons]
        rcases List.mem_cons.mp hd' with rfl | hd'
        · exact ⟨_, Nat.lt_succ_self _, by rw [hnonce, hnext]⟩
        · obtain ⟨n, hn, hnonce'⟩ := hi.numbered q s hs stream' d' hd'
          exact ⟨n, Nat.lt_succ_of_lt hn, hnonce'⟩
      · rw [hother q s stream' hs (.inr hst)] at hd' ⊢
        exact hi.numbered q s hs stream' d' hd'
    · have ht' : t ∈ w.session q := by simpa [react, hq] using ht
      rw [hother q t stream' ht' (.inl hq)] at hd' ⊢
      exact hi.numbered q t ht' stream' d' hd'
  · intro d₁ hd₁ d₂ hd₂ hk hn
    rcases List.mem_cons.mp hd₁ with rfl | hold₁ <;> rcases List.mem_cons.mp hd₂ with rfl | hold₂
    · exact ⟨rfl, rfl⟩
    · exact absurd hn.symm (hnew d₂ hold₂ hk.symm)
    · exact absurd hn (hnew d₁ hold₁ hk)
    · exact hi.unique d₁ hold₁ d₂ hold₂ hk hn

theorem Inv.media (hi : Inv w) {s : VoipSession} {e : VoipEvent}
    {out : VoipSession × Option (SealedDatagram κ)} (hs : s ∈ w.session p)
    (hroom : ∀ stream ∈ e.stream?, (w.under (s.key stream)).length < u64Size)
    (h : Reaction s e out) : Inv (w.react p out) := by
  cases h with
  | none hparams hseq => exact hi.quiet hs hparams hseq
  | some hstream hparams hseq hkey hnonce =>
      exact hi.seal hs hparams hseq hkey hnonce (hroom _ hstream)

theorem Inv.step (hi : Inv w) {l : VoipLabel} (hfresh : w.Fresh l) (hs : w.step D l = some w') :
    Inv w' := by
  cases l with
  | act p l =>
      rw [VoipWorld.step] at hs
      split at hs
      · rename_i hacts
        obtain ⟨c, hc, rfl⟩ := Option.map_eq_some_iff.mp hs
        refine hi.put (fun params hparams => sized_openedBy hparams)
          (fun hidle hprepared params hparams => ?_)
        cases l with
        | start peer masterKey callId sessionId env => exact hacts.2.2.2 params hparams
        | accept env =>
            by_cases hphase : (w.ctrl p).phase = .incoming
            · exact hfresh hphase params hparams
            · have hsame : c = w.ctrl p := by
                have hc' : (w.ctrl p).acceptIncomingCall (D.cfg p) env = c := Option.some.inj hc
                rw [← hc']
                unfold CallController.acceptIncomingCall
                rw [if_pos (.inl hphase)]
              rw [hsame] at hprepared
              exact absurd hidle hprepared
        | reject | hangup | signal | ringTimeout | reprobe | promote | poll | stun | turn | probe =>
            cases hparams
      · cases hs
  | deliver p s env =>
      rw [VoipWorld.step] at hs
      split at hs
      · cases hs
        exact hi.put (fun params hparams => by cases hparams)
          (fun _ _ params hparams => by cases hparams)
      · cases hs
  | media p e =>
      rw [VoipWorld.step] at hs
      obtain ⟨s, hsession, rfl⟩ := Option.map_eq_some_iff.mp hs
      exact hi.media hsession (hfresh s hsession) (reaction s e)

/-- **No nonce is used twice under a key**, as long as no session identifier is accepted a second
time and no counter comes to its end. -/
theorem nonce_unique (h : Lts.Reach (step D) Fresh (new turnServer : VoipWorld κ) w)
    {d d' : SealedDatagram κ} (hd : d ∈ w.sealings) (hd' : d' ∈ w.sealings)
    (hkey : d.key = d'.key) (hnonce : d.nonce = d'.nonce) :
    d.header = d'.header ∧ d.payload = d'.payload :=
  (h.invariant inv_new (fun _ _ _ _ hi hok hs => hi.step hok hs)).unique d hd d' hd' hkey hnonce

/-! ## An offer that is accepted twice -/

section Example

open CallController (plainSetup fair)

/-- A key that shows what it was derived from. -/
structure ShownKey where
  salt : List Nat
  key : List Nat
  info : String
deriving DecidableEq

/-- The transparent cipher traces are run with. -/
instance : VoipCrypto ShownKey where
  hkdf := ShownKey.mk
  aeadEncrypt _ _ _ payload := some payload
  hkdf_inj _ _ _ _ _ _ _ _ _ _ h := ShownKey.mk.inj h
  hkdf_info _ _ _ _ h := (ShownKey.mk.inj h).2.2

/-- Thirty-two bytes and sixteen, all zero. -/
def zeroKeyB64 : String := "AAAAAAAAAAAAAAAAAAAAAAAAAAAAAAAAAAAAAAAAAAA="

def zeroSidB64 : String := "AAAAAAAAAAAAAAAAAAAAAA=="

def zeroDialogue : CallDialogue where
  name p := if p then "bob" else "alice"
  key := zeroKeyB64
  cfg _ := { plainSetup with masterKeyFor _ := zeroKeyB64 }
  named := CallWorld.named_plain
  keyed := by decide
  displays p := by cases p <;> decide
  holds _ := rfl

/-- Alice calls, Bob accepts and speaks. -/
def spokenRun : List VoipLabel :=
  [.act false (.start "bob" zeroKeyB64 "c" zeroSidB64 fair),
    .deliver false (.offer "c" zeroSidB64 []) fair, .act true (.accept fair),
    .media true (.peer "192.0.2.1:7"), .media true (.voice [1]), .media true (.voice [2])]

/-- He hangs up, her offer comes once more, and he accepts and speaks again. -/
def repeatedRun : List VoipLabel :=
  spokenRun ++ [.act true (.hangup "" fair), .deliver false (.offer "c" zeroSidB64 []) fair,
    .act true (.accept fair), .media true (.peer "192.0.2.1:7"), .media true (.voice [3])]

theorem nonce_reused :
    ∃ w : VoipWorld ShownKey, Lts.exec (step zeroDialogue) (new (fun _ => "")) repeatedRun = some w
      ∧ ∃ d ∈ w.sealings, ∃ d' ∈ w.sealings,
        d.key = d'.key ∧ d.nonce = d'.nonce ∧ d.payload ≠ d'.payload :=
  ⟨_, rfl, by decide +kernel⟩

theorem nonce_unique_spokenRun :
    ∃ w : VoipWorld ShownKey, w.sealings.length = 2
      ∧ ∀ d ∈ w.sealings, ∀ d' ∈ w.sealings, d.key = d'.key → d.nonce = d'.nonce →
        d.header = d'.header ∧ d.payload = d'.payload := by
  have hrun : (Lts.execWhile (step zeroDialogue) Fresh (new (fun _ => "") : VoipWorld ShownKey)
      spokenRun).isSome = true := by decide +kernel
  have hr := Lts.reach_getD hrun
  exact ⟨_, by decide +kernel, fun _ hd _ hd' hk hn => nonce_unique hr hd hd' hk hn⟩

end Example

end VoipWorld

end Paranoia
