import Paranoia.Proof.MediaReceive
import Paranoia.Proof.VideoPackets

/-!
# What is shown was filmed

From a camera to the decoder of the other side: units are cut, numbered, sealed, sent through a
network that may do what it likes, opened, checked for replays, handed over or dropped, and put
together again. Two invariants meet at the frames a session hands over: what a session has taken
of its camera's packets (`Sent`), and what an engine has seen of the other side's (`Watched`). A
decoder is given nothing but units the other side has filmed, and each once at most
(`decoded_filmed`).
-/

namespace Paranoia

variable {κ : Type} [VoipAead κ]

/-! ## The sessions beside -/

/-- Every packet of video can be sealed. -/
def SealsVideo (κ : Type) [VoipAead κ] : Prop :=
  ∀ (key : κ) (nonce aad payload : List UInt8), nonce.length = 12 →
    payload.length ≤ CallEngine.kMaxFragmentPayload →
    (VoipCrypto.aeadEncrypt key nonce aad payload).isSome

namespace VoipSession

variable {s : VoipSession} {e : VoipEvent}

theorem peer_none_handle (h : (s.handle (κ := κ) e).1.peer = none) : s.peer = none := by
  have hsend : ∀ header payload, (s.sendOn (κ := κ) header payload).1.peer = s.peer := by
    intro header payload
    unfold sendOn
    split
    · rfl
    · split <;> rfl
  cases e with
  | peer address => cases h
  | voice frame => exact (hsend _ _).symm.trans h
  | video flags rtpTimestamp payload => exact (hsend _ _).symm.trans h
  | keepalive => exact (hsend _ _).symm.trans h

/-- With somebody to send it to, a packet of video is sealed under the next number. -/
theorem handle_video (hseals : SealsVideo κ) {p : VideoOutboundPacket} (hp : p.Cut)
    (hpeer : s.peer ≠ none) :
    ∃ d : SealedDatagram κ, s.handle (.video p.flags p.rtpTimestamp p.payload)
        = (⟨s.params, Function.update s.txSeq .video (saturatingAdd (s.txSeq .video) 1), s.peer⟩,
          some d)
      ∧ d.frame.sequence = s.txSeq .video
      ∧ d.frame.fragment = p.fragment (s.txSeq .video) := by
  obtain ⟨a, ha⟩ := Option.ne_none_iff_exists'.mp hpeer
  have hnonce : (buildNonce .video s.params.role.txDirection (s.txSeq .video)).length = 12 := rfl
  obtain ⟨c, hc⟩ := Option.isSome_iff_exists.mp (hseals (s.key .video) _
    (VoipHeader.encode ⟨.video, p.flags &&& ~~~reservedMask, s.txSeq .video, p.rtpTimestamp⟩)
    p.payload hnonce hp.small)
  unfold handle sendOn pack
  dsimp only
  rw [ha, hc]
  refine ⟨_, rfl, rfl, ?_⟩
  change VideoFragment.mk p.payload (s.txSeq .video) p.rtpTimestamp (p.flags &&& ~~~reservedMask)
    = _
  rw [hp.flags]
  rfl

end VoipSession

namespace MediaSide

variable {s s' : MediaSide} {data : List UInt8} {src : String}

/-- A side goes on, and its video does not. -/
structure Still (s s' : MediaSide) : Prop where
  peer : s'.tx.peer = none → s.tx.peer = none
  seq : s'.tx.txSeq .video = s.tx.txSeq .video
  params : s'.tx.params = s.tx.params
  taken : s'.taken .video = s.taken .video

theorem Still.refl (s : MediaSide) : Still s s := ⟨id, rfl, rfl, rfl⟩

theorem Still.process : Still s (s.processMediaDatagram κ data src) := by
  have hp : Processed κ s data src (s.processMediaDatagram κ data src) := processed
  revert hp
  generalize s.processMediaDatagram κ data src = s'
  intro hp
  cases hp with
  | dropped => exact .refl s
  | @admitted header payload hopens hnew =>
      refine ⟨fun h => ?_, ?_, ?_, ?_⟩
      · rw [handOver_tx] at h
        unfold acceptFrom at h
        dsimp only at h
        split at h
        · exact h
        · cases h
      · rw [handOver_tx, acceptFrom_txSeq]
      · rw [handOver_tx, acceptFrom_params]
      · unfold handOver
        split <;> rfl

theorem Still.recvFrom : Still s (s.recvFrom κ data src) := by
  unfold MediaSide.recvFrom
  dsimp only
  split
  · exact .refl s
  · exact .process

theorem Still.take : Still s (s.take .voice) := by
  unfold MediaSide.take
  split
  · exact .refl s
  · have hne : StreamId.video ≠ .voice := by decide
    refine ⟨id, rfl, rfl, ?_⟩
    dsimp only
    rw [Function.update_of_ne hne]

end MediaSide

namespace MediaWorld

variable {m m' : MediaWorld κ} {master sessionId : List Nat} {r r' : Role} {e : VoipEvent}

/-- The sessions go on, and nothing is sealed for the video of a side. -/
structure Still (m m' : MediaWorld κ) (r : Role) : Prop where
  side : MediaSide.Still (m.side r) (m'.side r)
  sealings : ∀ d ∈ m'.sealings, d.key = (m.side r).tx.key .video → d ∈ m.sealings

theorem Still.put {s : MediaSide} (h : MediaSide.Still (m.side r') s) (r : Role) :
    Still m (m.put r' s) r where
  side := by
    dsimp only [MediaWorld.put]
    by_cases hr : r = r'
    · subst hr
      rwa [Function.update_self]
    · rw [Function.update_of_ne hr]
      exact .refl _
  sealings _ hd _ := hd

theorem Still.media (hi : m.Inv master sessionId) (h : r ≠ r' ∨ e.stream? ≠ some .video) :
    Still m (m.media r' e) r := by
  have hreact : VoipWorld.Reaction (κ := κ) (m.side r').tx e ((m.side r').tx.handle e) :=
    VoipWorld.reaction _ e
  have hpeer : ((m.side r').tx.handle (κ := κ) e).1.peer = none → (m.side r').tx.peer = none :=
    VoipSession.peer_none_handle
  unfold MediaWorld.media
  dsimp only
  revert hreact hpeer
  generalize (m.side r').tx.handle (κ := κ) e = out
  intro hreact hpeer
  have hother : ∀ s : MediaSide, r ≠ r' →
      MediaSide.Still (m.side r) ((m.put r' s).side r) := by
    intro s hr
    dsimp only [MediaWorld.put]
    rw [Function.update_of_ne hr]
    exact .refl _
  cases hreact with
  | @none s' hparams hseq =>
      refine ⟨?_, fun d hd _ => hd⟩
      by_cases hr : r = r'
      · subst hr
        dsimp only [MediaWorld.put]
        rw [Function.update_self]
        exact ⟨hpeer, congrFun hseq _, hparams, rfl⟩
      · exact hother _ hr
  | @some s' d stream hstream hparams hseq hkey hnonce =>
      have hapart : r ≠ r' ∨ stream ≠ .video :=
        h.imp_right (fun hne heq => hne (heq ▸ hstream))
      refine ⟨?_, fun d' hd' hkey' => ?_⟩
      · by_cases hr : r = r'
        · subst hr
          have hne : stream ≠ .video := hapart.resolve_left (fun hne => hne rfl)
          dsimp only [MediaWorld.put]
          rw [Function.update_self]
          refine ⟨hpeer, ?_, hparams, rfl⟩
          dsimp only
          rw [hseq, Function.update_of_ne hne.symm]
        · exact hother _ hr
      · rcases List.mem_cons.mp hd' with rfl | hd'
        · exfalso
          rw [hkey, VoipSession.key, VoipSession.key, hi.params, hi.params] at hkey'
          obtain ⟨hrole, hstream'⟩ := VoipWorld.derive_role hkey'
          rcases hapart with hne | hne
          · exact hne hrole.symm
          · exact hne hstream'
        · exact hd'

/-- A step aside leaves the video alone. -/
theorem Still.step (hi : m.Inv master sessionId) {l : MediaLabel} (haside : l.isAside = true)
    (hs : m.step l = some m') (r : Role) : Still m m' r := by
  cases l with
  | media r' e =>
      rw [MediaWorld.step] at hs
      split at hs
      · cases hs
        refine .media hi (.inr (fun habs => ?_))
        cases e with
        | video _ _ _ => exact Bool.false_ne_true haside
        | voice _ | keepalive | peer _ => cases habs
      · cases hs
  | datagram r' bytes src =>
      rw [MediaWorld.step] at hs
      split at hs
      · cases hs
        exact .put (MediaSide.Still.recvFrom (κ := κ)) r
      · cases hs
  | indication r' payload src =>
      rw [MediaWorld.step] at hs
      split at hs
      · cases hs
        exact .put (MediaSide.Still.process (κ := κ)) r
      · cases hs
  | take r' stream =>
      cases hs
      cases stream with
      | voice => exact .put .take r
      | video => exact absurd haside Bool.false_ne_true
  | close r' stream =>
      cases hs
      have hside : MediaSide.Still (m.side r') ((m.side r').close stream) := ⟨id, rfl, rfl, rfl⟩
      exact .put hside r

end MediaWorld

namespace VideoCall

open CallEngine (packets numbered)

variable {w : VideoCall κ} {master sessionId : List Nat} {r : Role}
  {lost sent sent' : List VideoOutboundPacket} {seen : List VideoFragment}

/-! ## What is sent -/

theorem getElem?_of_prefix {n : Nat} {p : VideoOutboundPacket} (h : sent <+: sent')
    (hp : sent[n]? = some p) : sent'[n]? = some p := by
  obtain ⟨more, rfl⟩ := h
  rw [List.getElem?_append_left (List.getElem?_eq_some_iff.mp hp).1]
  exact hp

/-- What the session of a side has taken: some packets were lost as long as it knew no address,
and the others are sealed, each under its place. -/
structure Sent (w : VideoCall κ) (r : Role) (lost sent : List VideoOutboundPacket) : Prop where
  queued : lost ++ (sent ++ w.outbound r) = packets (w.filmed r)
  silent : (w.media.side r).tx.peer = none → sent = []
  counted : (w.media.side r).tx.txSeq .video = sent.length
  sealed : ∀ d ∈ w.media.sealings, d.key = (w.media.side r).tx.key .video →
    ∃ p, sent[d.frame.sequence]? = some p ∧ d.frame.fragment = p.fragment d.frame.sequence

theorem Sent.still (h : Sent w r lost sent) {w' : VideoCall κ}
    (hs : MediaWorld.Still w.media w'.media r) (hout : w'.outbound r = w.outbound r)
    (hfilmed : w'.filmed r = w.filmed r) : Sent w' r lost sent where
  queued := by rw [hout, hfilmed, h.queued]
  silent hpeer := h.silent (hs.side.peer hpeer)
  counted := hs.side.seq.trans h.counted
  sealed d hd hkey := by
    have hkey' : d.key = (w.media.side r).tx.key .video := by
      rw [hkey, VoipSession.key, hs.side.params, VoipSession.key]
    exact h.sealed d (hs.sealings d hd hkey') hkey'

/-- The session takes a packet, which is lost or the next one sealed. -/
theorem Sent.send (hseals : SealsVideo κ) (h : Sent w r lost sent)
    (hfew : (packets (w.filmed r)).length < u64Size) {p : VideoOutboundPacket}
    {rest : List VideoOutboundPacket} (hq : w.outbound r = p :: rest) :
    ∃ lost' sent', sent <+: sent' ∧ Sent { w with
      media := w.media.media r (.video p.flags p.rtpTimestamp p.payload)
      outbound := Function.update w.outbound r rest } r lost' sent' := by
  have hqueued := h.queued
  rw [hq] at hqueued
  have hp : p.Cut := CallEngine.cut_packets _ p (by rw [← hqueued]; simp)
  cases hpeer : (w.media.side r).tx.peer with
  | none =>
      have hnil := h.silent hpeer
      subst hnil
      have hhandle : (w.media.side r).tx.handle (κ := κ)
          (.video p.flags p.rtpTimestamp p.payload) = ((w.media.side r).tx, none) := by
        rw [VoipSession.handle, VoipSession.sendOn, hpeer]
      refine ⟨lost ++ [p], [], List.prefix_refl _, ?_, fun _ => rfl, ?_, ?_⟩
      · dsimp only
        rw [Function.update_self, ← hqueued]
        simp
      · dsimp only [MediaWorld.media, MediaWorld.put]
        rw [Function.update_self, hhandle]
        exact h.counted
      · dsimp only [MediaWorld.media, MediaWorld.put]
        rw [Function.update_self, hhandle]
        exact h.sealed
  | some a =>
      have hsome : (w.media.side r).tx.peer ≠ none := by rw [hpeer]; exact Option.some_ne_none a
      obtain ⟨d, hhandle, hseq, hd⟩ := VoipSession.handle_video hseals hp hsome
      have hlen : sent.length + 1 < u64Size := by
        have := congrArg List.length hqueued
        simp only [List.length_append, List.length_cons] at this
        omega
      refine ⟨lost, sent ++ [p], List.prefix_append _ _, ?_, fun hnone => ?_, ?_, ?_⟩
      · dsimp only
        rw [Function.update_self, ← hqueued]
        simp
      · dsimp only [MediaWorld.media, MediaWorld.put] at hnone
        rw [Function.update_self, hhandle] at hnone
        exact absurd hnone hsome
      · dsimp only [MediaWorld.media, MediaWorld.put]
        rw [Function.update_self, hhandle]
        dsimp only
        rw [Function.update_self, h.counted, List.length_append, saturatingAdd]
        simp only [List.length_cons, List.length_nil]
        omega
      · dsimp only [MediaWorld.media, MediaWorld.put]
        rw [Function.update_self, hhandle]
        intro d' hd' hkey
        rcases List.mem_cons.mp hd' with rfl | hd'
        · refine ⟨p, ?_, ?_⟩
          · rw [hseq, h.counted]
            exact List.getElem?_concat_length ..
          · rw [hseq, hd]
        · obtain ⟨p', hp', hfragment⟩ := h.sealed d' hd' hkey
          exact ⟨p', getElem?_of_prefix (List.prefix_append _ _) hp', hfragment⟩

/-! ## What is taken -/

/-- A unit has begun among what was sent up to this number. -/
def Begun (sent : List VideoOutboundPacket) (n : Nat) : Prop :=
  ∃ m ≤ n, ∃ p, sent[m]? = some p ∧ p.first = true

/-- The engine of a side has put together what it has seen of the other side's packets; those
from before any unit it has not looked at. -/
structure Watched (w : VideoCall κ) (r : Role) (sent : List VideoOutboundPacket)
    (seen : List VideoFragment) : Prop where
  sound : VideoReassembly.Sound seen (w.decoded r) (w.engine r).reassembly
  taken : seen.Sublist (((w.media.side r).taken .video).map InboundFrame.fragment)
  sent : ∀ f ∈ seen, Begun sent f.sequence
    ∧ ∃ p, sent[f.sequence]? = some p ∧ f = p.fragment f.sequence

omit [VoipAead κ] in
theorem Watched.mono (h : Watched w r sent seen) (hsent : sent <+: sent') :
    Watched w r sent' seen where
  sound := h.sound
  taken := h.taken
  sent f hf := by
    obtain ⟨⟨m, hm, q, hq, hfirst⟩, p, hp, hfp⟩ := h.sent f hf
    exact ⟨⟨m, hm, q, getElem?_of_prefix hsent hq, hfirst⟩, p, getElem?_of_prefix hsent hp, hfp⟩

omit [VoipAead κ] in
theorem Watched.congr (h : Watched w r sent seen) {w' : VideoCall κ}
    (htaken : (w'.media.side r).taken .video = (w.media.side r).taken .video)
    (hengine : (w'.engine r).reassembly = (w.engine r).reassembly)
    (hdecoded : w'.decoded r = w.decoded r) : Watched w' r sent seen where
  sound := by rw [hengine, hdecoded]; exact h.sound
  taken := by rw [htaken]; exact h.taken
  sent := h.sent

/-- What the engine does with a fragment, as far as the units go. -/
theorem enqueue_cases (e : CallEngine.VideoIn) (inits : Bool) (f : VideoFragment)
    (generation : Nat) :
    ((CallEngine.enqueueIncomingVideoFragment e inits f generation).1.reassembly = e.reassembly
      ∧ (CallEngine.enqueueIncomingVideoFragment e inits f generation).2 = none)
    ∨ ((CallEngine.enqueueIncomingVideoFragment e inits f generation).1.reassembly
        = (e.reassembly.push f).1
      ∧ (CallEngine.enqueueIncomingVideoFragment e inits f generation).2
        = (e.reassembly.push f).2) := by
  have hmake : ∀ e : CallEngine.VideoIn, (e.makeDecoder inits).reassembly = e.reassembly := by
    intro e
    unfold CallEngine.VideoIn.makeDecoder
    split
    · split <;> rfl
    · rfl
  unfold CallEngine.enqueueIncomingVideoFragment
  split
  · exact .inl ⟨rfl, rfl⟩
  · dsimp only
    split
    · exact .inl ⟨hmake _, rfl⟩
    · rw [hmake]
      exact .inr ⟨rfl, rfl⟩

/-- The engine takes a frame, and drops it or puts it to the others. -/
theorem Watched.play (h : Watched w r sent seen) (hi : w.media.Inv master sessionId)
    (hsent : Sent w r.other lost sent) {frame : InboundFrame} {queue : List InboundFrame}
    (hq : ((w.media.side r).inbound .video).queue = frame :: queue) {w' : VideoCall κ}
    (htake : (w'.media.side r).taken .video = (w.media.side r).taken .video ++ [frame])
    (hengine : ((w'.engine r).reassembly = (w.engine r).reassembly
        ∧ w'.decoded r = w.decoded r)
      ∨ ((w'.engine r).reassembly = ((w.engine r).reassembly.push frame.fragment).1
        ∧ w'.decoded r = w.decoded r
          ++ ((w.engine r).reassembly.push frame.fragment).2.toList)) :
    ∃ seen', Watched w' r sent seen' := by
  have hheard : (w.media.side r).heard .video
      = (w.media.side r).taken .video ++ frame :: queue := by rw [MediaSide.heard, hq]
  -- the frame is a packet of the other side
  obtain ⟨-, d, hd, hkey, rfl⟩ := (hi.sound r).heard .video frame (by rw [hheard]; simp)
  rw [hi.rxKey_eq] at hkey
  obtain ⟨p, hp, hfragment⟩ := hsent.sealed d hd hkey
  have htaken : (seen ++ [d.frame.fragment]).Sublist
      (((w'.media.side r).taken .video).map InboundFrame.fragment) := by
    rw [htake, List.map_append]
    exact h.taken.append (List.Sublist.refl _)
  have hdropped : seen.Sublist (((w'.media.side r).taken .video).map InboundFrame.fragment) :=
    (List.sublist_append_left _ _).trans htaken
  -- and its number is new
  have hnodup : ((seen ++ [d.frame.fragment]).map VideoFragment.sequence).Nodup := by
    have honce := (hi.sound r).once .video
    rw [hheard] at honce
    have hbegins : ((w'.media.side r).taken .video).Sublist
        ((w.media.side r).taken .video ++ d.frame :: queue) := by
      rw [htake]
      exact (List.Sublist.refl _).append (List.singleton_sublist.mpr List.mem_cons_self)
    have hsub := (htaken.map VideoFragment.sequence).trans
      ((hbegins.map InboundFrame.fragment).map VideoFragment.sequence)
    have hnumbers : ∀ l : List InboundFrame,
        ((l.map InboundFrame.fragment).map VideoFragment.sequence).map UInt64.ofNat
          = l.map (fun f => UInt64.ofNat f.sequence) := by
      intro l
      rw [List.map_map, List.map_map]
      rfl
    exact List.Nodup.of_map UInt64.ofNat
      (honce.sublist (hnumbers _ ▸ hsub.map UInt64.ofNat))
  have hu64 : ∀ b ∈ seen ++ [d.frame.fragment], b.sequence < u64Size := by
    have hlen : sent.length < u64Size := hsent.counted ▸ hi.counted r.other .video
    intro b hb
    rcases List.mem_append.mp hb with hb | hb
    · obtain ⟨-, q, hq, -⟩ := h.sent b hb
      exact Nat.lt_trans (List.getElem?_eq_some_iff.mp hq).1 hlen
    · rw [List.mem_singleton.mp hb]
      exact Nat.lt_trans (List.getElem?_eq_some_iff.mp hp).1 hlen
  rcases hengine with ⟨hsame, hdecoded⟩ | ⟨hpush, hdecoded⟩
  · exact ⟨seen, by rw [hsame, hdecoded]; exact h.sound, hdropped, h.sent⟩
  · by_cases hbegun : Begun sent d.frame.sequence
    · refine ⟨seen ++ [d.frame.fragment], ?_, htaken, fun f hf => ?_⟩
      · rw [hpush, hdecoded]
        exact h.sound.push hnodup hu64
      · rcases List.mem_append.mp hf with hf | hf
        · exact h.sent f hf
        · rw [List.mem_singleton.mp hf]
          exact ⟨hbegun, p, hp, hfragment⟩
    · -- a fragment from before all units is below whatever is under assembly
      have hfirst : d.frame.fragment.first = false := by
        refine Bool.eq_false_iff.mpr (fun habs => hbegun ⟨_, Nat.le_refl _, p, hp, ?_⟩)
        rw [hfragment] at habs
        exact habs
      have hlow : (w.engine r).reassembly.active = true →
          d.frame.fragment.sequence < (w.engine r).reassembly.startSeq := by
        intro hactive
        obtain ⟨a, ha, hafirst, haseq⟩ := h.sound.begun hactive
        obtain ⟨-, q, hq, haq⟩ := h.sent a ha
        refine Nat.lt_of_not_le (fun hle => hbegun ⟨a.sequence, haseq ▸ hle, q, hq, ?_⟩)
        rw [haq] at hafirst
        exact hafirst
      obtain ⟨hnone, hsound⟩ := h.sound.skip hfirst hlow
      refine ⟨seen, ?_, hdropped, h.sent⟩
      rw [hpush, hdecoded, hnone, Option.toList_none, List.append_nil]
      exact hsound

/-! ## A call -/

/-- Sealing is left to the two sides, and nobody films so much that the numbers run out. -/
def Unforging (w : VideoCall κ) : VideoLabel → Prop
  | .film r encoded pts90khz =>
      (packets (w.filmed r)).length + (packets (encoded.map (fun nal => (nal, pts90khz)))).length
        < u64Size
  | .other l => w.media.Unforging l
  | .send _ | .play .. | .decoder .. | .teardown _ => True

theorem taken_media (m : MediaWorld κ) (r r' : Role) (e : VoipEvent) :
    ((m.media r' e).side r).taken = (m.side r).taken := by
  dsimp only [MediaWorld.media, MediaWorld.put]
  by_cases hr : r = r'
  · rw [hr, Function.update_self]
  · rw [Function.update_of_ne hr]

structure Inv (master sessionId : List Nat) (w : VideoCall κ) : Prop where
  media : w.media.Inv master sessionId
  few : ∀ r, (packets (w.filmed r)).length < u64Size
  linked : ∀ r, ∃ lost sent seen, Sent w r.other lost sent ∧ Watched w r sent seen

theorem inv_init {inboundBuffer : Role → Nat} {hasSink : Role → Bool} :
    Inv master sessionId (init master sessionId inboundBuffer hasSink : VideoCall κ) where
  media := MediaWorld.inv_init
  few _ := Nat.two_pow_pos 64
  linked r := by
    have hsound : VideoReassembly.Sound [] [] .empty :=
      ⟨.idle rfl, List.forall_mem_nil _, fun habs => absurd habs Bool.false_ne_true,
        List.nodup_nil⟩
    exact ⟨[], [], [], ⟨rfl, fun _ => rfl, rfl, List.forall_mem_nil _⟩,
      ⟨hsound, List.nil_sublist _, List.forall_mem_nil _⟩⟩

theorem Inv.step (hseals : SealsVideo κ) (h : Inv master sessionId w) {l : VideoLabel}
    (hok : w.Unforging l) {w' : VideoCall κ} (hs : w.step l = some w') :
    Inv master sessionId w' := by
  cases l with
  | film r' encoded pts90khz =>
      rw [VideoCall.step] at hs
      split at hs
      · cases hs
        refine ⟨h.media, fun r => ?_, fun r => ?_⟩
        · dsimp only
          by_cases hr : r = r'
          · rw [hr, Function.update_self, CallEngine.packets_append, List.length_append]
            exact hok
          · rw [Function.update_of_ne hr]
            exact h.few r
        · obtain ⟨lost, sent, seen, hsent, hwatched⟩ := h.linked r
          refine ⟨lost, sent, seen, ⟨?_, hsent.silent, hsent.counted, hsent.sealed⟩,
            hwatched.congr rfl rfl rfl⟩
          dsimp only
          by_cases hr : r.other = r'
          · rw [hr, Function.update_self, Function.update_self, CallEngine.packets_append, ← hr,
              ← hsent.queued]
            simp only [List.append_assoc]
          · rw [Function.update_of_ne hr, Function.update_of_ne hr, hsent.queued]
      · cases hs
  | send r' =>
      rw [VideoCall.step] at hs
      split at hs
      · cases hs
      · rename_i p rest hq
        obtain ⟨media, hmedia, rfl⟩ := Option.map_eq_some_iff.mp hs
        have hinv := h.media.step (l := .media r' (.video p.flags p.rtpTimestamp p.payload))
          trivial hmedia
        rw [MediaWorld.step] at hmedia
        split at hmedia
        · cases hmedia
          refine ⟨hinv, h.few, fun r => ?_⟩
          obtain ⟨lost, sent, seen, hsent, hwatched⟩ := h.linked r
          by_cases hr : r.other = r'
          · subst hr
            obtain ⟨lost', sent', hbegins, hsent'⟩ := hsent.send hseals (h.few _) hq
            exact ⟨lost', sent', seen, hsent',
              (hwatched.mono hbegins).congr (congrFun (taken_media ..) _) rfl rfl⟩
          · refine ⟨lost, sent, seen, hsent.still (.media h.media (.inl hr)) ?_ rfl,
              hwatched.congr (congrFun (taken_media ..) _) rfl rfl⟩
            exact Function.update_of_ne hr _ _
        · cases hmedia
  | play r' inits =>
      rw [VideoCall.step] at hs
      split at hs
      · cases hs
      · rename_i frame queue hq
        obtain ⟨media, hmedia, rfl⟩ := Option.map_eq_some_iff.mp hs
        have hinv := h.media.step (l := .take r' .video) trivial hmedia
        cases hmedia
        have htake : ((w.media.side r').take .video).taken .video
            = (w.media.side r').taken .video ++ [frame] := by
          unfold MediaSide.take
          rw [hq]
          dsimp only
          rw [Function.update_self]
        refine ⟨hinv, h.few, fun r => ?_⟩
        obtain ⟨lost, sent, seen, hsent, hwatched⟩ := h.linked r
        have htx : ∀ x, ((w.media.put r' ((w.media.side r').take .video)).side x).tx
            = (w.media.side x).tx := by
          intro x
          dsimp only [MediaWorld.put]
          by_cases hx : x = r'
          · rw [hx, Function.update_self]
            unfold MediaSide.take
            split <;> rfl
          · rw [Function.update_of_ne hx]
        have hsent' : Sent (({ w with media := w.media.put r' ((w.media.side r').take .video) } :
            VideoCall κ).hand r' inits frame) r.other lost sent := by
          refine ⟨hsent.queued, fun hpeer => hsent.silent (htx _ ▸ hpeer), ?_, fun d hd hkey => ?_⟩
          · exact (congrArg (fun tx => tx.txSeq .video) (htx _)).trans hsent.counted
          · exact hsent.sealed d hd
              (hkey.trans (congrArg (fun tx : VoipSession => tx.key .video) (htx _)))
        by_cases hr : r = r'
        · subst hr
          have hwatched' : ∃ seen', Watched (({ w with
              media := w.media.put r ((w.media.side r).take .video) } : VideoCall κ).hand r inits
                frame) r sent seen' := by
            refine hwatched.play h.media hsent hq ?_ ?_
            · dsimp only [hand, setEngine, MediaWorld.put]
              rw [Function.update_self, htake]
            · dsimp only [hand, setEngine]
              rw [Function.update_self, Function.update_self]
              rcases enqueue_cases (w.engine r) inits frame.fragment (w.generation r) with
                ⟨hsame, hnone⟩ | ⟨hpush, hout⟩
              · exact .inl ⟨hsame, by rw [hnone, Option.toList_none, List.append_nil]⟩
              · exact .inr ⟨hpush, by rw [hout]⟩
          obtain ⟨seen', hwatched'⟩ := hwatched'
          exact ⟨lost, sent, seen', hsent', hwatched'⟩
        · refine ⟨lost, sent, seen, hsent', hwatched.congr ?_ ?_ ?_⟩
          · dsimp only [hand, setEngine, MediaWorld.put]
            rw [Function.update_of_ne hr]
          · dsimp only [hand, setEngine]
            rw [Function.update_of_ne hr]
          · dsimp only [hand]
            rw [Function.update_of_ne hr]
  | decoder r' has =>
      cases hs
      refine ⟨h.media, h.few, fun r => ?_⟩
      obtain ⟨lost, sent, seen, hsent, hwatched⟩ := h.linked r
      refine ⟨lost, sent, seen, ⟨hsent.queued, hsent.silent, hsent.counted, hsent.sealed⟩,
        hwatched.congr rfl ?_ rfl⟩
      dsimp only [setEngine]
      by_cases hr : r = r'
      · rw [hr, Function.update_self]
      · rw [Function.update_of_ne hr]
  | teardown r' =>
      cases hs
      refine ⟨h.media, h.few, fun r => ?_⟩
      obtain ⟨lost, sent, seen, hsent, hwatched⟩ := h.linked r
      refine ⟨lost, sent, seen, ⟨hsent.queued, hsent.silent, hsent.counted, hsent.sealed⟩, ?_⟩
      by_cases hr : r = r'
      · refine ⟨?_, hwatched.taken, hwatched.sent⟩
        dsimp only [setEngine]
        rw [hr, Function.update_self]
        exact hr ▸ hwatched.sound.reset
      · refine hwatched.congr rfl ?_ rfl
        dsimp only [setEngine]
        rw [Function.update_of_ne hr]
  | other l =>
      rw [VideoCall.step] at hs
      split at hs
      · rename_i haside
        obtain ⟨media, hmedia, rfl⟩ := Option.map_eq_some_iff.mp hs
        refine ⟨h.media.step hok hmedia, h.few, fun r => ?_⟩
        obtain ⟨lost, sent, seen, hsent, hwatched⟩ := h.linked r
        have hstill := fun r => MediaWorld.Still.step h.media haside hmedia r
        exact ⟨lost, sent, seen, hsent.still (hstill _) rfl rfl,
          hwatched.congr (hstill r).side.taken rfl rfl⟩
      · cases hs

theorem inv_reachable (hseals : SealsVideo κ) {inboundBuffer : Role → Nat}
    {hasSink : Role → Bool} (h : Lts.Reach step Unforging
      (init master sessionId inboundBuffer hasSink : VideoCall κ) w) : Inv master sessionId w :=
  h.invariant inv_init (fun _ _ _ _ hi hok hs => hi.step hseals hok hs)

/-! ## What is decoded -/

omit [VoipAead κ] in
/-- What has been seen of the other side are fragments of whole units of it. -/
theorem Watched.mem_pushed (h : Watched w r sent seen) {rest queue : List VideoOutboundPacket}
    {units : List (Bytes × Int)} (hall : sent ++ queue = rest ++ packets units)
    (hrest : ∀ p ∈ rest, p.first = false) :
    ∀ f ∈ seen, f ∈ CallEngine.pushed rest.length units := by
  intro f hf
  obtain ⟨⟨m, hm, q, hq, hfirst⟩, p, hp, hfp⟩ := h.sent f hf
  have hbeyond : rest.length ≤ m := by
    by_contra hlt
    have hmem := getElem?_of_prefix (List.prefix_append sent queue) hq
    rw [hall, List.getElem?_append_left (Nat.not_le.mp hlt)] at hmem
    rw [hrest q (List.mem_of_getElem? hmem)] at hfirst
    exact Bool.false_ne_true hfirst
  have hplace := getElem?_of_prefix (List.prefix_append sent queue) hp
  rw [hall, List.getElem?_append_right (Nat.le_trans hbeyond hm)] at hplace
  have hnumbered := CallEngine.getElem?_numbered rest.length (f.sequence - rest.length)
    (packets units)
  rw [hplace, CallEngine.numbered_packets, Option.map_some,
    Nat.add_sub_cancel' (Nat.le_trans hbeyond hm), ← hfp] at hnumbered
  exact List.mem_of_getElem? hnumbered

theorem cutUnits_sublist (sequence : Nat) (units : List (Bytes × Int)) :
    ((CallEngine.cutUnits sequence units).map Prod.fst).Sublist (units.map Prod.fst) := by
  induction units generalizing sequence with
  | nil => exact List.Sublist.refl _
  | cons unit units ih =>
      obtain ⟨nal, pts90khz⟩ := unit
      rw [CallEngine.cutUnits]
      split
      · exact (ih sequence).cons _
      · exact (ih _).cons_cons _

/-- **What is shown was filmed**: whatever the network delivers, a decoder is given units that the
other side's camera has filmed, as they were and each no more often than it was filmed. -/
theorem decoded_filmed (hseals : SealsVideo κ) {inboundBuffer : Role → Nat}
    {hasSink : Role → Bool} (h : Lts.Reach step Unforging
      (init master sessionId inboundBuffer hasSink : VideoCall κ) w) (r : Role) :
    ((w.decoded r).map Prod.snd).Subperm ((w.filmed r.other).map
      (fun unit => VideoReassembly.startCode ++ unit.1)) := by
  obtain ⟨lost, sent, seen, hsent, hwatched⟩ := (inv_reachable hseals h).linked r
  obtain ⟨rest, units, hall, hrest, hsuffix⟩ := CallEngine.packets_split hsent.queued
  have hseen := hwatched.mem_pushed hall hrest
  have hunits : (w.decoded r).Subperm ((CallEngine.cutUnits rest.length units).map
      (fun u => (CallEngine.number u, VideoReassembly.startCode ++ u.1))) := by
    refine List.subperm_of_subset hwatched.sound.nodup.of_map (fun o ho => ?_)
    obtain ⟨seen', hbegins, hover⟩ := hwatched.sound.handed o ho
    obtain ⟨u, hu, ts, hplaced, hout, -⟩ :=
      hover.exists_unit (fun b hb => hseen b (hbegins.subset hb))
    exact List.mem_map.mpr ⟨u, hu, Prod.ext hplaced.number_eq hout.symm⟩
  obtain ⟨shown, hperm, hshown⟩ := hunits
  refine ⟨shown.map Prod.snd, hperm.map _, (hshown.map _).trans ?_⟩
  have hsub := ((cutUnits_sublist rest.length units).trans
    (hsuffix.sublist.map Prod.fst)).map (fun nal => VideoReassembly.startCode ++ nal)
  rw [List.map_map, List.map_map] at hsub
  rw [List.map_map]
  exact hsub

/-! ## A picture -/

section Example

open MediaWorld (TaggedKey)

theorem sealsVideo_tagged : SealsVideo TaggedKey := by
  intro key nonce aad payload hnonce _
  simp only [VoipCrypto.aeadEncrypt]
  rw [if_pos hnonce]
  rfl

/-- Nothing has happened, and the side of an engine shows what it gets. -/
def dark : VideoCall TaggedKey := init [] [] (fun _ => 4) (fun _ => true)

def next (w : VideoCall TaggedKey) (l : VideoLabel) : VideoCall TaggedKey := (step w l).getD w

/-- What the steps lead to. -/
def after (ls : List VideoLabel) : VideoCall TaggedKey := ls.foldl next dark

/-- The initiator knows the address, has filmed a picture, and sent it. -/
def sendsPicture : List VideoLabel :=
  [.other (.media .initiator (.peer "bob")), .film .initiator [[101, 7]] 0, .send .initiator]

def picture : SealedDatagram TaggedKey where
  key := ⟨[], [], hkdfInfo .video true⟩
  nonce := [1, 0, 0, 0, 0, 0, 0, 0, 0, 0, 0, 0]
  header := ⟨.video, 3, 0, 0⟩
  payload := [101, 7]
  bytes := [1, 1, 3, 0, 0, 0, 0, 0, 0, 0, 0, 0, 0, 0, 0, 0, 101, 7,
    3, 1, 0, 0, 0, 0, 0, 0, 0, 0, 0, 0, 0, 0, 0, 0]

/-- It arrives, and the responder's engine takes it. -/
def showsPicture : List VideoLabel :=
  sendsPicture ++ [.other (.datagram .responder picture.bytes "alice"), .play .responder true]

theorem unforged_picture :
    (after sendsPicture).media.Unforged .responder (picture.bytes.take (maxDatagram + 512)) := by
  have hsealings : (after sendsPicture).media.sealings = [picture] := by decide +kernel
  have hparams : ((after sendsPicture).media.side .responder).tx.params = ⟨.responder, [], []⟩ := by
    decide +kernel
  have htake : picture.bytes.take (maxDatagram + 512) = picture.bytes := by decide +kernel
  rw [htake]
  intro stream nonce plain hopen
  have hlen : (picture.bytes.drop voipHeaderLen).length - voipTagLen = 2 := rfl
  simp only [VoipAead.aeadDecrypt, hlen] at hopen
  rw [hsealings]
  simp only [MediaSide.rxKey, hparams] at hopen ⊢
  split at hopen
  · rename_i hok
    cases hopen
    obtain ⟨-, htag⟩ := hok
    have hbyte : some 3 = some (SessionKeys.derive (κ := TaggedKey) ⟨.responder, [], []⟩
        stream).rx.byte := congrArg List.head? htag
    have hnonce : picture.nonce ++ [0, 0, 0] = nonce ++ [0, 0, 0] := congrArg List.tail htag
    cases stream with
    | video =>
        exact ⟨picture, List.mem_cons_self, rfl, List.append_cancel_right hnonce, rfl, rfl⟩
    | voice => exact absurd hbyte (by decide)
  · cases hopen

theorem reach_next {w : VideoCall TaggedKey} {l : VideoLabel}
    (hr : Lts.Reach step Unforging dark w) (hok : w.Unforging l)
    (hs : (step w l).isSome = true) : Lts.Reach step Unforging dark (next w l) := by
  obtain ⟨w', hw'⟩ := Option.isSome_iff_exists.mp hs
  rw [next, hw', Option.getD_some]
  exact .tail hr hok hw'

theorem reach_picture : Lts.Reach step Unforging dark (after showsPicture) := by
  have hknows : Lts.Reach step Unforging dark
      (after [.other (.media .initiator (.peer "bob"))]) :=
    reach_next (l := .other (.media .initiator (.peer "bob"))) .refl trivial rfl
  have hfew : (packets []).length + (packets [([101, 7], 0)]).length < u64Size := by
    decide +kernel
  have hfilms : Lts.Reach step Unforging dark
      (after [.other (.media .initiator (.peer "bob")), .film .initiator [[101, 7]] 0]) :=
    reach_next (l := .film .initiator [[101, 7]] 0) hknows hfew (by decide +kernel)
  have hsends : Lts.Reach step Unforging dark (after sendsPicture) :=
    reach_next (l := .send .initiator) hfilms trivial (by decide +kernel)
  have harrives : Lts.Reach step Unforging dark
      (after (sendsPicture ++ [.other (.datagram .responder picture.bytes "alice")])) :=
    reach_next (l := .other (.datagram .responder picture.bytes "alice")) hsends unforged_picture
      (by decide +kernel)
  exact reach_next (l := .play .responder true) harrives trivial (by decide +kernel)

/-- The picture is shown. -/
theorem decoded_filmed_picture :
    ((after showsPicture).decoded .responder).map Prod.snd = [[0, 0, 0, 1, 101, 7]]
      ∧ (((after showsPicture).decoded .responder).map Prod.snd).Subperm
        (((after showsPicture).filmed .initiator).map
          (fun unit => VideoReassembly.startCode ++ unit.1)) :=
  ⟨by decide +kernel, decoded_filmed sealsVideo_tagged reach_picture .responder⟩

end Example

end VideoCall

end Paranoia
