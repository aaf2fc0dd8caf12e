import Mathlib.Data.List.Perm.Subperm
import Paranoia.Client.MediaReceive
import Paranoia.Lib.Lts
import Paranoia.Proof.NonceUse
import Paranoia.Proof.ReplayWindow
import Paranoia.Proof.StunAgreement

/-!
# What an application hears of a call

The network delivers what it likes to both sides of a call, but it cannot seal: what opens under a
key of the call was sealed under it. Each stream of each direction has a key of its own, so what a
side hears on a stream is what the other side has sealed for this stream, and the replay window
lets every number through once (`media_secure`). The address of the peer moves only to where the
application says, or to where something the other side has sealed has come from.

A genuine datagram is heard exactly if the window admits its number and the channel has room
(`heard_iff`).
-/

namespace Paranoia

/-! ## Headers -/

/-- Flags and numbers are what a header has room for. -/
structure VoipHeader.Bounded (h : VoipHeader) : Prop where
  flags : h.flags &&& reservedMask = 0
  sequence : h.sequence < u64Size
  rtpTimestamp : h.rtpTimestamp < 2 ^ 32

theorem ofByte_asByte (stream : StreamId) : StreamId.ofByte stream.asByte = some stream := by
  cases stream <;> rfl

theorem VoipHeader.encode_eq (h : VoipHeader) :
    h.encode = voipVersion :: h.streamId.asByte :: h.flags :: 0 ::
      (BigEndian.bytes 8 h.sequence ++ BigEndian.bytes 4 h.rtpTimestamp) := by
  rw [VoipHeader.encode, List.append_assoc]
  rfl

theorem VoipHeader.length_encode (h : VoipHeader) : h.encode.length = voipHeaderLen := by
  rw [h.encode_eq]
  simp only [List.length_cons, List.length_append, BigEndian.length_bytes]
  rfl

/-- A header is read back as it was written. -/
theorem VoipHeader.decode_encode {h : VoipHeader} (hb : h.Bounded) :
    VoipHeader.decode h.encode = .ok h := by
  have hlen : ¬ h.encode.length < voipHeaderLen := by
    rw [h.length_encode]
    exact Nat.lt_irrefl _
  have hseq : slice h.encode 4 8 = BigEndian.bytes 8 h.sequence := by
    rw [h.encode_eq]
    exact List.take_left' (BigEndian.length_bytes 8 _)
  have hrtp : slice h.encode 12 4 = BigEndian.bytes 4 h.rtpTimestamp := by
    have hdrop : h.encode.drop 12 = BigEndian.bytes 4 h.rtpTimestamp := by
      rw [h.encode_eq]
      exact List.drop_left' (BigEndian.length_bytes 8 _)
    rw [slice, hdrop]
    exact List.take_of_length_le (Nat.le_of_eq (BigEndian.length_bytes 4 _))
  have h0 : byteAt h.encode 0 = voipVersion := by rw [h.encode_eq]; rfl
  have h1 : byteAt h.encode 1 = h.streamId.asByte := by rw [h.encode_eq]; rfl
  have h2 : byteAt h.encode 2 = h.flags := by rw [h.encode_eq]; rfl
  have h3 : byteAt h.encode 3 = 0 := by rw [h.encode_eq]; rfl
  unfold VoipHeader.decode
  rw [if_neg hlen, h0, if_neg (not_not_intro rfl), h1, ofByte_asByte]
  dsimp only
  rw [h2, if_neg (not_not_intro hb.flags), h3, if_neg (not_not_intro rfl), hseq, hrtp,
    BigEndian.ofBytes_bytes (k := 8) hb.sequence, BigEndian.ofBytes_bytes (k := 4) hb.rtpTimestamp]

/-! ## Keys -/

section

variable {κ : Type} [VoipCrypto κ]

theorem Role.txDirection_other (r : Role) : r.other.txDirection = r.rxDirection := by
  cases r <;> rfl

/-- What one side sends under, the other receives under. -/
theorem derive_other (r : Role) (master sessionId : List Nat) (stream : StreamId) :
    (SessionKeys.derive ⟨r, master, sessionId⟩ stream : SessionKeys κ).rx
      = (SessionKeys.derive ⟨r.other, master, sessionId⟩ stream).tx := by
  cases r <;> rfl

end

/-- What the application is given of a datagram. -/
def SealedDatagram.frame {κ : Type} (d : SealedDatagram κ) : InboundFrame where
  stream := d.header.streamId
  sequence := d.header.sequence
  rtpTimestamp := d.header.rtpTimestamp
  flags := d.header.flags
  opus := d.payload

variable {κ : Type} [VoipAead κ]

/-- The datagram was sealed by this side of the call. -/
structure SealedDatagram.SealedBy (d : SealedDatagram κ) (params : SessionParams) : Prop where
  key : d.key = (SessionKeys.derive params d.header.streamId).tx
  nonce : d.nonce = buildNonce d.header.streamId params.role.txDirection d.header.sequence
  bounded : d.header.Bounded
  bytes : ∃ ciphertext, VoipCrypto.aeadEncrypt d.key d.nonce d.header.encode d.payload
    = some ciphertext ∧ d.bytes = d.header.encode ++ ciphertext

/-- **A datagram opens where it is meant to.** -/
theorem SealedDatagram.SealedBy.unpack {d : SealedDatagram κ} {r : Role}
    {master sessionId : List Nat} (h : d.SealedBy ⟨r.other, master, sessionId⟩) :
    Paranoia.unpack d.bytes
        (SessionKeys.derive ⟨r, master, sessionId⟩ d.header.streamId : SessionKeys κ).rx
        r.rxDirection
      = .ok (d.header, d.payload) := by
  obtain ⟨ciphertext, hseal, hbytes⟩ := h.bytes
  have hlen := VoipAead.length_aeadEncrypt _ _ _ _ _ hseal
  have htake : d.bytes.take voipHeaderLen = d.header.encode := by
    rw [hbytes]
    exact List.take_left' d.header.length_encode
  have hdrop : d.bytes.drop voipHeaderLen = ciphertext := by
    rw [hbytes]
    exact List.drop_left' d.header.length_encode
  have hlong : ¬ d.bytes.length < voipHeaderLen + voipTagLen := by
    rw [hbytes, List.length_append, d.header.length_encode, hlen]
    omega
  have hopen : VoipAead.aeadDecrypt
      (SessionKeys.derive ⟨r, master, sessionId⟩ d.header.streamId : SessionKeys κ).rx
      (buildNonce d.header.streamId r.rxDirection d.header.sequence) d.header.encode ciphertext
        = .ok d.payload := by
    rw [derive_other, ← h.key, ← r.txDirection_other]
    have hnonce : d.nonce = buildNonce d.header.streamId r.other.txDirection d.header.sequence :=
      h.nonce
    rw [← hnonce]
    exact VoipAead.aeadDecrypt_aeadEncrypt _ _ _ _ _ hseal
  unfold Paranoia.unpack
  rw [if_neg hlong, htake, VoipHeader.decode_encode h.bounded]
  dsimp only
  rw [hdrop, hopen]

/-! ## What a side seals -/

theorem and_reserved (flags : UInt8) : flags &&& ~~~reservedMask &&& reservedMask = 0 := by
  rw [UInt8.and_assoc]
  have : ~~~reservedMask &&& reservedMask = 0 := by decide
  rw [this]
  exact UInt8.and_zero

theorem sealedBy_sendOn {s : VoipSession} {header : VoipHeader} {payload : List UInt8}
    {d : SealedDatagram κ} (hb : header.Bounded)
    (h : (s.sendOn header payload).2 = some d) : d.SealedBy s.params := by
  unfold VoipSession.sendOn at h
  split at h
  · cases h
  · split at h
    · cases h
    · rename_i d' hd
      cases h
      unfold pack at hd
      obtain ⟨ciphertext, hseal, rfl⟩ := Option.map_eq_some_iff.mp hd
      exact ⟨rfl, rfl, hb, ciphertext, hseal, rfl⟩

theorem voiceTimestamp_lt (seq : Nat) : voiceTimestamp seq < 2 ^ 32 :=
  Nat.mod_lt _ (by decide)

theorem sealedBy_handle {s : VoipSession} {e : VoipEvent} {d : SealedDatagram κ}
    (hcount : ∀ stream, s.txSeq stream < u64Size) (he : e.Bounded)
    (h : (s.handle e).2 = some d) : d.SealedBy s.params := by
  cases e with
  | voice frame =>
      have hflags : (0 : UInt8) &&& reservedMask = 0 := by decide
      exact sealedBy_sendOn ⟨hflags, hcount _, voiceTimestamp_lt _⟩ h
  | video flags rtpTimestamp payload =>
      have he : rtpTimestamp < 2 ^ 32 := he
      exact sealedBy_sendOn ⟨and_reserved flags, hcount _, he⟩ h
  | keepalive =>
      have hflags : comfortNoise &&& reservedMask = 0 := by decide
      exact sealedBy_sendOn ⟨hflags, hcount _, voiceTimestamp_lt _⟩ h
  | peer address => cases h

theorem counted_handle {s : VoipSession} {e : VoipEvent}
    (hcount : ∀ stream, s.txSeq stream < u64Size) (stream : StreamId) :
    (s.handle (κ := κ) e).1.txSeq stream < u64Size := by
  have hlt : ∀ n, saturatingAdd n 1 < u64Size := fun n => by
    have : 0 < u64Size := by decide
    exact Nat.lt_of_le_of_lt (Nat.min_le_right _ _) (Nat.sub_lt this Nat.one_pos)
  have hr : VoipWorld.Reaction (κ := κ) s e (s.handle e) := VoipWorld.reaction s e
  revert hr
  generalize s.handle (κ := κ) e = out
  intro hr
  cases hr with
  | none hparams hseq => exact hseq ▸ hcount stream
  | @some s' d stream' hstream hparams hseq hkey hnonce =>
      dsimp only
      rw [hseq]
      by_cases hs : stream = stream'
      · rw [hs, Function.update_self]
        exact hlt _
      · rw [Function.update_of_ne hs]
        exact hcount stream

theorem params_handle {s : VoipSession} {e : VoipEvent} :
    (s.handle (κ := κ) e).1.params = s.params := by
  have hr : VoipWorld.Reaction (κ := κ) s e (s.handle e) := VoipWorld.reaction s e
  revert hr
  generalize s.handle (κ := κ) e = out
  intro hr
  cases hr with
  | none hparams hseq => exact hparams
  | some hstream hparams hseq hkey hnonce => exact hparams

theorem peer_handle {s : VoipSession} {e : VoipEvent} {a : String}
    (h : (s.handle (κ := κ) e).1.peer = some a) : s.peer = some a ∨ e = .peer a := by
  have hsend : ∀ header payload, (s.sendOn (κ := κ) header payload).1.peer = s.peer := by
    intro header payload
    unfold VoipSession.sendOn
    split
    · rfl
    · split <;> rfl
  cases e with
  | peer address =>
      cases h
      exact .inr rfl
  | voice frame => exact .inl ((hsend _ _).symm.trans h)
  | video flags rtpTimestamp payload => exact .inl ((hsend _ _).symm.trans h)
  | keepalive => exact .inl ((hsend _ _).symm.trans h)

/-! ## What a side does with a datagram -/

namespace MediaSide

variable {s s' : MediaSide} {data : List UInt8} {src : String}

/-- A datagram is dropped, or it opens with a number that is new, and its frame is handed over. -/
inductive Processed (κ : Type) [VoipAead κ] (s : MediaSide) (data : List UInt8) (src : String) :
    MediaSide → Prop
  | dropped : Processed κ s data src s
  | admitted {header : VoipHeader} {payload : List UInt8}
      (hopens : unpack data (s.rxKey header.streamId : κ) s.tx.params.role.rxDirection
        = .ok (header, payload))
      (hnew : ((s.window header.streamId).checkAndUpdate (UInt64.ofNat header.sequence)).1 = true) :
      Processed κ s data src
        ((s.acceptFrom header
          ((s.window header.streamId).checkAndUpdate (UInt64.ofNat header.sequence)).2 src).handOver
          ⟨header.streamId, header.sequence, header.rtpTimestamp, header.flags, payload⟩)

theorem processed : Processed κ s data src (s.processMediaDatagram κ data src) := by
  unfold processMediaDatagram
  split
  · exact .dropped
  · split
    · exact .dropped
    · split
      · exact .dropped
      · rename_i peeked _ _ header payload hopens
        split
        · exact .dropped
        · rename_i hstream
          obtain rfl := not_not.mp hstream
          split
          · exact .dropped
          · rename_i window hwindow
            have hwin : ((s.window header.streamId).checkAndUpdate
                (UInt64.ofNat header.sequence)) = (true, window) := hwindow
            have hnew : ((s.window header.streamId).checkAndUpdate
                (UInt64.ofNat header.sequence)).1 = true := by rw [hwin]
            have := @Processed.admitted κ _ s data src header payload hopens hnew
            rwa [hwin] at this

theorem rxKey_congr (h : s'.tx.params = s.tx.params) (stream : StreamId) :
    (s'.rxKey stream : κ) = s.rxKey stream := by
  rw [rxKey, rxKey, h]

/-- Handing over adds the frame to its stream, or does nothing to it. -/
theorem heard_handOver (s : MediaSide) (frame : InboundFrame) (stream : StreamId) :
    (s.handOver frame).heard stream = s.heard stream
      ∨ stream = frame.stream ∧ (s.handOver frame).heard stream = s.heard stream ++ [frame] := by
  unfold handOver Inbound.trySend
  split
  · rename_i ch hch
    split at hch
    · cases hch
    · split at hch
      · cases hch
      · cases hch
        by_cases hs : stream = frame.stream
        · subst hs
          refine .inr ⟨rfl, ?_⟩
          simp only [heard, Function.update_self, List.append_assoc]
        · refine .inl ?_
          simp only [heard, Function.update_of_ne hs]
  · exact .inl rfl
  · exact .inl rfl

theorem handOver_tx (frame : InboundFrame) : (s.handOver frame).tx = s.tx := by
  unfold handOver
  split <;> rfl

theorem handOver_window (frame : InboundFrame) : (s.handOver frame).window = s.window := by
  unfold handOver
  split <;> rfl

theorem handOver_accepted (frame : InboundFrame) : (s.handOver frame).accepted = s.accepted := by
  unfold handOver
  split <;> rfl

theorem handOver_arrived (frame : InboundFrame) : (s.handOver frame).arrived = s.arrived := by
  unfold handOver
  split <;> rfl

theorem handOver_told (frame : InboundFrame) : (s.handOver frame).told = s.told := by
  unfold handOver
  split <;> rfl

theorem acceptFrom_params (header : VoipHeader) (window : ReplayWindow) :
    (s.acceptFrom header window src).tx.params = s.tx.params := by
  unfold acceptFrom
  dsimp only
  split <;> rfl

theorem acceptFrom_txSeq (header : VoipHeader) (window : ReplayWindow) :
    (s.acceptFrom header window src).tx.txSeq = s.tx.txSeq := by
  unfold acceptFrom
  dsimp only
  split <;> rfl

/-! ## The invariant of a side -/

/-- The window stands for the numbers accepted, and what is heard was sealed for this side, under
a number that was accepted and is of no other frame. -/
structure Sound (sealings : List (SealedDatagram κ)) (s : MediaSide) : Prop where
  window : ∀ stream, (s.window stream).StandsFor (s.accepted stream)
  heard : ∀ stream, ∀ f ∈ s.heard stream, UInt64.ofNat f.sequence ∈ s.accepted stream
    ∧ ∃ d ∈ sealings, d.key = s.rxKey stream ∧ d.frame = f
  once : ∀ stream, ((s.heard stream).map (fun f => UInt64.ofNat f.sequence)).Nodup
  arrived : ∀ e ∈ s.arrived, ∃ d ∈ sealings, ∃ stream, d.key = s.rxKey stream ∧ d.header = e.1
  routed : ∀ a ∈ s.tx.peer, a ∈ s.told ∨ ∃ header, (header, a) ∈ s.arrived

theorem sound_spawn (params : SessionParams) (inboundBuffer : Nat) :
    Sound ([] : List (SealedDatagram κ)) (spawn params inboundBuffer) where
  window _ := .new
  heard stream f hf := by cases stream <;> cases hf
  once stream := by cases stream <;> exact List.nodup_nil
  arrived e he := by cases he
  routed a ha := by cases ha

variable {sealings sealings' : List (SealedDatagram κ)}

theorem Sound.mono (h : Sound sealings s) (hsub : ∀ d ∈ sealings, d ∈ sealings') :
    Sound sealings' s where
  window := h.window
  heard stream f hf := by
    obtain ⟨hacc, d, hd, hkey, hframe⟩ := h.heard stream f hf
    exact ⟨hacc, d, hsub d hd, hkey, hframe⟩
  once := h.once
  arrived e he := by
    obtain ⟨d, hd, rest⟩ := h.arrived e he
    exact ⟨d, hsub d hd, rest⟩
  routed := h.routed

/-- What the application takes or drops is heard no more than before. -/
theorem Sound.shrink (h : Sound sealings s) (htx : s'.tx = s.tx) (hwindow : s'.window = s.window)
    (haccepted : s'.accepted = s.accepted) (harrived : s'.arrived = s.arrived)
    (htold : s'.told = s.told) (hheard : ∀ stream, (s'.heard stream).Sublist (s.heard stream)) :
    Sound sealings s' where
  window stream := by
    rw [hwindow, haccepted]
    exact h.window stream
  heard stream f hf := by
    rw [haccepted, rxKey_congr (congrArg _ htx)]
    exact h.heard stream f ((hheard stream).subset hf)
  once stream := (h.once stream).sublist ((hheard stream).map _)
  arrived e he := by
    obtain ⟨d, hd, stream, hkey, hheader⟩ := h.arrived e (harrived ▸ he)
    exact ⟨d, hd, stream, by rw [hkey, rxKey_congr (congrArg _ htx)], hheader⟩
  routed a ha := by
    rw [htold, harrived]
    exact h.routed a (htx ▸ ha)

theorem Sound.take (h : Sound sealings s) (stream : StreamId) : Sound sealings (s.take stream) := by
  unfold MediaSide.take
  split
  · exact h
  · rename_i frame queue hqueue
    refine h.shrink rfl rfl rfl rfl rfl (fun stream' => ?_)
    by_cases hs : stream' = stream
    · subst hs
      simp only [MediaSide.heard, Function.update_self, hqueue, List.append_assoc,
        List.singleton_append]
      exact List.Sublist.refl _
    · simp only [MediaSide.heard, Function.update_of_ne hs]
      exact List.Sublist.refl _

theorem Sound.close (h : Sound sealings s) (stream : StreamId) :
    Sound sealings (s.close stream) := by
  refine h.shrink rfl rfl rfl rfl rfl (fun stream' => ?_)
  unfold MediaSide.close
  by_cases hs : stream' = stream
  · subst hs
    simp only [MediaSide.heard, Function.update_self, List.append_nil]
    exact List.sublist_append_left _ _
  · simp only [MediaSide.heard, Function.update_of_ne hs]
    exact List.Sublist.refl _

theorem Sound.handle (h : Sound sealings s) {e : VoipEvent} :
    Sound sealings { s with tx := (s.tx.handle (κ := κ) e).1, told := s.toldAfter e } := by
  have hkey : ∀ stream, (s.rxKey stream : κ)
      = rxKey { s with tx := (s.tx.handle (κ := κ) e).1, told := s.toldAfter e } stream :=
    fun stream => by rw [rxKey, rxKey, params_handle]
  refine ⟨h.window, fun stream f hf => ?_, h.once, fun e' he => ?_, fun a ha => ?_⟩
  · rw [← hkey]
    exact h.heard stream f hf
  · obtain ⟨d, hd, stream, hd', hheader⟩ := h.arrived e' he
    exact ⟨d, hd, stream, by rw [hd', hkey], hheader⟩
  · rcases peer_handle ha with hold | rfl
    · refine (h.routed a hold).imp_left (fun hmem => ?_)
      cases e with
      | peer address => exact List.mem_cons_of_mem _ hmem
      | voice _ | video _ _ _ | keepalive => exact hmem
    · exact .inl List.mem_cons_self

/-- A datagram of the other side, with a number that is new. -/
theorem Sound.admitted (h : Sound sealings s) {d : SealedDatagram κ} (hd : d ∈ sealings)
    (hkey : d.key = s.rxKey d.header.streamId)
    (hnew : ((s.window d.header.streamId).checkAndUpdate
      (UInt64.ofNat d.header.sequence)).1 = true) :
    Sound sealings ((s.acceptFrom d.header
      ((s.window d.header.streamId).checkAndUpdate (UInt64.ofNat d.header.sequence)).2
      src).handOver d.frame) := by
  have hstep := (h.window d.header.streamId).step (UInt64.ofNat d.header.sequence)
  obtain ⟨-, hadmits, hstands⟩ := hstep.resolve_right
    (fun hno => Bool.false_ne_true (hno.1.symm.trans hnew))
  generalize hw : ((s.window d.header.streamId).checkAndUpdate
    (UInt64.ofNat d.header.sequence)).2 = window at hstands ⊢
  have hparams : ((s.acceptFrom d.header window src).handOver d.frame).tx.params = s.tx.params := by
    rw [handOver_tx, acceptFrom_params]
  -- what was heard before keeps its number, which is not the new one
  have hold : ∀ stream, ∀ f ∈ s.heard stream,
      UInt64.ofNat f.sequence ∈ (s.acceptFrom d.header window src).accepted stream := by
    intro stream f hf
    have hf := (h.heard stream f hf).1
    dsimp only [acceptFrom]
    by_cases hs : stream = d.header.streamId
    · subst hs
      rw [Function.update_self]
      exact List.mem_cons_of_mem _ hf
    · rwa [Function.update_of_ne hs]
  refine ⟨fun stream => ?_, fun stream f hf => ?_, fun stream => ?_, fun e he => ?_,
    fun a ha => ?_⟩
  · rw [handOver_window, handOver_accepted]
    dsimp only [acceptFrom]
    by_cases hs : stream = d.header.streamId
    · subst hs
      rw [Function.update_self, Function.update_self]
      exact hstands
    · rw [Function.update_of_ne hs, Function.update_of_ne hs]
      exact h.window stream
  · rw [handOver_accepted, rxKey_congr hparams]
    rcases heard_handOver (s.acceptFrom d.header window src) d.frame stream with hsame | ⟨hs, hmore⟩
    · rw [hsame] at hf
      exact ⟨hold stream f hf, (h.heard stream f hf).2⟩
    · rw [hmore] at hf
      rcases List.mem_append.mp hf with hf | hf
      · exact ⟨hold stream f hf, (h.heard stream f hf).2⟩
      · obtain rfl := List.mem_singleton.mp hf
        subst hs
        refine ⟨?_, d, hd, hkey, rfl⟩
        dsimp only [acceptFrom, SealedDatagram.frame]
        rw [Function.update_self]
        exact List.mem_cons_self
  · rcases heard_handOver (s.acceptFrom d.header window src) d.frame stream with hsame | ⟨hs, hmore⟩
    · rw [hsame]
      exact h.once stream
    · rw [hmore, List.map_append]
      refine List.Nodup.append (h.once stream) (List.nodup_singleton _) ?_
      intro n hn hn'
      obtain ⟨f, hf, rfl⟩ := List.mem_map.mp hn
      subst hs
      have heq : UInt64.ofNat f.sequence = UInt64.ofNat d.header.sequence :=
        List.mem_singleton.mp hn'
      exact hadmits.1 (heq ▸ (h.heard _ f hf).1)
  · rw [handOver_arrived] at he
    rcases List.mem_cons.mp he with rfl | he
    · exact ⟨d, hd, d.header.streamId, by rw [hkey, rxKey_congr hparams], rfl⟩
    · obtain ⟨d', hd', stream, hkey', hheader⟩ := h.arrived e he
      exact ⟨d', hd', stream, by rw [hkey', rxKey_congr hparams], hheader⟩
  · rw [handOver_told, handOver_arrived]
    rw [handOver_tx] at ha
    dsimp only [acceptFrom] at ha ⊢
    split at ha
    · rename_i hsame
      rw [hsame] at ha
      cases ha
      exact .inr ⟨d.header, List.mem_cons_self⟩
    · cases ha
      exact .inr ⟨d.header, List.mem_cons_self⟩

end MediaSide

/-! ## A call -/

namespace MediaWorld

variable {w w' : MediaWorld κ} {master sessionId : List Nat}

/-- The network has made nothing that opens under a key of this side: what does was sealed by one
of the two. -/
def Unforged (w : MediaWorld κ) (r : Role) (data : List UInt8) : Prop :=
  ∀ stream nonce plain, VoipAead.aeadDecrypt ((w.side r).rxKey stream : κ) nonce
      (data.take voipHeaderLen) (data.drop voipHeaderLen) = .ok plain →
    ∃ d ∈ w.sealings, d.key = (w.side r).rxKey stream ∧ d.nonce = nonce
      ∧ d.header.encode = data.take voipHeaderLen ∧ d.payload = plain

/-- Sealing is left to the two sides. -/
def Unforging (w : MediaWorld κ) : MediaLabel → Prop
  | .datagram r bytes _ => w.Unforged r (bytes.take (maxDatagram + 512))
  | .indication r payload _ => w.Unforged r payload
  | .media .. | .take .. | .close .. => True

structure Inv (master sessionId : List Nat) (w : MediaWorld κ) : Prop where
  params : ∀ r, (w.side r).tx.params = ⟨r, master, sessionId⟩
  counted : ∀ r stream, (w.side r).tx.txSeq stream < u64Size
  sealed : ∀ d ∈ w.sealings, ∃ r, d.SealedBy ⟨r, master, sessionId⟩
  sound : ∀ r, (w.side r).Sound w.sealings

theorem inv_init {inboundBuffer : Role → Nat} :
    Inv master sessionId (init master sessionId inboundBuffer : MediaWorld κ) where
  params _ := rfl
  counted _ _ := Nat.two_pow_pos 64
  sealed d hd := by cases hd
  sound r := MediaSide.sound_spawn _ _

/-- One side goes on. -/
theorem Inv.put (hi : Inv master sessionId w) {r : Role} {s : MediaSide}
    (hparams : s.tx.params = (w.side r).tx.params) (hseq : s.tx.txSeq = (w.side r).tx.txSeq)
    (hsound : s.Sound w.sealings) : Inv master sessionId (w.put r s) where
  params r' := by
    dsimp only [MediaWorld.put]
    by_cases hr : r' = r
    · rw [hr, Function.update_self, hparams, hi.params r]
    · rw [Function.update_of_ne hr, hi.params r']
  counted r' stream := by
    dsimp only [MediaWorld.put]
    by_cases hr : r' = r
    · rw [hr, Function.update_self, hseq]
      exact hi.counted r stream
    · rw [Function.update_of_ne hr]
      exact hi.counted r' stream
  sealed := hi.sealed
  sound r' := by
    dsimp only [MediaWorld.put]
    by_cases hr : r' = r
    · rw [hr, Function.update_self]
      exact hsound
    · rw [Function.update_of_ne hr]
      exact hi.sound r'

theorem unpack_eq_ok {data : List UInt8} {key : κ} {direction : Direction} {header : VoipHeader}
    {payload : List UInt8} (h : unpack data key direction = .ok (header, payload)) :
    VoipHeader.decode (data.take voipHeaderLen) = .ok header
      ∧ VoipAead.aeadDecrypt key (buildNonce header.streamId direction header.sequence)
        (data.take voipHeaderLen) (data.drop voipHeaderLen) = .ok payload := by
  unfold unpack at h
  split at h
  · cases h
  · split at h
    · cases h
    · rename_i header' hdecode
      dsimp only at h
      split at h
      · cases h
      · rename_i plain hplain
        cases h
        exact ⟨hdecode, hplain⟩

/-- **What opens is a datagram of the other side**, for this stream. -/
theorem Inv.opened (hi : Inv master sessionId w) {r : Role} {data : List UInt8}
    (hun : w.Unforged r data) {header : VoipHeader} {payload : List UInt8}
    (h : unpack data ((w.side r).rxKey header.streamId : κ) (w.side r).tx.params.role.rxDirection
      = .ok (header, payload)) :
    ∃ d ∈ w.sealings, d.key = (w.side r).rxKey d.header.streamId ∧ d.header = header
      ∧ d.payload = payload := by
  obtain ⟨hdecode, hplain⟩ := unpack_eq_ok h
  obtain ⟨d, hd, hkey, -, hheader, hpayload⟩ := hun _ _ _ hplain
  obtain ⟨r', hby⟩ := hi.sealed d hd
  rw [← hheader, VoipHeader.decode_encode hby.bounded] at hdecode
  cases hdecode
  exact ⟨d, hd, hkey, rfl, hpayload⟩

theorem Inv.process (hi : Inv master sessionId w) {r : Role} {data : List UInt8} {src : String}
    (hun : w.Unforged r data) :
    Inv master sessionId (w.put r ((w.side r).processMediaDatagram κ data src)) := by
  have hp : MediaSide.Processed κ (w.side r) data src
      ((w.side r).processMediaDatagram κ data src) := MediaSide.processed
  revert hp
  generalize (w.side r).processMediaDatagram κ data src = s'
  intro hp
  cases hp with
  | dropped => exact hi.put rfl rfl (hi.sound r)
  | @admitted header payload hopens hnew =>
      obtain ⟨d, hd, hkey, rfl, rfl⟩ := hi.opened hun hopens
      refine hi.put ?_ ?_ ((hi.sound r).admitted hd hkey hnew)
      · rw [MediaSide.handOver_tx, MediaSide.acceptFrom_params]
      · rw [MediaSide.handOver_tx, MediaSide.acceptFrom_txSeq]

theorem Inv.media (hi : Inv master sessionId w) {r : Role} {e : VoipEvent} (he : e.Bounded) :
    Inv master sessionId (w.media r e) := by
  have hsealed : ∀ d ∈ ((w.side r).tx.handle (κ := κ) e).2.toList ++ w.sealings,
      ∃ r, d.SealedBy ⟨r, master, sessionId⟩ := by
    intro d hd
    rcases List.mem_append.mp hd with hd | hd
    · have := sealedBy_handle (hi.counted r) he (Option.mem_toList.mp hd)
      exact ⟨r, hi.params r ▸ this⟩
    · exact hi.sealed d hd
  have hmono : ∀ d ∈ w.sealings,
      d ∈ ((w.side r).tx.handle (κ := κ) e).2.toList ++ w.sealings :=
    fun d hd => List.mem_append_right _ hd
  refine ⟨fun r' => ?_, fun r' stream => ?_, hsealed, fun r' => ?_⟩
  · dsimp only [MediaWorld.media, MediaWorld.put]
    by_cases hr : r' = r
    · rw [hr, Function.update_self]
      exact params_handle.trans (hi.params r)
    · rw [Function.update_of_ne hr, hi.params r']
  · dsimp only [MediaWorld.media, MediaWorld.put]
    by_cases hr : r' = r
    · rw [hr, Function.update_self]
      exact counted_handle (hi.counted r) stream
    · rw [Function.update_of_ne hr]
      exact hi.counted r' stream
  · dsimp only [MediaWorld.media, MediaWorld.put]
    by_cases hr : r' = r
    · rw [hr, Function.update_self]
      exact ((hi.sound r).mono hmono).handle
    · rw [Function.update_of_ne hr]
      exact (hi.sound r').mono hmono

theorem Inv.step (hi : Inv master sessionId w) {l : MediaLabel} (hok : w.Unforging l)
    (hs : w.step l = some w') : Inv master sessionId w' := by
  cases l with
  | media r e =>
      simp only [MediaWorld.step] at hs
      split at hs
      · rename_i hrun
        cases hs
        exact hi.media hrun.2
      · cases hs
  | datagram r bytes src =>
      simp only [MediaWorld.step] at hs
      split at hs
      · cases hs
        unfold MediaSide.recvFrom
        dsimp only
        split
        · exact hi.put rfl rfl (hi.sound r)
        · exact hi.process hok
      · cases hs
  | indication r payload src =>
      simp only [MediaWorld.step] at hs
      split at hs
      · cases hs
        exact hi.process hok
      · cases hs
  | take r stream =>
      cases hs
      refine hi.put ?_ ?_ ((hi.sound r).take stream)
      · unfold MediaSide.take
        split <;> rfl
      · unfold MediaSide.take
        split <;> rfl
  | close r stream =>
      cases hs
      exact hi.put rfl rfl ((hi.sound r).close stream)

variable {inboundBuffer : Role → Nat}

theorem inv_reachable
    (h : Lts.Reach step Unforging (init master sessionId inboundBuffer : MediaWorld κ) w) :
    Inv master sessionId w :=
  h.invariant inv_init (fun _ _ _ _ hi hok hs => hi.step hok hs)

/-! ## What is heard -/

/-- What a side has sealed for a stream. -/
def sentOn [DecidableEq κ] (w : MediaWorld κ) (r : Role) (stream : StreamId) :
    List (SealedDatagram κ) :=
  w.sealings.filter (fun d => d.key = (w.side r).tx.key stream)

theorem Inv.rxKey_eq (hi : Inv master sessionId w) (r : Role) (stream : StreamId) :
    ((w.side r).rxKey stream : κ) = (w.side r.other).tx.key stream := by
  rw [MediaSide.rxKey, VoipSession.key, hi.params, hi.params]
  exact derive_other r master sessionId stream

theorem Inv.mem_sentOn [DecidableEq κ] (hi : Inv master sessionId w) {r : Role}
    {stream : StreamId} {d : SealedDatagram κ} :
    d ∈ w.sentOn r.other stream ↔ d ∈ w.sealings ∧ d.key = (w.side r).rxKey stream := by
  rw [sentOn, List.mem_filter, decide_eq_true_iff, hi.rxKey_eq]

structure Secure [DecidableEq κ] (w : MediaWorld κ) : Prop where
  /-- A stream is heard as the other side has sealed it, but for losses and the order. -/
  genuine : ∀ r stream, ((w.side r).heard stream).Subperm
    ((w.sentOn r.other stream).map SealedDatagram.frame)
  /-- No number is heard twice. -/
  once : ∀ r stream, (((w.side r).heard stream).map (fun f => UInt64.ofNat f.sequence)).Nodup
  /-- What is sent goes where the application said, or where the other side has sent from. -/
  routed : ∀ r, ∀ a ∈ (w.side r).tx.peer, a ∈ (w.side r).told
    ∨ ∃ stream, ∃ d ∈ w.sentOn r.other stream, (d.header, a) ∈ (w.side r).arrived

/-- **A call is heard as it was spoken**, whatever the network delivers. -/
theorem media_secure [DecidableEq κ]
    (h : Lts.Reach step Unforging (init master sessionId inboundBuffer : MediaWorld κ) w) :
    w.Secure := by
  have hi := inv_reachable h
  refine ⟨fun r stream => ?_, fun r => (hi.sound r).once, fun r a ha => ?_⟩
  · refine List.subperm_of_subset ((hi.sound r).once stream).of_map (fun f hf => ?_)
    obtain ⟨-, d, hd, hkey, rfl⟩ := (hi.sound r).heard stream f hf
    exact List.mem_map_of_mem (hi.mem_sentOn.mpr ⟨hd, hkey⟩)
  · refine ((hi.sound r).routed a ha).imp_right ?_
    rintro ⟨header, harrived⟩
    obtain ⟨d, hd, stream, hkey, hheader⟩ := (hi.sound r).arrived _ harrived
    exact ⟨stream, d, hi.mem_sentOn.mpr ⟨hd, hkey⟩, hheader ▸ harrived⟩

/-! ## A word -/

section Example

/-- A key that shows what it was derived from. -/
structure TaggedKey where
  salt : List Nat
  master : List Nat
  info : String
deriving DecidableEq

/-- Which of the four keys of a call it is. -/
def TaggedKey.byte (key : TaggedKey) : UInt8 :=
  if key.info = hkdfInfo .voice true then 1
  else if key.info = hkdfInfo .voice false then 2
  else if key.info = hkdfInfo .video true then 3
  else 4

def TaggedKey.tag (key : TaggedKey) (nonce : List UInt8) : List UInt8 :=
  key.byte :: (nonce ++ [0, 0, 0])

theorem TaggedKey.length_tag {key : TaggedKey} {nonce : List UInt8} (h : nonce.length = 12) :
    (key.tag nonce).length = voipTagLen := by
  rw [TaggedKey.tag, List.length_cons, List.length_append, h]
  rfl

/-- A cipher that tags what it seals with the key and the nonce. -/
instance taggedCrypto : VoipCrypto TaggedKey where
  hkdf := TaggedKey.mk
  aeadEncrypt key nonce _ plaintext :=
    if nonce.length = 12 then some (plaintext ++ key.tag nonce) else none
  hkdf_inj _ _ _ _ _ _ _ _ _ _ h := TaggedKey.mk.inj h
  hkdf_info _ _ _ _ h := (TaggedKey.mk.inj h).2.2

instance taggedAead : VoipAead TaggedKey where
  aeadDecrypt key nonce _ ciphertext :=
    if nonce.length = 12 ∧ ciphertext.drop (ciphertext.length - voipTagLen) = key.tag nonce then
      .ok (ciphertext.take (ciphertext.length - voipTagLen))
    else .error "VoIP AEAD decrypt failed"
  aeadDecrypt_aeadEncrypt key nonce aad plaintext ciphertext h := by
    by_cases hn : nonce.length = 12
    · have h : some (plaintext ++ key.tag nonce) = some ciphertext := (if_pos hn).symm.trans h
      cases h
      have hlen : (plaintext ++ key.tag nonce).length - voipTagLen = plaintext.length := by
        rw [List.length_append, TaggedKey.length_tag hn, Nat.add_sub_cancel]
      rw [hlen, List.drop_left, List.take_left, if_pos ⟨hn, rfl⟩]
    · have h : none = some ciphertext := (if_neg hn).symm.trans h
      cases h
  length_aeadEncrypt key nonce aad plaintext ciphertext h := by
    by_cases hn : nonce.length = 12
    · have h : some (plaintext ++ key.tag nonce) = some ciphertext := (if_pos hn).symm.trans h
      cases h
      rw [List.length_append, TaggedKey.length_tag hn]
    · have h : none = some ciphertext := (if_neg hn).symm.trans h
      cases h

/-- The initiator knows the address and has spoken. -/
def spoken : MediaWorld TaggedKey :=
  ((init [] [] (fun _ => 4)).media .initiator (.peer "bob")).media .initiator (.voice [7])

/-- What it has sent. -/
def helloBytes : List UInt8 :=
  [1, 0, 0, 0, 0, 0, 0, 0, 0, 0, 0, 0, 0, 0, 0, 0, 7, 1, 0, 0, 0, 0, 0, 0, 0, 0, 0, 0, 0, 0, 0, 0, 0]

theorem reach_spoken : Lts.Reach step Unforging (init [] [] (fun _ => 4)) spoken :=
  .tail (.tail .refl (l := .media .initiator (.peer "bob")) trivial rfl)
    (l := .media .initiator (.voice [7])) trivial rfl

/-- Only the key of the initiator's voice and the first nonce open it. -/
theorem unforged_hello : spoken.Unforged .responder helloBytes := by
  intro stream nonce plain hopen
  have hlen : (helloBytes.drop voipHeaderLen).length - voipTagLen = 1 := rfl
  simp only [VoipAead.aeadDecrypt, hlen] at hopen
  split at hopen
  · rename_i hok
    cases hopen
    obtain ⟨-, htag⟩ := hok
    have hbyte : some 1 = some ((spoken.side .responder).rxKey stream : TaggedKey).byte :=
      congrArg List.head? htag
    have hnonce : List.replicate 12 0 ++ [0, 0, 0] = nonce ++ [0, 0, 0] :=
      congrArg List.tail htag
    cases stream with
    | voice => exact ⟨_, List.mem_cons_self, rfl, List.append_cancel_right hnonce, rfl, rfl⟩
    | video => exact absurd hbyte (by decide)
  · cases hopen

/-- What was said is heard, and the answer will go where it came from. -/
theorem media_secure_spoken :
    ∃ w : MediaWorld TaggedKey, Lts.Reach step Unforging (init [] [] (fun _ => 4)) w ∧ w.Secure
      ∧ (w.side .responder).heard .voice = [⟨.voice, 0, 0, 0, [7]⟩]
      ∧ (w.side .responder).tx.peer = some "alice" :=
  have hok : spoken.Unforging (.datagram .responder helloBytes "alice") := unforged_hello
  have h := Lts.Reach.tail reach_spoken hok rfl
  ⟨_, h, media_secure h, rfl, rfl⟩

end Example

/-! ## What gets through -/

/-- The bytes of a datagram reach a side: through the relay, or the socket. A socket cuts off what
is too long, and takes for STUN what shows the cookie in its number. -/
inductive Reaches (r : Role) (d : SealedDatagram κ) : MediaLabel → Prop
  | relayed (src : String) : Reaches r d (.indication r d.bytes src)
  | direct (src : String) (hlen : d.bytes.length ≤ maxDatagram + 512)
      (hcookie : d.header.sequence / 2 ^ 32 ≠ magicCookie.toNat) :
      Reaches r d (.datagram r d.bytes src)

theorem not_isStun {d : SealedDatagram κ} {params : SessionParams} (h : d.SealedBy params)
    (hcookie : d.header.sequence / 2 ^ 32 ≠ magicCookie.toNat) : isStun d.bytes = false := by
  obtain ⟨ciphertext, -, hbytes⟩ := h.bytes
  have hseq := h.bounded.sequence
  have hget : ∀ i (b : UInt8), (d.bytes[i]? = some b) → byteAt d.bytes i = b := fun i b hb => by
    rw [byteAt, List.getD_eq_getElem?_getD, hb, Option.getD_some]
  rw [hbytes, d.header.encode_eq] at hget
  have h4 := hget 4 (UInt8.ofNat (d.header.sequence / 256 ^ 7)) rfl
  have h5 := hget 5 (UInt8.ofNat (d.header.sequence / 256 ^ 6)) rfl
  have h6 := hget 6 (UInt8.ofNat (d.header.sequence / 256 ^ 5)) rfl
  have h7 := hget 7 (UInt8.ofNat (d.header.sequence / 256 ^ 4)) rfl
  rw [hbytes, d.header.encode_eq, Bool.eq_false_iff]
  intro hstun
  obtain ⟨c4, c5, c6, c7⟩ := u32At_eq_magicCookie.mp (isStun_iff.mp hstun).2.2
  have e4 := congrArg UInt8.toNat (h4.symm.trans c4)
  have e5 := congrArg UInt8.toNat (h5.symm.trans c5)
  have e6 := congrArg UInt8.toNat (h6.symm.trans c6)
  have e7 := congrArg UInt8.toNat (h7.symm.trans c7)
  simp only [UInt8.toNat_ofNat', UInt8.toNat_ofNat] at e4 e5 e6 e7
  have hm : magicCookie.toNat = 0x2112A442 := rfl
  rw [hm] at hcookie
  unfold u64Size at hseq
  omega

theorem Reaches.step {r : Role} {d : SealedDatagram κ} {l : MediaLabel} (h : Reaches r d l)
    {params : SessionParams} (hby : d.SealedBy params) (hs : w.step l = some w') :
    ∃ src, w' = w.put r ((w.side r).processMediaDatagram κ d.bytes src) := by
  cases h with
  | relayed src =>
      simp only [MediaWorld.step] at hs
      split at hs
      · cases hs
        exact ⟨src, rfl⟩
      · cases hs
  | direct src hlen hcookie =>
      simp only [MediaWorld.step] at hs
      split at hs
      · cases hs
        refine ⟨src, ?_⟩
        unfold MediaSide.recvFrom
        rw [List.take_of_length_le hlen]
        dsimp only
        rw [if_neg (Bool.eq_false_iff.mp (not_isStun hby hcookie))]
      · cases hs

theorem process_genuine {s : MediaSide} {r : Role} {d : SealedDatagram κ} {src : String}
    (hparams : s.tx.params = ⟨r, master, sessionId⟩) (hby : d.SealedBy ⟨r.other, master, sessionId⟩) :
    s.processMediaDatagram κ d.bytes src
      = if ((s.window d.header.streamId).checkAndUpdate
          (UInt64.ofNat d.header.sequence)).1 = true then
          (s.acceptFrom d.header ((s.window d.header.streamId).checkAndUpdate
            (UInt64.ofNat d.header.sequence)).2 src).handOver d.frame
        else s := by
  obtain ⟨ciphertext, -, hbytes⟩ := hby.bytes
  have hlen : ¬ d.bytes.length < voipHeaderLen := by
    rw [hbytes, List.length_append, d.header.length_encode]
    omega
  have hbyte : byteAt d.bytes 1 = d.header.streamId.asByte := by
    rw [hbytes, d.header.encode_eq]
    rfl
  have hopens : unpack d.bytes (s.rxKey d.header.streamId : κ) s.tx.params.role.rxDirection
      = .ok (d.header, d.payload) := by
    rw [MediaSide.rxKey, hparams]
    exact hby.unpack
  unfold MediaSide.processMediaDatagram
  rw [if_neg hlen, hbyte, ofByte_asByte]
  dsimp only
  rw [hopens]
  dsimp only
  rw [if_neg (not_not_intro rfl)]
  generalize (s.window d.header.streamId).checkAndUpdate (UInt64.ofNat d.header.sequence) = out
  obtain ⟨ok, window⟩ := out
  cases ok <;> rfl

/-- A channel that is open and not full. -/
def HasRoom (ch : Inbound) : Prop := ch.closed = false ∧ ch.queue.length < ch.capacity

instance (ch : Inbound) : Decidable (HasRoom ch) := inferInstanceAs (Decidable (_ ∧ _))

/-- A channel takes a frame if it has room. -/
theorem heard_handOver_room {s : MediaSide} {frame : InboundFrame} :
    (s.handOver frame).heard frame.stream
      = if HasRoom (s.inbound frame.stream) then s.heard frame.stream ++ [frame]
        else s.heard frame.stream := by
  unfold MediaSide.handOver Inbound.trySend
  by_cases hclosed : (s.inbound frame.stream).closed = true
  · rw [if_pos hclosed, if_neg (fun hroom => Bool.false_ne_true (hroom.1.symm.trans hclosed))]
    rfl
  · have hopen : (s.inbound frame.stream).closed = false := Bool.eq_false_iff.mpr hclosed
    rw [if_neg hclosed]
    by_cases hfull : (s.inbound frame.stream).capacity ≤ (s.inbound frame.stream).queue.length
    · rw [if_pos hfull, if_neg (fun hroom => Nat.not_lt_of_le hfull hroom.2)]
    · rw [if_neg hfull, if_pos ⟨hopen, Nat.lt_of_not_le hfull⟩]
      simp only [MediaSide.heard, Function.update_self, List.append_assoc]

/-- **What gets through.** A datagram of the other side that reaches this one is heard if the
window admits its number and the channel of its stream is open and has room, and nothing is heard
otherwise. -/
theorem heard_iff [DecidableEq κ]
    (h : Lts.Reach step Unforging (init master sessionId inboundBuffer : MediaWorld κ) w)
    {r : Role} {stream : StreamId} {d : SealedDatagram κ} {l : MediaLabel}
    (hd : d ∈ w.sentOn r.other stream) (hl : Reaches r d l) (hs : w.step l = some w') :
    ((w'.side r).heard stream = (w.side r).heard stream ++ [d.frame]
      ∧ Admits 64 ((w.side r).accepted stream) (UInt64.ofNat d.header.sequence)
      ∧ HasRoom ((w.side r).inbound stream))
    ∨ ((w'.side r).heard stream = (w.side r).heard stream
      ∧ ¬ (Admits 64 ((w.side r).accepted stream) (UInt64.ofNat d.header.sequence)
        ∧ HasRoom ((w.side r).inbound stream))) := by
  have hi := inv_reachable h
  obtain ⟨hmem, hkey⟩ := hi.mem_sentOn.mp hd
  -- the key tells which side has sealed it, and for which stream
  obtain ⟨r', hby⟩ := hi.sealed d hmem
  rw [hby.key, hi.rxKey_eq, VoipSession.key, hi.params] at hkey
  obtain ⟨rfl, rfl⟩ := VoipWorld.derive_role hkey
  obtain ⟨src, rfl⟩ := hl.step hby hs
  dsimp only [MediaWorld.put]
  rw [Function.update_self, process_genuine (hi.params r) hby]
  have hstep := ((hi.sound r).window d.header.streamId).step (UInt64.ofNat d.header.sequence)
  rcases hstep with ⟨hyes, hadmits, -⟩ | ⟨hno, hnot, -⟩
  · rw [if_pos hyes]
    have hheard := @heard_handOver_room ((w.side r).acceptFrom d.header
      (((w.side r).window d.header.streamId).checkAndUpdate
        (UInt64.ofNat d.header.sequence)).2 src) d.frame
    have hstream : d.frame.stream = d.header.streamId := rfl
    rw [hstream] at hheard
    rw [hheard]
    by_cases hroom : HasRoom ((w.side r).inbound d.header.streamId)
    · exact .inl ⟨if_pos hroom, hadmits, hroom⟩
    · exact .inr ⟨if_neg hroom, fun hboth => hroom hboth.2⟩
  · rw [if_neg (Bool.eq_false_iff.mp hno)]
    exact .inr ⟨rfl, fun hboth => hnot hboth.1⟩

/-- What was said reaches the responder through the relay, and is heard or not. -/
theorem heard_iff_spoken :
    ∃ d ∈ spoken.sentOn .initiator .voice, ∃ w',
      spoken.step (.indication .responder d.bytes "relay") = some w'
      ∧ (((w'.side .responder).heard .voice = (spoken.side .responder).heard .voice ++ [d.frame]
          ∧ Admits 64 [] (UInt64.ofNat d.header.sequence) ∧ HasRoom ⟨4, [], false⟩)
        ∨ ((w'.side .responder).heard .voice = (spoken.side .responder).heard .voice
          ∧ ¬ (Admits 64 [] (UInt64.ofNat d.header.sequence)
            ∧ HasRoom ⟨4, [], false⟩))) :=
  ⟨_, List.mem_cons_self, _, rfl,
    heard_iff (r := .responder) reach_spoken List.mem_cons_self (.relayed "relay") rfl⟩

end MediaWorld

end Paranoia
