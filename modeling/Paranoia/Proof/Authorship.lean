import Paranoia.Proof.Provenance
import Paranoia.Proof.Resume

/-!
# Who wrote a message

The server checks who signed a push and forgets it: an answer to a pull holds
numbers and payloads only. A client takes the author of a message from the
plaintext, which either party can write as it likes, so a peer can make a client
store a message as the client's own (`stored_as_own`).

What ties the two together is the pusher: while every push that a device can open
names its pusher, and the chunks of a transfer have one pusher, every row was
pushed under the signature of the account it is attributed to, except for uploads
of the device itself that are still being sent or have failed
(`authored_reachable`).
-/

namespace Paranoia

variable {κ π : Type} {n : Nat}

/-- Contents that are stored, or buffered to be stored. -/
def MessageContent.makesRow : MessageContent → Bool
  | .readReceipt _ => false
  | .delete _ => false
  | _ => true

/-- The transfer a chunk belongs to. -/
def MessageContent.chunkOf : MessageContent → Option String
  | .fileChunk transferId .. => some transferId
  | _ => none

/-- A message that is not sent yet, or could not be sent. -/
def MessageStatus.unsent : MessageStatus → Bool
  | .sending => true
  | .failed => true
  | _ => false

namespace World

section Defs

variable (cfg : Setup κ n) (w : World π n)

/-- The transfers a device has reserved ranges for. -/
def reservations (d : Fin n) : List OutboundTransfer :=
  (w.notices d).filterMap (fun
    | .reserved t => some t
    | _ => none)

/-- The uploads of a device whose messages are not sent yet, or could not be sent. -/
def drafts (d : Fin n) : List OutboundTransfer :=
  (w.reservations d).filter (fun t => (w.store d).messages.rows.any (fun m =>
    m.status.unsent && { t.message (cfg.device d) with status := m.status } = m))

variable [Aead κ π]

/-- Whoever can open the push finds the pusher named as the author, and its chunk, if it is one,
among chunks of the same pusher. -/
def NamesPusher (req : PushRequest π) : Prop :=
  ∀ d, ∀ inner ∈ (cfg.device d).decryptPacket req.seq req.payload,
    (inner.content.makesRow = true → inner.sender = req.sender)
      ∧ ∀ transferId ∈ inner.content.chunkOf, ∀ b ∈ w.accepted, b.2.dialogue = cfg.key →
          ∀ inner' ∈ (cfg.device d).decryptPacket b.2.seq b.2.payload,
            inner'.content.chunkOf = some transferId → b.2.sender = req.sender

/-- An honest step; a push that is accepted names its pusher, and where an upload is not sent yet
nothing else is accepted. -/
def AuthenticStep (l : Label π n) : Prop :=
  l.isRelay = false
    ∧ (∀ a ∈ w.incoming l, w.Accepts a.2 → a.2.dialogue = cfg.key → w.NamesPusher cfg a.2)
    ∧ w.KeepsRanges cfg (fun d => w.working d ++ w.drafts cfg d) l

instance (req : PushRequest π) : Decidable (w.NamesPusher cfg req) :=
  inferInstanceAs (Decidable (∀ _, _))

instance [DecidableEq π] (l : Label π n) : Decidable (w.AuthenticStep cfg l) :=
  inferInstanceAs (Decidable (_ ∧ _ ∧ _))

/-- The row is an upload of the device that is not sent yet, or could not be sent. -/
def Draft (d : Fin n) (m : Message) : Prop :=
  ∃ t, .reserved t ∈ w.notices d ∧ (t.message (cfg.device d)).SameRow m ∧ m.status.unsent = true

/-- The message was pushed under the signature of the account it is attributed to. -/
def Signed (d : Fin n) (m : Message) : Prop :=
  ∃ a ∈ w.accepted, a.2.dialogue = cfg.key ∧ a.2.sig = m.sender ∧ m.serverSeq = some a.2.seq
    ∧ ∃ inner, (cfg.device d).decryptPacket a.2.seq a.2.payload = some inner ∧ m.Shows inner

/-- Every message of the dialogue that is not an upload under way was signed by its author. -/
def Authored : Prop :=
  ∀ d, ∀ m ∈ (w.store d).messages, m.dialogue = cfg.key → w.Draft cfg d m ∨ w.Signed cfg d m

/-- What the server accepted names its pushers. -/
structure Attributed : Prop where
  signed : ∀ a ∈ w.accepted, a.2.sig = a.2.sender
  sender : ∀ a ∈ w.accepted, a.2.dialogue = cfg.key → ∀ d inner,
    (cfg.device d).decryptPacket a.2.seq a.2.payload = some inner →
    inner.content.makesRow = true → inner.sender = a.2.sender
  chunks : ∀ a ∈ w.accepted, a.2.dialogue = cfg.key → ∀ b ∈ w.accepted, b.2.dialogue = cfg.key →
    ∀ d inner inner' transferId,
      (cfg.device d).decryptPacket a.2.seq a.2.payload = some inner →
      (cfg.device d).decryptPacket b.2.seq b.2.payload = some inner' →
      inner.content.chunkOf = some transferId → inner'.content.chunkOf = some transferId →
      a.2.sender = b.2.sender

/-- The packet was accepted by the server. -/
def Arrived (_ : Fin n) (pkt : RawPacket π) : Prop :=
  ∃ a ∈ w.accepted, a.2.dialogue = cfg.key ∧ ⟨a.2.seq, a.2.payload⟩ = pkt

/-- The buffered chunk is one that was accepted. -/
def Buffered (d : Fin n) (r : ChunkRow) : Prop :=
  ∃ a ∈ w.accepted, a.2.dialogue = cfg.key ∧ ∃ inner,
    (cfg.device d).decryptPacket a.2.seq a.2.payload = some inner
      ∧ inner.content.chunkOf = some r.transferId ∧ r.sender = inner.sender

end Defs

variable {cfg : Setup κ n} {w w' : World π n} {l : Label π n} {d : Fin n} {m m' : Message}
  {t : OutboundTransfer}

theorem mem_reservations : t ∈ w.reservations d ↔ .reserved t ∈ w.notices d := by
  simp only [reservations, List.mem_filterMap]
  constructor
  · rintro ⟨what, hw, h⟩
    cases what with
    | reserved t' =>
        cases h
        exact hw
    | _ => cases h
  · exact fun h => ⟨_, h, rfl⟩

theorem mem_drafts : t ∈ w.drafts cfg d ↔ .reserved t ∈ w.notices d ∧
    ∃ m ∈ (w.store d).messages, (t.message (cfg.device d)).SameRow m ∧ m.status.unsent = true := by
  simp only [drafts, List.mem_filter, mem_reservations, List.any_eq_true, Bool.and_eq_true,
    decide_eq_true_eq, Table.mem_def, Message.SameRow]
  refine and_congr_right (fun _ => exists_congr (fun m => and_congr_right (fun _ => ?_)))
  constructor
  · exact fun h => ⟨h.2.symm, h.1⟩
  · exact fun h => ⟨h.2, h.1.symm⟩

theorem KeepsRanges.mono {ts ts' : Fin n → List OutboundTransfer} (h : w.KeepsRanges cfg ts l)
    (hts : ∀ d, ∀ t ∈ ts' d, t ∈ ts d) : w.KeepsRanges cfg ts' l :=
  ⟨fun a ha hacc hd d t ht => h.1 a ha hacc hd d t (hts d t ht), h.2⟩

theorem Draft.mono (hc : Continues w w') (h : w.Draft cfg d m) : w'.Draft cfg d m := by
  obtain ⟨t, ht, h⟩ := h
  exact ⟨t, hc.notices ht, h⟩

section Step

variable [Aead κ π]

theorem Signed.mono (hc : Continues w w') (h : w.Signed cfg d m) : w'.Signed cfg d m := by
  obtain ⟨a, ha, h⟩ := h
  exact ⟨a, hc.accepted ha, h⟩

theorem Signed.congr (h : w.Signed cfg d m) (hm : m.SameRow m') : w.Signed cfg d m' := by
  obtain ⟨a, ha, hd, hsig, hseq, inner, hdec, hshows⟩ := h
  refine ⟨a, ha, hd, ?_, ?_, inner, hdec, hshows.congr hm⟩
  · rw [hm]
    exact hsig
  · rw [hm]
    exact hseq

/-! ## Transfers have ids of their own -/

theorem OuterStep.reserved_only {c : Client κ} {env : Env} {st : LocalStore} {outer : Outer π}
    {out : Local π} (h : OuterStep c env st outer out) (ht : .reserved t ∈ out.notices) :
    out.notices = [.reserved t] := by
  cases h with
  | reserve =>
      cases List.mem_singleton.mp ht
      rfl
  | compose | push | markSent => cases List.mem_singleton.mp ht
  | _ => cases ht

/-- Two reservations under one id are the same. -/
def Distinct (w : World π n) : Prop :=
  ∀ d d' t t', .reserved t ∈ w.notices d → .reserved t' ∈ w.notices d' →
    t.transferId = t'.transferId → t = t'

theorem distinct_step (h : StepCase cfg w l w') (hcomp : Composing cfg w) (hi : Distinct w) :
    Distinct w' := by
  -- a transfer reserved now has an id that no earlier one has
  have hnew : ∀ d d' t t' id, .reserved t ∈ w.notices d →
      Origin cfg w l w' d' id (.reserved t') → t.transferId ≠ t'.transferId := by
    intro d d' t t' id hold horigin hid
    cases horigin with
    | outer hjob hrx label hstep hfresh hw effect =>
        have hissued := (hstep.reserved hw).1
        have hfree := hfresh _ hissued
        have hused := (hcomp.planned d t hold).issued
        exact of_decide_eq_true (List.all_eq_true.mp hfree _ hused) hid
  intro d d' t t' ht ht' hid
  obtain ⟨id₁, hlog₁⟩ := mem_notices.mp ht
  obtain ⟨id₂, hlog₂⟩ := mem_notices.mp ht'
  rcases notice_step h hlog₁ with hold₁ | hor₁ <;> rcases notice_step h hlog₂ with hold₂ | hor₂
  · exact hi d d' t t' (mem_notices.mpr ⟨_, hold₁⟩) (mem_notices.mpr ⟨_, hold₂⟩) hid
  · exact absurd hid (hnew d d' t t' id₂ (mem_notices.mpr ⟨_, hold₁⟩) hor₂)
  · exact absurd hid.symm (hnew d' d t' t id₁ (mem_notices.mpr ⟨_, hold₂⟩) hor₁)
  · cases hor₁ with
    | outer hjob₁ hrx₁ label₁ hstep₁ hfresh₁ hw₁ effect₁ =>
        cases hor₂ with
        | outer hjob₂ hrx₂ label₂ hstep₂ hfresh₂ hw₂ effect₂ =>
            -- one step reserves once
            have hlog := congrArg World.log (effect₁.symm.trans effect₂)
            change (w.moved ..).log = (w.moved ..).log at hlog
            rw [moved_log, moved_log, OuterStep.reserved_only hstep₁ hw₁,
              OuterStep.reserved_only hstep₂ hw₂] at hlog
            have heq := List.append_cancel_left hlog
            simp only [List.map_cons, List.map_nil, List.cons.injEq, Event.notice.injEq,
              Notice.reserved.injEq, and_true] at heq
            exact heq.2.2

/-! ## What the server accepted -/

theorem attributed_step (h : StepCase cfg w l w')
    (hok : ∀ a ∈ w.incoming l, w.Accepts a.2 → a.2.dialogue = cfg.key → w.NamesPusher cfg a.2)
    (hi : Attributed cfg w) : Attributed cfg w' where
  signed a ha := by
    rcases accepted_step h ha with hold | ⟨_, _, _, hsig, _⟩
    · exact hi.signed a hold
    · exact hsig
  sender a ha hd d inner hdec hrow := by
    rcases accepted_step h ha with hold | ⟨hin, hacc, _⟩
    · exact hi.sender a hold hd d inner hdec hrow
    · exact (hok a hin hacc hd d inner hdec).1 hrow
  chunks a ha had b hb hbd d inner inner' transferId hdec hdec' hc hc' := by
    rcases accepted_step h ha with holda | ⟨hina, hacca, _⟩
    · rcases accepted_step h hb with holdb | ⟨hinb, haccb, _⟩
      · exact hi.chunks a holda had b holdb hbd d inner inner' transferId hdec hdec' hc hc'
      · exact (hok b hinb haccb hbd d inner' hdec').2 transferId hc' a holda had inner hdec hc
    · rcases accepted_step h hb with holdb | ⟨hinb, _⟩
      · exact ((hok a hina hacca had d inner hdec).2 transferId hc b holdb hbd inner' hdec' hc').symm
      · rw [Option.some.inj (hina.symm.trans hinb)]

/-- An upload whose header was accepted is signed. -/
theorem signed_of_delivered (hcomp : Composing cfg w) (hattr : Attributed cfg w)
    (ht : w.Delivered cfg d t 0) (hrow : (t.message (cfg.device d)).SameRow m) :
    w.Signed cfg d m := by
  obtain ⟨a, ha, hd, hseq, inner, hpacket, hc⟩ := ht
  have hzero : a.2.seq - t.headerSeq = 0 := by omega
  rw [hzero] at hpacket
  have hdec := opens_own hcomp hc
  have hmakes : inner.content.makesRow = true := by
    cases hpacket
    rfl
  have hsender : inner.sender = a.2.sender := hattr.sender a ha hd d inner hdec hmakes
  have hshows : (t.message (cfg.device d)).Shows inner := message_shows hpacket
  have hsigned : w.Signed cfg d (t.message (cfg.device d)) := by
    refine ⟨a, ha, hd, ?_, ?_, inner, hdec, hshows⟩
    · rw [hattr.signed a ha, ← hsender]
      exact hshows.2.1.symm
    · change some t.headerSeq = some a.2.seq
      rw [hseq, Nat.add_zero]
  exact hsigned.congr hrow

/-! ## Uploads that are not sent yet -/

/-- An upload that is not sent yet was so before, or is worked on, or is reserved now. -/
theorem drafts_step (h : StepCase cfg w l w') (hcomp : Composing cfg w) (hdist : Distinct w)
    (ht : t ∈ w'.drafts cfg d) :
    t ∈ w.drafts cfg d ∨ (∃ t₀ ∈ w.working d, t.original = t₀.original)
      ∨ Reserves cfg w l w' d t := by
  obtain ⟨hres, m', hm', hrow, hunsent⟩ := mem_drafts.mp ht
  obtain ⟨id, hlog⟩ := mem_notices.mp hres
  rcases notice_step h hlog with hold | horigin
  · have hres₀ : .reserved t ∈ w.notices d := mem_notices.mpr ⟨id, hold⟩
    have horig : t.original = t := (hcomp.planned d t hres₀).original
    -- a transfer that is worked on under the id of `t` is `t`
    have hsame : ∀ t₀ ∈ w.working d, t.transferId = t₀.transferId → t.original = t₀.original := by
      intro t₀ h₀ hid
      rw [horig]
      exact hdist d d t t₀.original hres₀ (hcomp.working d t₀ h₀) hid
    have hid : m'.id = t.transferId := by
      rw [hrow]
      rfl
    rcases row_step h hm' with ⟨m, hm, hre⟩ | hs | ⟨rx, hrx, pkt, hpkt, inner, now, hdec, hnew⟩
    · cases hre with
      | same => exact Or.inl (mem_drafts.mpr ⟨hres₀, _, hm, hrow, hunsent⟩)
      | read => cases hunsent
      | delivered => cases hunsent
      | sent => cases hunsent
      | @failed pending t₀ hat hmid =>
          obtain ⟨job, hjob, rfl, _, ho⟩ := hat
          have hwork : t₀ ∈ w.working job.dev :=
            mem_working_of_job hjob (by rw [ho]; exact List.mem_cons_self)
          have hid' : m.id = t.transferId := hid
          exact Or.inr (Or.inl ⟨t₀, hwork, hsame t₀ hwork (hid'.symm.trans hmid)⟩)
    · obtain ⟨job, hjob, rfl, _, env, hsaves⟩ := hs
      cases ho : job.task.outer with
      | save call id seq =>
          rw [ho] at hsaves
          cases hsaves
          cases hunsent
      | saveSending t₀ =>
          rw [ho] at hsaves
          cases hsaves
          have hwork : t₀ ∈ w.working job.dev :=
            mem_working_of_job hjob (by rw [ho]; exact List.mem_singleton_self _)
          exact Or.inr (Or.inl ⟨t₀, hwork, hsame t₀ hwork hid.symm⟩)
      | _ =>
          rw [ho] at hsaves
          cases hsaves
    · exact absurd hunsent (by rw [hnew.status]; decide)
  · cases horigin with
    | outer hjob hrx label hstep hfresh hw effect =>
        subst label effect
        exact Or.inr (Or.inr (.intro hjob hrx hstep hw))

/-! ## The rows -/

/-- What the device holds was accepted, and its rows are drafts or signed. -/
def Vouched (cfg : Setup κ n) (w : World π n) : Prop :=
  Provenance (w.Arrived cfg) (w.Buffered cfg)
    (fun d m => m.dialogue = cfg.key → w.Draft cfg d m ∨ w.Signed cfg d m) w

/-- Everything the authorship of rows rests on. -/
structure Vouching (cfg : Setup κ n) (w : World π n) : Prop where
  distinct : Distinct w
  attributed : Attributed cfg w
  ranges : w.Ranges cfg (fun d => w.working d ++ w.drafts cfg d)
  resuming : Resuming cfg w
  vouched : Vouched cfg w

theorem signed_saves (hcomp : Composing cfg w) (hs : w.Saves cfg d m) :
    w.Draft cfg d m ∨ w.Signed cfg d m := by
  obtain ⟨job, hjob, rfl, _, env, hsaves⟩ := hs
  cases ho : job.task.outer with
  | save call id seq =>
      rw [ho] at hsaves
      cases hsaves
      obtain ⟨req, ha, rfl, hwritten, inner, hc, hid, hcontent⟩ := hcomp.saved job hjob _ _ _ ho
      have hsendable : call.content.isSendable = true :=
        hcomp.sends job hjob call (by rw [ho]; rfl)
      have hsender : inner.sender = (cfg.device job.dev).username := (hcomp.made _ _ _ _ hc).sender
      exact Or.inr ⟨_, ha, hwritten.dialogue, hwritten.sig, rfl, inner, opens_own hcomp hc,
        sentMessage_shows hid hcontent hsender hsendable⟩
  | saveSending t =>
      rw [ho] at hsaves
      cases hsaves
      have hwork : t ∈ w.working job.dev :=
        mem_working_of_job hjob (by rw [ho]; exact List.mem_singleton_self _)
      exact Or.inl ⟨t.original, hcomp.working _ t hwork, .refl _, rfl⟩
  | _ =>
      rw [ho] at hsaves
      cases hsaves

/-- The row that an accepted packet brings is signed by its author. -/
theorem signed_newRow (hattr : Attributed cfg w) {pkt : RawPacket π} (hp : w.Arrived cfg d pkt)
    {inner : PacketInner} (hdec : (cfg.device d).decryptPacket pkt.seq pkt.payload = some inner)
    {now : Int} {st : LocalStore} (hchunks : ∀ r ∈ st.incomingChunks, w.Buffered cfg d r)
    (hnew : NewRow (cfg.device d) now st inner pkt.seq m) : w.Signed cfg d m := by
  obtain ⟨a, ha, hd, rfl⟩ := hp
  have hsigned : a.2.sig = a.2.sender := hattr.signed a ha
  rcases hnew.2 with hin | hasm
  · have hshows : m.Shows inner := incomingMessage_shows hin
    have hmakes : inner.content.makesRow = true := by
      unfold Client.incomingMessage at hin
      split at hin
      · cases hin
      · cases hin
      · rename_i hc
        rw [hc]
        rfl
      · cases hin
      · rename_i hreceipt hdelete _ _
        cases hc : inner.content with
        | readReceipt => exact absurd hc (hreceipt _)
        | delete => exact absurd hc (hdelete _)
        | _ => rfl
    have hsender : inner.sender = a.2.sender := hattr.sender a ha hd d inner hdec hmakes
    refine ⟨a, ha, hd, ?_, hnew.serverSeq, inner, hdec, hshows⟩
    rw [hsigned, hshows.2.1, hsender]
  · obtain ⟨index, total, filename, mimeType, totalSize, data, rows, hcontent, hput⟩ := hasm.chunk
    have hof : inner.content.chunkOf = some m.id := by
      rw [hcontent]
      rfl
    have hmakes : inner.content.makesRow = true := by
      rw [hcontent]
      rfl
    have hsender : inner.sender = a.2.sender := hattr.sender a ha hd d inner hdec hmakes
    -- the chunk the file takes its sender from has the pusher of this one
    obtain ⟨r, hr, hrs⟩ := hput.sender
    have hauthor : m.sender = a.2.sender := by
      rw [← hrs]
      rcases (hput.pieces r hr).1 with hmem | rfl
      · obtain ⟨b, hb, hbd, inner', hdec', hof', hrsender⟩ := hchunks r hmem
        rw [(hput.pieces r hr).2.1] at hof'
        have hmakes' : inner'.content.makesRow = true := by
          cases hc : inner'.content with
          | readReceipt => rw [hc] at hof'; cases hof'
          | delete => rw [hc] at hof'; cases hof'
          | _ => rfl
        rw [hrsender, hattr.sender b hb hbd d inner' hdec' hmakes']
        exact (hattr.chunks a ha hd b hb hbd d inner inner' m.id hdec hdec' hof hof').symm
      · exact hsender
    refine ⟨a, ha, hd, hsigned.trans hauthor.symm, hnew.serverSeq, inner, hdec, ?_⟩
    refine ⟨?_, hauthor.trans hsender.symm, ?_⟩
    · unfold PacketInner.rowId
      rw [hcontent]
    · rw [hcontent]
      obtain ⟨file, hfile, htransfer, _⟩ := hput.content
      exact ⟨file, hfile, htransfer⟩

/-- A draft that a step changes was delivered, unless it stays a draft. -/
theorem draft_restated (hcomp : Composing cfg w) (hi : Vouching cfg w)
    (hm : m ∈ (w.store d).messages) (hdraft : w.Draft cfg d m) (hre : w.Restates cfg d m m') :
    w.Draft cfg d m' ∨ w.Signed cfg d m' := by
  have hsame : m.SameRow m' := hre.sameRow
  obtain ⟨t, ht, hrow, hunsent⟩ := hdraft
  cases hre with
  | same => exact Or.inl ⟨t, ht, hrow, hunsent⟩
  | read hst => rcases hst with hst | hst <;> (rw [hst] at hunsent; cases hunsent)
  | @delivered pkt inner hpkt hdec hsender hdialogue hseq =>
      -- at the number of the header only the header was accepted
      obtain ⟨rx, hrx, hq⟩ := hpkt
      obtain ⟨a, ha, hd, rfl⟩ := hi.vouched.packets d rx hrx pkt hq
      have hat : t.headerSeq = a.2.seq := by
        rw [hrow] at hseq
        exact Option.some.inj hseq
      have hmem : t ∈ w.working d ++ w.drafts cfg d :=
        List.mem_append_right _ (mem_drafts.mpr ⟨ht, m, hm, hrow, hunsent⟩)
      have hrange : t.InRange a.2.seq := by
        unfold OutboundTransfer.InRange
        omega
      have hcarries := hi.ranges d t hmem a ha hd hrange
      exact Or.inr (signed_of_delivered hcomp hi.attributed ⟨a, ha, hd, hat.symm, hcarries⟩
        (hrow.trans hsame))
  | @sent mode t₀ hat hid =>
      obtain ⟨job, hjob, rfl, _, ho⟩ := hat
      have hprogress := hi.resuming.progress job hjob
      rw [ho] at hprogress
      have hwork : t₀ ∈ w.working job.dev :=
        mem_working_of_job hjob (by rw [ho]; exact List.mem_cons_self)
      have hmid : m.id = t.transferId := by
        rw [hrow]
        rfl
      have heq : t = t₀.original :=
        hi.distinct _ _ t t₀.original ht (hcomp.working _ t₀ hwork) (hmid.symm.trans hid)
      refine Or.inr (signed_of_delivered hcomp hi.attributed (hprogress 0 (Nat.zero_le _)) ?_)
      rw [heq] at hrow
      exact hrow.trans hsame
  | failed => exact Or.inl ⟨t, ht, hrow.trans hsame, rfl⟩

theorem vouched_step (h : StepCase cfg w l w') (hrelay : l.isRelay = false)
    (hcomp : Composing cfg w) (hstored : Stored cfg w) (hi : Vouching cfg w) : Vouched cfg w' := by
  have hcont := continues_step h
  refine provenance_step h hi.vouched ?_ ?_ ?_ ?_ ?_ ?_ ?_
  · rintro d pkt ⟨a, ha, hp⟩
    exact ⟨a, hcont.accepted ha, hp⟩
  · rintro d r ⟨a, ha, hb⟩
    exact ⟨a, hcont.accepted ha, hb⟩
  · intro d m hm m' hrow hre hd
    have hd' : m.dialogue = cfg.key := by
      rw [hre.sameRow] at hd
      exact hd
    rcases hrow hd' with hdraft | hsigned
    · exact (draft_restated hcomp hi hm hdraft hre).imp (Draft.mono hcont) (Signed.mono hcont)
    · exact Or.inr ((hsigned.congr hre.sameRow).mono hcont)
  · intro d pkt hp
    rcases hp with ⟨_, hget⟩ | ⟨job, _, _, packets, rfl, _⟩
    · obtain ⟨a, ha, hd, he⟩ := hstored pkt (PacketStore.mem_packets.mpr hget)
      exact ⟨a, hcont.accepted ha, hd, he⟩
    · cases hrelay
  · intro d pkt inner now transferId index total filename mimeType totalSize data hp hdec hcontent
    obtain ⟨a, ha, hd, rfl⟩ := hp
    refine ⟨a, hcont.accepted ha, hd, inner, hdec, ?_, rfl⟩
    rw [hcontent]
    rfl
  · intro d m hs _
    exact (signed_saves hcomp hs).imp (Draft.mono hcont) (Signed.mono hcont)
  · intro d pkt inner now m hp hdec hnew _
    exact Or.inr ((signed_newRow hi.attributed hp hdec (hi.vouched.chunks d) hnew).mono hcont)

theorem vouching_init : Vouching cfg (init cfg : World π n) where
  distinct _ _ _ _ ht := absurd ht List.not_mem_nil
  attributed := ⟨fun _ ha => absurd ha List.not_mem_nil, fun _ ha => absurd ha List.not_mem_nil,
    fun _ ha => absurd ha List.not_mem_nil⟩
  ranges _ _ _ _ ha := absurd ha List.not_mem_nil
  resuming := resuming_init
  vouched := provenance_init

theorem vouching_step (h : StepCase cfg w l w') (hok : w.AuthenticStep cfg l)
    (hcomp : Composing cfg w) (hstored : Stored cfg w) (hi : Vouching cfg w) :
    Vouching cfg w' where
  distinct := distinct_step h hcomp hi.distinct
  attributed := attributed_step h hok.2.1 hi.attributed
  ranges := by
    refine ranges_step h hok.2.2 hi.ranges (fun d t ht => ?_)
    rcases List.mem_append.mp ht with ht | ht
    · rcases working_step h ht with ⟨t₀, h₀, he⟩ | ⟨hres, _⟩
      · exact Or.inl ⟨t₀, List.mem_append_left _ h₀, he⟩
      · exact Or.inr hres
    · rcases drafts_step h hcomp hi.distinct ht with h₀ | ⟨t₀, h₀, he⟩ | hres
      · exact Or.inl ⟨t, List.mem_append_right _ h₀, rfl⟩
      · exact Or.inl ⟨t₀, List.mem_append_left _ h₀, he⟩
      · exact Or.inr hres
  resuming := by
    have hworking : w.KeepsRanges cfg w.working l :=
      hok.2.2.mono (fun d t ht => List.mem_append_left _ ht)
    exact resuming_step h hok.1 hworking hcomp hstored hi.resuming
  vouched := vouched_step h hok.1 hcomp hstored hi

/-- **Messages are attributed to whoever signed their push**, in any run in which pushes name their
pusher. -/
theorem authored_reachable
    (hr : Lts.Reach (step cfg) (fun w l => w.AuthenticStep cfg l) (init cfg) w) :
    w.Authored cfg := by
  have hi : Vouching cfg w := by
    refine hr.invariant vouching_init (fun w l w' hr hi hok hs => ?_)
    exact vouching_step (step_inv hs) hok (composing_reachable hr) (stored_reachable hr) hi
  exact hi.vouched.rows

end Step

/-! ## A message nobody of its author pushed -/

/-- A push by Bob, made by hand, whose plaintext names `sender`. -/
def byBob (sender : String) : PushRequest Sealed :=
  ⟨"bob", "alice", 1, ⟨7, 0, ⟨"m1", 0, sender, .text "m1", none⟩⟩, "bob"⟩

/-- The push is accepted, and Alice's device receives. -/
def handedOver (sender : String) : List (Label Sealed 3) :=
  [.raw (byBob sender), .start 0 .receive, .scan 0, .lastSeq 0] ++ Sample.steps 0 1 ++ [.pull 0] ++
    Sample.steps 0 5

/-- Under his own name Bob may push what he likes. -/
theorem authored_received :
    (Lts.execWhile (step Sample.setup) (fun w l => w.AuthenticStep Sample.setup l)
      (init Sample.setup) (handedOver "bob")).isSome = true
    ∧ ((Lts.execWhile (step Sample.setup) (fun w l => w.AuthenticStep Sample.setup l)
      (init Sample.setup) (handedOver "bob")).getD (init Sample.setup)).Authored Sample.setup :=
  ⟨by decide, authored_reachable (Lts.reach_getD (by decide))⟩

/-- Under Alice's name he makes her device store a message of her own. -/
theorem stored_as_own :
    ¬ ∀ w : World Sealed 3, Lts.Reach (step Sample.setup)
      (fun _ l => l.isRelay = false ∧ l.isRemoval = false) (init Sample.setup) w →
      w.Authored Sample.setup := by
  intro h
  have hrun : (Lts.execWhile (step Sample.setup)
      (fun _ l => l.isRelay = false ∧ l.isRemoval = false) (init Sample.setup)
      (handedOver "alice")).isSome = true := by decide
  have hrow := h _ (Lts.reach_getD hrun) 0
    ⟨"m1", ⟨"alice", "bob"⟩, "alice", .text "m1", 0, .delivered, some 1, none, none⟩
    (by decide) rfl
  have haccepted : ((Lts.execWhile (step Sample.setup)
      (fun _ l => l.isRelay = false ∧ l.isRemoval = false) (init Sample.setup)
      (handedOver "alice")).getD (init Sample.setup)).accepted = [(none, byBob "alice")] := by decide
  rcases hrow with ⟨_, _, _, hunsent⟩ | ⟨a, ha, _, hsig, _⟩
  · cases hunsent
  · rw [haccepted] at ha
    rw [List.mem_singleton.mp ha] at hsig
    revert hsig
    decide

end World

end Paranoia
