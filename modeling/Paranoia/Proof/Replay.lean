import Paranoia.Proof.Provenance

/-!
# A hostile relay

A relay makes up the answers of the server. It cannot seal packets, but nothing in
a packet says which number it was composed for: `encrypt` binds no associated
data, and a client takes the number from the answer. So a ciphertext shown at
another number is stored there (`replayed_elsewhere`).

That is all a relay can do. As long as the packets it shows to a device that can
open them stand at the numbers they were composed for, it may drop, repeat,
permute and withhold as it likes: every row is a packet composed for the row's
number, and no packet has two rows (`noReplay_reachable`).
-/

namespace Paranoia

variable {κ π : Type} {n : Nat}

namespace World

section Defs

variable [DecidableEq π] [Aead κ π] (cfg : Setup κ n) (w : World π n)

/-- A packet with this payload was composed, for the number `p` allows. -/
def composedFor (payload : π) (p : Nat → Bool) : Bool :=
  (List.finRange n).any (fun d => (w.notices d).any (fun
    | .composed seq _ payload' => payload' = payload && p seq
    | _ => false))

/-- The packets a relay answers a pull with, and the device that gets them. -/
def relayed : Label π n → List (Fin n × RawPacket π)
  | .relayPull id packets =>
      match w.job id with
      | some job => packets.map (fun pkt => (job.dev, pkt))
      | none => []
  | _ => []

/-- No push is made by hand, and a relay answers with packets of which those that the device can
open were composed, for a number `p` allows. -/
def RelayStep (p : RawPacket π → Nat → Bool) (l : Label π n) : Prop :=
  l.isRaw = false ∧ ∀ a ∈ w.relayed l,
    ((cfg.device a.1).decryptPacket a.2.seq a.2.payload).isSome = true →
      w.composedFor a.2.payload (p a.2) = true

/-- A relay that forges nothing. -/
def UnforgedStep (l : Label π n) : Prop := w.RelayStep cfg (fun _ _ => true) l

/-- A relay that forges nothing and moves nothing. -/
def InPlaceStep (l : Label π n) : Prop := w.RelayStep cfg (fun pkt seq => seq = pkt.seq) l

instance (p : RawPacket π → Nat → Bool) (l : Label π n) : Decidable (w.RelayStep cfg p l) :=
  inferInstanceAs (Decidable (_ ∧ _))

instance (l : Label π n) : Decidable (w.UnforgedStep cfg l) :=
  inferInstanceAs (Decidable (w.RelayStep cfg _ l))

instance (l : Label π n) : Decidable (w.InPlaceStep cfg l) :=
  inferInstanceAs (Decidable (w.RelayStep cfg _ l))

end Defs

section Props

variable (cfg : Setup κ n) (w : World π n)

/-- The row is a chunk that device `d` composed. -/
def ChunkOf (d : Fin n) (r : ChunkRow) : Prop :=
  ∃ seq inner payload totalSize, .composed seq inner payload ∈ w.notices d
    ∧ inner.content = .fileChunk r.transferId r.chunkIndex r.total r.filename r.mimeType totalSize
        r.data
    ∧ r.sender = (cfg.device d).username

/-- What a row at number `s` of device `d` may be. -/
inductive Placed (d : Fin n) (s : Nat) (m : Message) : Prop where
  /-- An upload of the device itself, over a range it reserved from `s` on. -/
  | own {t : OutboundTransfer} (hreserved : .reserved t ∈ w.notices d) (hseq : t.headerSeq = s)
      (hrow : (t.message (cfg.device d)).SameRow m)
  /-- A packet that a device of its sender composed for `s`. If it is a chunk, the row is the file
  put together from chunks of the same device. -/
  | packet {d' : Fin n} {inner : PacketInner} {payload : π}
      (hcomposed : .composed s inner payload ∈ w.notices d')
      (hsender : m.sender = (cfg.device d').username) (hshows : m.Shows inner)
      (hpieces : ∀ index total filename mimeType totalSize data,
        inner.content = .fileChunk m.id index total filename mimeType totalSize data →
          ∃ rows, m.PutTogether (w.ChunkOf cfg d') cfg.key rows)

/-- Nothing is replayed, moved or reordered: every row with a number stands where its packet was
composed for, and no packet has two rows on a device. -/
structure NoReplay : Prop where
  placed : ∀ d, ∀ m ∈ (w.store d).messages, m.dialogue = cfg.key → ∀ s, m.serverSeq = some s →
    w.Placed cfg d s m
  once : ∀ d, ∀ m ∈ (w.store d).messages, ∀ m' ∈ (w.store d).messages, ∀ d' seq inner payload,
    .composed seq inner payload ∈ w.notices d' → m.Shows inner → m'.Shows inner → m = m'

end Props

variable {cfg : Setup κ n} {w w' : World π n} {l : Label π n} {d : Fin n} {m m' : Message}

theorem ChunkOf.mono (hc : Continues w w') {r : ChunkRow} (h : w.ChunkOf cfg d r) :
    w'.ChunkOf cfg d r := by
  obtain ⟨seq, inner, payload, totalSize, hcomp, hcontent, hsender⟩ := h
  exact ⟨seq, inner, payload, totalSize, hc.notices hcomp, hcontent, hsender⟩

theorem Placed.mono (hc : Continues w w') {s : Nat} (h : w.Placed cfg d s m) :
    w'.Placed cfg d s m := by
  cases h with
  | own hreserved hseq hrow => exact .own (hc.notices hreserved) hseq hrow
  | packet hcomposed hsender hshows hpieces =>
      refine .packet (hc.notices hcomposed) hsender hshows ?_
      intro index total filename mimeType totalSize data hcontent
      obtain ⟨rows, hrows⟩ := hpieces _ _ _ _ _ _ hcontent
      exact ⟨rows, hrows.mono (fun r hr => hr.mono hc)⟩

theorem Placed.congr {s : Nat} (h : w.Placed cfg d s m) (hm : m.SameRow m') :
    w.Placed cfg d s m' := by
  have hid : m'.id = m.id := by rw [hm]
  cases h with
  | own hreserved hseq hrow => exact .own hreserved hseq (hrow.trans hm)
  | packet hcomposed hsender hshows hpieces =>
      refine .packet hcomposed (by rw [hm]; exact hsender) (hshows.congr hm) ?_
      rw [hid]
      intro index total filename mimeType totalSize data hcontent
      obtain ⟨rows, hrows⟩ := hpieces _ _ _ _ _ _ hcontent
      exact ⟨rows, hrows.congr hm⟩

section Step

variable [Aead κ π]

/-- Transfers have an id of their own, so chunks of one transfer were composed by one device. -/
theorem chunk_device (hi : Composing cfg w) {d₁ d₂ : Fin n} {s₁ s₂ : Nat}
    {inner₁ inner₂ : PacketInner} {payload₁ payload₂ : π} {transferId : String}
    {i₁ i₂ total₁ total₂ size₁ size₂ : Nat} {file₁ file₂ mime₁ mime₂ : String}
    {data₁ data₂ : List UInt8}
    (h₁ : .composed s₁ inner₁ payload₁ ∈ w.notices d₁)
    (h₂ : .composed s₂ inner₂ payload₂ ∈ w.notices d₂)
    (hc₁ : inner₁.content = .fileChunk transferId i₁ total₁ file₁ mime₁ size₁ data₁)
    (hc₂ : inner₂.content = .fileChunk transferId i₂ total₂ file₂ mime₂ size₂ data₂) :
    d₁ = d₂ := by
  -- each belongs to a transfer its device reserved under that id
  have hissued : ∀ {d : Fin n} {s : Nat} {inner : PacketInner} {payload : π}
      {i total size : Nat} {file mime : String} {data : List UInt8},
      .composed s inner payload ∈ w.notices d →
      inner.content = .fileChunk transferId i total file mime size data →
      ∃ seq, ⟨transferId, seq, d⟩ ∈ w.issued := by
    intro d s inner payload i total size file mime data hcomp hcontent
    cases (hi.made _ _ _ _ hcomp).source with
    | send hsendable _ =>
        rw [hcontent] at hsendable
        cases hsendable
    | @transfer t j hreserved _ hpacket _ =>
        have hid : t.transferId = transferId := by
          cases j with
          | zero =>
              cases hpacket
              cases hcontent
          | succ j =>
              simp only [OutboundTransfer.packet, Option.bind_eq_some_iff,
                Option.map_eq_some_iff] at hpacket
              obtain ⟨_, _, _, _, rfl⟩ := hpacket
              cases hcontent
              rfl
        have hplanned := hi.planned d t hreserved
        exact ⟨t.headerSeq, hid ▸ hplanned.issued⟩
  obtain ⟨seq₁, hm₁⟩ := hissued h₁ hc₁
  obtain ⟨seq₂, hm₂⟩ := hissued h₂ hc₂
  have heq := List.inj_on_of_nodup_map hi.unique hm₁ hm₂ rfl
  exact congrArg Issued.dev heq

/-- The packet, if the device can open it, was composed for the number it stands at. -/
def Genuine (cfg : Setup κ n) (w : World π n) (d : Fin n) (pkt : RawPacket π) : Prop :=
  ∀ inner, (cfg.device d).decryptPacket pkt.seq pkt.payload = some inner →
    ∃ d', .composed pkt.seq inner pkt.payload ∈ w.notices d'

/-- The row of a message that a call saves is placed. -/
theorem placed_saves (hi : Composing cfg w) (hs : w.Saves cfg d m) {s : Nat}
    (hseq : m.serverSeq = some s) : w.Placed cfg d s m := by
  obtain ⟨job, hjob, rfl, _, env, hsaves⟩ := hs
  cases ho : job.task.outer with
  | save call id seq =>
      rw [ho] at hsaves
      cases hsaves
      cases hseq
      obtain ⟨req, _, rfl, hwritten, inner, hcomp, hid, hcontent⟩ := hi.saved job hjob _ _ _ ho
      have hsendable : call.content.isSendable = true :=
        hi.sends job hjob call (by rw [ho]; rfl)
      have hmade := hi.made _ _ _ _ hcomp
      refine .packet hcomp rfl (sentMessage_shows hid hcontent hmade.sender hsendable) ?_
      intro _ _ _ _ _ _ hchunk
      rw [← hcontent, hchunk] at hsendable
      cases hsendable
  | saveSending t =>
      rw [ho] at hsaves
      cases hsaves
      cases hseq
      have hwork : t ∈ w.working job.dev :=
        mem_working_of_job hjob (by rw [ho]; exact List.mem_singleton_self _)
      have hknown := hi.working _ t hwork
      exact .own hknown rfl (.refl _)
  | _ =>
      rw [ho] at hsaves
      cases hsaves

/-- The row a genuine packet brings is placed, if the chunks it is put together from are genuine. -/
theorem placed_newRow (hi : Composing cfg w) {d' : Fin n} {inner : PacketInner} {payload : π}
    {s : Nat} {now : Int} {st : LocalStore} (hcomp : .composed s inner payload ∈ w.notices d')
    (hchunks : ∀ r ∈ st.incomingChunks, ∃ d', w.ChunkOf cfg d' r)
    (hnew : NewRow (cfg.device d) now st inner s m) : w.Placed cfg d s m := by
  have hmade := hi.made _ _ _ _ hcomp
  rcases hnew.2 with hin | hasm
  · have hshows := incomingMessage_shows hin
    refine .packet hcomp (hshows.2.1.trans hmade.sender) hshows ?_
    intro _ _ _ _ _ _ hchunk
    unfold Client.incomingMessage at hin
    rw [hchunk] at hin
    cases hin
  · obtain ⟨index, total, filename, mimeType, totalSize, data, rows, hcontent, hput⟩ := hasm.chunk
    -- the chunks of the file all come from the device that composed this one
    have hsame : ∀ r, (r ∈ st.incomingChunks ∨ r = (cfg.device d).chunkRow now inner m.id index total
        filename mimeType totalSize data) → r.transferId = m.id → w.ChunkOf cfg d' r := by
      intro r hr hid
      rcases hr with hr | rfl
      · obtain ⟨d'', hof⟩ := hchunks r hr
        have ⟨seq₂, inner₂, payload₂, size₂, hcomp₂, hcontent₂, _⟩ := hof
        rw [hid] at hcontent₂
        obtain rfl := chunk_device hi hcomp₂ hcomp hcontent₂ hcontent
        exact hof
      · exact ⟨s, inner, payload, totalSize, hcomp, hcontent, hmade.sender⟩
    have hrows : m.PutTogether (w.ChunkOf cfg d') cfg.key rows :=
      { pieces := fun r hr =>
          ⟨hsame r (hput.pieces r hr).1 (hput.pieces r hr).2.1, (hput.pieces r hr).2.1,
            ((hput.pieces r hr).2.2).trans (cfg.shared d)⟩
        ordered := hput.ordered
        sender := hput.sender
        content := hput.content }
    have hsender : m.sender = (cfg.device d').username := by
      obtain ⟨r, hr, hrs⟩ := hrows.sender
      obtain ⟨_, _, _, _, _, _, hof⟩ := (hrows.pieces r hr).1
      rw [← hrs, hof]
    refine .packet hcomp hsender ⟨?_, hsender.trans hmade.sender.symm, ?_⟩
      (fun _ _ _ _ _ _ _ => ⟨rows, hrows⟩)
    · unfold PacketInner.rowId
      rw [hcontent]
    · rw [hcontent]
      obtain ⟨file, hfile, htransfer, _⟩ := hrows.content
      exact ⟨file, hfile, htransfer⟩

/-- Everything a device holds was composed for the place it has. -/
def Traced (cfg : Setup κ n) (w : World π n) : Prop :=
  Provenance (Genuine cfg w) (fun _ r => ∃ d', w.ChunkOf cfg d' r)
    (fun d m => m.dialogue = cfg.key → ∀ s, m.serverSeq = some s → w.Placed cfg d s m) w

variable [DecidableEq π]

/-- What a device pulls is genuine. -/
theorem genuine_pulls (hi : Composing cfg w) (hstored : Stored cfg w)
    (hmade : ∀ a ∈ w.accepted, ∃ id, a.1 = some id) (hok : w.InPlaceStep cfg l)
    {pkt : RawPacket π} (hp : w.Pulls cfg l d pkt) : Genuine cfg w d pkt := by
  intro inner hdec
  rcases hp with ⟨_, hget⟩ | ⟨job, hjob, rfl, packets, rfl, hmem⟩
  · obtain ⟨⟨id, req⟩, ha, _, rfl⟩ := hstored pkt (PacketStore.mem_packets.mpr hget)
    obtain ⟨id', hid⟩ := hmade _ ha
    cases hid
    obtain ⟨d', hw⟩ := hi.accepted id' req ha
    obtain ⟨inner', hc⟩ := hw.composed
    rw [opens hi hc hdec]
    exact ⟨d', hc⟩
  · have hrelayed : (job.dev, pkt) ∈ w.relayed (.relayPull job.id packets) := by
      simp only [relayed, job_of_mem hjob]
      exact List.mem_map_of_mem (f := fun pkt => (job.dev, pkt)) hmem
    have hfor := hok.2 _ hrelayed (by rw [hdec]; rfl)
    simp only [composedFor, List.any_eq_true] at hfor
    obtain ⟨d', _, what, hwhat, hmatch⟩ := hfor
    cases what with
    | composed seq inner' payload =>
        simp only [Bool.and_eq_true, decide_eq_true_eq] at hmatch
        obtain ⟨rfl, rfl⟩ := hmatch
        rw [opens hi hwhat hdec]
        exact ⟨d', hwhat⟩
    | _ => cases hmatch

theorem traced_step (h : StepCase cfg w l w') (hcomp : Composing cfg w) (hstored : Stored cfg w)
    (hmade : ∀ a ∈ w.accepted, ∃ id, a.1 = some id) (hok : w.InPlaceStep cfg l)
    (hi : Traced cfg w) : Traced cfg w' := by
  have hcont := continues_step h
  refine provenance_step h hi ?_ ?_ ?_ ?_ ?_ ?_ ?_
  · intro d pkt hg inner hdec
    obtain ⟨d', hc⟩ := hg inner hdec
    exact ⟨d', hcont.notices hc⟩
  · rintro d r ⟨d', hof⟩
    exact ⟨d', hof.mono hcont⟩
  · intro d m _ m' hrow hre hd s hs
    have hsame := hre.sameRow
    rw [hsame] at hd hs
    exact ((hrow hd s hs).congr hsame).mono hcont
  · intro d pkt hp inner hdec
    obtain ⟨d', hc⟩ := genuine_pulls hcomp hstored hmade hok hp inner hdec
    exact ⟨d', hcont.notices hc⟩
  · intro d pkt inner now transferId index total filename mimeType totalSize data hg hdec hcontent
    obtain ⟨d', hc⟩ := hg inner hdec
    have hsender := (hcomp.made _ _ _ _ hc).sender
    exact ⟨d', ChunkOf.mono hcont ⟨_, inner, _, totalSize, hc, hcontent, hsender⟩⟩
  · intro d m hs _ s hseq
    exact (placed_saves hcomp hs hseq).mono hcont
  · intro d pkt inner now m hg hdec hnew _ s hseq
    obtain ⟨d', hc⟩ := hg inner hdec
    rw [hnew.serverSeq] at hseq
    cases hseq
    exact (placed_newRow hcomp hc (hi.chunks d) hnew).mono hcont

/-- **A relay that moves nothing replays nothing**, whatever else it answers. -/
theorem noReplay_reachable
    (hr : Lts.Reach (step cfg) (fun w l => w.InPlaceStep cfg l) (init cfg) w) :
    NoReplay cfg w := by
  have htraced : Traced cfg w := by
    refine hr.invariant (P := Traced cfg) provenance_init (fun w l w' hr hi hok hs => ?_)
    exact traced_step (step_inv hs) (composing_reachable hr) (stored_reachable hr)
      (made_reachable (fun _ _ h => h.1) hr) hok hi
  refine ⟨htraced.rows, ?_⟩
  intro d m hm m' hm' d' seq inner payload _ hshows hshows'
  exact Table.eq_of_key hm hm' (hshows.1.trans hshows'.1.symm)

end Step

/-! ## One packet at two numbers -/

/-- Alice's packet of number `1`. -/
def sent : Sealed := ⟨7, 0, ⟨"m1", 0, "alice", .text "m1", none⟩⟩

/-- Alice sends a message, and Bob's `receive` is told that the dialogue holds the number `seq`
only, where it is shown these packets. -/
def relays (seq : Nat) (packets : List (RawPacket Sealed)) : List (Label Sealed 3) :=
  Sample.sends 0 0 "m1" ++ [.start 1 .receive, .relayMap 1 ⟨[(seq, seq)], seq, false⟩] ++
    Sample.steps 1 1 ++ [.relayPull 1 packets] ++ Sample.steps 1 1

/-- A packet shown twice at its own number is stored once. -/
theorem noReplay_repeated :
    (Lts.execWhile (step Sample.setup) (fun w l => w.InPlaceStep Sample.setup l)
      (init Sample.setup) (relays 1 [⟨1, sent⟩, ⟨1, sent⟩] ++ Sample.steps 1 2)).isSome = true
    ∧ NoReplay Sample.setup ((Lts.execWhile (step Sample.setup)
      (fun w l => w.InPlaceStep Sample.setup l) (init Sample.setup)
      (relays 1 [⟨1, sent⟩, ⟨1, sent⟩] ++ Sample.steps 1 2)).getD (init Sample.setup)) :=
  ⟨by decide, noReplay_reachable (Lts.reach_getD (by decide))⟩

/-- Shown at `5`, Alice's packet of number `1` is stored at `5`. -/
theorem replayed_elsewhere :
    ¬ ∀ w : World Sealed 3, Lts.Reach (step Sample.setup)
      (fun w l => w.UnforgedStep Sample.setup l) (init Sample.setup) w →
      NoReplay Sample.setup w := by
  intro h
  have hrun : (Lts.execWhile (step Sample.setup) (fun w l => w.UnforgedStep Sample.setup l)
      (init Sample.setup) (relays 5 [⟨5, sent⟩])).isSome = true := by decide
  have hplaced := (h _ (Lts.reach_getD hrun)).placed 1
    ⟨"m1", ⟨"alice", "bob"⟩, "alice", .text "m1", 0, .delivered, some 5, none, none⟩
    (by decide) rfl 5 rfl
  -- nothing was composed for `5`, and nothing reserved
  have hnone : ∀ d, ∀ what ∈ ((Lts.execWhile (step Sample.setup)
      (fun w l => w.UnforgedStep Sample.setup l) (init Sample.setup)
      (relays 5 [⟨5, sent⟩])).getD (init Sample.setup)).notices d,
      (match what with
        | .composed seq _ _ => decide (seq ≠ 5)
        | .reserved _ => false
        | _ => true) = true := by decide
  cases hplaced with
  | own hreserved => exact absurd (hnone _ _ hreserved) (by simp)
  | packet hcomposed => exact absurd (hnone _ _ hcomposed) (by simp)

end World

end Paranoia
