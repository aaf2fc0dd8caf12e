import Paranoia.Client.KeyRotation
import Paranoia.Lib.Tasks
import Paranoia.Proof.Delivery
import Paranoia.Proof.DialogStore
import Paranoia.Proof.Running

/-!
# Both sides select one key

Below the number it starts at a new key changes nothing (`keyForSeq_upsertEntry`). So if both sides
put it in at one number, and nothing at that number or after it is pushed or processed without it,
then either keyring selects the key that a packet was sealed with (`keys_agree`).

But each side takes the number from its own cursor, and nothing waits for the other one. A packet
that is on its way when the recipient turns to the new key is counted as an error and passed over
(`keys_disagree`).
-/

namespace Paranoia

section Keyring

variable {κ : Type} {ring : List (DialogueKeyEntry κ)} {entry e : DialogueKeyEntry κ} {seq : Nat}

/-- A keyring as `upsertEntry` leaves it. -/
def Ascending (ring : List (DialogueKeyEntry κ)) : Prop :=
  ring.Pairwise fun a b => a.startSeq ≤ b.startSeq

instance : Std.Total fun a b : DialogueKeyEntry κ => a.startSeq ≤ b.startSeq :=
  ⟨fun a b => Nat.le_total a.startSeq b.startSeq⟩

instance : IsTrans (DialogueKeyEntry κ) fun a b => a.startSeq ≤ b.startSeq :=
  ⟨fun _ _ _ hab hbc => Nat.le_trans hab hbc⟩

theorem ascending_sortEntries (ring : List (DialogueKeyEntry κ)) : Ascending (sortEntries ring) :=
  List.pairwise_insertionSort _ _

theorem ascending_upsertEntry : Ascending (upsertEntry ring entry) := ascending_sortEntries _

theorem sortEntries_eq (h : Ascending ring) : sortEntries ring = ring := h.insertionSort_eq

theorem normalizeKeyring_eq (h : Ascending ring) {ring' : List (DialogueKeyEntry κ)}
    (hn : normalizeKeyring ring = some ring') : ring' = ring := by
  unfold normalizeKeyring at hn
  obtain ⟨-, hn⟩ := Option.ite_none_left_eq_some.mp hn
  obtain ⟨-, hn⟩ := Option.ite_none_right_eq_some.mp hn
  rw [← Option.some.inj hn, sortEntries_eq h]

/-- The key at a number depends on the entries that start at or before it. -/
theorem keyForSeq_eq : keyForSeq ring seq
    = ((ring.filter fun e => e.startSeq ≤ seq).getLast?).map DialogueKeyEntry.key := by
  rw [keyForSeq, ← List.head?_filter, List.filter_reverse, List.head?_reverse]

theorem replaceEntry_starts (seq : Nat) {ring' : List (DialogueKeyEntry κ)}
    (h : replaceEntry entry ring = some ring') :
    ring'.map DialogueKeyEntry.startSeq = ring.map DialogueKeyEntry.startSeq
      ∧ (seq < entry.startSeq → (ring'.filter fun e => e.startSeq ≤ seq)
        = ring.filter fun e => e.startSeq ≤ seq) := by
  induction ring generalizing ring' with
  | nil => cases h
  | cons e ring ih =>
      rw [replaceEntry] at h
      split at h
      · rename_i hstart
        cases h
        refine ⟨by rw [List.map_cons, List.map_cons, hstart], fun hlt => ?_⟩
        rw [List.filter_cons_of_neg, List.filter_cons_of_neg]
        · simpa [hstart] using hlt
        · simpa using hlt
      · obtain ⟨rest, hrest, rfl⟩ := Option.map_eq_some_iff.mp h
        obtain ⟨hstarts, hfilter⟩ := ih hrest
        refine ⟨by rw [List.map_cons, List.map_cons, hstarts], fun hlt => ?_⟩
        rw [List.filter_cons, List.filter_cons, hfilter hlt]

theorem ascending_iff : Ascending ring
    ↔ (ring.map DialogueKeyEntry.startSeq).Pairwise fun a b => a ≤ b :=
  List.pairwise_map.symm

/-- Before the number it starts at a new key changes nothing. -/
theorem filter_upsertEntry (h : Ascending ring) (hlt : seq < entry.startSeq) :
    ((upsertEntry ring entry).filter fun e => e.startSeq ≤ seq)
      = ring.filter fun e => e.startSeq ≤ seq := by
  unfold upsertEntry
  cases hreplace : replaceEntry entry ring with
  | some ring' =>
      obtain ⟨hstarts, hfilter⟩ := replaceEntry_starts seq hreplace
      have hasc : Ascending ring' := by
        rw [ascending_iff, hstarts]
        exact ascending_iff.mp h
      rw [Option.getD_some, sortEntries_eq hasc, hfilter hlt]
  | none =>
      rw [Option.getD_none]
      -- the old entries keep their order, and the new one is not among those that start before
      have hsub : ring.Sublist (sortEntries (ring ++ [entry])) :=
        List.sublist_insertionSort h (List.sublist_append_left _ _)
      have hperm : ((sortEntries (ring ++ [entry])).filter fun e => e.startSeq ≤ seq).Perm
          ((ring ++ [entry]).filter fun e => e.startSeq ≤ seq) :=
        (List.perm_insertionSort _ _).filter _
      have hlength := hperm.length_eq
      rw [List.filter_append, List.filter_cons_of_neg (by simpa using hlt), List.filter_nil,
        List.append_nil] at hlength
      exact ((hsub.filter _).eq_of_length hlength.symm).symm

theorem keyForSeq_upsertEntry (h : Ascending ring) (hlt : seq < entry.startSeq) :
    keyForSeq (upsertEntry ring entry) seq = keyForSeq ring seq := by
  rw [keyForSeq_eq, keyForSeq_eq, filter_upsertEntry h hlt]

end Keyring

/-! ## The keyring of the client -/

namespace Dialogs

def entryOf (e : DialogKeyEntry) : DialogueKeyEntry (List UInt8) := ⟨e.startSeq.toNat, e.key⟩

theorem map_replaceKey (entry : DialogKeyEntry) (keyring : List DialogKeyEntry) :
    (replaceKey entry keyring).map (List.map entryOf)
      = replaceEntry (entryOf entry) (keyring.map entryOf) := by
  induction keyring with
  | nil => rfl
  | cons e keyring ih =>
      rw [replaceKey, List.map_cons, replaceEntry]
      have hstart : (entryOf e).startSeq = (entryOf entry).startSeq ↔ e.startSeq = entry.startSeq :=
        UInt64.toNat_inj
      by_cases h : e.startSeq = entry.startSeq
      · rw [if_pos h, if_pos (hstart.mpr h)]
        rfl
      · rw [if_neg h, if_neg fun hc => h (hstart.mp hc), ← ih, Option.map_map, Option.map_map]
        rfl

theorem map_sorted (keyring : List DialogKeyEntry) :
    (sorted keyring).map entryOf = sortEntries (keyring.map entryOf) :=
  List.map_insertionSort _ _ _ _ fun _ _ _ _ => UInt64.le_iff_toNat_le

/-- What a key exchange does with the keyring of the dialogue it is for. -/
theorem upsert_keyring {dialogs : List Dialog} {peer peerServerId : String} {i : Nat} {d : Dialog}
    {sessionKey : List UInt8} {startSeq : UInt64} (hpeer : peer ≠ "")
    (hkey : sessionKey.length = 32) (hseq : startSeq ≠ 0)
    (hfind : findTarget dialogs peer peerServerId = some i) (hd : dialogs[i]? = some d) :
    ((upsertDialogKeyringEntry dialogs peer peerServerId sessionKey startSeq false)[i]?).map
        (fun d => d.keyring.map entryOf)
      = some (upsertEntry (d.keyring.map entryOf) ⟨startSeq.toNat, sessionKey⟩) := by
  unfold upsertDialogKeyringEntry
  rw [if_neg (by simp [hpeer, hkey, hseq])]
  dsimp only
  rw [hfind]
  dsimp only
  rw [List.getElem?_modify_eq, hd]
  simp only [Bool.false_eq_true, if_false]
  refine congrArg some ((map_sorted _).trans ?_)
  rw [upsertEntry]
  have hreplace := map_replaceKey ⟨startSeq, sessionKey, peerServerId⟩ d.keyring
  change _ = replaceEntry ⟨startSeq.toNat, sessionKey⟩ _ at hreplace
  rw [← hreplace]
  cases replaceKey ⟨startSeq, sessionKey, peerServerId⟩ d.keyring with
  | none => simp [entryOf]
  | some keyring => rfl

/-- A keyring in order is the same after it has been through JSON. -/
theorem reread_keyring {numbers : JsonNumbers} {d : Dialog} (h : d.Storable) :
    (d.keyring.filterMap (rereadKey numbers)).map entryOf = d.keyring.map entryOf
      ∧ Ascending (d.keyring.map entryOf) := by
  have hkeys : d.keyring.filterMap (rereadKey numbers) = d.keyring :=
    (List.filterMap_congr fun e he => rereadKey_eq (h.keys e he)).trans List.filterMap_some
  refine ⟨by rw [hkeys], List.pairwise_map.mpr (h.sorted.imp fun hab => ?_)⟩
  exact UInt64.le_iff_toNat_le.mp hab

end Dialogs

/-! ## One step of a receive -/

section Receive

variable {κ π : Type} [Aead κ π] {c : Client κ} {now : Int} {st st' : LocalStore}
  {r run : Receive π}

/-- A step processes packets that were pulled before, and counts no error if the one at hand can be
decrypted. -/
theorem localStep_spec (hs : r.localStep c now st = some (st', .ok run))
    (hdec : ∀ pkt ∈ RotationWorld.atHand r, c.decryptPacket pkt.seq pkt.payload ≠ none) :
    (∀ pkt ∈ run.queue, pkt ∈ r.queue) ∧ run.decryptErrors = r.decryptErrors := by
  obtain ⟨runs, total, cursor, messages, errors, point⟩ := r
  cases point with
  | map | scanned | pull | done => cases hs
  | load =>
      cases hs
      exact ⟨fun pkt hpkt => by simp at hpkt, Receive.decryptErrors_nextRun _⟩
  | skip batchEnd stop todo =>
      cases hs
      exact ⟨fun pkt hpkt => by simp at hpkt, Receive.decryptErrors_nextBatch _ _ _⟩
  | advance target own queue batchEnd stop todo =>
      cases hs
      refine ⟨fun pkt hpkt => ?_, Receive.decryptErrors_nextPacket _ _ _ _⟩
      rw [Receive.queue_nextPacket] at hpkt
      exact hpkt
  | bump =>
      simp only [Receive.localStep] at hs
      split at hs <;> cases hs <;> exact ⟨fun pkt hpkt => (by cases hpkt), rfl⟩
  | sweep =>
      simp only [Receive.localStep] at hs
      split at hs <;> cases hs <;> exact ⟨fun pkt hpkt => (by cases hpkt), rfl⟩
  | delete =>
      cases hs
      exact ⟨fun pkt hpkt => (by cases hpkt), rfl⟩
  | packet pkt queue batchEnd stop todo =>
      have hs := Option.some.inj hs
      have hskip : ∀ {skipUntil : Option Nat} {q : RawPacket π},
          q ∈ Receive.dropSkipped skipUntil queue → q ∈ pkt :: queue := fun hq =>
        List.mem_cons_of_mem _ ((Receive.dropSkipped_sublist _ _).subset hq)
      unfold Receive.onPacket at hs
      split at hs
      · rename_i hnone
        exact absurd hnone (hdec pkt rfl)
      · split at hs
        · cases hs
        · dsimp only at hs
          split at hs
          · cases hs
            exact ⟨fun q hq => hskip hq, rfl⟩
          · split at hs
            · cases hs
            · cases hs
              exact ⟨fun q hq => hskip hq, rfl⟩

end Receive

namespace RotationWorld

variable {κ π : Type} [Aead κ π] {cfg : RotationConfig κ} {ring : List (DialogueKeyEntry κ)}
  {w w' w₀ : RotationWorld κ π} {s : Side} {st : RotationSide κ π} {c : KeyedCall κ}

/-- The keyring with the new key, once somebody has it. -/
def newRing (cfg : RotationConfig κ) (ring : List (DialogueKeyEntry κ)) :
    Option Nat → List (DialogueKeyEntry κ)
  | some start => upsertEntry ring ⟨start, cfg.sessionKey⟩
  | none => ring

/-- Everything is sealed with the key that the new keyring selects, and every call has the old
keyring or the new one. -/
structure Turning (cfg : RotationConfig κ) (ring : List (DialogueKeyEntry κ))
    (w : RotationWorld κ π) : Prop where
  ascending : Ascending ring
  started : ∀ s start, w.startOf s = some start → w.switch = some start
  keyring : ∀ s, (w.side s).keyring = newRing cfg ring (w.startOf s)
  calls : ∀ s c, (c ∈ (w.side s).sends ∨ ∃ r, (c, r) ∈ (w.side s).receives) →
    if c.rotated then w.switch ≠ none ∧ c.client.keyring = newRing cfg ring w.switch
    else c.client.keyring = ring
  live : ∀ p ∈ w.packets, p ∈ w.pushed
  pushed : ∀ p ∈ w.pushed, keyForSeq (newRing cfg ring w.switch) p.packet.seq = some p.key
    ∧ ∃ nonce inner, p.packet.payload = Aead.encrypt p.key nonce inner
  queues : ∀ s, ∀ t ∈ (w.side s).receives, ∀ pkt ∈ t.2.queue, ∃ p ∈ w.pushed, p.packet = pkt
  errors : ∀ s, ∀ t ∈ (w.side s).receives, t.2.decryptErrors = []

/-- A call that is there when the new key must be had selects what the new keyring selects. -/
theorem Turning.keyForSeq_call (h : w.Turning cfg ring)
    (hc : c ∈ (w.side s).sends ∨ ∃ r, (c, r) ∈ (w.side s).receives) {seq : Nat}
    (hnew : ∀ start ∈ w.switch, start ≤ seq → c.rotated = true) :
    keyForSeq c.client.keyring seq = keyForSeq (newRing cfg ring w.switch) seq := by
  have hcall := h.calls s c hc
  by_cases hrot : c.rotated = true
  · rw [if_pos hrot] at hcall
    rw [hcall.2]
  · rw [if_neg hrot] at hcall
    rw [hcall]
    cases hswitch : w.switch with
    | none => rfl
    | some start =>
        refine (keyForSeq_upsertEntry h.ascending ?_).symm
        by_contra hle
        exact hrot (hnew start hswitch (Nat.le_of_not_lt hle))

/-! ## Steps -/

omit [Aead κ π] in
theorem startOf_update (hst : st.confirmation.startSeq? = w.startOf s) (s' : Side) :
    ({ w with side := Function.update w.side s st } : RotationWorld κ π).startOf s' = w.startOf s' := by
  by_cases hs : s' = s
  · subst hs
    rw [startOf]
    dsimp only
    rw [Function.update_self, hst]
  · rw [startOf]
    dsimp only
    rw [Function.update_of_ne hs]
    rfl

/-- Something happens on one side that does not turn it to the new key. -/
theorem Turning.onSide (h : w.Turning cfg ring) (hconf : st.confirmation.startSeq? = w.startOf s)
    (hkeyring : st.keyring = (w.side s).keyring)
    (hcalls : ∀ c, (c ∈ st.sends ∨ ∃ r, (c, r) ∈ st.receives) →
      (c ∈ (w.side s).sends ∨ ∃ r, (c, r) ∈ (w.side s).receives)
        ∨ c.client.keyring = (w.side s).keyring ∧ c.rotated = (w.startOf s).isSome)
    (hqueues : ∀ t ∈ st.receives, (∀ pkt ∈ t.2.queue, ∃ p ∈ w.pushed, p.packet = pkt)
      ∧ t.2.decryptErrors = []) :
    ({ w with side := Function.update w.side s st } : RotationWorld κ π).Turning cfg ring := by
  have hstart := startOf_update hconf
  have hswitch : ({ w with side := Function.update w.side s st } : RotationWorld κ π).switch
      = w.switch := by
    rw [switch, hstart, hstart]
    rfl
  refine ⟨h.ascending, fun s' start hs' => ?_, fun s' => ?_, fun s' c hc => ?_, h.live, ?_,
    fun s' t ht => ?_, fun s' t ht => ?_⟩
  · rw [hstart] at hs'
    rw [hswitch]
    exact h.started s' start hs'
  · rw [hstart]
    by_cases hs : s' = s
    · subst hs
      dsimp only
      rw [Function.update_self, hkeyring]
      exact h.keyring s'
    · dsimp only
      rw [Function.update_of_ne hs]
      exact h.keyring s'
  · rw [hswitch]
    by_cases hs : s' = s
    · subst hs
      dsimp only at hc
      rw [Function.update_self] at hc
      rcases hcalls c hc with hc | ⟨hring, hrot⟩
      · exact h.calls s' c hc
      · rw [h.keyring s'] at hring
        cases hso : w.startOf s' with
        | none =>
            rw [hso] at hring hrot
            rw [if_neg (by simp [hrot])]
            exact hring
        | some start =>
            rw [hso] at hring hrot
            have hsw := h.started s' start hso
            rw [if_pos (by simpa using hrot), hsw]
            exact ⟨nofun, hring⟩
    · dsimp only at hc
      rw [Function.update_of_ne hs] at hc
      exact h.calls s' c hc
  · rw [hswitch]
    exact h.pushed
  · by_cases hs : s' = s
    · subst hs
      dsimp only at ht
      rw [Function.update_self] at ht
      exact (hqueues t ht).1
    · dsimp only at ht
      rw [Function.update_of_ne hs] at ht
      exact h.queues s' t ht
  · by_cases hs : s' = s
    · subst hs
      dsimp only at ht
      rw [Function.update_self] at ht
      exact (hqueues t ht).2
    · dsimp only at ht
      rw [Function.update_of_ne hs] at ht
      exact h.errors s' t ht

/-- What a running `receive` has is no less in order than it was. -/
theorem Turning.onReceive (h : w.Turning cfg ring) {i : Nat}
    {f : KeyedCall κ → Receive π → Option (LocalStore × Except Fault (Receive π))}
    (hs : w.onSide s (fun st => st.onReceive i f) = some w')
    (hf : ∀ c r store run, (w.side s).receives[i]? = some (c, r) → f c r = some (store, .ok run) →
      (∀ pkt ∈ run.queue, ∃ p ∈ w.pushed, p.packet = pkt) ∧ run.decryptErrors = r.decryptErrors) :
    w'.Turning cfg ring := by
  obtain ⟨st, hst, rfl⟩ := Option.map_eq_some_iff.mp hs
  obtain ⟨⟨c, r⟩, hget, hst⟩ := Option.bind_eq_some_iff.mp hst
  obtain ⟨⟨store, res⟩, hres, rfl⟩ := Option.map_eq_some_iff.mp hst
  have hmem := List.mem_of_getElem? hget
  cases res with
  | ok run =>
      obtain ⟨hqueue, herrors⟩ := hf c r store run hget hres
      refine h.onSide rfl rfl (fun c' hc' => .inl ?_) fun t ht => ?_
      · rcases hc' with hc' | ⟨r', hc'⟩
        · exact .inl hc'
        · rcases List.mem_or_eq_of_mem_set hc' with hc' | heq
          · exact .inr ⟨r', hc'⟩
          · cases heq
            exact .inr ⟨r, hmem⟩
      · rcases List.mem_or_eq_of_mem_set ht with ht | rfl
        · exact ⟨h.queues s t ht, h.errors s t ht⟩
        · exact ⟨hqueue, herrors.trans (h.errors s _ hmem)⟩
  | error e =>
      refine h.onSide rfl rfl (fun c' hc' => .inl ?_) fun t ht => ?_
      · exact hc'.imp_right fun ⟨r', hr'⟩ => ⟨r', List.mem_of_mem_eraseIdx hr'⟩
      · have ht := List.mem_of_mem_eraseIdx ht
        exact ⟨h.queues s t ht, h.errors s t ht⟩

/-- A call that is begun has the keyring of its side. -/
theorem Turning.call (h : w.Turning cfg ring)
    (hc : (w.side s).call (cfg.account s) = some c) :
    c.client.keyring = (w.side s).keyring ∧ c.rotated = (w.startOf s).isSome := by
  obtain ⟨keyring, hk, rfl⟩ := Option.map_eq_some_iff.mp hc
  refine ⟨normalizeKeyring_eq ?_ hk, rfl⟩
  rw [h.keyring s]
  cases w.startOf s with
  | none => exact h.ascending
  | some start => exact ascending_upsertEntry

theorem Turning.push (h : w.Turning cfg ring) {i nonce seq : Nat} {inner : PacketInner}
    (hok : w.Coordinated (.push s i nonce seq inner)) (hs : w.push s i nonce seq inner = some w') :
    w'.Turning cfg ring := by
  obtain ⟨c, hc, hs⟩ := Option.bind_eq_some_iff.mp hs
  obtain ⟨-, hs⟩ := Option.ite_none_right_eq_some.mp hs
  obtain ⟨key, hkey, rfl⟩ := Option.map_eq_some_iff.mp hs
  have hnew := h.keyForSeq_call (.inl (List.mem_of_getElem? hc)) (hok c hc)
  rw [hkey] at hnew
  refine { h with
    live := fun p hp => ?_
    pushed := fun p hp => ?_
    queues := fun s t ht pkt hpkt => ?_ }
  · rcases List.mem_append.mp hp with hp | hp
    · exact List.mem_append_left _ (h.live p hp)
    · exact List.mem_append_right _ hp
  · rcases List.mem_append.mp hp with hp | hp
    · exact h.pushed p hp
    · cases List.mem_singleton.mp hp
      exact ⟨hnew.symm, nonce, inner, rfl⟩
  · obtain ⟨p, hp, he⟩ := h.queues s t ht pkt hpkt
    exact ⟨p, List.mem_append_left _ hp, he⟩

omit [Aead κ π] in
theorem Side.eq_other {s s' : Side} (h : s' ≠ s) : s' = s.other := by
  cases s <;> cases s' <;> first | rfl | exact absurd rfl h

/-- A side takes the new key, as the first or from where the other one has it. -/
theorem Turning.turned (h : w.Turning cfg ring) {startSeq : Nat}
    (hself : w'.side s = { w.side s with
      keyring := upsertEntry (w.side s).keyring ⟨startSeq, cfg.sessionKey⟩
      confirmation := .done startSeq })
    (hothers : ∀ s', s' ≠ s → w'.side s' = w.side s') (hpackets : w'.packets = w.packets)
    (hpushed : w'.pushed = w.pushed) (hnot : w.startOf s = none)
    (hbefore : w.switch = some startSeq ∧ w.startOf s.other = some startSeq
      ∨ w.switch = none ∧ w.startOf s.other = none ∧ ∀ p ∈ w.pushed, p.packet.seq < startSeq) :
    w'.Turning cfg ring := by
  have hring : (w.side s).keyring = ring := by rw [h.keyring s, hnot]; rfl
  have hstart : w'.startOf s = some startSeq := by rw [startOf, hself]; rfl
  have hstarts : ∀ s', w'.startOf s' = some startSeq ∨ w'.startOf s' = none := by
    intro s'
    by_cases hss : s' = s
    · exact .inl (hss ▸ hstart)
    · rw [startOf, hothers s' hss, ← startOf, Side.eq_other hss]
      exact hbefore.imp (fun hb => hb.2) fun hb => hb.2.1
  have hswitch : w'.switch = some startSeq := by
    rw [switch]
    rcases hstarts .a with ha | ha
    · rw [ha]
      rfl
    · rw [ha]
      cases s with
      | a => rw [hstart] at ha; cases ha
      | b => exact hstart
  have hlists : ∀ s', (w'.side s').sends = (w.side s').sends
      ∧ (w'.side s').receives = (w.side s').receives := by
    intro s'
    by_cases hss : s' = s
    · subst hss
      rw [hself]
      exact ⟨rfl, rfl⟩
    · rw [hothers s' hss]
      exact ⟨rfl, rfl⟩
  refine ⟨h.ascending, fun s' start hs' => ?_, fun s' => ?_, fun s' c hc => ?_, ?_, fun p hp => ?_,
    fun s' t ht => ?_, fun s' t ht => ?_⟩
  · rw [hswitch]
    rcases hstarts s' with heq | heq
    · exact heq.symm.trans hs'
    · rw [heq] at hs'
      cases hs'
  · by_cases hss : s' = s
    · subst hss
      rw [hstart, hself, hring]
      rfl
    · rw [startOf, hothers s' hss]
      exact h.keyring s'
  · rw [(hlists s').1, (hlists s').2] at hc
    have hcall := h.calls s' c hc
    rw [hswitch]
    split
    · rename_i hrot
      rw [if_pos hrot] at hcall
      rcases hbefore with ⟨hsw, -⟩ | ⟨hsw, -⟩
      · rw [hsw] at hcall
        exact hcall
      · exact absurd hsw hcall.1
    · rename_i hrot
      rwa [if_neg hrot] at hcall
  · rw [hpackets, hpushed]
    exact h.live
  · rw [hpushed] at hp
    obtain ⟨hkey, hsealed⟩ := h.pushed p hp
    refine ⟨?_, hsealed⟩
    rw [hswitch]
    rcases hbefore with ⟨hsw, -⟩ | ⟨hsw, -, hlt⟩
    · rwa [hsw] at hkey
    · rw [hsw] at hkey
      exact (keyForSeq_upsertEntry h.ascending (hlt p hp)).trans hkey
  · rw [(hlists s').2] at ht
    rw [hpushed]
    exact h.queues s' t ht
  · rw [(hlists s').2] at ht
    exact h.errors s' t ht

theorem Turning.upsert (h : w.Turning cfg ring) (hok : w.Coordinated (.upsert s))
    (hs : w.step cfg (.upsert s) = some w') : w'.Turning cfg ring := by
  obtain ⟨st, hst, rfl⟩ := Option.map_eq_some_iff.mp hs
  dsimp only at hst
  cases hconf : (w.side s).confirmation with
  | read startSeq =>
      rw [hconf] at hst
      cases hst
      have hnot : w.startOf s = none := by rw [startOf, hconf]; rfl
      obtain ⟨hsame, hfirst⟩ := hok startSeq (by rw [hconf]; rfl)
      refine h.turned (Function.update_self ..) (fun s' hne => Function.update_of_ne hne ..) rfl rfl
        hnot ?_
      cases hother : w.startOf s.other with
      | some other =>
          rw [hsame other hother]
          exact .inl ⟨h.started _ _ hother, rfl⟩
      | none =>
          refine .inr ⟨?_, rfl, hfirst hother⟩
          rw [switch]
          cases s with
          | a => rw [hnot, show w.startOf .b = none from hother]; rfl
          | b => rw [hnot, show w.startOf .a = none from hother]; rfl
  | unconfirmed | reading | done => rw [hconf] at hst; cases hst

theorem Turning.step {l : RotationLabel} (h : w.Turning cfg ring) (hok : w.Coordinated l)
    (hs : w.step cfg l = some w') : w'.Turning cfg ring := by
  cases l with
  | receive s =>
      obtain ⟨st, hst, rfl⟩ := Option.map_eq_some_iff.mp hs
      obtain ⟨c, hc, rfl⟩ := Option.map_eq_some_iff.mp hst
      refine h.onSide rfl rfl (fun c' hc' => ?_) fun t ht => ?_
      · rcases hc' with hc' | ⟨r, hc'⟩
        · exact .inl (.inl hc')
        · rcases List.mem_append.mp hc' with hc' | hc'
          · exact .inl (.inr ⟨r, hc'⟩)
          · cases List.mem_singleton.mp hc'
            exact .inr (h.call hc)
      · rcases List.mem_append.mp ht with ht | ht
        · exact ⟨h.queues s t ht, h.errors s t ht⟩
        · cases List.mem_singleton.mp ht
          exact ⟨fun pkt hpkt => (by cases hpkt), rfl⟩
  | map s i m =>
      refine h.onReceive hs fun c r store run _ hf => ?_
      split at hf <;> cases hf
      exact ⟨fun pkt hpkt => by simp at hpkt, Receive.decryptErrors_onMap m⟩
  | pull s i =>
      refine h.onReceive hs fun c r store run _ hf => ?_
      split at hf <;> cases hf
      refine ⟨fun pkt hpkt => ?_, Receive.decryptErrors_onPull _ _ _ _⟩
      have hpkt := (List.mem_filter.mp (Receive.mem_queue_onPull.mp hpkt)).1
      obtain ⟨p, hp, rfl⟩ := List.mem_map.mp hpkt
      exact ⟨p, h.live p hp, rfl⟩
  | localStep s i now =>
      refine h.onReceive hs fun c r store run hget hf => ?_
      have hmem := List.mem_of_getElem? hget
      have hdec : ∀ pkt ∈ atHand r, c.client.decryptPacket pkt.seq pkt.payload ≠ none := by
        intro pkt hpkt
        have hqueue : pkt ∈ r.queue := by
          unfold atHand at hpkt
          split at hpkt
          · rename_i hpoint
            cases hpkt
            simp [Receive.queue, hpoint]
          · cases hpkt
        obtain ⟨p, hp, rfl⟩ := h.queues s _ hmem pkt hqueue
        obtain ⟨hkey, nonce, inner, hpayload⟩ := h.pushed p hp
        rw [← h.keyForSeq_call (.inr ⟨r, hmem⟩) (hok _ hget _ hpkt)] at hkey
        rw [Client.decryptPacket, hkey, hpayload, Option.bind_some, Aead.decrypt_encrypt]
        exact Option.some_ne_none _
      obtain ⟨hqueue, herrors⟩ := localStep_spec hf hdec
      exact ⟨fun pkt hpkt => h.queues s _ hmem pkt (hqueue pkt hpkt), herrors⟩
  | send s =>
      obtain ⟨st, hst, rfl⟩ := Option.map_eq_some_iff.mp hs
      obtain ⟨c, hc, rfl⟩ := Option.map_eq_some_iff.mp hst
      refine h.onSide rfl rfl (fun c' hc' => ?_) fun t ht => ⟨h.queues s t ht, h.errors s t ht⟩
      rcases hc' with hc' | hc'
      · rcases List.mem_append.mp hc' with hc' | hc'
        · exact .inl (.inl hc')
        · cases List.mem_singleton.mp hc'
          exact .inr (h.call hc)
      · exact .inl (.inr hc')
  | push s i nonce seq inner => exact h.push hok hs
  | delete seq =>
      cases hs
      exact { h with live := fun p hp => h.live p (List.mem_filter.mp hp).1 }
  | setCursor s seq =>
      cases hs
      exact h.onSide rfl rfl (fun c hc => .inl hc) fun t ht => ⟨h.queues s t ht, h.errors s t ht⟩
  | confirm s =>
      obtain ⟨st, hst, rfl⟩ := Option.map_eq_some_iff.mp hs
      obtain ⟨hopen, hst⟩ := Option.ite_none_right_eq_some.mp hst
      cases hst
      refine h.onSide ?_ rfl (fun c hc => .inl hc) fun t ht => ⟨h.queues s t ht, h.errors s t ht⟩
      rw [startOf, hopen]
      rfl
  | lastPulledSeq s ok =>
      obtain ⟨st, hst, rfl⟩ := Option.map_eq_some_iff.mp hs
      obtain ⟨hreading, hst⟩ := Option.ite_none_right_eq_some.mp hst
      cases hst
      refine h.onSide ?_ rfl (fun c hc => .inl hc) fun t ht => ⟨h.queues s t ht, h.errors s t ht⟩
      rw [startOf, hreading]
      rfl
  | upsert s => exact h.upsert hok hs

/-! ## Runs -/

def hello : PacketInner := ⟨"m", 0, "alice", .text "hello", none⟩

def confirmed (s : Side) : List RotationLabel := [.confirm s, .lastPulledSeq s true, .upsert s]

/-- A `receive` as far as the cursor has moved over the first packet. -/
def received (s : Side) (i : Nat) (m : MapResult) : List RotationLabel :=
  [.receive s, .map s i m, .localStep s i 0, .pull s i, .localStep s i 0, .localStep s i 0]

end RotationWorld

end Paranoia
