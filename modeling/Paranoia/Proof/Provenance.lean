import Paranoia.Proof.Compose
import Paranoia.Proof.Rows

/-!
# Provenance of what a device holds

Three things on a device come from outside: the packets its `receive`s hold, the
chunks it buffers and the message rows. A property of each that is carried over
from one to the next holds of all of them in every run; `provenance_step` is that
argument, once, for a server that may lie. What is left to the user is where
packets come from, and that each kind of row the device makes has the property.
-/

namespace Paranoia

variable {κ π : Type} {n : Nat}

namespace World

/-- Every packet a device holds, every chunk it buffers and every row has its property. -/
structure Provenance (Pk : Fin n → RawPacket π → Prop) (Ck : Fin n → ChunkRow → Prop)
    (Row : Fin n → Message → Prop) (w : World π n) : Prop where
  packets : ∀ d, ∀ rx ∈ w.receiving d, ∀ pkt ∈ rx.run.queue, Pk d pkt
  chunks : ∀ d, ∀ r ∈ (w.store d).incomingChunks, Ck d r
  rows : ∀ d, ∀ m ∈ (w.store d).messages, Row d m

theorem provenance_init {cfg : Setup κ n} {Pk : Fin n → RawPacket π → Prop} {Ck : Fin n → ChunkRow → Prop}
    {Row : Fin n → Message → Prop} : Provenance Pk Ck Row (init cfg : World π n) where
  packets _ _ hrx := absurd hrx List.not_mem_nil
  chunks _ _ hr := absurd hr List.not_mem_nil
  rows _ _ hm := absurd hm List.not_mem_nil

variable [Aead κ π] {cfg : Setup κ n} {w w' : World π n} {l : Label π n} {d : Fin n}

/-- The packet is in an answer the device gets in this step: from the store of the server, or
made up by a relay. -/
def Pulls (cfg : Setup κ n) (w : World π n) (l : Label π n) (d : Fin n) (pkt : RawPacket π) : Prop :=
  (0 < pkt.seq ∧ w.server.store.get cfg.key pkt.seq = some pkt.payload)
    ∨ ∃ job ∈ w.jobs, job.dev = d ∧ ∃ packets, l = .relayPull job.id packets ∧ pkt ∈ packets

/-- **Where a packet a device holds comes from.** -/
theorem queue_step (h : StepCase cfg w l w') {rx' : Rx π} (hrx' : rx' ∈ w'.receiving d)
    {pkt : RawPacket π} (hpkt : pkt ∈ rx'.run.queue) :
    (∃ rx ∈ w.receiving d, pkt ∈ rx.run.queue) ∨ w.Pulls cfg l d pkt := by
  cases hrelay : l.isRelay with
  | false =>
      rcases receiving_step h hrelay hrx' with hold | rfl | ⟨rx, hrx, hm⟩
      · exact Or.inl ⟨rx', hold, hpkt⟩
      · cases hpkt
      · obtain ⟨env, notices, job, hmove, _⟩ := hm.move
        rcases hmove.mem_queue hpkt with hq | ⟨_, _, _, packets, _, hpull, hmem, _⟩
        · exact Or.inl ⟨rx, hrx, hq⟩
        · rw [cfg.shared] at hpull
          obtain ⟨hlo, _, hget⟩ := (mem_batch hpull).mp hmem
          exact Or.inr (Or.inl ⟨by omega, hget⟩)
  | true =>
      -- what a call holds that this step does not touch, it held before
      have hother : ∀ (w₁ : World π n) (job : Job π n) (task : Option (Task π)), w₁.jobs = w.jobs →
          rx' ∈ (w₁.setTask job task).receiving d →
          (∀ t rx, task = some t → t.rx = some rx → job.dev = d → pkt ∈ rx.run.queue →
            (∃ rx ∈ w.receiving d, pkt ∈ rx.run.queue) ∨ w.Pulls cfg l d pkt) →
          (∃ rx ∈ w.receiving d, pkt ∈ rx.run.queue) ∨ w.Pulls cfg l d pkt := by
        intro w₁ job task hjobs hmem hnew
        obtain ⟨job', hj, hd, hrx⟩ := mem_receiving.mp hmem
        rcases mem_setTask hj with ⟨hj, _⟩ | ⟨t, ht, rfl⟩
        · exact Or.inl ⟨rx', mem_receiving.mpr ⟨job', hjobs ▸ hj, hd, hrx⟩, hpkt⟩
        · exact hnew t rx' ht hrx hd hpkt
      cases h with
      | run env hjob hrx hmove =>
          refine hother (w.setStore _ _) _ _ rfl hrx' (fun t rx ht hrx₁ hd hq => ?_)
          cases ht
          cases hrx₁
          subst hd
          rcases hmove.mem_queue hq with hq | ⟨_, _, _, packets, _, hpull, hmem, _⟩
          · exact Or.inl ⟨_, mem_receiving.mpr ⟨_, hjob, rfl, hrx⟩, hq⟩
          · rw [cfg.shared] at hpull
            obtain ⟨hlo, _, hget⟩ := (mem_batch hpull).mp hmem
            exact Or.inr (Or.inl ⟨by omega, hget⟩)
      | relayMap hjob hrx hp =>
          refine hother (w.setStore _ _) _ _ rfl hrx' (fun t rx ht hrx₁ hd hq => ?_)
          cases ht
          cases hrx₁
          rw [Receive.queue_onMap] at hq
          cases hq
      | relayPull hjob hrx hp =>
          refine hother (w.setStore _ _) _ _ rfl hrx' (fun t rx ht hrx₁ hd hq => ?_)
          cases ht
          cases hrx₁
          exact Or.inr (Or.inr ⟨_, hjob, hd, _, rfl, Receive.mem_queue_onPull.mp hq⟩)
      | existing _ _ _ _ _ htask =>
          refine hother w _ _ rfl hrx' (fun t rx ht hrx₁ hd hq => ?_)
          have hidle : Idle 0 _ := idle_onExisting htask
          rcases hidle t ht with hn | hn
          · rw [hn] at hrx₁
            cases hrx₁
          · rw [hn] at hrx₁
            cases hrx₁
            cases hq
      | _ => cases hrelay

/-- **Provenance is carried over by every step.** -/
theorem provenance_step {Pk Pk' : Fin n → RawPacket π → Prop} {Ck Ck' : Fin n → ChunkRow → Prop}
    {Row Row' : Fin n → Message → Prop} (h : StepCase cfg w l w') (hi : Provenance Pk Ck Row w)
    (hPk : ∀ d pkt, Pk d pkt → Pk' d pkt) (hCk : ∀ d r, Ck d r → Ck' d r)
    (hRow : ∀ d, ∀ m ∈ (w.store d).messages, ∀ m', Row d m → w.Restates cfg d m m' → Row' d m')
    (hpull : ∀ d pkt, w.Pulls cfg l d pkt → Pk' d pkt)
    (hchunk : ∀ d pkt inner now transferId index total filename mimeType totalSize data,
      Pk d pkt → (cfg.device d).decryptPacket pkt.seq pkt.payload = some inner →
      inner.content = .fileChunk transferId index total filename mimeType totalSize data →
      Ck' d ((cfg.device d).chunkRow now inner transferId index total filename mimeType totalSize
        data))
    (hsaves : ∀ d m, w.Saves cfg d m → Row' d m)
    (hbrings : ∀ d pkt inner now m, Pk d pkt →
      (cfg.device d).decryptPacket pkt.seq pkt.payload = some inner →
      NewRow (cfg.device d) now (w.store d) inner pkt.seq m → Row' d m) :
    Provenance Pk' Ck' Row' w' where
  packets d rx' hrx' pkt hpkt := by
    rcases queue_step h hrx' hpkt with ⟨rx, hrx, hq⟩ | hp
    · exact hPk d pkt (hi.packets d rx hrx pkt hq)
    · exact hpull d pkt hp
  chunks d r hr := by
    rcases chunk_step h hr with hr | ⟨rx, hrx, pkt, hpkt, inner, hdec, now, transferId, index, total,
      filename, mimeType, totalSize, data, hc, rfl⟩
    · exact hCk d r (hi.chunks d r hr)
    · exact hchunk d pkt inner now _ _ _ _ _ _ _ (hi.packets d rx hrx pkt hpkt) hdec hc
  rows d m' hm' := by
    rcases row_step h hm' with ⟨m, hm, hsame⟩ | hs | ⟨rx, hrx, pkt, hpkt, inner, now, hdec, hnew⟩
    · exact hRow d m hm m' (hi.rows d m hm) hsame
    · exact hsaves d m' hs
    · exact hbrings d pkt inner now m' (hi.packets d rx hrx pkt hpkt) hdec hnew

end World

end Paranoia
