import Paranoia.Proof.Poison

/-!
# When a `receive` ends

The loop over the pages of the map ends, since each page goes beyond the last one, and so does the
loop over the batches of a run, since each batch does. Only at the greatest `u64` there is nothing
beyond: a call that comes to a live packet there adds one, stays, and pulls the packet again. It
fails, and ends, if it cannot process the packet; what it can process it can process again.
-/

namespace Paranoia

variable {κ π : Type}

/-! ## A packet that is processed again -/

theorem LocalStore.chunksOf_congr {st st' : LocalStore} (h : st'.incomingChunks = st.incomingChunks)
    (transferId : String) (dialogue : DialogueKey) :
    st'.chunksOf transferId dialogue = st.chunksOf transferId dialogue := by
  unfold LocalStore.chunksOf
  rw [h]

theorem LocalStore.Assembles.congr {st st' : LocalStore} {limit : Nat} {transferId : String}
    {dialogue : DialogueKey} (h : st.Assembles limit transferId dialogue)
    (heq : st'.incomingChunks = st.incomingChunks) : st'.Assembles limit transferId dialogue := by
  unfold LocalStore.Assembles at h ⊢
  rw [LocalStore.chunksOf_congr heq]
  exact h

/-- A chunk that is buffered is not buffered twice. -/
theorem LocalStore.saveChunk_again {st st' : LocalStore} {row : ChunkRow}
    (h : st'.incomingChunks = (st.saveChunk row).incomingChunks) :
    (st'.saveChunk row).incomingChunks = (st.saveChunk row).incomingChunks := by
  obtain ⟨q, hq, hkey⟩ := Table.exists_mem_insertOrIgnore st.incomingChunks row
  have hmem : row.key ∈ st'.incomingChunks.rows.map ChunkRow.key := by
    rw [h]
    exact hkey ▸ List.mem_map_of_mem hq
  unfold LocalStore.saveChunk at h ⊢
  dsimp only at h ⊢
  rw [← h, Table.insertOrIgnore, dif_pos hmem]

section Packet

variable [Aead κ π] {c : Client κ} {now : Int} {st st' : LocalStore} {pkt : RawPacket π}

theorem LocalStore.getMessageBySeq_congr (h : st'.messages = st.messages) (key : DialogueKey)
    (seq : Nat) : st'.getMessageBySeq key seq = st.getMessageBySeq key seq := by
  unfold LocalStore.getMessageBySeq
  rw [h]

theorem LocalStore.getMessageById_congr (h : st'.messages = st.messages) (key : DialogueKey)
    (id : MessageId) : st'.getMessageById key id = st.getMessageById key id := by
  unfold LocalStore.getMessageById
  rw [h]

/-- What a chunk leaves is stored already, or is buffered. -/
theorem Client.processIncoming_chunk {inner : PacketInner} {seq index total totalSize : Nat}
    {transferId filename mimeType : String} {data : List UInt8} {msg : Option Message}
    (hc : inner.content = .fileChunk transferId index total filename mimeType totalSize data)
    (hp : c.processIncoming now st inner seq = (st', .ok msg)) :
    (st'.getMessageBySeq c.key seq).isSome = true ∨ (st'.getMessageById c.key transferId).isSome = true
      ∨ st' = st.saveChunk (c.chunkRow now inner transferId index total filename mimeType totalSize
          data) := by
  unfold Client.processIncoming at hp
  split at hp
  · rename_i hstored
    cases hp
    exact .inl hstored
  · rw [hc] at hp
    dsimp only at hp
    split at hp
    · rename_i hid
      cases hp
      exact .inr (.inl hid)
    · unfold Client.bufferChunk at hp
      split at hp
      · cases hp
      · rename_i st₁ htry
        cases hp
        -- nothing was put together
        unfold LocalStore.tryAssembleChunks at htry
        split at htry
        · cases htry
        · split at htry
          · cases htry
            exact .inr (.inr rfl)
          · split at htry <;> cases htry
      · rename_i st₁ file htry
        cases hp
        refine .inr (.inl (LocalStore.getMessageById_isSome.mpr ?_))
        exact ⟨_, LocalStore.mem_saveMessage.mpr (.inr rfl), rfl, rfl⟩

/-- **What can be processed can be processed again.** -/
theorem PacketStep.digestible {target : Nat} {own : Option MessageId} {skipUntil : Option Nat}
    {counted : List Nat} (h : PacketStep c now st pkt st' target own skipUntil counted)
    (hdig : c.Digestible now st pkt) (seq : Nat) :
    c.Digestible now (st'.setLastPulledSeq c.key seq) pkt := by
  intro inner hinner
  have hold := hdig inner hinner
  have hmessages : (st'.setLastPulledSeq c.key seq).messages = st'.messages := rfl
  cases hc : inner.content with
  | fileHeader =>
      rw [hc] at hold
      exact hold
  | fileChunk transferId index total filename mimeType totalSize data =>
      rw [hc] at hold
      dsimp only at hold ⊢
      rw [LocalStore.getMessageBySeq_congr hmessages, LocalStore.getMessageById_congr hmessages]
      cases h with
      | undecryptable hnone =>
          rw [Option.mem_def, hnone] at hinner
          cases hinner
      | own _ _ _ hid =>
          obtain ⟨m, hm, hrest⟩ :=
            LocalStore.getMessageBySeq_isSome.mp (Option.isSome_iff_exists.mpr ⟨_, hid⟩)
          refine .inl (LocalStore.getMessageBySeq_isSome.mpr ?_)
          refine ⟨_, LocalStore.mem_updateStatus.mpr ⟨m, hm, rfl⟩, ?_⟩
          split <;> exact hrest
      | processed hdec _ hp =>
          cases hdec.symm.trans hinner
          rcases Client.processIncoming_chunk hc hp with hseq | hid | rfl
          · exact .inl hseq
          · exact .inr (.inl hid)
          · rcases hold with hseq | hid | hassembles
            · exact .inl hseq
            · exact .inr (.inl hid)
            · exact .inr (.inr (hassembles.congr (LocalStore.saveChunk_again rfl)))
  | _ => trivial

end Packet

namespace Receive

section Run

variable [Aead κ π] {c : Client κ} {now : Int} {ps : PacketStore π} {st : LocalStore}
  {r : Receive π} {s : LocalStore × Except Fault (Receive π)}

/-- The call has returned or failed. -/
def Stopped (c : Client κ) (now : Int) (ps : PacketStore π)
    (s : LocalStore × Except Fault (Receive π)) : Prop :=
  alone c now ps s = none

/-- In the run that ends with the greatest `u64` the call is at the packet there, and it can process
it. -/
def AtTop (c : Client κ) (now : Int) (ps : PacketStore π) :
    LocalStore × Except Fault (Receive π) → Prop
  | (st, .ok r) => ∃ payload todo,
      r.point = .packet ⟨u64Size - 1, payload⟩ [] (u64Size - 1) (u64Size - 1) todo
        ∧ ps.get c.key (u64Size - 1) = some payload ∧ c.Digestible now st ⟨u64Size - 1, payload⟩
  | (_, .error _) => False

/-! ## At the greatest number -/

omit [Aead κ π] in
theorem batchEnd_top : batchEnd (u64Size - 1) (u64Size - 1) = u64Size - 1 := by decide

omit [Aead κ π] in
/-- The last pull brings the one packet. -/
theorem pull_top {payload : π} (hget : ps.get c.key (u64Size - 1) = some payload) :
    ps.pull c.key (u64Size - 1 - 1) (u64Size - 1) = .ok [⟨u64Size - 1, payload⟩] := by
  obtain ⟨packets, hpull⟩ : ∃ packets,
      ps.pull c.key (u64Size - 1 - 1) (u64Size - 1) = .ok packets := by
    unfold PacketStore.pull
    rw [if_neg (by decide)]
    split <;> exact ⟨_, rfl⟩
  have hsorted := PacketStore.pull_sorted hpull
  have hmem := fun pkt => @PacketStore.mem_pull π ps c.key _ _ packets hpull (by decide) pkt
  have hall : ∀ pkt ∈ packets, pkt = ⟨u64Size - 1, payload⟩ := by
    rintro ⟨seq, body⟩ hpkt
    obtain ⟨hlt, hle, hbody⟩ := (hmem _).mp hpkt
    have hseq : seq = u64Size - 1 := by
      dsimp only at hlt hle
      omega
    subst hseq
    cases hget.symm.trans hbody
    rfl
  have htop : (⟨u64Size - 1, payload⟩ : RawPacket π) ∈ packets :=
    (hmem _).mpr ⟨show u64Size - 1 - 1 < u64Size - 1 by decide, Nat.le_refl _, hget⟩
  rw [hpull]
  cases packets with
  | nil => exact absurd htop List.not_mem_nil
  | cons pkt rest =>
      cases rest with
      | nil => rw [hall pkt List.mem_cons_self]
      | cons pkt' rest =>
          -- two packets would have two numbers
          have hlt := (List.pairwise_cons.mp hsorted).1 pkt' List.mem_cons_self
          rw [hall pkt List.mem_cons_self,
            hall pkt' (List.mem_cons_of_mem _ List.mem_cons_self)] at hlt
          exact absurd hlt (Nat.lt_irrefl _)

theorem alone_pull_top {payload : π} {todo : List (Nat × Nat)}
    (hget : ps.get c.key (u64Size - 1) = some payload)
    (hp : r.point = .pull (u64Size - 1) (u64Size - 1) todo) :
    alone c now ps (st, .ok r) = some (st, .ok { r with
      point := .packet ⟨u64Size - 1, payload⟩ [] (u64Size - 1) (u64Size - 1) todo }) := by
  unfold alone
  dsimp only
  rw [hp]
  dsimp only
  rw [batchEnd_top, pull_top hget]
  dsimp only
  unfold onPull
  rw [List.insertionSort_cons, List.insertionSort_nil, List.orderedInsert_nil, batchEnd_top]

omit [Aead κ π] in
theorem nextPacket_top (r : Receive π) (todo : List (Nat × Nat)) :
    r.nextPacket [] (u64Size - 1) (u64Size - 1) todo
      = { r with point := .pull (u64Size - 1) (u64Size - 1) todo } := by
  have hmax : max (saturatingAdd r.cursor 1) (saturatingAdd (u64Size - 1) 1) = u64Size - 1 := by
    unfold saturatingAdd
    omega
  unfold nextPacket nextBatch
  dsimp only
  rw [hmax, if_pos (Nat.le_refl _)]

/-- After the last packet the batch is pulled that it came from. -/
theorem alone_advance_top {target : Nat} {own : Option MessageId} {todo : List (Nat × Nat)}
    (hp : r.point = .advance target own [] (u64Size - 1) (u64Size - 1) todo) :
    ∃ r', alone c now ps (st, .ok r) = some (st.setLastPulledSeq c.key target, .ok r')
      ∧ r'.point = .pull (u64Size - 1) (u64Size - 1) todo := by
  have hlocal : r.localStep c now st = some (st.setLastPulledSeq c.key target,
      .ok (({ r with
        cursor := target
        messages := r.messages ++ (own.bind (fun id =>
          (st.setLastPulledSeq c.key target).getMessageById c.key id)).toList } :
            Receive π).nextPacket [] (u64Size - 1) (u64Size - 1) todo)) := by
    simp only [localStep, hp]
  rw [nextPacket_top] at hlocal
  exact ⟨_, alone_local hlocal, rfl⟩

/-- **What is at the greatest number comes again.** -/
theorem atTop_again (h : AtTop c now ps s) :
    ∃ s₁ s₂ s₃, alone c now ps s = some s₁ ∧ alone c now ps s₁ = some s₂
      ∧ alone c now ps s₂ = some s₃ ∧ AtTop c now ps s₃ := by
  obtain ⟨st, _ | r⟩ := s
  · exact h.elim
  · obtain ⟨payload, todo, hp, hget, hdig⟩ := h
    obtain ⟨r₁, hr₁⟩ : ∃ r₁, (onPacket c now st r ⟨u64Size - 1, payload⟩ [] (u64Size - 1)
        (u64Size - 1) todo).2 = .ok r₁ :=
      onPacket_ok.mpr hdig
    generalize hst : (onPacket c now st r ⟨u64Size - 1, payload⟩ [] (u64Size - 1) (u64Size - 1)
      todo).1 = st₁
    have heq : onPacket c now st r ⟨u64Size - 1, payload⟩ [] (u64Size - 1) (u64Size - 1) todo
        = (st₁, .ok r₁) := Prod.ext hst hr₁
    have hlocal : r.localStep c now st = some (st₁, .ok r₁) := by
      simp only [localStep, hp, heq]
    obtain ⟨target, own, skipUntil, counted, messages, hstep, hr⟩ := onPacket_inv heq
    have hdrop : dropSkipped skipUntil ([] : List (RawPacket π)) = [] := by
      cases skipUntil <;> rfl
    rw [hdrop] at hr
    obtain ⟨r₂, hadvance, hp₂⟩ : ∃ r₂, alone c now ps (st₁, .ok r₁)
          = some (st₁.setLastPulledSeq c.key target, .ok r₂)
        ∧ r₂.point = .pull (u64Size - 1) (u64Size - 1) todo :=
      alone_advance_top (by rw [hr])
    exact ⟨_, _, _, alone_local hlocal, hadvance, alone_pull_top hget hp₂,
      payload, todo, rfl, hget, hstep.digestible hdig target⟩

/-- **At the greatest number the call never stops.** -/
theorem not_stopped_of_atTop (h : AtTop c now ps s) (k : Nat) :
    ¬ Stopped c now ps (Lts.iterate (alone c now ps) k s) := by
  induction k using Nat.strong_induction_on generalizing s with
  | _ k ih =>
      obtain ⟨s₁, s₂, s₃, h₁, h₂, h₃, hagain⟩ := atTop_again h
      intro hstop
      unfold Stopped at hstop
      match k with
      | 0 =>
          rw [Lts.iterate, h₁] at hstop
          cases hstop
      | 1 =>
          rw [Lts.iterate_next h₁, Lts.iterate, h₂] at hstop
          cases hstop
      | 2 =>
          rw [Lts.iterate_next h₁, Lts.iterate_next h₂, Lts.iterate, h₃] at hstop
          cases hstop
      | k + 3 =>
          rw [Lts.iterate_next h₁, Lts.iterate_next h₂, Lts.iterate_next h₃] at hstop
          exact ih k (by omega) hagain hstop

/-! ## Below the greatest number -/

/-- The call stops, or comes to the greatest number and stays there. -/
def Resolves (c : Client κ) (now : Int) (ps : PacketStore π)
    (s : LocalStore × Except Fault (Receive π)) : Prop :=
  Stopped c now ps s ∨ AtTop c now ps s

theorem resolves_error {e : Fault} (st : LocalStore) :
    Lts.Leads (alone c now ps) (Resolves c now ps) (st, .error e) :=
  .here (.inl rfl)

theorem resolves_done (hp : r.point = .done) :
    Lts.Leads (alone c now ps) (Resolves c now ps) (st, .ok r) := by
  refine .here (.inl ?_)
  simp only [Stopped, alone, localStep, hp]

theorem resolves_sweep (hp : r.point = .sweep) :
    Lts.Leads (alone c now ps) (Resolves c now ps) (st, .ok r) := by
  cases hts : (st.getDeliveredServerSeqs c.key).filter (fun s => !seqInRuns r.allRuns s) with
  | nil =>
      have hstep : r.localStep c now st = some (st, .ok { r with point := .done }) := by
        simp only [localStep, hp, hts]
      exact .step (alone_local hstep) (resolves_done rfl)
  | cons t ts =>
      have hstep : r.localStep c now st = some (st, .ok { r with point := .delete (t :: ts) }) := by
        simp only [localStep, hp, hts]
      exact .step (alone_local hstep) (.step (alone_local rfl) (resolves_done rfl))

theorem resolves_bump (hp : r.point = .bump) :
    Lts.Leads (alone c now ps) (Resolves c now ps) (st, .ok r) := by
  by_cases hlt : r.cursor < r.lastSeqTotal
  · have hstep : r.localStep c now st = some (st.setLastPulledSeq c.key r.lastSeqTotal,
        .ok { r with cursor := r.lastSeqTotal, point := .sweep }) := by
      simp only [localStep, hp, if_pos hlt]
    exact .step (alone_local hstep) (resolves_sweep rfl)
  · have hstep : r.localStep c now st = some (st, .ok { r with point := .sweep }) := by
      simp only [localStep, hp, if_neg hlt]
    exact .step (alone_local hstep) (resolves_sweep rfl)

/-- **The loop over a batch ends**: each packet makes the queue shorter, or fails. -/
theorem resolves_packets {batchEnd stop : Nat} {todo : List (Nat × Nat)}
    (hnext : ∀ st (r : Receive π), Lts.Leads (alone c now ps) (Resolves c now ps)
      (st, .ok (r.nextPacket [] batchEnd stop todo)))
    {queue : List (RawPacket π)} {pkt : RawPacket π}
    (hp : r.point = .packet pkt queue batchEnd stop todo) :
    Lts.Leads (alone c now ps) (Resolves c now ps) (st, .ok r) := by
  induction hk : queue.length using Nat.strong_induction_on generalizing queue pkt st r with
  | _ k ih =>
      generalize hres : onPacket c now st r pkt queue batchEnd stop todo = res
      obtain ⟨st₁, e | r₁⟩ := res
      · have hlocal : r.localStep c now st = some (st₁, .error e) := by
          simp only [localStep, hp, hres]
        exact .step (alone_local hlocal) (resolves_error st₁)
      · have hlocal : r.localStep c now st = some (st₁, .ok r₁) := by
          simp only [localStep, hp, hres]
        obtain ⟨target, own, skipUntil, counted, messages, -, rfl⟩ := onPacket_inv hres
        refine .step (alone_local hlocal) (.step (alone_local rfl) ?_)
        have hsub := (dropSkipped_sublist skipUntil queue).length_le
        cases hq : dropSkipped skipUntil queue with
        | nil => exact hnext _ _
        | cons pkt' queue' =>
            rw [hq, List.length_cons] at hsub
            exact ih queue'.length (by omega) rfl rfl

/-- The run that ends with the greatest number, once only that is left. -/
theorem resolves_pull_top {payload : π} {todo : List (Nat × Nat)}
    (hget : ps.get c.key (u64Size - 1) = some payload)
    (hp : r.point = .pull (u64Size - 1) (u64Size - 1) todo) :
    Lts.Leads (alone c now ps) (Resolves c now ps) (st, .ok r) := by
  refine .step (alone_pull_top hget hp) ?_
  by_cases hdig : c.Digestible now st ⟨u64Size - 1, payload⟩
  · exact .here (.inr ⟨payload, todo, rfl, hget, hdig⟩)
  · -- what cannot be processed fails
    generalize hr : ({ r with
      point := .packet ⟨u64Size - 1, payload⟩ [] (u64Size - 1) (u64Size - 1) todo } :
        Receive π) = r₁
    generalize hres : onPacket c now st r₁ ⟨u64Size - 1, payload⟩ [] (u64Size - 1) (u64Size - 1)
      todo = res
    obtain ⟨st₁, e | r₂⟩ := res
    · have hlocal : r₁.localStep c now st = some (st₁, .error e) := by
        simp only [localStep, ← hr] at hres ⊢
        rw [hres]
      exact .step (alone_local hlocal) (resolves_error st₁)
    · exact absurd (onPacket_ok.mp ⟨r₂, congrArg Prod.snd hres⟩) hdig

/-- **The loop over the batches of a run ends**, unless it comes to the greatest number. -/
theorem resolves_batches {stop : Nat} {todo : List (Nat × Nat)} (hu : stop < u64Size)
    (hlive : stop ∈ ps.live c.key)
    (hrun : ∀ st (r : Receive π), Lts.Leads (alone c now ps) (Resolves c now ps) (st, .ok (r.nextRun todo)))
    {seq : Nat} (hpos : 0 < seq) (hle : seq ≤ stop) (hp : r.point = .pull seq stop todo) :
    Lts.Leads (alone c now ps) (Resolves c now ps) (st, .ok r) := by
  induction hk : stop - seq using Nat.strong_induction_on generalizing seq st r with
  | _ k ih =>
      by_cases htop : seq = stop ∧ stop = u64Size - 1
      · obtain ⟨rfl, rfl⟩ := htop
        obtain ⟨payload, hget⟩ := PacketStore.mem_live.mp hlive
        exact resolves_pull_top hget hp
      · have hbatch : seq ≤ batchEnd seq stop ∧ batchEnd seq stop ≤ stop := by
          unfold batchEnd saturatingAdd
          omega
        -- short of the greatest number one more is more
        have hmore : seq < saturatingAdd (batchEnd seq stop) 1 := by
          unfold batchEnd saturatingAdd receivePullBatch at *
          omega
        have hnext : ∀ st (r : Receive π) q, seq < q →
            Lts.Leads (alone c now ps) (Resolves c now ps) (st, .ok (r.nextBatch q stop todo)) := by
          intro st r q hq
          unfold nextBatch
          split
          · exact ih (stop - q) (by omega) (by omega) (by assumption) rfl rfl
          · exact hrun st r
        obtain ⟨packets, -, hstep⟩ := alone_pull hp hpos hbatch.1
        refine .step hstep ?_
        unfold onPull
        split
        · exact .step (alone_local rfl) (hnext _ _ _ hmore)
        · refine resolves_packets (fun st r => ?_) rfl
          exact hnext _ _ _ (Nat.lt_of_lt_of_le hmore (Nat.le_max_right _ _))

/-- **The loop over the runs ends.** -/
theorem resolves_runs (hrange : ∀ q ∈ ps.live c.key, q < u64Size) {todo : List (Nat × Nat)}
    (htodo : ∀ run ∈ todo, run.2 ∈ ps.live c.key) :
    Lts.Leads (alone c now ps) (Resolves c now ps) (st, .ok (r.nextRun todo)) := by
  induction todo generalizing st r with
  | nil => exact resolves_bump rfl
  | cons run todo ih =>
      obtain ⟨first, stop⟩ := run
      have hrest := fun st r => @ih st r (fun run hrun => htodo run (List.mem_cons_of_mem _ hrun))
      have hlive := htodo (first, stop) List.mem_cons_self
      unfold nextRun
      split
      · exact hrest _ _
      · split
        · refine resolves_batches (hrange _ hlive) hlive hrest ?_ (by assumption) rfl
          unfold saturatingAdd
          have : 1 < u64Size := by decide
          omega
        · exact hrest _ _

theorem resolves_load (hrange : ∀ q ∈ ps.live c.key, q < u64Size) (hp : r.point = .load)
    (hruns : ∀ run ∈ r.allRuns, run.2 ∈ ps.live c.key) :
    Lts.Leads (alone c now ps) (Resolves c now ps) (st, .ok r) := by
  refine .step (alone_load hp) (resolves_runs hrange (fun run hrun => ?_))
  exact hruns run ((List.mem_insertionSort _).mp hrun)

/-- **The loop over the pages of the map ends.** -/
theorem resolves_map (hrange : ∀ q ∈ ps.live c.key, q < u64Size) {after : Nat}
    (hruns : ∀ run ∈ r.allRuns, run.2 ∈ ps.live c.key) (hp : r.point = .map after) :
    Lts.Leads (alone c now ps) (Resolves c now ps) (st, .ok r) := by
  induction hk : u64Size - after using Nat.strong_induction_on generalizing after r with
  | _ k ih =>
      generalize hscan : ps.mapRuns c.key after 0 mapMaxRuns = scan
      obtain ⟨hstep, hmap⟩ := alone_map hp hscan
      refine .step hstep (.step rfl ?_)
      have hpage := ps.map_page c.key hrange (by decide) hmap
      -- a run of a page ends with a live number
      have hmore : ∀ run ∈ r.allRuns ++ scan.1, run.2 ∈ ps.live c.key := by
        intro run hrun
        rcases List.mem_append.mp hrun with hrun | hrun
        · exact hruns run hrun
        · exact ((hpage.covers run.2).mp
            ⟨run, hrun, hpage.ascending.proper run hrun, Nat.le_refl _⟩).1
      unfold onMap
      dsimp only
      split
      · exact resolves_load hrange rfl hruns
      · rename_i lastEnd hend
        have hbeyond := (hpage.lastEnd_mem hend).2.1
        cases scan.2 with
        | false => exact resolves_load hrange rfl hmore
        | true =>
            have hlt := hrange lastEnd (hpage.lastEnd_mem hend).1
            exact ih (u64Size - lastEnd) (by omega) hmore rfl rfl

/-- A call that comes to the greatest number has not stopped, and does not stop. -/
theorem not_stopped {m : Nat} (htop : AtTop c now ps (Lts.iterate (alone c now ps) m s)) (k : Nat) :
    ¬ Stopped c now ps (Lts.iterate (alone c now ps) k s) := by
  intro hstop
  have hnever := not_stopped_of_atTop htop
  rcases Nat.le_total m k with hle | hle
  · obtain ⟨j, rfl⟩ := Nat.exists_eq_add_of_le hle
    rw [Lts.iterate_add] at hstop
    exact hnever j hstop
  · rw [Lts.iterate_stopped hstop hle] at hnever
    exact hnever 0 hstop

/-- **A `receive` ends exactly if it never comes to the greatest number.** On a server that stands
still it stops after finitely many steps if and only if at no step it is at a packet there that it
can process. -/
theorem ends_iff (hrange : ∀ q ∈ ps.live c.key, q < u64Size) :
    (∃ k, Stopped c now ps (Lts.iterate (alone c now ps) k (st, .ok start)))
      ↔ ∀ k, ¬ AtTop c now ps (Lts.iterate (alone c now ps) k (st, .ok start)) := by
  constructor
  · rintro ⟨k, hstop⟩ m htop
    exact not_stopped htop k hstop
  · intro hnever
    have hleads : Lts.Leads (alone c now ps) (Resolves c now ps) (st, .ok start) :=
      resolves_map hrange (fun run hrun => absurd hrun List.not_mem_nil) rfl
    obtain ⟨k, hstop | htop⟩ := hleads.iterate
    · exact ⟨k, hstop⟩
    · exact absurd htop (hnever k)

end Run

/-! ## Two servers -/

theorem ends_iff_oneAndThree :
    (∃ k, Stopped (Sample.client "bob") 0 oneAndThree
        (Lts.iterate (alone (Sample.client "bob") 0 oneAndThree) k (LocalStore.empty, .ok start)))
      ↔ ∀ k, ¬ AtTop (Sample.client "bob") 0 oneAndThree
        (Lts.iterate (alone (Sample.client "bob") 0 oneAndThree) k (LocalStore.empty, .ok start)) :=
  ends_iff (by decide)

/-- One packet, at the greatest number. -/
def greatestOnly : PacketStore Sealed :=
  PacketStore.empty.put ⟨"alice", "bob"⟩ (u64Size - 1) ⟨7, 0, ⟨"m1", 0, "alice", .text "m1", none⟩⟩

/-- A `receive` of it runs for ever. -/
theorem receives_forever :
    (∀ q ∈ greatestOnly.live ⟨"alice", "bob"⟩, q < u64Size)
    ∧ ¬ ∃ k, Stopped (Sample.client "bob") 0 greatestOnly
      (Lts.iterate (alone (Sample.client "bob") 0 greatestOnly) k (LocalStore.empty, .ok start)) := by
  refine ⟨by decide, ?_⟩
  rintro ⟨k, hstop⟩
  have htop : AtTop (Sample.client "bob") 0 greatestOnly
      (Lts.iterate (alone (Sample.client "bob") 0 greatestOnly) 4 (LocalStore.empty, .ok start)) :=
    ⟨_, _, rfl, rfl, by decide⟩
  exact not_stopped htop k hstop

end Receive

end Paranoia
