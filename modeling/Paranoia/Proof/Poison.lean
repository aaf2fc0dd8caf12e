import Paranoia.Proof.Headroom
import Paranoia.Proof.Paging
import Paranoia.Proof.Sweep

/-!
# Packets that stop a `receive`

A `receive` that fails leaves its cursor below the packet it failed at, so that the next one fails
at the same packet. `Receive.alone` is a `receive` on a server that stands still, and `Fit` says
before each of its steps that the step is harmless: the body a header announces ends among the
`u64`s, a chunk is buffered for this dialogue and its file is no larger than the allocator grants,
the cursor is raised also in the signed order of its column, and the run at hand does not end with
the greatest `u64`, where the loop over its batches never ends.

As long as its steps are fit, a `receive` ends, and its cursor is at or above every live packet
(`received_alone`). Nothing but a chunk that announces a huge file is needed to stop it
(`poisoned`).
-/

namespace Paranoia

variable {κ π : Type} {n : Nat}

/-- All that is buffered of a transfer can be looked at, and put together if it is complete. -/
def LocalStore.Assembles (st : LocalStore) (allocLimit : Nat) (transferId : String)
    (dialogue : DialogueKey) : Prop :=
  match st.chunksOf transferId dialogue with
  | [] => False
  | r :: rs => (r :: rs).length < (rs.map ChunkRow.total).foldl max r.total
      ∨ toU64 ((rs.map ChunkRow.totalSize).foldl max r.totalSize) ≤ allocLimit

instance (st : LocalStore) (allocLimit : Nat) (transferId : String) (dialogue : DialogueKey) :
    Decidable (st.Assembles allocLimit transferId dialogue) := by
  unfold LocalStore.Assembles
  split <;> infer_instance

/-- The column of the cursor, which is signed, is not above this number. -/
def LocalStore.Raisable (st : LocalStore) (dialogue : DialogueKey) (seq : Nat) : Prop :=
  ∀ s ∈ st.dialogueState dialogue, s.lastPulledSeq ≤ toI64 seq

instance (st : LocalStore) (dialogue : DialogueKey) (seq : Nat) :
    Decidable (st.Raisable dialogue seq) :=
  inferInstanceAs (Decidable (∀ _ ∈ _, _))

section Defs

variable [Aead κ π]

/-- Processing the packet does not fail. -/
def Client.Digestible (c : Client κ) (now : Int) (st : LocalStore) (pkt : RawPacket π) : Prop :=
  ∀ inner ∈ c.decryptPacket pkt.seq pkt.payload,
    match inner.content with
    | .fileHeader _ _ _ _ _ chunks _ => pkt.seq + chunks < u64Size
    | .fileChunk transferId index total filename mimeType totalSize data =>
        (st.getMessageBySeq c.key pkt.seq).isSome = true
          ∨ (st.getMessageById c.key transferId).isSome = true
          ∨ (st.saveChunk (c.chunkRow now inner transferId index total filename mimeType totalSize
              data)).Assembles c.allocLimit transferId c.key
    | _ => True

instance (c : Client κ) (now : Int) (st : LocalStore) (pkt : RawPacket π) :
    Decidable (c.Digestible now st pkt) := by
  unfold Client.Digestible
  refine @Option.decidableForallMem _ _ (fun inner => ?_) _
  exact match inner.content with
    | .text .. | .textReply .. | .file .. | .image .. | .voice .. | .video .. | .photoGroup ..
    | .fileHeader .. | .fileChunk .. | .readReceipt .. | .delete .. | .reaction .. =>
        by infer_instance

namespace Receive

/-- One step of a `receive`, answered by a server that holds these packets. -/
def alone (c : Client κ) (now : Int) (ps : PacketStore π) :
    LocalStore × Except Fault (Receive π) → Option (LocalStore × Except Fault (Receive π))
  | (_, .error _) => none
  | (st, .ok r) =>
      match r.point with
      | .map after =>
          let scan := ps.mapRuns c.key after 0 mapMaxRuns
          some (st, .ok { r with point := .scanned scan.1 scan.2 })
      | .scanned runs truncated =>
          some (st, .ok (r.onMap ⟨runs, ps.lastSeq c.key, truncated⟩))
      | .pull seq stop todo =>
          match ps.pull c.key (seq - 1) (batchEnd seq stop) with
          | .error msg => some (st, .error (.transport msg))
          | .ok packets => some (st, .ok (r.onPull packets seq stop todo))
      | _ => r.localStep c now st

/-- The step that comes next is harmless. -/
def Fit (c : Client κ) (now : Int) (st : LocalStore) (r : Receive π) : Prop :=
  (∀ target ∈ r.raises, st.Raisable c.key target) ∧
    match r.point with
    | .pull _ stop _ => stop + 1 < u64Size
    | .packet pkt _ _ _ _ => c.Digestible now st pkt
    | _ => True

instance (c : Client κ) (now : Int) (st : LocalStore) (r : Receive π) :
    Decidable (r.Fit c now st) := by
  unfold Fit
  refine @instDecidableAnd _ _ _ ?_
  split <;> infer_instance

/-- The step that comes next is harmless, if the call has not failed. -/
def FitAt (c : Client κ) (now : Int) : LocalStore × Except Fault (Receive π) → Prop
  | (st, .ok r) => r.Fit c now st
  | (_, .error _) => True

instance (c : Client κ) (now : Int) :
    (s : LocalStore × Except Fault (Receive π)) → Decidable (FitAt c now s)
  | (st, .ok r) => inferInstanceAs (Decidable (r.Fit c now st))
  | (_, .error _) => inferInstanceAs (Decidable True)

/-- The call has returned, with its cursor at every live packet or above it. -/
def ReturnedOver (c : Client κ) (ps : PacketStore π) :
    LocalStore × Except Fault (Receive π) → Prop
  | (st, .ok r) => r.point = .done ∧ ∀ q ∈ ps.live c.key, q ≤ st.getLastPulledSeq c.key
  | (_, .error _) => False

instance [DecidableEq π] (c : Client κ) (ps : PacketStore π) :
    (s : LocalStore × Except Fault (Receive π)) → Decidable (ReturnedOver c ps s)
  | (st, .ok r) => inferInstanceAs (Decidable (r.point = .done
      ∧ ∀ q ∈ ps.live c.key, q ≤ st.getLastPulledSeq c.key))
  | (_, .error _) => inferInstanceAs (Decidable False)

end Receive

end Defs

/-! ## One packet -/

section Packet

variable [Aead κ π] {c : Client κ} {now : Int} {st : LocalStore} {pkt : RawPacket π}

theorem LocalStore.tryAssembleChunks_ok {allocLimit : Nat} {transferId : String}
    {dialogue : DialogueKey} :
    (∃ file, (st.tryAssembleChunks allocLimit transferId dialogue).2 = .ok file)
      ↔ st.Assembles allocLimit transferId dialogue := by
  unfold LocalStore.tryAssembleChunks LocalStore.Assembles
  cases st.chunksOf transferId dialogue with
  | nil => simp
  | cons r rs =>
      dsimp only
      split
      · rename_i hlt
        exact ⟨fun _ => Or.inl hlt, fun _ => ⟨none, rfl⟩⟩
      · rename_i hlt
        split
        · rename_i hbig
          constructor
          · rintro ⟨_, h⟩
            cases h
          · rintro (h | h)
            · exact absurd h hlt
            · omega
        · rename_i hbig
          exact ⟨fun _ => Or.inr (Nat.le_of_not_lt hbig), fun _ => ⟨_, rfl⟩⟩

theorem Client.bufferChunk_ok {seq : Nat} {row : ChunkRow} :
    (∃ msg, (c.bufferChunk st seq row).2 = .ok msg)
      ↔ (st.saveChunk row).Assembles c.allocLimit row.transferId row.dialogue := by
  rw [← LocalStore.tryAssembleChunks_ok]
  unfold Client.bufferChunk
  split <;> rename_i heq <;> rw [heq] <;> simp

theorem Client.processIncoming_ok {inner : PacketInner} {seq : Nat} :
    (∃ msg, (c.processIncoming now st inner seq).2 = .ok msg)
      ↔ (st.getMessageBySeq c.key seq).isSome = true ∨
        match inner.content with
        | .fileHeader _ _ _ _ _ chunks _ => seq + chunks < u64Size
        | .fileChunk transferId index total filename mimeType totalSize data =>
            (st.getMessageById c.key transferId).isSome = true
              ∨ (st.saveChunk (c.chunkRow now inner transferId index total filename mimeType
                  totalSize data)).Assembles c.allocLimit transferId c.key
        | _ => True := by
  unfold Client.processIncoming
  by_cases hstored : (st.getMessageBySeq c.key seq).isSome = true
  · rw [if_pos hstored]
    exact ⟨fun _ => Or.inl hstored, fun _ => ⟨none, rfl⟩⟩
  · rw [if_neg hstored]
    simp only [hstored, Bool.false_eq_true, false_or]
    cases hc : inner.content with
    | fileHeader transferId kind filename mimeType totalSize chunks groupId =>
        dsimp only
        unfold checkedAdd
        split
        · rename_i hnone
          split at hnone
          · cases hnone
          · rename_i hover
            constructor
            · rintro ⟨_, h⟩
              cases h
            · exact fun h => absurd h hover
        · rename_i hsome
          split at hsome
          · rename_i hlt
            exact ⟨fun _ => hlt, fun _ => ⟨_, rfl⟩⟩
          · cases hsome
    | fileChunk transferId index total filename mimeType totalSize data =>
        dsimp only
        split
        · rename_i hid
          exact ⟨fun _ => Or.inl hid, fun _ => ⟨none, rfl⟩⟩
        · rename_i hid
          rw [Client.bufferChunk_ok]
          exact ⟨Or.inr, fun h => h.resolve_left hid⟩
    | _ => simp

/-- A header fails before it is processed if its body does not end among the `u64`s. -/
theorem Receive.advanceTo_none {seq : Nat} {content : MessageContent} :
    Receive.advanceTo seq content = none ↔ ∃ transferId kind filename mimeType totalSize chunks groupId,
      content = .fileHeader transferId kind filename mimeType totalSize chunks groupId
        ∧ u64Size ≤ seq + chunks := by
  cases content with
  | fileHeader transferId kind filename mimeType totalSize chunks groupId =>
      simp only [Receive.advanceTo, Option.map_eq_none_iff, checkedAdd]
      constructor
      · intro h
        split at h
        · cases h
        · exact ⟨_, _, _, _, _, _, _, rfl, by omega⟩
      · rintro ⟨_, _, _, _, _, _, _, he, hle⟩
        cases he
        rw [if_neg (by omega)]
  | _ =>
      constructor
      · intro h
        cases h
      · rintro ⟨_, _, _, _, _, _, _, he, _⟩
        cases he

/-- **A packet fails exactly if it is not digestible.** -/
theorem Receive.onPacket_ok {r : Receive π} {queue : List (RawPacket π)} {batchEnd stop : Nat}
    {todo : List (Nat × Nat)} :
    (∃ r', (Receive.onPacket c now st r pkt queue batchEnd stop todo).2 = .ok r')
      ↔ c.Digestible now st pkt := by
  unfold Receive.onPacket Client.Digestible
  cases hdec : c.decryptPacket pkt.seq pkt.payload with
  | none => simp
  | some inner =>
      simp only [Option.mem_def, Option.some.injEq, forall_eq']
      split
      · rename_i hto
        obtain ⟨_, _, _, _, _, _, _, hc, hle⟩ := Receive.advanceTo_none.mp hto
        rw [hc]
        constructor
        · rintro ⟨_, h⟩
          cases h
        · intro h
          omega
      · rename_i target skipUntil hto
        have hfits : ∀ transferId kind filename mimeType totalSize chunks groupId,
            inner.content = .fileHeader transferId kind filename mimeType totalSize chunks groupId →
            pkt.seq + chunks < u64Size := by
          intro _ _ _ _ _ _ _ hc
          by_contra hle
          rw [Receive.advanceTo_none.mpr ⟨_, _, _, _, _, _, _, hc, Nat.le_of_not_lt hle⟩] at hto
          cases hto
        have hdigest : (match inner.content with
            | .fileHeader _ _ _ _ _ chunks _ => pkt.seq + chunks < u64Size
            | .fileChunk transferId index total filename mimeType totalSize data =>
                (st.getMessageBySeq c.key pkt.seq).isSome = true
                  ∨ (st.getMessageById c.key transferId).isSome = true
                  ∨ (st.saveChunk (c.chunkRow now inner transferId index total filename mimeType
                      totalSize data)).Assembles c.allocLimit transferId c.key
            | _ => True) ↔ ∃ msg, (c.processIncoming now st inner pkt.seq).2 = .ok msg := by
          rw [Client.processIncoming_ok]
          cases hc : inner.content with
          | fileHeader =>
              have hlt := hfits _ _ _ _ _ _ _ hc
              exact ⟨fun _ => Or.inr hlt, fun _ => hlt⟩
          | fileChunk => exact Iff.rfl
          | _ => exact ⟨fun _ => Or.inr trivial, fun _ => trivial⟩
        rw [hdigest]
        split
        · -- an own message that is stored is not processed
          rename_i id hown
          have hstored : (st.getMessageBySeq c.key pkt.seq).isSome = true := by
            split at hown
            · rw [hown]
              rfl
            · cases hown
          exact ⟨fun _ => Client.processIncoming_ok.mpr (Or.inl hstored), fun _ => ⟨_, rfl⟩⟩
        · split <;> rename_i hres <;> rw [hres]
          · constructor <;>
            · rintro ⟨_, h⟩
              cases h
          · exact ⟨fun _ => ⟨_, rfl⟩, fun _ => ⟨_, rfl⟩⟩

end Packet

/-! ## The run of a call -/

/-- Where the signed order agrees, the cursor is raised. -/
theorem LocalStore.getLastPulledSeq_raise {st : LocalStore} {key : DialogueKey} {seq : Nat}
    (h : st.Raisable key seq) (hu : seq < u64Size) :
    (st.setLastPulledSeq key seq).getLastPulledSeq key = seq := by
  unfold LocalStore.setLastPulledSeq LocalStore.getLastPulledSeq
  rw [LocalStore.putState_dialogueState_self]
  cases hrow : st.dialogueState key with
  | none => exact toU64_toI64 hu
  | some s =>
      dsimp only
      rw [max_eq_right (h s hrow)]
      exact toU64_toI64 hu

/-- Where the cursor goes over a packet is a `u64` at or above it. -/
theorem PacketStep.target_lt [Aead κ π] {c : Client κ} {now : Int} {st st' : LocalStore}
    {pkt : RawPacket π} {target : Nat} {own : Option MessageId} {skipUntil : Option Nat}
    {counted : List Nat} (h : PacketStep c now st pkt st' target own skipUntil counted)
    (hu : pkt.seq < u64Size) : target < u64Size := by
  have hto : ∀ {inner : PacketInner},
      Receive.advanceTo pkt.seq inner.content = some (target, skipUntil) → target < u64Size := by
    intro inner hto
    cases hc : inner.content with
    | fileHeader =>
        rw [hc] at hto
        simp only [Receive.advanceTo, Option.map_eq_some_iff, Prod.mk.injEq] at hto
        obtain ⟨bodyEnd, hadd, rfl, _⟩ := hto
        exact (checkedAdd_eq_some.mp hadd).2
    | _ =>
        rw [hc] at hto
        cases hto
        exact hu
  cases h with
  | undecryptable => exact hu
  | own _ h => exact hto h
  | processed _ h => exact hto h

namespace Receive

section Run

variable [Aead κ π] {c : Client κ} {now : Int} {ps : PacketStore π} {st : LocalStore}
  {r r' : Receive π}

/-- The call has returned over every live packet, or comes to a step that is not fit. -/
def Ends (c : Client κ) (now : Int) (ps : PacketStore π)
    (s : LocalStore × Except Fault (Receive π)) : Prop :=
  ReturnedOver c ps s ∨ ¬ FitAt c now s

/-- The cursor of the call is the stored one, and the call knows of every live packet. -/
structure Level (c : Client κ) (ps : PacketStore π) (st : LocalStore) (r : Receive π) : Prop where
  cursor : st.getLastPulledSeq c.key = r.cursor
  last : ∀ q ∈ ps.live c.key, q ≤ r.lastSeqTotal
  bound : r.lastSeqTotal < u64Size

omit [Aead κ π] in
theorem Level.of_eq (h : Level c ps st r) (hcursor : r'.cursor = r.cursor)
    (hlast : r'.lastSeqTotal = r.lastSeqTotal) : Level c ps st r' where
  cursor := h.cursor.trans hcursor.symm
  last := hlast ▸ h.last
  bound := hlast ▸ h.bound

/-- Between requests the call is on its own anyway. -/
theorem alone_local {res : LocalStore × Except Fault (Receive π)}
    (h : r.localStep c now st = some res) : alone c now ps (st, .ok r) = some res := by
  unfold alone
  dsimp only
  split
  · rename_i hp
    unfold localStep at h
    rw [hp] at h
    cases h
  · rename_i hp
    unfold localStep at h
    rw [hp] at h
    cases h
  · rename_i hp
    unfold localStep at h
    rw [hp] at h
    cases h
  · exact h

/-- A batch that begins above `0` is answered. -/
theorem alone_pull {seq stop : Nat} {todo : List (Nat × Nat)} (hp : r.point = .pull seq stop todo)
    (hpos : 0 < seq) (hle : seq ≤ batchEnd seq stop) :
    ∃ packets, ps.pull c.key (seq - 1) (batchEnd seq stop) = .ok packets
      ∧ alone c now ps (st, .ok r) = some (st, .ok (r.onPull packets seq stop todo)) := by
  obtain ⟨packets, hpull⟩ : ∃ packets,
      ps.pull c.key (seq - 1) (batchEnd seq stop) = .ok packets := by
    unfold PacketStore.pull
    rw [if_neg (by simp only [Bool.or_eq_true, decide_eq_true_eq]; omega)]
    split <;> exact ⟨_, rfl⟩
  refine ⟨packets, hpull, ?_⟩
  unfold alone
  simp only [hp, hpull]

theorem alone_load (hp : r.point = .load) :
    alone c now ps (st, .ok r) = some (st, .ok (({ r with
      allRuns := r.allRuns.insertionSort (fun a b => a.1 ≤ b.1)
      cursor := st.getLastPulledSeq c.key } : Receive π).nextRun
        (r.allRuns.insertionSort (fun a b => a.1 ≤ b.1)))) :=
  alone_local (by simp only [localStep, hp])

/-- A page of the map is scanned, and is the answer to a request for it. -/
theorem alone_map {after : Nat} (hp : r.point = .map after) {scan : List (Nat × Nat) × Bool}
    (hscan : ps.mapRuns c.key after 0 mapMaxRuns = scan) :
    alone c now ps (st, .ok r) = some (st, .ok { r with point := .scanned scan.1 scan.2 })
      ∧ ps.map c.key after 0 mapMaxRuns = .ok ⟨scan.1, ps.lastSeq c.key, scan.2⟩ := by
  constructor
  · unfold alone
    simp only [hp, hscan]
  · unfold PacketStore.map
    rw [hscan]
    rfl

theorem leads_done (hp : r.point = .done)
    (h : ∀ q ∈ ps.live c.key, q ≤ st.getLastPulledSeq c.key) :
    Lts.Leads (alone c now ps) (Ends c now ps) (st, .ok r) :=
  .here (Or.inl ⟨hp, h⟩)

theorem leads_sweep (hp : r.point = .sweep)
    (h : ∀ q ∈ ps.live c.key, q ≤ st.getLastPulledSeq c.key) :
    Lts.Leads (alone c now ps) (Ends c now ps) (st, .ok r) := by
  cases hts : (st.getDeliveredServerSeqs c.key).filter (fun s => !seqInRuns r.allRuns s) with
  | nil =>
      have hstep : r.localStep c now st = some (st, .ok { r with point := .done }) := by
        simp only [localStep, hp, hts]
      exact .step (alone_local hstep) (leads_done rfl h)
  | cons t ts =>
      have hstep : r.localStep c now st = some (st, .ok { r with point := .delete (t :: ts) }) := by
        simp only [localStep, hp, hts]
      exact .step (alone_local hstep) (.step (alone_local rfl) (leads_done rfl h))

/-- At the end the cursor goes over what is left of the map. -/
theorem leads_bump (hp : r.point = .bump) (h : Level c ps st r) :
    Lts.Leads (alone c now ps) (Ends c now ps) (st, .ok r) := by
  by_cases hfit : r.Fit c now st
  · by_cases hlt : r.cursor < r.lastSeqTotal
    · have hraise : st.Raisable c.key r.lastSeqTotal :=
        hfit.1 _ (by simp only [raises, hp, if_pos hlt, Option.mem_def])
      have hstep : r.localStep c now st = some (st.setLastPulledSeq c.key r.lastSeqTotal,
          .ok { r with cursor := r.lastSeqTotal, point := .sweep }) := by
        simp only [localStep, hp, if_pos hlt]
      refine .step (alone_local hstep) (leads_sweep rfl (fun q hq => ?_))
      rw [LocalStore.getLastPulledSeq_raise hraise h.bound]
      exact h.last q hq
    · have hstep : r.localStep c now st = some (st, .ok { r with point := .sweep }) := by
        simp only [localStep, hp, if_neg hlt]
      refine .step (alone_local hstep) (leads_sweep rfl (fun q hq => ?_))
      rw [h.cursor]
      exact Nat.le_trans (h.last q hq) (Nat.le_of_not_lt hlt)
  · exact .here (Or.inr hfit)

/-- The cursor is where it was before the packet. -/
theorem PacketStep.level {pkt : RawPacket π} {st' : LocalStore} {target : Nat}
    {own : Option MessageId} {skipUntil : Option Nat} {counted : List Nat}
    (h : PacketStep c now st pkt st' target own skipUntil counted) (hl : Level c ps st r)
    (hcursor : r'.cursor = r.cursor) (hlast : r'.lastSeqTotal = r.lastSeqTotal) :
    Level c ps st' r' where
  cursor := by
    rw [LocalStore.getLastPulledSeq_congr (congrFun h.dialogueState c.key), hl.cursor, hcursor]
  last := hlast ▸ hl.last
  bound := hlast ▸ hl.bound

/-- **The loop over a batch ends**, and goes on with a batch that begins later. -/
theorem leads_packets {batchEnd stop : Nat} {todo : List (Nat × Nat)}
    (hend : batchEnd + 1 < u64Size)
    (hnext : ∀ st r q, Level c ps st r → batchEnd < q →
      Lts.Leads (alone c now ps) (Ends c now ps) (st, .ok (r.nextBatch q stop todo)))
    {queue : List (RawPacket π)} {pkt : RawPacket π} (h : Level c ps st r)
    (hu : ∀ p ∈ pkt :: queue, p.seq < u64Size)
    (hp : r.point = .packet pkt queue batchEnd stop todo) :
    Lts.Leads (alone c now ps) (Ends c now ps) (st, .ok r) := by
  induction hk : queue.length using Nat.strong_induction_on generalizing queue pkt st r with
  | _ k ih =>
      by_cases hfit : r.Fit c now st
      · have hdig : c.Digestible now st pkt := by
          have hpoint := hfit.2
          rw [hp] at hpoint
          exact hpoint
        obtain ⟨r₁, hr₁⟩ :
            ∃ r₁, (onPacket c now st r pkt queue batchEnd stop todo).2 = .ok r₁ :=
          onPacket_ok.mpr hdig
        generalize hst : (onPacket c now st r pkt queue batchEnd stop todo).1 = st₁
        have heq : onPacket c now st r pkt queue batchEnd stop todo = (st₁, .ok r₁) :=
          Prod.ext hst hr₁
        have hlocal : r.localStep c now st = some (st₁, .ok r₁) := by
          simp only [localStep, hp, heq]
        obtain ⟨target, own, skipUntil, counted, messages, hstep, rfl⟩ := onPacket_inv heq
        refine .step (alone_local hlocal) ?_
        generalize hr₂ : ({ r with
          messages := messages
          decryptErrors := r.decryptErrors ++ counted
          point := .advance target own (dropSkipped skipUntil queue) batchEnd stop todo } :
            Receive π) = r₂
        have hp₂ : r₂.point = .advance target own (dropSkipped skipUntil queue) batchEnd stop todo :=
          hr₂ ▸ rfl
        have hl₂ : Level c ps st₁ r₂ := PacketStep.level hstep h (hr₂ ▸ rfl) (hr₂ ▸ rfl)
        have htarget : target < u64Size := hstep.target_lt (hu pkt List.mem_cons_self)
        -- the cursor moves over the packet
        by_cases hfit₂ : r₂.Fit c now st₁
        · have hraise : st₁.Raisable c.key target :=
            hfit₂.1 _ (by simp only [raises, hp₂, Option.mem_def])
          have hlocal₂ : r₂.localStep c now st₁ = some (st₁.setLastPulledSeq c.key target,
              .ok (({ r₂ with
                cursor := target
                messages := r₂.messages ++ (own.bind (fun id =>
                  (st₁.setLastPulledSeq c.key target).getMessageById c.key id)).toList } :
                    Receive π).nextPacket (dropSkipped skipUntil queue) batchEnd stop todo)) := by
            simp only [localStep, hp₂]
          refine .step (alone_local hlocal₂) ?_
          generalize hr₃ : ({ r₂ with
            cursor := target
            messages := r₂.messages ++ (own.bind (fun id =>
              (st₁.setLastPulledSeq c.key target).getMessageById c.key id)).toList } : Receive π) = r₃
          have hl₃ : Level c ps (st₁.setLastPulledSeq c.key target) r₃ :=
            { cursor := by
                rw [LocalStore.getLastPulledSeq_raise hraise htarget, ← hr₃]
              last := by
                rw [← hr₃]
                exact hl₂.last
              bound := by
                rw [← hr₃]
                exact hl₂.bound }
          have hsub := dropSkipped_sublist skipUntil queue
          unfold nextPacket
          split
          · rename_i pkt' queue' hq
            rw [hq] at hsub
            have hlen := hsub.length_le
            rw [List.length_cons] at hlen
            refine ih queue'.length (by omega) (hl₃.of_eq rfl rfl) (fun p hmem => ?_) rfl rfl
            exact hu p (List.mem_cons_of_mem _ (hsub.subset hmem))
          · refine hnext _ _ _ hl₃ ?_
            have : saturatingAdd batchEnd 1 = batchEnd + 1 := by
              unfold saturatingAdd
              omega
            omega
        · exact .here (Or.inr hfit₂)
      · exact .here (Or.inr hfit)

/-- **The loop over the batches of a run ends.** -/
theorem leads_batches {stop : Nat} {todo : List (Nat × Nat)}
    (hrange : ∀ q ∈ ps.live c.key, q < u64Size)
    (hrun : ∀ st r, Level c ps st r →
      Lts.Leads (alone c now ps) (Ends c now ps) (st, .ok (r.nextRun todo)))
    {seq : Nat} (h : Level c ps st r) (hpos : 0 < seq) (hle : seq ≤ stop)
    (hp : r.point = .pull seq stop todo) :
    Lts.Leads (alone c now ps) (Ends c now ps) (st, .ok r) := by
  induction hk : stop - seq using Nat.strong_induction_on generalizing seq st r with
  | _ k ih =>
      by_cases hfit : r.Fit c now st
      · have hstop : stop + 1 < u64Size := by
          have hpoint := hfit.2
          rw [hp] at hpoint
          exact hpoint
        have hbatch : seq ≤ batchEnd seq stop ∧ batchEnd seq stop ≤ stop := by
          unfold batchEnd saturatingAdd
          omega
        have hnext : ∀ st r q, Level c ps st r → batchEnd seq stop < q →
            Lts.Leads (alone c now ps) (Ends c now ps) (st, .ok (r.nextBatch q stop todo)) := by
          intro st r q hl hq
          unfold nextBatch
          split
          · exact ih (stop - q) (by omega) (hl.of_eq rfl rfl) (by omega) (by assumption) rfl rfl
          · exact hrun st r hl
        obtain ⟨packets, hpull, hstep⟩ := alone_pull hp hpos hbatch.1
        refine .step hstep ?_
        unfold onPull
        split
        · -- an empty batch is passed over
          generalize hr₁ : ({ r with point := .skip (batchEnd seq stop) stop todo } : Receive π) = r₁
          have hp₁ : r₁.point = .skip (batchEnd seq stop) stop todo := hr₁ ▸ rfl
          have hl₁ : Level c ps st r₁ := h.of_eq (hr₁ ▸ rfl) (hr₁ ▸ rfl)
          by_cases hfit₁ : r₁.Fit c now st
          · have hraise : st.Raisable c.key (batchEnd seq stop) :=
              hfit₁.1 _ (by simp only [raises, hp₁, Option.mem_def])
            have hlocal : r₁.localStep c now st =
                some (st.setLastPulledSeq c.key (batchEnd seq stop),
                  .ok (({ r₁ with cursor := batchEnd seq stop } : Receive π).nextBatch
                    (saturatingAdd (batchEnd seq stop) 1) stop todo)) := by
              simp only [localStep, hp₁]
            refine .step (alone_local hlocal) (hnext _ _ _ ?_ ?_)
            · exact
                { cursor := LocalStore.getLastPulledSeq_raise hraise (by omega)
                  last := hl₁.last
                  bound := hl₁.bound }
            · unfold saturatingAdd
              omega
          · exact .here (Or.inr hfit₁)
        · rename_i pkt queue hsort
          refine leads_packets (by omega) hnext (h.of_eq rfl rfl) (fun p hmem => ?_) rfl
          rw [← hsort, List.mem_insertionSort] at hmem
          have hget := ((PacketStore.mem_pull hpull (by omega)).mp hmem).2.2
          exact hrange p.seq (PacketStore.mem_live.mpr ⟨_, hget⟩)
      · exact .here (Or.inr hfit)

/-- **The loop over the runs ends.** -/
theorem leads_runs (hrange : ∀ q ∈ ps.live c.key, q < u64Size) {todo : List (Nat × Nat)}
    (h : Level c ps st r) :
    Lts.Leads (alone c now ps) (Ends c now ps) (st, .ok (r.nextRun todo)) := by
  induction todo generalizing st r with
  | nil => exact leads_bump rfl (h.of_eq rfl rfl)
  | cons run todo ih =>
      obtain ⟨first, stop⟩ := run
      unfold nextRun
      split
      · exact ih h
      · split
        · refine leads_batches hrange (fun st r hl => ih hl) (h.of_eq rfl rfl) ?_ (by assumption) rfl
          unfold saturatingAdd
          have : 1 < u64Size := by decide
          omega
        · exact ih h

theorem leads_load (hrange : ∀ q ∈ ps.live c.key, q < u64Size) (hp : r.point = .load)
    (hlast : ∀ q ∈ ps.live c.key, q ≤ r.lastSeqTotal) (hbound : r.lastSeqTotal < u64Size) :
    Lts.Leads (alone c now ps) (Ends c now ps) (st, .ok r) :=
  .step (alone_load hp) (leads_runs hrange ⟨rfl, hlast, hbound⟩)


/-- **The loop over the pages of the map ends.** -/
theorem leads_map (hrange : ∀ q ∈ ps.live c.key, q < u64Size) {after : Nat}
    (hbound : r.lastSeqTotal < u64Size) (hp : r.point = .map after) :
    Lts.Leads (alone c now ps) (Ends c now ps) (st, .ok r) := by
  induction hk : u64Size - after using Nat.strong_induction_on generalizing after r with
  | _ k ih =>
      generalize hscan : ps.mapRuns c.key after 0 mapMaxRuns = scan
      obtain ⟨hstep, hmap⟩ := alone_map hp hscan
      refine .step hstep (.step rfl ?_)
      have hpage := ps.map_page c.key hrange (by decide) hmap
      have hlast : ∀ q ∈ ps.live c.key, q ≤ max r.lastSeqTotal (ps.lastSeq c.key) :=
        fun q hq => Nat.le_trans (PacketStore.le_lastSeq hq) (Nat.le_max_right _ _)
      have hbound' : max r.lastSeqTotal (ps.lastSeq c.key) < u64Size := by
        rcases ps.lastSeq_mem_or_zero c.key with hmem | hzero
        · have := hrange _ hmem
          omega
        · omega
      unfold onMap
      dsimp only
      split
      · exact leads_load hrange rfl hlast hbound'
      · rename_i lastEnd hend
        have hbeyond := (hpage.lastEnd_mem hend).2.1
        cases scan.2 with
        | false => exact leads_load hrange rfl hlast hbound'
        | true =>
            have hlt := hrange lastEnd (hpage.lastEnd_mem hend).1
            exact ih (u64Size - lastEnd) (by omega) hbound' rfl rfl

/-- A call whose steps are all fit returns. -/
theorem returnedOver_of_fit (hrange : ∀ q ∈ ps.live c.key, q < u64Size)
    (hfit : ∀ k, FitAt c now (Lts.iterate (alone c now ps) k (st, .ok start))) :
    ∃ k, ReturnedOver c ps (Lts.iterate (alone c now ps) k (st, .ok start)) := by
  have hleads : Lts.Leads (alone c now ps) (Ends c now ps) (st, .ok start) :=
    leads_map hrange (show 0 < u64Size by decide) rfl
  obtain ⟨k, hreturned | hunfit⟩ := hleads.iterate
  · exact ⟨k, hreturned⟩
  · exact absurd (hfit k) hunfit

end Run

end Receive

namespace World

variable [Aead κ π] {cfg : Setup κ n} {w w' : World π n} {l : Label π n}

theorem range_reachable {ok : World π n → Label π n → Prop}
    (hr : Lts.Reach (step cfg) ok (init cfg) w) :
    ∀ s ∈ w.server.store.live cfg.key, s < u64Size :=
  hr.invariant (fun _ h => absurd h List.not_mem_nil)
    (fun _ _ _ _ hi _ hs => range_step (step_inv hs) hi)

/-! ### A dialogue in which only one call moves -/

theorem users_step (h : StepCase cfg w l w') : w'.server.users = w.server.users := by
  have hserve : ∀ (w₁ : World π n) (id : Option Nat) (req : PushRequest π),
      (w₁.serve id req).1.server.users = w₁.server.users :=
    fun _ _ _ => Server.doPush_users rfl
  cases h with
  | push => rw [setTask_server, hserve]
  | arrive => exact hserve _ _ _
  | raw => exact hserve _ _ _
  | outer | run | finish | fails | relayMap | relayPull =>
      simp [moved, note, setStore, issue]
  | notified | existing | timeout | timeoutExisting | kill => simp [delay]
  | start | remove => rfl

theorem users_reachable {ok : World π n → Label π n → Prop}
    (hr : Lts.Reach (step cfg) ok (init cfg) w) : w.server.users = [cfg.key.a, cfg.key.b] :=
  hr.invariant (P := fun w => w.server.users = [cfg.key.a, cfg.key.b]) rfl
    (fun _ _ _ _ hi _ hs => (users_step (step_inv hs)).trans hi)

omit [Aead κ π] in
/-- No device is refused a range of its own dialogue. -/
theorem refuseRange_own (husers : w.server.users = [cfg.key.a, cfg.key.b]) (d : Fin n) (a b : Nat) :
    Server.refuseRange w.server.users (rangeRequest (cfg.device d) a b) = none := by
  unfold Server.refuseRange rangeRequest Client.partner
  rw [husers, cfg.shared]
  rcases cfg.member d with hm | hm
  · simp [hm]
  · by_cases hab : cfg.key.a = cfg.key.b
    · simp [hm, hab]
    · simp [hm, hab]

omit [Aead κ π] in
theorem onRx_eq {job : Job π n} {rx : Rx π}
    {f : Job π n → Receive π → Option (Receive π × List (Notice π))} {run : Receive π}
    {notices : List (Notice π)} (hjob : job ∈ w.jobs) (hrx : job.task.rx = some rx)
    (hf : f job rx.run = some (run, notices)) :
    w.onRx job.id f = some (w.moved job (w.store job.dev)
      (some { job.task with rx := some { rx with run := run } }) notices) := by
  unfold onRx
  rw [job_of_mem hjob]
  dsimp only
  rw [hrx]
  dsimp only
  rw [hf, moved, setStore_self]

/-- A step a `receive` takes by itself is a step of the dialogue. -/
theorem stepLocal_rx {env : Env} {job : Job π n} {rx : Rx π} {st' : LocalStore} {r' : Receive π}
    (hjob : job ∈ w.jobs) (hrx : job.task.rx = some rx)
    (h : rx.run.localStep (cfg.device job.dev) env.now (w.store job.dev) = some (st', .ok r')) :
    step cfg w (.localStep job.id env) = some (w.moved job st'
      (some { job.task with rx := some { rx with run := r' } }) []) := by
  have htask : job.task.localStep (cfg.device job.dev) env (w.store job.dev) = some
      { store := st', task := some { job.task with rx := some { rx with run := r' } } } := by
    unfold Task.localStep
    rw [hrx]
    dsimp only
    unfold Task.receiveStep
    split
    · rename_i hp
      unfold Receive.localStep at h
      rw [hp] at h
      cases h
    · rw [h]
  simp only [step, stepLocal, job_of_mem hjob, htask, List.all_nil, if_true]
  rw [issue, List.map_nil, List.append_nil]
  rfl

/-- A step of `Receive.alone` is a step of the dialogue. -/
theorem alone_step (husers : w.server.users = [cfg.key.a, cfg.key.b]) {env : Env} {job : Job π n}
    {rx : Rx π} {st' : LocalStore} {r' : Receive π} (hjob : job ∈ w.jobs)
    (hrx : job.task.rx = some rx)
    (h : Receive.alone (cfg.device job.dev) env.now w.server.store (w.store job.dev, .ok rx.run)
      = some (st', .ok r')) :
    ∃ l notices, step cfg w l = some (w.moved job st'
      (some { job.task with rx := some { rx with run := r' } }) notices) := by
  unfold Receive.alone at h
  dsimp only at h
  split at h
  · rename_i after hp
    cases h
    refine ⟨.scan job.id, [], ?_⟩
    change w.stepScan cfg job.id = _
    unfold stepScan
    refine onRx_eq hjob hrx ?_
    rw [hp]
    dsimp only
    rw [refuseRange_own husers, cfg.dialogue_eq, cfg.shared]
  · rename_i runs truncated hp
    cases h
    refine ⟨.lastSeq job.id, [], ?_⟩
    change w.stepLastSeq cfg job.id = _
    unfold stepLastSeq
    refine onRx_eq hjob hrx ?_
    rw [hp]
    dsimp only
    rw [cfg.dialogue_eq, cfg.shared]
  · rename_i seq stop todo hp
    split at h
    · cases h
    · rename_i packets hpull
      cases h
      refine ⟨.pull job.id, [.pulled packets], ?_⟩
      change w.stepPull cfg job.id = _
      unfold stepPull
      refine onRx_eq hjob hrx ?_
      have hdo : w.server.doPull (rangeRequest (cfg.device job.dev) (seq - 1)
          (Receive.batchEnd seq stop)) = .ok packets := by
        unfold Server.doPull
        rw [refuseRange_own husers, cfg.dialogue_eq, ← cfg.shared job.dev]
        split
        · rename_i hbad
          change (decide (Receive.batchEnd seq stop = 0)
            || decide (Receive.batchEnd seq stop ≤ seq - 1)) = true at hbad
          unfold PacketStore.pull at hpull
          rw [if_pos hbad] at hpull
          cases hpull
        · exact hpull
      rw [hp]
      dsimp only
      rw [hdo]
  · -- what is left is a step of the call itself
    exact ⟨.localStep job.id env, [], stepLocal_rx hjob hrx h⟩

omit [Aead κ π] in
theorem job_rx {job : Job π n} {rx : Rx π} (hrx : job.task.rx = some rx) :
    { job with task := { job.task with rx := some rx } } = job := by
  rw [← hrx]

/-- **A `receive` that runs alone is one of the dialogue's**: where it has come to, the call comes
when nothing else moves. -/
theorem alone_exec (husers : w.server.users = [cfg.key.a, cfg.key.b]) {env : Env} {job : Job π n}
    {rx : Rx π} {st' : LocalStore} {r' : Receive π} {k : Nat} (hjob : job ∈ w.jobs)
    (hrx : job.task.rx = some rx)
    (h : Lts.iterate (Receive.alone (cfg.device job.dev) env.now w.server.store) k
      (w.store job.dev, .ok rx.run) = (st', .ok r')) :
    ∃ ls w', Lts.exec (step cfg) w ls = some w' ∧ w'.server = w.server
      ∧ w'.store job.dev = st'
      ∧ { job with task := { job.task with rx := some { rx with run := r' } } } ∈ w'.jobs := by
  induction k generalizing w job rx with
  | zero =>
      cases h
      exact ⟨[], w, rfl, rfl, rfl, (job_rx hrx).symm ▸ hjob⟩
  | succ k ih =>
      rw [Lts.iterate] at h
      split at h
      · rename_i s hs
        obtain ⟨st₁, res⟩ := s
        cases res with
        | error e =>
            have hstopped : Lts.iterate (Receive.alone (cfg.device job.dev) env.now w.server.store) k
                (st₁, .error e) = (st₁, .error e) := Lts.iterate_stopped (k := 0) rfl (Nat.zero_le k)
            rw [hstopped] at h
            cases h
        | ok r₁ =>
            obtain ⟨l, notices, hstep⟩ := alone_step husers hjob hrx hs
            generalize hjob' : ({ job with
              task := { job.task with rx := some { rx with run := r₁ } } } : Job π n) = job'
            generalize hw' : w.moved job st₁ (some { job.task with rx := some { rx with run := r₁ } })
              notices = w₁ at hstep
            have hmem : job' ∈ w₁.jobs := by
              rw [← hw', ← hjob']
              exact Table.mem_insertOrReplace.mpr (Or.inr rfl)
            have hserver : w₁.server = w.server := hw' ▸ moved_server
            have hstore : w₁.store job.dev = st₁ := hw' ▸ moved_store_self
            have hrest : Lts.iterate (Receive.alone (cfg.device job'.dev) env.now w₁.server.store) k
                (w₁.store job'.dev, .ok r₁) = (st', .ok r') := by
              rw [hserver, ← hjob', hstore]
              exact h
            have hrx' : job'.task.rx = some { rx with run := r₁ } := by rw [← hjob']
            obtain ⟨ls, w', hexec, hserver', hstore', hmem'⟩ :=
              ih (hserver ▸ husers) hmem hrx' hrest
            refine ⟨l :: ls, w', ?_, hserver'.trans hserver, ?_, ?_⟩
            · rw [Lts.exec, hstep]
              exact hexec
            · rw [← hjob'] at hstore'
              exact hstore'
            · rw [← hjob'] at hmem'
              exact hmem'
      · cases h
        exact ⟨[], w, rfl, rfl, rfl, (job_rx hrx).symm ▸ hjob⟩

/-- In the dialogue the call returns, too, when nothing else moves. -/
theorem received_exec {ok : World π n → Label π n → Prop}
    (hr : Lts.Reach (step cfg) ok (init cfg) w) {env : Env} {job : Job π n} {since : Nat}
    (hjob : job ∈ w.jobs) (hrx : job.task.rx = some ⟨since, Receive.start⟩)
    (hfit : ∀ k, Receive.FitAt (cfg.device job.dev) env.now
      (Lts.iterate (Receive.alone (cfg.device job.dev) env.now w.server.store) k
        (w.store job.dev, .ok Receive.start))) :
    ∃ ls w' r, Lts.exec (step cfg) w ls = some w' ∧ w'.server = w.server
      ∧ { job with task := { job.task with rx := some ⟨since, r⟩ } } ∈ w'.jobs ∧ r.point = .done
      ∧ ∀ q ∈ w'.server.store.live cfg.key, q ≤ w'.cursor cfg job.dev := by
  have hrange : ∀ q ∈ w.server.store.live (cfg.device job.dev).key, q < u64Size := by
    rw [cfg.shared]
    exact range_reachable hr
  obtain ⟨k, hk⟩ := Receive.returnedOver_of_fit hrange hfit
  generalize hend : Lts.iterate (Receive.alone (cfg.device job.dev) env.now w.server.store) k
    (w.store job.dev, .ok Receive.start) = s at hk
  obtain ⟨st', res⟩ := s
  cases res with
  | error e => exact hk.elim
  | ok r =>
      obtain ⟨hdone, hover⟩ := hk
      obtain ⟨ls, w', hexec, hserver, hstore, hmem⟩ :=
        alone_exec (users_reachable hr) hjob hrx hend
      refine ⟨ls, w', r, hexec, hserver, hmem, hdone, ?_⟩
      unfold cursor
      rw [hserver, hstore, ← cfg.shared job.dev]
      exact hover

/-! ## A poisonous packet -/

/-- Bob's push of the only chunk of a file that announces so many bytes. -/
def onlyChunk (totalSize : Nat) : PushRequest Sealed :=
  ⟨"bob", "alice", 1, ⟨7, 0, ⟨"c", 0, "bob", .fileChunk "t" 0 1 "f" "m" totalSize [1], none⟩⟩, "bob"⟩

/-- The dialogue when the push was accepted. -/
def holding (totalSize : Nat) : World Sealed 3 :=
  ((Lts.execWhile (step Sample.setup) (fun _ l => l.isRelay = false ∧ l.isRemoval = false)
    (init Sample.setup) [.raw (onlyChunk totalSize)]).getD (init Sample.setup))

end World

end Paranoia
