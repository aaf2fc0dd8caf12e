import Paranoia.Client.Incoming

/-!
# The frame of incoming processing

A packet handled in one dialogue should leave the rest of the database alone:
every message row except the one at its own place, and every chunk buffer except
that of its own transfer. The exception is a read receipt, which may raise the
status of the account's own messages up to its bound.

Messages are saved by a replacing insert whose key is the id alone, and ids come
from the packet. `Keeps` is therefore not a theorem but a condition: the frame is
kept exactly when no row anywhere already has the id the packet brings along, and
a receipt selects own messages only.
-/

namespace Paranoia

variable {κ : Type} {c : Client κ} {now : Int} {st : LocalStore} {inner : PacketInner} {seq : Nat}

/-- The transfer whose chunk buffer the packet may change. -/
def PacketInner.transfer (inner : PacketInner) : Option String :=
  match inner.content with
  | .fileChunk transferId _ _ _ _ _ _ => some transferId
  | _ => none

/-- A read receipt may raise this row's status. -/
def MayRaise (c : Client κ) (inner : PacketInner) (m : Message) : Prop :=
  ∃ bound n, inner.content = .readReceipt bound ∧ m.dialogue = c.key ∧ m.sender = c.username
    ∧ m.serverSeq = some n ∧ n ≤ bound

/-- Going from `st` to `st'` touched no row it should not. -/
structure FrameKept (c : Client κ) (inner : PacketInner) (seq : Nat) (st st' : LocalStore) :
    Prop where
  messages : ∀ m ∈ st.messages, ¬ (m.dialogue = c.key ∧ m.serverSeq = some seq) →
    m ∈ st'.messages ∨ (MayRaise c inner m ∧ { m with status := .read } ∈ st'.messages)
  chunks : ∀ r : ChunkRow, ¬ (r.dialogue = c.key ∧ inner.transfer = some r.transferId) →
    (r ∈ st'.incomingChunks ↔ r ∈ st.incomingChunks)

/-- No row of any dialogue has this id. -/
def LocalStore.FreeId (st : LocalStore) (id : MessageId) : Prop := ∀ m ∈ st.messages, m.id ≠ id

/-- When the packet keeps the frame, told from the database before it and the packet. -/
def Keeps (c : Client κ) (now : Int) (st : LocalStore) (inner : PacketInner) (seq : Nat) : Prop :=
  (∃ m ∈ st.messages, m.dialogue = c.key ∧ m.serverSeq = some seq) ∨
    match inner.content with
    | .readReceipt bound => ∀ m ∈ st.messages, LocalStore.readUntil c.key bound m = true →
        m.sender = c.username ∧ ∃ n, m.serverSeq = some n ∧ n ≤ bound
    | .delete _ => True
    | .fileHeader transferId _ _ _ _ chunks _ => u64Size ≤ seq + chunks ∨ st.FreeId transferId
    | .fileChunk transferId index total filename mimeType totalSize data =>
        (∃ m ∈ st.messages, m.dialogue = c.key ∧ m.id = transferId)
          ∨ st.completes c.allocLimit (c.chunkRow now inner transferId index total filename
              mimeType totalSize data) = false
          ∨ st.FreeId transferId
    | _ => st.FreeId inner.id

/-! ## One branch at a time -/

/-- Saving a message at a free place keeps the other rows when its id is new, and only then. -/
theorem saveMessage_keeps_iff {st₁ : LocalStore} {msg : Message}
    (hrows : st₁.messages = st.messages) (hd : msg.dialogue = c.key)
    (hs : msg.serverSeq = some seq)
    (hfree : ∀ m ∈ st.messages, ¬ (m.dialogue = c.key ∧ m.serverSeq = some seq)) :
    (∀ m ∈ st.messages, m ∈ (st₁.saveMessage msg).messages) ↔ st.FreeId msg.id := by
  constructor
  · intro h m hm hid
    rcases LocalStore.mem_saveMessage.mp (h m hm) with h' | rfl
    · exact h'.2 hid
    · exact hfree m hm ⟨hd, hs⟩
  · exact fun h m hm => LocalStore.mem_saveMessage.mpr (Or.inl ⟨hrows ▸ hm, h m hm⟩)

/-- The frame of a step that is no receipt is plain preservation of the rows. -/
theorem frameKept_iff_of_rows {st' : LocalStore} (hr : ∀ bound, inner.content ≠ .readReceipt bound)
    (hfree : ∀ m ∈ st.messages, ¬ (m.dialogue = c.key ∧ m.serverSeq = some seq))
    (hchunks : ∀ r : ChunkRow, ¬ (r.dialogue = c.key ∧ inner.transfer = some r.transferId) →
      (r ∈ st'.incomingChunks ↔ r ∈ st.incomingChunks)) :
    FrameKept c inner seq st st' ↔ ∀ m ∈ st.messages, m ∈ st'.messages := by
  constructor
  · intro h m hm
    rcases h.messages m hm (hfree m hm) with h' | ⟨⟨bound, _, hb, _⟩, _⟩
    · exact h'
    · exact absurd hb (hr bound)
  · exact fun h => ⟨fun m hm _ => Or.inl (h m hm), hchunks⟩

/-- A receipt keeps the frame when the rows it selects are own messages up to its bound. -/
theorem frameKept_markReadUntil_iff {bound : Nat} (hc : inner.content = .readReceipt bound)
    (hfree : ∀ m ∈ st.messages, ¬ (m.dialogue = c.key ∧ m.serverSeq = some seq)) :
    FrameKept c inner seq st (st.markReadUntil c.key bound) ↔
      ∀ m ∈ st.messages, LocalStore.readUntil c.key bound m = true →
        m.sender = c.username ∧ ∃ n, m.serverSeq = some n ∧ n ≤ bound := by
  constructor
  · intro h m hm hsel
    rcases h.messages m hm (hfree m hm) with h' | ⟨⟨b, n, hb, _, hs, hn, hle⟩, _⟩
    · -- a selected row does not survive: its status was sent or delivered
      exfalso
      obtain ⟨r, hr, heq⟩ := LocalStore.mem_markReadUntil.mp h'
      have hid : r.id = m.id := by
        rw [heq]
        split <;> rfl
      obtain rfl : r = m := Table.eq_of_key hr hm hid
      rw [if_pos hsel] at heq
      have hst : r.status = .read := congrArg Message.status heq
      simp [LocalStore.readUntil, hst] at hsel
    · rw [hc] at hb
      cases hb
      exact ⟨hs, n, hn, hle⟩
  · intro h
    refine ⟨fun m hm _ => ?_, fun r _ => Iff.rfl⟩
    by_cases hsel : LocalStore.readUntil c.key bound m = true
    · obtain ⟨hs, n, hn, hle⟩ := h m hm hsel
      have hd : m.dialogue = c.key := by
        simp only [LocalStore.readUntil, Bool.and_eq_true, decide_eq_true_eq] at hsel
        exact hsel.1.1
      exact Or.inr ⟨⟨bound, n, hc, hd, hs, hn, hle⟩,
        LocalStore.mem_markReadUntil.mpr ⟨m, hm, (if_pos hsel).symm⟩⟩
    · exact Or.inl (LocalStore.mem_markReadUntil.mpr ⟨m, hm, (if_neg hsel).symm⟩)

/-- Buffering a chunk and trying to assemble its file touch no other buffer. -/
theorem mem_assemble_saveChunk_iff {limit : Nat} {row r : ChunkRow}
    (hr : ¬ (r.transferId = row.transferId ∧ r.dialogue = row.dialogue)) :
    r ∈ ((st.saveChunk row).tryAssembleChunks limit row.transferId row.dialogue).1.incomingChunks ↔
      r ∈ st.incomingChunks := by
  rw [LocalStore.mem_tryAssembleChunks_iff hr, LocalStore.mem_saveChunk]
  constructor
  · rintro (h | ⟨rfl, _⟩)
    · exact h
    · exact absurd ⟨rfl, rfl⟩ hr
  · exact Or.inl

/-- **The frame of incoming processing.** A packet leaves everything else as it was exactly
when its place is already taken or, on the branch its content selects, no other row stands in
the way of what it writes. -/
theorem frameKept_processIncoming_iff (c : Client κ) (now : Int) (st : LocalStore)
    (inner : PacketInner) (seq : Nat) :
    FrameKept c inner seq st (c.processIncoming now st inner seq).1 ↔ Keeps c now st inner seq := by
  unfold Client.processIncoming Keeps
  by_cases hat : ∃ m ∈ st.messages, m.dialogue = c.key ∧ m.serverSeq = some seq
  · rw [if_pos (LocalStore.getMessageBySeq_isSome.mpr hat)]
    exact iff_of_true ⟨fun m hm _ => Or.inl hm, fun r _ => Iff.rfl⟩ (Or.inl hat)
  · rw [if_neg (fun h => hat (LocalStore.getMessageBySeq_isSome.mp h)), or_iff_right hat]
    have hfree : ∀ m ∈ st.messages, ¬ (m.dialogue = c.key ∧ m.serverSeq = some seq) :=
      fun m hm h => hat ⟨m, hm, h⟩
    -- the branches that save a message, after touching at most their own chunk buffer
    have hsave : ∀ (st₁ : LocalStore) (msg : Message), st₁.messages = st.messages →
        msg.dialogue = c.key → msg.serverSeq = some seq →
        (∀ bound, inner.content ≠ .readReceipt bound) →
        (∀ r : ChunkRow, ¬ (r.dialogue = c.key ∧ inner.transfer = some r.transferId) →
          (r ∈ (st₁.saveMessage msg).incomingChunks ↔ r ∈ st.incomingChunks)) →
        (FrameKept c inner seq st (st₁.saveMessage msg) ↔ st.FreeId msg.id) := by
      intro st₁ msg hrows hd hs hr hch
      rw [frameKept_iff_of_rows hr hfree hch]
      exact saveMessage_keeps_iff hrows hd hs hfree
    have hbuffer : ∀ row : ChunkRow, row.dialogue = c.key →
        inner.transfer = some row.transferId → ∀ r : ChunkRow,
        ¬ (r.dialogue = c.key ∧ inner.transfer = some r.transferId) →
        (r ∈ ((st.saveChunk row).tryAssembleChunks c.allocLimit row.transferId
          row.dialogue).1.incomingChunks ↔ r ∈ st.incomingChunks) := by
      intro row hd ht r hr
      refine mem_assemble_saveChunk_iff (fun h => hr ⟨h.2.trans hd, ?_⟩)
      rw [ht, h.1]
    cases hc : inner.content with
    | readReceipt bound => exact frameKept_markReadUntil_iff hc hfree
    | delete target =>
        exact iff_of_true ⟨fun m hm _ => Or.inl hm, fun r _ => Iff.rfl⟩ trivial
    | fileHeader transferId kind filename mimeType totalSize chunks groupId =>
        dsimp only
        split
        · rename_i hov
          refine iff_of_true ⟨fun m hm _ => Or.inl hm, fun r _ => Iff.rfl⟩ (Or.inl ?_)
          unfold checkedAdd at hov
          split at hov
          · exact absurd hov (by simp)
          · omega
        · rename_i bodyToSeq hadd
          obtain ⟨hsum, hlt⟩ := checkedAdd_eq_some.mp hadd
          rw [hsave st _ rfl rfl rfl (by simp [hc]) (fun r _ => Iff.rfl), or_iff_right (by omega)]
          rfl
    | fileChunk transferId index total filename mimeType totalSize data =>
        dsimp only
        by_cases hrow : ∃ m ∈ st.messages, m.dialogue = c.key ∧ m.id = transferId
        · rw [if_pos (LocalStore.getMessageById_isSome.mpr hrow)]
          exact iff_of_true ⟨fun m hm _ => Or.inl hm, fun r _ => Iff.rfl⟩ (Or.inl hrow)
        · rw [if_neg (fun h => hrow (LocalStore.getMessageById_isSome.mp h)), or_iff_right hrow]
          have htr : inner.transfer = some transferId := by simp [PacketInner.transfer, hc]
          rcases c.bufferChunk_cases st seq
            (c.chunkRow now inner transferId index total filename mimeType totalSize data) with
            ⟨hn, hst⟩ | ⟨hy, file, _, hst⟩
          · refine iff_of_true ?_ (Or.inl hn)
            rw [hst]
            exact ⟨fun m hm _ => Or.inl (by simpa using hm), hbuffer _ rfl htr⟩
          · rw [hst, hy, or_iff_right (by simp)]
            exact hsave _ _ (by simp) rfl rfl (by simp [hc]) (hbuffer _ rfl htr)
    | _ => exact hsave st _ rfl rfl rfl (by simp [hc]) (fun r _ => Iff.rfl)

/-! ## A packet that takes over another dialogue's row -/

/-- Alice's client in her dialogue with Bob. -/
def aliceBob : Client Nat where
  username := "alice"
  key := ⟨"alice", "bob"⟩
  keyring := [⟨1, 7⟩]
  deriveTopicId _ name := name
  allocLimit := 1000
  reserveUrls := 0
  readFile _ := none

/-- A message Alice once got from Carol. -/
def fromCarol : Message where
  id := "m1"
  dialogue := ⟨"alice", "carol"⟩
  sender := "carol"
  content := .text "hello"
  timestamp := 0
  status := .delivered
  serverSeq := some 4
  topicId := none
  topicName := none

/-- Bob's text under the id of Carol's message. -/
def fromBob : PacketInner where
  id := "m1"
  timestamp := 0
  sender := "bob"
  content := .text "mine now"
  topicName := none

/-- Carol's message is gone once Bob's packet is processed. -/
theorem frame_lost_to_reused_id :
    ¬ FrameKept aliceBob fromBob 1 (LocalStore.empty.saveMessage fromCarol)
      (aliceBob.processIncoming 0 (LocalStore.empty.saveMessage fromCarol) fromBob 1).1 := by
  intro h
  rcases h.messages fromCarol (by decide) (by decide) with h' | ⟨_, h'⟩
  · revert h'
    decide
  · revert h'
    decide

end Paranoia
