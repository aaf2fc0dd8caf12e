import Paranoia.Proof.Allocation
import Paranoia.World
import Paranoia.Spec

/-!
# Sending after receiving

The cursor and the outgoing counter are one row, so what the other party pushes decides
which numbers are left to send at. Here is exactly how much room a packet at the top of
the dialogue leaves. The counter is a signed column: a packet just below the sign bit
exhausts it, one above the sign bit does not move it, and only a dialogue that lives above
the sign bit altogether goes on from there.
-/

namespace Paranoia

/-- Both ways of drawing a number succeed, and what they return is above every live packet. -/
def LocalStore.Sendable {π : Type} (st : LocalStore) (ps : PacketStore π) (key : DialogueKey)
    (count : Nat) : Prop :=
  (∃ first, (st.nextSendSeq key).2 = .ok first ∧ ∀ s ∈ ps.live key, s < first) ∧
  ∃ first, (st.reserveSendSeqRange key count).2 = .ok first ∧ ∀ s ∈ ps.live key, s < first

/-- The row leaves room for sending above a packet at `seq`: packet and counter below the sign
bit, with a number to spare, or both above it. -/
def Headroom (row : Option DialogueState) (seq count : Nat) : Prop :=
  match row with
  | none => seq + 2 < i64Size ∨ (i64Size ≤ seq ∧ seq + 1 + count < u64Size)
  | some ⟨_, .int next⟩ =>
      (seq + 2 < i64Size ∧ next + 1 < (i64Size : Nat)) ∨
        (i64Size ≤ seq ∧ seq + 1 + count < u64Size ∧ next + count < 0)
  | some ⟨_, .real⟩ => False

namespace Receive

variable {κ π : Type}

/-- What the coming step raises the cursor to. -/
def raises (r : Receive π) : Option Nat :=
  match r.point with
  | .skip batchEnd _ _ => some batchEnd
  | .advance target _ _ _ _ _ => some target
  | .bump => if r.cursor < r.lastSeqTotal then some r.lastSeqTotal else none
  | _ => none

theorem raises_store [Aead κ π] {c : Client κ} {now : Int} {st st' : LocalStore}
    {r : Receive π} {seq : Nat} {res : Except Fault (Receive π)} (hr : r.raises = some seq)
    (hs : r.localStep c now st = some (st', res)) : st' = st.setLastPulledSeq c.key seq := by
  unfold raises at hr
  unfold localStep at hs
  split at hr
  · rename_i hp
    rw [hp] at hs
    cases hr
    cases hs
    rfl
  · rename_i hp
    rw [hp] at hs
    cases hr
    cases hs
    rfl
  · rename_i hp
    rw [hp] at hs
    split at hr
    · rename_i hlt
      cases hr
      dsimp only at hs
      rw [if_pos hlt] at hs
      cases hs
      rfl
    · cases hr
  · cases hr

end Receive

section Counter

variable {π : Type} {st : LocalStore} {ps : PacketStore π} {key : DialogueKey} {seq count : Nat}

theorem toI64_of_ge {x : Nat} (h : i64Size ≤ x) (hu : x < u64Size) :
    toI64 x = (x : Int) - (u64Size : Nat) := by
  unfold toI64
  rw [Nat.mod_eq_of_lt hu, if_neg (by omega)]

/-- A row whose counter is a floating-point number sends no more. -/
theorem not_sendable_real {s : DialogueState} (hrow : st.dialogueState key = some s)
    (hnext : s.nextSendSeq = .real) : ¬ st.Sendable ps key count := by
  rintro ⟨⟨first, hfirst, _⟩, _⟩
  unfold LocalStore.nextSendSeq at hfirst
  rw [hrow] at hfirst
  dsimp only at hfirst
  rw [hnext] at hfirst
  cases hfirst

/-- Drawing one number succeeds as long as the counter can be raised. -/
theorem nextSendSeq_ok_iff {s : DialogueState} {next : Int} {first : Nat}
    (hrow : st.dialogueState key = some s) (hnext : s.nextSendSeq = .int next)
    (hge : -(i64Size : Int) ≤ next) :
    (st.nextSendSeq key).2 = .ok first ↔ next + 1 < (i64Size : Nat) ∧ first = toU64 next := by
  unfold LocalStore.nextSendSeq
  rw [hrow]
  dsimp only
  rw [hnext]
  unfold SqlInt.succ
  dsimp only
  split
  · rename_i hlt
    have hle : -(i64Size : Int) ≤ next + 1 - 1 := by omega
    simp only [SqlInt.readPred, if_pos hle, Except.map, Except.ok.injEq, hlt, true_and]
    rw [show next + 1 - 1 = next by omega]
    exact eq_comm
  · rename_i hlt
    simp [SqlInt.readPred, Except.map, hlt]

/-- A range is reserved as long as its end is a `u64`. -/
theorem reserveSendSeqRange_ok_iff {s : DialogueState} {next : Int} {first : Nat}
    (hrow : st.dialogueState key = some s) (hnext : s.nextSendSeq = .int next)
    (hcount : count ≠ 0) :
    (st.reserveSendSeqRange key count).2 = .ok first ↔
      toU64 next + count < u64Size ∧ first = toU64 next := by
  unfold LocalStore.reserveSendSeqRange
  rw [if_neg hcount, hrow]
  dsimp only [Option.getD_some]
  rw [hnext]
  dsimp only [SqlInt.read]
  unfold checkedAdd
  by_cases hlt : toU64 next + count < u64Size
  · rw [if_pos hlt]
    simp only [Except.ok.injEq, hlt, true_and]
    exact eq_comm
  · rw [if_neg hlt]
    simp [hlt]

/-- With the counter an integer, sending is possible when it can be raised and lies above the
greatest live packet. -/
theorem sendable_int_iff {s : DialogueState} {next : Int}
    (hrow : st.dialogueState key = some s) (hnext : s.nextSendSeq = .int next)
    (hge : -(i64Size : Int) ≤ next) (hcount : count ≠ 0)
    (hlive : seq ∈ ps.live key) (hmax : ∀ t ∈ ps.live key, t ≤ seq) :
    st.Sendable ps key count ↔
      next + 1 < (i64Size : Nat) ∧ toU64 next + count < u64Size ∧ seq < toU64 next := by
  unfold LocalStore.Sendable
  simp only [nextSendSeq_ok_iff hrow hnext hge, reserveSendSeqRange_ok_iff hrow hnext hcount]
  constructor
  · rintro ⟨⟨first, ⟨h1, rfl⟩, h3⟩, _, ⟨h2, rfl⟩, _⟩
    exact ⟨h1, h2, h3 seq hlive⟩
  · rintro ⟨h1, h2, h3⟩
    have habove : ∀ t ∈ ps.live key, t < toU64 next :=
      fun t ht => Nat.lt_of_le_of_lt (hmax t ht) h3
    exact ⟨⟨_, ⟨h1, rfl⟩, habove⟩, _, ⟨h2, rfl⟩, habove⟩

/-- The signed successor of a `u64`, unless it is the one just below the sign bit. -/
theorem succ_toI64 (hu : seq < u64Size) (hne : seq + 1 ≠ i64Size) :
    SqlInt.succ (.int (toI64 seq)) = .int (toI64 seq + 1) := by
  have hlt : toI64 seq + 1 < (i64Size : Nat) := by
    by_cases h : seq < i64Size
    · rw [toI64_of_lt h]
      omega
    · rw [toI64_of_ge (by omega) hu]
      simp only [i64Size, u64Size] at *
      omega
  simp only [SqlInt.succ, if_pos hlt]

/-- A packet just below the sign bit turns the counter into a floating-point number. -/
theorem succ_maxI64 : SqlInt.succ (.int (toI64 (i64Size - 1))) = .real := by decide

/-- **Room to send.** Once the cursor has been raised to the greatest live packet, both ways of
drawing a number work and lead above it exactly when the row left room. -/
theorem sendable_setLastPulledSeq_iff (hu : seq < u64Size) (hcount : 0 < count)
    (hsmall : count ≤ i64Size) (hlive : seq ∈ ps.live key) (hmax : ∀ t ∈ ps.live key, t ≤ seq) :
    (st.setLastPulledSeq key seq).Sendable ps key count ↔
      Headroom (st.dialogueState key) seq count := by
  have hrow : ∀ s', st.setLastPulledSeq key seq = st.putState key s' →
      (st.setLastPulledSeq key seq).dialogueState key = some s' := by
    intro s' h
    rw [h, LocalStore.putState_dialogueState_self]
  have hint : ∀ (s' : DialogueState) (next : Int), st.setLastPulledSeq key seq =
      st.putState key s' → s'.nextSendSeq = .int next → -(i64Size : Int) ≤ next →
      ((st.setLastPulledSeq key seq).Sendable ps key count ↔
        next + 1 < (i64Size : Nat) ∧ toU64 next + count < u64Size ∧ seq < toU64 next) :=
    fun s' next h hn hge =>
      sendable_int_iff (hrow s' h) hn hge (Nat.pos_iff_ne_zero.mp hcount) hlive hmax
  by_cases hne : seq + 1 = i64Size
  · -- the successor is out of range, whatever the row
    obtain rfl : seq = i64Size - 1 := by omega
    have hfull : ¬ Headroom (st.dialogueState key) (i64Size - 1) count := by
      unfold Headroom
      simp only [i64Size, u64Size] at *
      split
      · omega
      · omega
      · exact id
    refine iff_of_false ?_ hfull
    cases hd : st.dialogueState key with
    | none =>
        refine not_sendable_real (hrow ⟨toI64 (i64Size - 1), .real⟩ ?_) rfl
        unfold LocalStore.setLastPulledSeq
        rw [hd, ← succ_maxI64]
    | some s =>
        refine not_sendable_real
          (hrow ⟨max s.lastPulledSeq (toI64 (i64Size - 1)), .real⟩ ?_) rfl
        unfold LocalStore.setLastPulledSeq
        rw [hd]
        dsimp only
        rw [succ_maxI64]
        cases s.nextSendSeq <;> rfl
  · have hsucc := succ_toI64 hu hne
    have hcast : (seq < i64Size ∧ toI64 seq = seq) ∨
        (i64Size ≤ seq ∧ toI64 seq = (seq : Int) - (u64Size : Nat)) := by
      by_cases h : seq < i64Size
      · exact Or.inl ⟨h, toI64_of_lt h⟩
      · exact Or.inr ⟨by omega, toI64_of_ge (by omega) hu⟩
    cases hd : st.dialogueState key with
    | none =>
        rw [hint ⟨toI64 seq, .int (toI64 seq + 1)⟩ (toI64 seq + 1) ?_ rfl ?_]
        · unfold Headroom toU64
          simp only [i64Size, u64Size] at *
          omega
        · unfold LocalStore.setLastPulledSeq
          rw [hd, ← hsucc]
        · simp only [i64Size, u64Size] at *
          omega
    | some s =>
        obtain ⟨lastPulled, next⟩ := s
        cases next with
        | int v =>
            rw [hint ⟨max lastPulled (toI64 seq), .int (max v (toI64 seq + 1))⟩
              (max v (toI64 seq + 1)) ?_ rfl ?_]
            · unfold Headroom toU64
              simp only [i64Size, u64Size] at *
              omega
            · unfold LocalStore.setLastPulledSeq
              rw [hd]
              dsimp only
              rw [hsucc]
              rfl
            · simp only [i64Size, u64Size] at *
              omega
        | real =>
            refine iff_of_false ?_ id
            refine not_sendable_real (hrow ⟨max lastPulled (toI64 seq), .real⟩ ?_) rfl
            unfold LocalStore.setLastPulledSeq
            rw [hd]
            dsimp only
            rw [hsucc]
            rfl

end Counter

/-- **Sending after receiving.** The step of `receive` that raises the cursor to the greatest
live packet leaves a database the device can send from exactly when there was room. -/
theorem sendable_received_iff {κ π : Type} [Aead κ π] {c : Client κ} {now : Int}
    {st st' : LocalStore} {r : Receive π} {res : Except Fault (Receive π)} {ps : PacketStore π}
    {seq count : Nat} (hraises : r.raises = some seq)
    (hstep : r.localStep c now st = some (st', res)) (hu : seq < u64Size) (hcount : 0 < count)
    (hsmall : count ≤ i64Size) (hlive : seq ∈ ps.live c.key)
    (hmax : ∀ t ∈ ps.live c.key, t ≤ seq) :
    st'.Sendable ps c.key count ↔ Headroom (st.dialogueState c.key) seq count := by
  rw [r.raises_store hraises hstep]
  exact sendable_setLastPulledSeq_iff hu hcount hsmall hlive hmax

/-- A `receive` that has just processed the packet at `3`. -/
def atThree : Receive Sealed :=
  { (Receive.start : Receive Sealed) with point := .advance 3 none [] 3 3 [] }

/-- Packets at `1` and `3`. -/
def oneAndThree : PacketStore Sealed :=
  (PacketStore.empty.put ⟨"alice", "bob"⟩ 1 ⟨7, 0, ⟨"m1", 0, "alice", .text "m1", none⟩⟩).put
    ⟨"alice", "bob"⟩ 3 ⟨7, 0, ⟨"m3", 0, "alice", .text "m3", none⟩⟩

theorem sendable_received_three :
    (LocalStore.empty.setLastPulledSeq ⟨"alice", "bob"⟩ 3).Sendable oneAndThree
      ⟨"alice", "bob"⟩ 2 ↔ Headroom none 3 2 :=
  sendable_received_iff (show atThree.raises = some 3 from rfl)
    (show atThree.localStep (Sample.client "bob") 0 LocalStore.empty = some (_, _) from rfl)
    (by decide) (by decide) (by decide) (by decide) (by decide)

namespace World

/-- Alice pushes by hand at the greatest `i64`, and Bob receives it. -/
def topped : List (Label Sealed 3) :=
  [.raw ⟨"alice", "bob", 2 ^ 63 - 1, ⟨7, 0, ⟨"m1", 0, "alice", .text "m1", none⟩⟩, "alice"⟩,
    .start 1 .receive, .scan 0, .lastSeq 0] ++ Sample.steps 0 1 ++ [.pull 0] ++ Sample.steps 0 5

/-- Bob has received all there is, and cannot send any more. -/
theorem unsendable_after_greatest_i64 :
    ¬ ∀ (w : World Sealed 3) (d : Fin 3), Lts.Reach (step Sample.setup)
      (fun _ l => l.isRelay = false) (init Sample.setup) w → w.receiving d = [] →
      (∀ s ∈ w.server.store.live Sample.setup.key, s ∈ (w.pulled d).map RawPacket.seq) →
      (w.store d).Sendable w.server.store Sample.setup.key 1 := by
  intro h
  have hrun : (Lts.execWhile (step Sample.setup) (fun _ l => l.isRelay = false)
      (init Sample.setup) topped).isSome = true := by decide
  obtain ⟨⟨first, hfirst, _⟩, _⟩ := h _ 1 (Lts.reach_getD hrun) (by decide) (by decide)
  have hfail : (((Lts.execWhile (step Sample.setup) (fun _ l => l.isRelay = false)
      (init Sample.setup) topped).getD (init Sample.setup)).store 1).nextSendSeq
        Sample.setup.key |>.2.isOk = false := by decide
  rw [hfirst] at hfail
  exact Bool.noConfusion hfail

end World

end Paranoia
