import Paranoia.Lib.Lts
import Paranoia.Client.LocalStore

/-!
# Allocation of sequence numbers

Two ways of drawing outgoing numbers and the cursor of `receive` share one row of
`dialogue_state`. Any order of the three is a run of the system below, whose ghost
`issued` remembers every range that was handed out, oldest first, with the cursor
at that moment. One number, the outgoing counter, separates the past from the
future: everything issued lies below it, the cursor lies below it, and every call
either hands out the numbers from it on or leaves it at least where it was.
-/

namespace Paranoia

namespace SqlInt

/-- The expression is an integer below `bound`. -/
def Below (e : SqlInt) (bound : Nat) : Prop :=
  match e with
  | int v => v < bound
  | real => False

instance (e : SqlInt) (bound : Nat) : Decidable (e.Below bound) :=
  match e with
  | int v => inferInstanceAs (Decidable (v < bound))
  | real => inferInstanceAs (Decidable False)

/-- Both expressions are integers, in this order. -/
def Le (e f : SqlInt) : Prop :=
  match e, f with
  | int v, int w => v ≤ w
  | _, _ => False

end SqlInt

/-- Neither counter is greater in the first row. -/
def DialogueState.Le (s s' : DialogueState) : Prop :=
  s.lastPulledSeq ≤ s'.lastPulledSeq ∧ s.nextSendSeq.Le s'.nextSendSeq

namespace LocalStore

variable {st : LocalStore} {dialogue : DialogueKey}

/-- The two counters of a dialogue; those of a dialogue without a row are the ones its row
would be created with. -/
def counters (st : LocalStore) (dialogue : DialogueKey) : DialogueState :=
  (st.dialogueState dialogue).getD ⟨0, .int 1⟩

@[simp] theorem counters_putState_self (s : DialogueState) :
    (st.putState dialogue s).counters dialogue = s := by
  simp [counters]

theorem counters_congr {st' : LocalStore}
    (h : st'.dialogueState dialogue = st.dialogueState dialogue) :
    st'.counters dialogue = st.counters dialogue := by
  unfold counters
  rw [h]

theorem getLastPulledSeq_eq (st : LocalStore) (dialogue : DialogueKey) :
    st.getLastPulledSeq dialogue = toU64 (st.counters dialogue).lastPulledSeq := by
  unfold getLastPulledSeq counters
  cases st.dialogueState dialogue <;> rfl

/-- Below the end of the range `nextSendSeq` hands out the counter itself. -/
theorem nextSendSeq_eq {n : Int} (hn : (st.counters dialogue).nextSendSeq = .int n)
    (hpos : 0 ≤ n) (hlt : n + 1 < (i64Size : Nat)) :
    st.nextSendSeq dialogue =
      (st.putState dialogue ⟨(st.counters dialogue).lastPulledSeq, .int (n + 1)⟩,
        .ok n.toNat) := by
  have hsucc : SqlInt.succ (.int n) = .int (n + 1) := if_pos hlt
  have hu : toU64 n = n.toNat := by
    unfold toU64
    rw [Int.emod_eq_of_lt hpos (by simp only [i64Size, u64Size] at *; omega)]
  have hread : SqlInt.readPred (.int (n + 1)) = .ok n := by
    have hge : -(i64Size : Int) ≤ n + 1 - 1 := by
      simp only [i64Size]
      omega
    simp only [SqlInt.readPred, if_pos hge]
    congr 1
    omega
  unfold nextSendSeq counters at *
  cases hd : st.dialogueState dialogue with
  | none =>
      rw [hd] at hn
      cases hn
      rfl
  | some s =>
      rw [hd] at hn
      dsimp only [Option.getD_some] at hn ⊢
      rw [hn, hsucc, hread, ← hu]
      rfl

/-- A reserved range starts at the counter, which moves to its end. -/
theorem reserveSendSeqRange_eq {n : Int} {count : Nat}
    (hn : (st.counters dialogue).nextSendSeq = .int n) (hpos : 0 ≤ n) (hcount : count ≠ 0)
    (hlt : n + count < (i64Size : Nat)) :
    st.reserveSendSeqRange dialogue count =
      (st.putState dialogue ⟨(st.counters dialogue).lastPulledSeq, .int (n + count)⟩,
        .ok n.toNat) := by
  have hu : toU64 n = n.toNat := by
    unfold toU64
    rw [Int.emod_eq_of_lt hpos (by simp only [i64Size, u64Size] at *; omega)]
  have hadd : checkedAdd n.toNat count = some (n.toNat + count) :=
    checkedAdd_eq_some.mpr ⟨rfl, by simp only [i64Size, u64Size] at *; omega⟩
  have hend : toI64 (n.toNat + count) = n + count := by
    rw [toI64_of_lt (by simp only [i64Size] at *; omega)]
    omega
  unfold counters at hn
  unfold reserveSendSeqRange counters
  rw [if_neg hcount]
  dsimp only
  rw [hn]
  dsimp only [SqlInt.read]
  rw [hu, hadd]
  dsimp only
  rw [putState_putState, hend]

/-- Below the sign bit the cursor takes the greater number, and the outgoing counter at
least the number after it. -/
theorem setLastPulledSeq_eq {n : Int} {seq : Nat}
    (hn : (st.counters dialogue).nextSendSeq = .int n)
    (hpos : 1 ≤ n)
    (hlt : seq + 1 < i64Size) :
    ∃ l' n' : Int,
      st.setLastPulledSeq dialogue seq = st.putState dialogue ⟨l', .int n'⟩ ∧
      (st.counters dialogue).lastPulledSeq ≤ l' ∧ n ≤ n' ∧
      (l' = (st.counters dialogue).lastPulledSeq ∨ l' < n') := by
  have hseq : toI64 seq = seq := toI64_of_lt (by omega)
  have hsucc : SqlInt.succ (.int (seq : Int)) = .int (seq + 1) := by
    have hlt' : (seq : Int) + 1 < (i64Size : Nat) := by omega
    simp only [SqlInt.succ, if_pos hlt']
  unfold setLastPulledSeq
  unfold counters at *
  cases hd : st.dialogueState dialogue with
  | none =>
      rw [hd] at hn
      cases hn
      refine ⟨seq, seq + 1, ?_, by simp, by omega, Or.inr (by omega)⟩
      dsimp only
      rw [hseq, hsucc]
  | some s =>
      rw [hd] at hn
      dsimp only [Option.getD_some] at hn ⊢
      refine ⟨max s.lastPulledSeq seq, max n (seq + 1), ?_, le_max_left _ _, le_max_left _ _, ?_⟩
      · rw [hseq, hsucc, hn]
        rfl
      · omega

end LocalStore

/-! ## Runs of calls -/

/-- A call of the store that touches the counters. -/
inductive SeqCall where
  | nextSendSeq (dialogue : DialogueKey)
  | reserveSendSeqRange (dialogue : DialogueKey) (count : Nat)
  | setLastPulledSeq (dialogue : DialogueKey) (seq : Nat)
deriving DecidableEq

def SeqCall.dialogue : SeqCall → DialogueKey
  | .nextSendSeq dialogue => dialogue
  | .reserveSendSeqRange dialogue _ => dialogue
  | .setLastPulledSeq dialogue _ => dialogue

/-- The number a call is made with. -/
def SeqCall.argument : SeqCall → Nat
  | .nextSendSeq _ => 1
  | .reserveSendSeqRange _ count => count
  | .setLastPulledSeq _ seq => seq

/-- Numbers handed out, with the cursor at that moment. -/
structure IssuedRange where
  dialogue : DialogueKey
  first : Nat
  count : Nat
  lastPulled : Nat
deriving DecidableEq

structure SeqState where
  store : LocalStore
  issued : List IssuedRange

namespace SeqState

def init : SeqState := ⟨LocalStore.empty, []⟩

/-- Remember the range a call handed out. -/
def hand (s : SeqState) (dialogue : DialogueKey) (count : Nat)
    (out : LocalStore × Except Fault Nat) : SeqState where
  store := out.1
  issued :=
    match out.2 with
    | .ok first => s.issued ++ [⟨dialogue, first, count, s.store.getLastPulledSeq dialogue⟩]
    | .error _ => s.issued

def step (s : SeqState) : SeqCall → Option SeqState
  | .nextSendSeq dialogue => some (s.hand dialogue 1 (s.store.nextSendSeq dialogue))
  | .reserveSendSeqRange dialogue count =>
      some (s.hand dialogue count (s.store.reserveSendSeqRange dialogue count))
  | .setLastPulledSeq dialogue seq =>
      some { s with store := s.store.setLastPulledSeq dialogue seq }

/-- The number a call is made with and the counters it finds are below `2 ^ 62`. -/
def Small (s : SeqState) (call : SeqCall) : Prop :=
  call.argument < 2 ^ 62 ∧
    (s.store.counters call.dialogue).lastPulledSeq < (2 ^ 62 : Nat) ∧
    (s.store.counters call.dialogue).nextSendSeq.Below (2 ^ 62)

instance (s : SeqState) (call : SeqCall) : Decidable (s.Small call) :=
  inferInstanceAs (Decidable (_ ∧ _ ∧ _))

/-- In every dialogue, each number issued is greater than all issued before it. -/
def Increasing (s : SeqState) : Prop :=
  s.issued.Pairwise (fun i j => i.dialogue = j.dialogue → i.first + i.count ≤ j.first)

/-- Ranges are proper and lie above the cursor they were issued at. -/
def AboveCursor (s : SeqState) : Prop := ∀ i ∈ s.issued, 0 < i.count ∧ i.lastPulled < i.first

/-- The outgoing counter is past the cursor and past everything issued. -/
def Counting (s : SeqState) (dialogue : DialogueKey) : Prop :=
  ∃ n : Int, (s.store.counters dialogue).nextSendSeq = .int n ∧
    0 ≤ (s.store.counters dialogue).lastPulledSeq ∧
    (s.store.counters dialogue).lastPulledSeq < n ∧
    ∀ i ∈ s.issued, i.dialogue = dialogue → ((i.first + i.count : Nat) : Int) ≤ n

/-- What every run keeps. -/
structure Allocating (s : SeqState) : Prop where
  counting : ∀ dialogue, s.Counting dialogue
  increasing : s.Increasing
  above : s.AboveCursor

theorem allocating_init : Allocating init where
  counting _ := ⟨1, rfl, le_refl _, Int.zero_lt_one, fun _ hi => absurd hi List.not_mem_nil⟩
  increasing := List.Pairwise.nil
  above _ hi := absurd hi List.not_mem_nil

variable {s s' : SeqState} {call : SeqCall} {dialogue : DialogueKey}

/-- A call touches the row of its own dialogue only, and what it issues is its own. -/
theorem step_other (hs : s.step call = some s') (hd : call.dialogue ≠ dialogue) :
    s'.store.dialogueState dialogue = s.store.dialogueState dialogue ∧
      ∀ i ∈ s'.issued, i.dialogue = dialogue → i ∈ s.issued := by
  have hhand : ∀ (count : Nat) (out : LocalStore × Except Fault Nat),
      out.1.dialogueState dialogue = s.store.dialogueState dialogue →
      (s.hand call.dialogue count out).store.dialogueState dialogue =
        s.store.dialogueState dialogue ∧
      ∀ i ∈ (s.hand call.dialogue count out).issued, i.dialogue = dialogue → i ∈ s.issued := by
    intro count out hout
    refine ⟨hout, fun i hi hid => ?_⟩
    unfold hand at hi
    dsimp only at hi
    split at hi
    · rcases List.mem_append.mp hi with hi | hi
      · exact hi
      · rw [List.mem_singleton.mp hi] at hid
        exact absurd hid hd
    · exact hi
  cases call with
  | nextSendSeq d =>
      cases hs
      exact hhand 1 _ (LocalStore.putState_dialogueState_of_ne _ (Ne.symm hd))
  | reserveSendSeqRange d count =>
      cases hs
      refine hhand count _ ?_
      rcases LocalStore.reserveSendSeqRange_store s.store d count with h | ⟨row, h, _⟩
      · rw [h]
      · rw [h]
        exact LocalStore.putState_dialogueState_of_ne _ (Ne.symm hd)
  | setLastPulledSeq d seq =>
      cases hs
      exact ⟨LocalStore.putState_dialogueState_of_ne _ (Ne.symm hd), fun i hi _ => hi⟩

/-- A range starting at the counter keeps the order. -/
theorem Allocating.hand (h : s.Allocating) {n : Int} {count : Nat} (hcount : 0 < count)
    (hn : (s.store.counters dialogue).nextSendSeq = .int n) (hpos : 0 ≤ n)
    {out : LocalStore × Except Fault Nat}
    (hout : out = (s.store.putState dialogue
      ⟨(s.store.counters dialogue).lastPulledSeq, .int (n + count)⟩, .ok n.toNat)) :
    (s.hand dialogue count out).Increasing ∧ (s.hand dialogue count out).AboveCursor ∧
      (s.hand dialogue count out).Counting dialogue ∧
      (s.store.counters dialogue).Le ((s.hand dialogue count out).store.counters dialogue) := by
  obtain ⟨n', hn', hl, hlt, hpast⟩ := h.counting dialogue
  have hnn : n' = n := by
    rw [hn] at hn'
    cases hn'
    rfl
  subst hnn
  have hcursor : s.store.getLastPulledSeq dialogue < n'.toNat := by
    have hle := toU64_le hl
    rw [LocalStore.getLastPulledSeq_eq]
    omega
  subst hout
  refine ⟨List.pairwise_append.mpr ⟨h.increasing, List.pairwise_singleton _ _, ?_⟩, ?_, ?_, ?_⟩
  · intro i hi j hj hij
    rw [List.mem_singleton.mp hj] at hij ⊢
    have := hpast i hi hij
    dsimp only
    omega
  · intro i hi
    rcases List.mem_append.mp hi with hi | hi
    · exact h.above i hi
    · rw [List.mem_singleton.mp hi]
      exact ⟨hcount, hcursor⟩
  · refine ⟨n' + count, ?_, ?_, ?_, ?_⟩
    · simp [SeqState.hand]
    · simpa [SeqState.hand] using hl
    · simp only [SeqState.hand, LocalStore.counters_putState_self]
      omega
    · intro i hi hid
      rcases List.mem_append.mp hi with hi | hi
      · have := hpast i hi hid
        omega
      · rw [List.mem_singleton.mp hi]
        dsimp only
        omega
  · rw [SeqState.hand, LocalStore.counters_putState_self]
    refine ⟨le_refl _, ?_⟩
    rw [hn]
    show n' ≤ n' + count
    omega

/-- What the call of a dialogue does to its row and to the order. -/
theorem Allocating.own (h : s.Allocating) (hok : s.Small call) (hs : s.step call = some s') :
    s'.Increasing ∧ s'.AboveCursor ∧ s'.Counting call.dialogue ∧
      (s.store.counters call.dialogue).Le (s'.store.counters call.dialogue) := by
  obtain ⟨n, hn, hl, hlt, hpast⟩ := h.counting call.dialogue
  obtain ⟨harg, _, hbelow⟩ := hok
  have hsmall : n < (2 ^ 62 : Nat) := by
    rw [hn] at hbelow
    exact hbelow
  cases call with
  | nextSendSeq d =>
      simp only [SeqCall.dialogue] at hn hl hlt
      have hout := LocalStore.nextSendSeq_eq hn (by omega) (by simp only [i64Size]; omega)
      cases hs
      exact h.hand Nat.one_pos hn (by omega) hout
  | reserveSendSeqRange d count =>
      simp only [SeqCall.dialogue, SeqCall.argument] at hn hl hlt harg
      by_cases hzero : count = 0
      · -- an empty range is refused before the database is touched
        subst hzero
        cases hs
        refine ⟨h.increasing, h.above, h.counting d, le_refl _, ?_⟩
        show (s.store.counters d).nextSendSeq.Le (s.store.counters d).nextSendSeq
        rw [hn]
        exact le_refl n
      · have hout := LocalStore.reserveSendSeqRange_eq hn (by omega) hzero
          (by simp only [i64Size]; omega)
        cases hs
        exact h.hand (by omega) hn (by omega) hout
  | setLastPulledSeq d seq =>
      simp only [SeqCall.dialogue, SeqCall.argument] at hn hl hlt harg hpast
      have hroom : seq + 1 < i64Size := by
        simp only [i64Size]
        omega
      obtain ⟨l', n', hset, hl', hn', hor⟩ := LocalStore.setLastPulledSeq_eq hn (by omega) hroom
      have hrow : (s.store.setLastPulledSeq d seq).counters d = ⟨l', .int n'⟩ := by
        rw [hset, LocalStore.counters_putState_self]
      cases hs
      refine ⟨h.increasing, h.above, ⟨n', ?_, ?_, ?_, ?_⟩, ?_, ?_⟩
      · exact congrArg DialogueState.nextSendSeq hrow
      · show 0 ≤ ((s.store.setLastPulledSeq d seq).counters d).lastPulledSeq
        rw [hrow]
        show 0 ≤ l'
        omega
      · show ((s.store.setLastPulledSeq d seq).counters d).lastPulledSeq < n'
        rw [hrow]
        show l' < n'
        omega
      · intro i hi hid
        have := hpast i hi hid
        omega
      · show (s.store.counters d).lastPulledSeq ≤
          ((s.store.setLastPulledSeq d seq).counters d).lastPulledSeq
        rw [hrow]
        exact hl'
      · show (s.store.counters d).nextSendSeq.Le
          ((s.store.setLastPulledSeq d seq).counters d).nextSendSeq
        rw [hrow, hn]
        exact hn'

/-- **The order of allocation is preserved by every small call.** -/
theorem allocating_step (h : s.Allocating) (hok : s.Small call) (hs : s.step call = some s') :
    s'.Allocating := by
  obtain ⟨hinc, habove, hcount, _⟩ := h.own hok hs
  refine ⟨fun dialogue => ?_, hinc, habove⟩
  by_cases hd : call.dialogue = dialogue
  · exact hd ▸ hcount
  · obtain ⟨hrow, hissued⟩ := step_other hs hd
    obtain ⟨n, hn, hl, hlt, hpast⟩ := h.counting dialogue
    have hcounters := LocalStore.counters_congr hrow
    refine ⟨n, hcounters ▸ hn, hcounters ▸ hl, hcounters ▸ hlt, fun i hi hid => ?_⟩
    exact hpast i (hissued i hi hid) hid

/-- No small call lowers a counter of any dialogue. -/
theorem counters_step (h : s.Allocating) (hok : s.Small call) (hs : s.step call = some s')
    (dialogue : DialogueKey) :
    (s.store.counters dialogue).Le (s'.store.counters dialogue) := by
  by_cases hd : call.dialogue = dialogue
  · exact hd ▸ (h.own hok hs).2.2.2
  · obtain ⟨n, hn, _⟩ := h.counting dialogue
    rw [LocalStore.counters_congr (step_other hs hd).1]
    refine ⟨le_refl _, ?_⟩
    rw [hn]
    exact le_refl n

theorem allocating_reachable (hr : Lts.Reach step Small init s) : s.Allocating :=
  hr.invariant allocating_init (fun _ _ _ _ h hok hs => allocating_step h hok hs)

/-- Counters only grow along a run, from wherever it is looked at. -/
theorem counters_run (h : s.Allocating) (hr : Lts.Reach step Small s s')
    (dialogue : DialogueKey) :
    s'.Allocating ∧ (s.store.counters dialogue).Le (s'.store.counters dialogue) := by
  refine hr.invariant (P := fun s' => s'.Allocating ∧
    (s.store.counters dialogue).Le (s'.store.counters dialogue)) ⟨h, le_refl _, ?_⟩ ?_
  · obtain ⟨n, hn, _⟩ := h.counting dialogue
    rw [hn]
    exact le_refl n
  · intro s₁ call s₂ _ ⟨h₁, hle⟩ hok hs
    obtain ⟨n, hn, _⟩ := h.counting dialogue
    obtain ⟨n₁, hn₁, _⟩ := h₁.counting dialogue
    obtain ⟨n₂, hn₂, _⟩ := (allocating_step h₁ hok hs).counting dialogue
    have hle₁ := counters_step h₁ hok hs dialogue
    refine ⟨allocating_step h₁ hok hs, le_trans hle.1 hle₁.1, ?_⟩
    have ha := hle.2
    have hb := hle₁.2
    rw [hn, hn₁] at ha
    rw [hn₁, hn₂] at hb
    rw [hn, hn₂]
    exact le_trans (a := n) (b := n₁) ha hb

/-- Calls for other dialogues leave the row of this one alone. -/
theorem row_run (hr : Lts.Reach step (fun _ call => call.dialogue ≠ dialogue) s s') :
    s'.store.dialogueState dialogue = s.store.dialogueState dialogue :=
  hr.invariant (P := fun s' => s'.store.dialogueState dialogue = s.store.dialogueState dialogue)
    rfl (fun _ _ _ _ h hok hs => (step_other hs hok).1.trans h)

/-- **Order of allocation.** Whatever the order of the calls, numbers of a dialogue are
issued in increasing order and above the cursor, no later call lowers a counter, and
calls for other dialogues change nothing. -/
theorem allocation_reachable (hr : Lts.Reach step Small init s) :
    s.Increasing ∧ s.AboveCursor ∧
    (∀ s' dialogue, Lts.Reach step Small s s' →
      (s.store.counters dialogue).Le (s'.store.counters dialogue)) ∧
    (∀ s' dialogue, Lts.Reach step (fun _ call => call.dialogue ≠ dialogue) s s' →
      s'.store.dialogueState dialogue = s.store.dialogueState dialogue) := by
  have h := allocating_reachable hr
  exact ⟨h.increasing, h.above, fun _ dialogue hr' => (counters_run h hr' dialogue).2,
    fun _ _ hr' => row_run hr'⟩

/-- Both ways of drawing numbers, in two dialogues, around a `receive`. -/
def drawn : List SeqCall :=
  [.nextSendSeq ⟨"alice", "bob"⟩, .setLastPulledSeq ⟨"alice", "bob"⟩ 5,
    .reserveSendSeqRange ⟨"alice", "bob"⟩ 3, .nextSendSeq ⟨"alice", "carol"⟩,
    .nextSendSeq ⟨"alice", "bob"⟩]

theorem allocation_drawn :
    (Lts.execWhile step Small init drawn).isSome = true ∧
    (((Lts.execWhile step Small init drawn).getD init).issued.map IssuedRange.first = [1, 6, 1, 9])
    ∧ ((Lts.execWhile step Small init drawn).getD init).Increasing :=
  ⟨by decide, by decide, (allocation_reachable (Lts.reach_getD (by decide))).1⟩

end SeqState

end Paranoia
