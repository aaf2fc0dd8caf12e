import Paranoia.Lib.Lts
import Paranoia.Lib.Table
import Paranoia.Server.Receipts

/-!
# Concurrent receipt updates

Both operations on a receipt record read it, change one field and write all of it back,
and no lock is held in between. The handlers of `/pull` and `/push` call one of them, that
of `/arrived` the other, and any number of handlers run at once. A step of the system
below is one read or one write; the last step of a call is its write, after which its
request is acknowledged.

`log` is a ghost. It remembers the updates that completed with receipts enabled and the
acknowledged changes of the flag, in the order they completed.
-/

namespace Paranoia

inductive ReceiptOp where
  | updateLastSeq (pulledSeq : Nat)
  | setReceiptsEnabled (receiptsEnabled : Bool)
deriving DecidableEq

namespace ReceiptOp

/-- What the operation writes over the record it has read. -/
def write (op : ReceiptOp) (read : ReceiptState) (now : Nat) : Option ReceiptState :=
  match op with
  | updateLastSeq pulledSeq => read.raised pulledSeq now
  | setReceiptsEnabled receiptsEnabled => some (read.switched receiptsEnabled now)

/-- The flag the operation sets. -/
def flag : ReceiptOp → Option Bool
  | updateLastSeq _ => none
  | setReceiptsEnabled receiptsEnabled => some receiptsEnabled

/-- What was read still holds where the operation relies on it: an update has seen the flag
as it is stored, and nobody has raised the position above what is written back. -/
def Current (op : ReceiptOp) (read stored : ReceiptState) : Prop :=
  match op with
  | updateLastSeq pulledSeq =>
      read.receiptsEnabled = stored.receiptsEnabled ∧
        (read.receiptsEnabled = true → stored.lastSeq ≤ max read.lastSeq pulledSeq)
  | setReceiptsEnabled _ => stored.lastSeq ≤ read.lastSeq

instance (op : ReceiptOp) (read stored : ReceiptState) : Decidable (op.Current read stored) :=
  match op with
  | updateLastSeq _ => inferInstanceAs (Decidable (_ ∧ (_ → _)))
  | setReceiptsEnabled _ => inferInstanceAs (Decidable (_ ≤ _))

end ReceiptOp

/-- A running call; `read` is the record as it found it. -/
structure ReceiptCall where
  id : Nat
  username : String
  dialogue : DialogueKey
  op : ReceiptOp
  read : Option ReceiptState
deriving DecidableEq

inductive ReceiptEvent where
  | raised (username : String) (dialogue : DialogueKey) (seq : Nat)
  | switched (username : String) (dialogue : DialogueKey) (receiptsEnabled : Bool)
deriving DecidableEq

inductive ReceiptLabel where
  | call (username : String) (dialogue : DialogueKey) (op : ReceiptOp)
  | read (id : Nat)
  | write (id now : Nat)
deriving DecidableEq

structure ReceiptWorld where
  db : ReceiptDb
  calls : Table ReceiptCall ReceiptCall.id
  nextCall : Nat
  log : List ReceiptEvent

namespace ReceiptWorld

def init : ReceiptWorld := ⟨ReceiptDb.empty, Table.empty, 0, []⟩

def find (w : ReceiptWorld) (id : Nat) : Option ReceiptCall := w.calls.find? (fun c => c.id = id)

/-- What completing an operation is remembered as; `stored` is the record it leaves. -/
def event (call : ReceiptCall) (stored : ReceiptState) : List ReceiptEvent :=
  match call.op with
  | .updateLastSeq pulledSeq =>
      if stored.receiptsEnabled then [.raised call.username call.dialogue pulledSeq] else []
  | .setReceiptsEnabled receiptsEnabled =>
      [.switched call.username call.dialogue receiptsEnabled]

/-- The call writes and ends; `read` is what it goes by. -/
def finish (w : ReceiptWorld) (call : ReceiptCall) (read : ReceiptState) (now : Nat) :
    ReceiptWorld :=
  let db :=
    match call.op.write read now with
    | none => w.db
    | some state => w.db.writeReceiptState call.username call.dialogue state
  { w with
    db := db
    calls := w.calls.deleteWhere (fun c => c.id = call.id)
    log := w.log ++ event call (db.receiptState call.username call.dialogue) }

def step (w : ReceiptWorld) : ReceiptLabel → Option ReceiptWorld
  | .call username dialogue op =>
      some { w with
        calls := w.calls.insertOrReplace ⟨w.nextCall, username, dialogue, op, none⟩
        nextCall := w.nextCall + 1 }
  | .read id =>
      match w.find id with
      | some ⟨id, username, dialogue, op, none⟩ =>
          some { w with
            calls := w.calls.insertOrReplace
              ⟨id, username, dialogue, op, some (w.db.receiptState username dialogue)⟩ }
      | _ => none
  | .write id now =>
      match w.find id with
      | some ⟨id, username, dialogue, op, some read⟩ =>
          some (w.finish ⟨id, username, dialogue, op, some read⟩ read now)
      | _ => none

/-- The write, if this is one, goes by a record that is still current. -/
def Undisturbed (w : ReceiptWorld) : ReceiptLabel → Prop
  | .write id _ =>
      match w.find id with
      | some ⟨_, username, dialogue, op, some read⟩ =>
          op.Current read (w.db.receiptState username dialogue)
      | _ => True
  | _ => True

instance (w : ReceiptWorld) (l : ReceiptLabel) : Decidable (w.Undisturbed l) := by
  unfold Undisturbed
  split
  · split <;> infer_instance
  · infer_instance

/-- The flag of the last acknowledged change. -/
def lastFlag (w : ReceiptWorld) (username : String) (dialogue : DialogueKey) : Option Bool :=
  (w.log.filterMap (fun
    | .switched u k flag => if u = username ∧ k = dialogue then some flag else none
    | .raised .. => none)).getLast?

/-- Nothing acknowledged is lost: the position reaches every completed update, and the flag is
the one last asked for, or was never changed. -/
def Kept (w : ReceiptWorld) (username : String) (dialogue : DialogueKey) : Prop :=
  (∀ seq, .raised username dialogue seq ∈ w.log →
    seq ≤ (w.db.receiptState username dialogue).lastSeq) ∧
  (w.db.receiptState username dialogue).receiptsEnabled =
    (w.lastFlag username dialogue).getD ReceiptState.default.receiptsEnabled

end ReceiptWorld

/-! ## One write -/

/-- A write that goes by a current record loses nothing. -/
theorem ReceiptOp.write_current {op : ReceiptOp} {read stored : ReceiptState} (now : Nat)
    (h : op.Current read stored) :
    stored.lastSeq ≤ ((op.write read now).getD stored).lastSeq ∧
    ((op.write read now).getD stored).receiptsEnabled = op.flag.getD stored.receiptsEnabled ∧
    ∀ seq, op = .updateLastSeq seq → stored.receiptsEnabled = true →
      seq ≤ ((op.write read now).getD stored).lastSeq := by
  cases op with
  | updateLastSeq pulledSeq =>
      obtain ⟨hflag, hle⟩ := h
      unfold ReceiptOp.write ReceiptState.raised
      by_cases he : read.receiptsEnabled = true
      · have hlast := hle he
        simp only [he, Bool.not_true, Bool.false_eq_true, ↓reduceIte, Option.getD_some,
          ReceiptOp.flag, Option.getD_none]
        refine ⟨hlast, he.symm.trans hflag, ?_⟩
        rintro seq hseq -
        cases hseq
        exact Nat.le_max_right _ _
      · -- the account has opted out: the record stays as it is
        have he' : read.receiptsEnabled = false := by simpa using he
        simp only [he', Bool.not_false, ↓reduceIte, Option.getD_none, ReceiptOp.flag]
        refine ⟨Nat.le_refl _, trivial, ?_⟩
        intro _ _ henabled
        rw [← hflag, he'] at henabled
        exact Bool.noConfusion henabled
  | setReceiptsEnabled receiptsEnabled =>
      refine ⟨h, rfl, ?_⟩
      intro _ hseq
      cases hseq

namespace ReceiptWorld

variable {w w' : ReceiptWorld} {l : ReceiptLabel} {username : String} {dialogue : DialogueKey}

/-- A step leaves records and log alone, or is the write of a call. -/
theorem step_cases (h : w.step l = some w') :
    (w'.db = w.db ∧ w'.log = w.log) ∨
    ∃ id now call read, l = .write id now ∧ w.find id = some call ∧ call.read = some read ∧
      w' = w.finish call read now := by
  cases l with
  | call username dialogue op =>
      cases h
      exact Or.inl ⟨rfl, rfl⟩
  | read id =>
      simp only [step] at h
      split at h
      · cases h
        exact Or.inl ⟨rfl, rfl⟩
      · cases h
  | write id now =>
      simp only [step] at h
      split at h
      · rename_i read hfind
        cases h
        exact Or.inr ⟨id, now, _, read, rfl, hfind, rfl, rfl⟩
      · cases h

/-- A call that writes what it has just read does what the method does. -/
theorem finish_db (w : ReceiptWorld) (call : ReceiptCall) (now : Nat) :
    (w.finish call (w.db.receiptState call.username call.dialogue) now).db =
      match call.op with
      | .updateLastSeq pulledSeq =>
          w.db.updateLastSeq call.username call.dialogue pulledSeq now
      | .setReceiptsEnabled receiptsEnabled =>
          w.db.setReceiptsEnabled call.username call.dialogue receiptsEnabled now := by
  unfold finish ReceiptOp.write
  cases call.op <;> rfl

theorem finish_receiptState (w : ReceiptWorld) (call : ReceiptCall) (read : ReceiptState)
    (now : Nat) :
    (w.finish call read now).db.receiptState call.username call.dialogue =
      (call.op.write read now).getD (w.db.receiptState call.username call.dialogue) := by
  unfold finish
  dsimp only
  cases call.op.write read now with
  | none => rfl
  | some state => simp

theorem finish_receiptState_of_ne (w : ReceiptWorld) (call : ReceiptCall) (read : ReceiptState)
    (now : Nat) (hne : ¬ (username = call.username ∧ dialogue = call.dialogue)) :
    (w.finish call read now).db.receiptState username dialogue =
      w.db.receiptState username dialogue := by
  unfold finish
  dsimp only
  cases call.op.write read now with
  | none => rfl
  | some state => exact ReceiptDb.receiptState_write_of_ne _ hne

/-- The flag last asked for, after a call has completed. -/
theorem finish_lastFlag (w : ReceiptWorld) (call : ReceiptCall) (read : ReceiptState) (now : Nat) :
    (w.finish call read now).lastFlag username dialogue =
      if username = call.username ∧ dialogue = call.dialogue then
        call.op.flag.or (w.lastFlag username dialogue)
      else w.lastFlag username dialogue := by
  have hlog : (w.finish call read now).log = w.log ++ event call
      ((w.finish call read now).db.receiptState call.username call.dialogue) := rfl
  unfold lastFlag
  rw [hlog, List.filterMap_append]
  unfold event
  cases hop : call.op with
  | updateLastSeq pulledSeq =>
      dsimp only [ReceiptOp.flag]
      split <;> simp
  | setReceiptsEnabled receiptsEnabled =>
      dsimp only [ReceiptOp.flag]
      by_cases hk : username = call.username ∧ dialogue = call.dialogue
      · obtain ⟨rfl, rfl⟩ := hk
        simp
      · have hk' : ¬ (call.username = username ∧ call.dialogue = dialogue) :=
          fun h => hk ⟨h.1.symm, h.2.symm⟩
        simp [hk, hk']

/-- A completed update was remembered before, or is the one that completes now. -/
theorem mem_finish_log {call : ReceiptCall} {read : ReceiptState} {now seq : Nat}
    (h : .raised username dialogue seq ∈ (w.finish call read now).log) :
    .raised username dialogue seq ∈ w.log ∨
      (username = call.username ∧ dialogue = call.dialogue ∧ call.op = .updateLastSeq seq ∧
        ((w.finish call read now).db.receiptState username dialogue).receiptsEnabled = true) := by
  have hlog : (w.finish call read now).log = w.log ++ event call
      ((w.finish call read now).db.receiptState call.username call.dialogue) := rfl
  rw [hlog] at h
  rcases List.mem_append.mp h with h | h
  · exact Or.inl h
  · unfold event at h
    split at h
    · rename_i hop
      split at h
      · rename_i henabled
        cases List.mem_singleton.mp h
        exact Or.inr ⟨rfl, rfl, hop, henabled⟩
      · exact absurd h List.not_mem_nil
    · cases List.mem_singleton.mp h

/-- **One step loses nothing and lowers no position.** -/
theorem kept_step (h : w.Kept username dialogue) (hok : w.Undisturbed l)
    (hs : w.step l = some w') :
    w'.Kept username dialogue ∧ (w.db.receiptState username dialogue).lastSeq ≤
      (w'.db.receiptState username dialogue).lastSeq := by
  rcases step_cases hs with ⟨hdb, hlog⟩ | ⟨id, now, call, read, rfl, hfind, hread, rfl⟩
  · have hflag : w'.lastFlag username dialogue = w.lastFlag username dialogue := by
      unfold lastFlag
      rw [hlog]
    unfold Kept
    rw [hdb, hlog, hflag]
    exact ⟨h, Nat.le_refl _⟩
  · have hcurrent : call.op.Current read (w.db.receiptState call.username call.dialogue) := by
      obtain ⟨cid, u, k, op, r⟩ := call
      cases hread
      simpa only [Undisturbed, hfind] using hok
    obtain ⟨hlast, hflag, hseq⟩ := ReceiptOp.write_current now hcurrent
    by_cases hk : username = call.username ∧ dialogue = call.dialogue
    · obtain ⟨rfl, rfl⟩ := hk
      unfold Kept
      rw [finish_receiptState]
      refine ⟨⟨fun seq hmem => ?_, ?_⟩, hlast⟩
      · rcases mem_finish_log hmem with hmem | ⟨_, _, hop, henabled⟩
        · exact Nat.le_trans (h.1 seq hmem) hlast
        · -- the update that completes now leaves the flag it found
          have hfound : (w.db.receiptState call.username call.dialogue).receiptsEnabled = true := by
            rw [finish_receiptState, hflag, hop] at henabled
            exact henabled
          exact hseq seq hop hfound
      · rw [hflag, finish_lastFlag, if_pos ⟨rfl, rfl⟩, h.2]
        cases call.op.flag <;> rfl
    · unfold Kept
      rw [finish_receiptState_of_ne w call read now hk, finish_lastFlag, if_neg hk]
      refine ⟨⟨fun seq hmem => ?_, h.2⟩, Nat.le_refl _⟩
      rcases mem_finish_log hmem with hmem | ⟨hu, hd, _⟩
      · exact h.1 seq hmem
      · exact absurd ⟨hu, hd⟩ hk

theorem kept_init : init.Kept username dialogue :=
  ⟨fun _ h => absurd h List.not_mem_nil, rfl⟩

theorem kept_run (h : w.Kept username dialogue) (hr : Lts.Reach step Undisturbed w w') :
    w'.Kept username dialogue ∧ (w.db.receiptState username dialogue).lastSeq ≤
      (w'.db.receiptState username dialogue).lastSeq :=
  hr.invariant (P := fun w' => w'.Kept username dialogue ∧
      (w.db.receiptState username dialogue).lastSeq ≤
        (w'.db.receiptState username dialogue).lastSeq) ⟨h, Nat.le_refl _⟩
    (fun _ _ _ _ ih hok hs =>
      ⟨(kept_step ih.1 hok hs).1, Nat.le_trans ih.2 (kept_step ih.1 hok hs).2⟩)

/-- **No acknowledged change of a receipt record is lost**, nor does a position ever fall, in any
interleaving where records are still current when they are written back. -/
theorem kept_reachable (hr : Lts.Reach step Undisturbed init w) :
    w.Kept username dialogue ∧ ∀ w', Lts.Reach step Undisturbed w w' →
      (w.db.receiptState username dialogue).lastSeq ≤
        (w'.db.receiptState username dialogue).lastSeq :=
  ⟨(kept_run kept_init hr).1, fun _ hr' => (kept_run (kept_run kept_init hr).1 hr').2⟩

/-- Two pulls of Bob and his opting out, one after the other. -/
def inTurn : List ReceiptLabel :=
  [.call "bob" ⟨"alice", "bob"⟩ (.updateLastSeq 4), .read 0, .write 0 1,
    .call "bob" ⟨"alice", "bob"⟩ (.updateLastSeq 2), .read 1, .write 1 2,
    .call "bob" ⟨"alice", "bob"⟩ (.setReceiptsEnabled false), .read 2, .write 2 3]

theorem kept_inTurn :
    (Lts.execWhile step Undisturbed init inTurn).isSome = true ∧
      ((Lts.execWhile step Undisturbed init inTurn).getD init).Kept "bob" ⟨"alice", "bob"⟩ :=
  ⟨by decide, (kept_reachable (Lts.reach_getD (by decide))).1⟩

/-- Bob opts out while one of his pulls has read the record and not yet written it. -/
theorem optOut_undone :
    ¬ ∀ w : ReceiptWorld, Lts.Reach step (fun _ _ => True) init w →
      w.Kept "bob" ⟨"alice", "bob"⟩ := by
  intro h
  have hrun : (Lts.execWhile step (fun _ _ => True) init
      [.call "bob" ⟨"alice", "bob"⟩ (.updateLastSeq 1), .read 0,
        .call "bob" ⟨"alice", "bob"⟩ (.setReceiptsEnabled false), .read 1, .write 1 1,
        .write 0 2]).isSome = true := by decide
  have hflag := (h _ (Lts.reach_getD hrun)).2
  revert hflag
  decide

end ReceiptWorld

end Paranoia
