import Paranoia.Lib.Lts
import Paranoia.Lib.Table
import Paranoia.Server.PacketStore

/-!
# Concurrent pushes

A push looks whether its number is taken and writes the packet in a second access of the
database, and no lock is held in between; a removal collects the keys of its range and deletes
them in one batch afterwards. Any number of both run at once. A step of the system below is one
access; a push is acknowledged when it has written.

`acked` is a ghost: the acknowledged pushes whose packets no removal has deleted since.
-/

namespace Paranoia

/-- A running push; `free` once it has found its number free. -/
structure PushCall (π : Type) where
  id : Nat
  dialogue : DialogueKey
  seq : Nat
  data : π
  free : Bool
deriving DecidableEq

/-- A running removal, with the keys it has collected. -/
structure RemoveCall where
  id : Nat
  dialogue : DialogueKey
  keys : List Nat
deriving DecidableEq

inductive PutLabel (π : Type) where
  | push (dialogue : DialogueKey) (seq : Nat) (data : π)
  | read (id : Nat)
  | write (id : Nat)
  | collect (dialogue : DialogueKey) (fromSeq toSeq : Nat)
  | delete (id : Nat)
deriving DecidableEq

structure PutWorld (π : Type) where
  store : PacketStore π
  pushes : Table (PushCall π) PushCall.id
  removals : Table RemoveCall RemoveCall.id
  nextCall : Nat
  acked : List (PushCall π)

namespace PutWorld

variable {π : Type}

def init (store : PacketStore π) : PutWorld π := ⟨store, Table.empty, Table.empty, 0, []⟩

def findPush (w : PutWorld π) (id : Nat) : Option (PushCall π) :=
  w.pushes.find? (fun c => c.id = id)

def findRemoval (w : PutWorld π) (id : Nat) : Option RemoveCall :=
  w.removals.find? (fun c => c.id = id)

/-- The push looks for its number, and ends if it is taken. -/
def look (w : PutWorld π) (call : PushCall π) : PutWorld π :=
  match w.store.get call.dialogue call.seq with
  | some _ => { w with pushes := w.pushes.deleteWhere (fun c => c.id = call.id) }
  | none => { w with pushes := w.pushes.insertOrReplace { call with free := true } }

/-- The push writes its packet and is acknowledged. -/
def put (w : PutWorld π) (call : PushCall π) : PutWorld π :=
  { w with
    store := w.store.put call.dialogue call.seq call.data
    pushes := w.pushes.deleteWhere (fun c => c.id = call.id)
    acked := w.acked ++ [call] }

/-- The removal deletes what it has collected. -/
def delete (w : PutWorld π) (call : RemoveCall) : PutWorld π :=
  { w with
    store := w.store.withDb call.dialogue
      ((w.store.db call.dialogue).eraseWhere (fun q => decide (q ∈ call.keys)))
    removals := w.removals.deleteWhere (fun c => c.id = call.id)
    acked := w.acked.filter (fun c => !decide (c.dialogue = call.dialogue ∧ c.seq ∈ call.keys)) }

def step (w : PutWorld π) : PutLabel π → Option (PutWorld π)
  | .push dialogue seq data =>
      some { w with
        pushes := w.pushes.insertOrReplace ⟨w.nextCall, dialogue, seq, data, false⟩
        nextCall := w.nextCall + 1 }
  | .read id =>
      match w.findPush id with
      | some ⟨id, dialogue, seq, data, false⟩ => some (w.look ⟨id, dialogue, seq, data, false⟩)
      | _ => none
  | .write id =>
      match w.findPush id with
      | some ⟨id, dialogue, seq, data, true⟩ => some (w.put ⟨id, dialogue, seq, data, true⟩)
      | _ => none
  | .collect dialogue fromSeq toSeq =>
      if toSeq < fromSeq ∧ fromSeq ≠ 0 then none
      else some { w with
        removals := w.removals.insertOrReplace ⟨w.nextCall, dialogue,
          (w.store.live dialogue).filter (fun q => max fromSeq 1 ≤ q ∧ q ≤ toSeq)⟩
        nextCall := w.nextCall + 1 }
  | .delete id =>
      match w.findRemoval id with
      | some call => some (w.delete call)
      | none => none

/-- A push that found its number free finds it free still when it writes. -/
def NotOvertaken (w : PutWorld π) : PutLabel π → Prop
  | .write id =>
      match w.findPush id with
      | some call => (w.store.get call.dialogue call.seq).isNone = true
      | none => True
  | _ => True

instance (w : PutWorld π) (l : PutLabel π) : Decidable (w.NotOvertaken l) := by
  unfold NotOvertaken
  split
  · split <;> infer_instance
  · infer_instance

variable {w w' : PutWorld π} {l : PutLabel π}

/-- A push that nothing comes between is `PacketStore.push`. -/
theorem look_put (call : PushCall π) :
    w.store.push call.dialogue call.seq call.data =
      match w.store.get call.dialogue call.seq with
      | some _ => .error ("Duplicate seq " ++ toString call.seq)
      | none => .ok ((w.look call).put { call with free := true }).store := by
  unfold PacketStore.push
  cases h : w.store.get call.dialogue call.seq with
  | some data => rfl
  | none =>
      have hstore : (w.look call).store = w.store := by
        unfold look
        rw [h]
      show _ = Except.ok ((w.look call).store.put call.dialogue call.seq call.data)
      rw [hstore]

/-! ## The runs -/

/-- An acknowledged packet is there as it was pushed, and no number was acknowledged twice. -/
structure PutOnce (w : PutWorld π) : Prop where
  there : ∀ call ∈ w.acked, w.store.get call.dialogue call.seq = some call.data
  once : w.acked.Pairwise (fun a b => ¬ (a.dialogue = b.dialogue ∧ a.seq = b.seq))

theorem putOnce_init (store : PacketStore π) : (init store).PutOnce where
  there := by
    intro call hcall
    cases hcall
  once := List.Pairwise.nil

theorem look_acked (call : PushCall π) : (w.look call).acked = w.acked := by
  unfold look
  split <;> rfl

theorem look_store (call : PushCall π) : (w.look call).store = w.store := by
  unfold look
  split <;> rfl

theorem putOnce_put {call : PushCall π} (h : w.PutOnce)
    (hfree : w.store.get call.dialogue call.seq = none) : (w.put call).PutOnce := by
  -- a number that is free has not been acknowledged
  have hnew : ∀ a ∈ w.acked, ¬ (a.dialogue = call.dialogue ∧ a.seq = call.seq) := by
    rintro a ha ⟨hd, hq⟩
    have := h.there a ha
    rw [hd, hq, hfree] at this
    cases this
  refine ⟨?_, ?_⟩
  · intro a ha
    show (w.store.put call.dialogue call.seq call.data).get a.dialogue a.seq = some a.data
    rcases List.mem_append.mp ha with ha | ha
    · rw [PacketStore.get_put_of_ne _ _ (not_and_or.mp (hnew a ha))]
      exact h.there a ha
    · obtain rfl := List.mem_singleton.mp ha
      exact PacketStore.get_put_self _ _ _ _
  · refine List.pairwise_append.mpr ⟨h.once, List.pairwise_singleton _ _, ?_⟩
    intro a ha b hb
    obtain rfl := List.mem_singleton.mp hb
    exact hnew a ha

theorem putOnce_delete {call : RemoveCall} (h : w.PutOnce) : (w.delete call).PutOnce := by
  refine ⟨?_, h.once.sublist List.filter_sublist⟩
  intro a ha
  obtain ⟨ha, hkept⟩ := List.mem_filter.mp ha
  rw [Bool.not_eq_true', decide_eq_false_iff_not] at hkept
  show (w.store.withDb call.dialogue _).get a.dialogue a.seq = some a.data
  by_cases hd : a.dialogue = call.dialogue
  · have hq : a.seq ∉ call.keys := fun hq => hkept ⟨hd, hq⟩
    have hget := h.there a ha
    rw [PacketStore.get, hd] at hget
    rw [PacketStore.get, hd, PacketStore.withDb_db_self, OrdMap.get?_eq_some, OrdMap.mem_eraseWhere]
    exact ⟨OrdMap.get?_eq_some.mp hget, by simpa using hq⟩
  · rw [PacketStore.get, PacketStore.withDb_db_of_ne _ _ hd]
    exact h.there a ha

theorem putOnce_step (h : w.PutOnce) (hok : w.NotOvertaken l) (hs : w.step l = some w') :
    w'.PutOnce := by
  cases l with
  | push dialogue seq data =>
      cases hs
      exact ⟨h.there, h.once⟩
  | read id =>
      simp only [step] at hs
      split at hs
      · cases hs
        refine ⟨?_, ?_⟩
        · rw [look_acked, look_store]
          exact h.there
        · rw [look_acked]
          exact h.once
      · cases hs
  | write id =>
      simp only [step] at hs
      split at hs
      · rename_i hfind
        cases hs
        simp only [NotOvertaken, hfind, Option.isNone_iff_eq_none] at hok
        exact putOnce_put h hok
      · cases hs
  | collect dialogue fromSeq toSeq =>
      simp only [step] at hs
      split at hs
      · cases hs
      · cases hs
        exact ⟨h.there, h.once⟩
  | delete id =>
      simp only [step] at hs
      split at hs
      · cases hs
        exact putOnce_delete h
      · cases hs

/-- **Push is put-once.** While no push is overtaken between its look and its write, no number
is acknowledged twice while its packet lives, and every pull of an acknowledged number returns
what was pushed there. -/
theorem put_once {store : PacketStore π}
    (h : Lts.Reach step NotOvertaken (init store) w) :
    w.acked.Pairwise (fun a b => ¬ (a.dialogue = b.dialogue ∧ a.seq = b.seq)) ∧
      ∀ call ∈ w.acked, ∀ afterSeq toSeq packets, toSeq < u64Size →
        w.store.pull call.dialogue afterSeq toSeq = .ok packets →
        afterSeq < call.seq → call.seq ≤ toSeq →
        ∀ data, ⟨call.seq, data⟩ ∈ packets ↔ data = call.data := by
  have hp : w.PutOnce := by
    refine Lts.Reach.invariant (putOnce_init store) ?_ h
    intro s l s' _ hp hok hs
    exact putOnce_step hp hok hs
  refine ⟨hp.once, ?_⟩
  intro call hcall afterSeq toSeq packets hto hpull hafter hle data
  rw [PacketStore.mem_pull hpull hto]
  have hget := hp.there call hcall
  constructor
  · rintro ⟨-, -, hdata⟩
    rw [hget] at hdata
    exact (Option.some.inj hdata).symm
  · rintro rfl
    exact ⟨hafter, hle, hget⟩

/-- The dialogue the examples are about. -/
def ofTwo : DialogueKey := DialogueKey.new "alice" "bob"

/-- Two pushes of one number, one after the other. -/
def taken : List (PutLabel String) :=
  [.push ofTwo 1 "first", .push ofTwo 1 "second", .read 0, .write 0, .read 1]

/-- Two pushes of one number, both of which look before either writes. -/
def overtaken : List (PutLabel String) :=
  [.push ofTwo 1 "first", .push ofTwo 1 "second", .read 0, .read 1, .write 0, .write 1]

theorem put_once_taken :
    ∃ packets, ((Lts.execWhile step NotOvertaken (init PacketStore.empty) taken).getD
      (init PacketStore.empty)).store.pull ofTwo 0 9 = .ok packets ∧
        ∀ data, ⟨1, data⟩ ∈ packets ↔ data = "first" := by
  have hrun : (Lts.execWhile step NotOvertaken (init PacketStore.empty) taken).isSome = true := by
    decide
  exact ⟨[⟨1, "first"⟩], rfl, (put_once (Lts.reach_getD hrun)).2 ⟨0, ofTwo, 1, "first", true⟩
    (by decide) 0 9 _ (by decide) rfl (by decide) (by decide)⟩

/-- Both pushes of one number are acknowledged, and the second overwrites the first. -/
theorem acknowledged_twice :
    ¬ ∀ w : PutWorld String, Lts.Reach step (fun _ _ => True) (init PacketStore.empty) w →
      w.acked.Pairwise (fun a b => ¬ (a.dialogue = b.dialogue ∧ a.seq = b.seq)) ∧
        ∀ call ∈ w.acked, ∀ afterSeq toSeq packets, toSeq < u64Size →
          w.store.pull call.dialogue afterSeq toSeq = .ok packets →
          afterSeq < call.seq → call.seq ≤ toSeq →
          ∀ data, ⟨call.seq, data⟩ ∈ packets ↔ data = call.data := by
  intro h
  have hrun : (Lts.execWhile step (fun _ _ => True) (init PacketStore.empty)
      overtaken).isSome = true := by decide
  exact absurd (h _ (Lts.reach_getD hrun)).1 (by decide)

end PutWorld

end Paranoia
