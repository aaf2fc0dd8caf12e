import Mathlib
import Paranoia.Lib.Tasks
import Paranoia.Proof.LongPoll

/-!
# When packets of one's own count as new

A packet of an account is hidden from its other devices by the account's read position, which the
push raises after it has stored the packet. Between the two the packet counts as new for the one who
pushed it, and only then, as long as no position goes back and no raise fails. A count that is not
done in one step reads the position first, so it counts what a push stores behind its back; if no
push of the account does that, it counts packets of others only (`own_never_new`).
-/

namespace Paranoia

/-- The packet is in the store, and the position not raised yet. -/
def PushPoint.Raising : PushPoint → Bool
  | .read => true
  | .write _ => true
  | _ => false

namespace PacketStore

variable {π : Type}

/-- The packets that `countAfter` counts. -/
def counted (ps : PacketStore π) (dialogue : DialogueKey) (afterSeq : Nat) : List (RawPacket π) :=
  (ps.packets dialogue).filter (fun pkt => decide (saturatingAdd afterSeq 1 ≤ pkt.seq))

theorem length_counted (ps : PacketStore π) (dialogue : DialogueKey) (afterSeq : Nat) :
    (ps.counted dialogue afterSeq).length = ps.countAfter dialogue afterSeq := by
  unfold counted countAfter packets live OrdMap.keys
  rw [List.filter_map, List.filter_map, List.length_map, List.length_map]
  rfl

theorem mem_counted {ps : PacketStore π} {dialogue : DialogueKey} {afterSeq : Nat}
    {pkt : RawPacket π} :
    pkt ∈ ps.counted dialogue afterSeq ↔
      ps.get dialogue pkt.seq = some pkt.payload ∧ saturatingAdd afterSeq 1 ≤ pkt.seq := by
  unfold counted
  rw [List.mem_filter, mem_packets, decide_eq_true_eq]

end PacketStore

/-- The count under way in a dialogue, and its item. -/
def PollTask.countIn (t : PollTask) (d : DialogueKey) : Option (NotifyItem × CountPoint) :=
  match t.point with
  | .scan _ j count _ =>
      (t.items[j]?).bind (fun item => if t.dialogue item = d then some (item, count) else none)
  | _ => none

namespace NotifyWorld

variable {w w' : NotifyWorld} {l : NotifyLabel} {i : Nat} {t t' : PollTask} {p : PushTask}
  {receipts : ReceiptDb} {username : String} {d : DialogueKey}

/-- What counts as new for an account if nothing changes meanwhile. -/
def newPackets (w : NotifyWorld) (d : DialogueKey) (afterSeq : Nat) (username : String) :
    List (RawPacket String) :=
  let effectiveFloor := max afterSeq (w.lastSeqOf username d)
  if w.store.lastSeq d ≤ effectiveFloor then [] else w.store.counted d effectiveFloor

/-- Its steps, one after the other, count these. -/
theorem stepCount_newPackets (w : NotifyWorld) (d : DialogueKey) (afterSeq : Nat)
    (username : String) :
    ∃ floor, w.stepCount username d afterSeq .position = .inl (.seek floor)
      ∧ (w.stepCount username d afterSeq (.seek floor)
            = .inr (w.newPackets d afterSeq username).length
          ∨ w.stepCount username d afterSeq (.seek floor) = .inl (.scan floor)
            ∧ w.stepCount username d afterSeq (.scan floor)
              = .inr (w.newPackets d afterSeq username).length) := by
  refine ⟨_, rfl, ?_⟩
  unfold newPackets stepCount
  dsimp only
  split
  · exact .inl rfl
  · exact .inr ⟨rfl, by rw [PacketStore.length_counted]⟩

/-! ## What is asked of the steps -/

/-- The account's position in the dialogue does not go back, and a raise of it that fails had nothing
to raise. -/
def RaisesFor (username : String) (d : DialogueKey) (w : NotifyWorld) : NotifyLabel → Prop
  | .pushStep i _ => ∀ p ∈ w.pushes[i]?, p.sender = username → p.dialogue = d → w.KeepsPush p
  | .pushError i => ∀ p ∈ w.pushes[i]?, p.sender = username → p.dialogue = d →
      p.seq ≤ w.lastSeqOf username d
  | .raiseStep i _ => ∀ r ∈ w.raises[i]?, r.username = username → r.dialogue = d → w.KeepsRaise r
  | _ => True

/-- No count for the account reads the position before a push of its own has raised it, and none has
read it when a push stores a packet above. -/
def CountsApart (username : String) (d : DialogueKey) (w : NotifyWorld) : NotifyLabel → Prop
  | .pushStep i _ => ∀ p ∈ w.pushes[i]?, p.sender = username → p.dialogue = d → p.point = .store →
      ∀ t ∈ w.polls, t.sender = username → ∀ e ∈ t.countIn d, ∀ floor ∈ e.2.floor?, p.seq ≤ floor
  | .pollStep i => ∀ t ∈ w.polls[i]?, t.sender = username → ∀ e ∈ t.countIn d, e.2 = .position →
      ∀ p ∈ w.pushes, p.sender = username → p.dialogue = d → p.point.Raising = true →
        p.seq ≤ max e.1.seq (w.lastSeqOf username d)
  | _ => True

instance (w : NotifyWorld) (l : NotifyLabel) : Decidable (RaisesFor username d w l) :=
  match l with
  | .push .. | .pushStep .. | .pushError .. | .pull .. | .raiseStep .. | .notify .. | .pollStep ..
  | .timeout .. | .pollError .. | .cancel .. | .gc => by unfold RaisesFor; infer_instance

instance (w : NotifyWorld) (l : NotifyLabel) : Decidable (CountsApart username d w l) :=
  match l with
  | .push .. | .pushStep .. | .pushError .. | .pull .. | .raiseStep .. | .notify .. | .pollStep ..
  | .timeout .. | .pollError .. | .cancel .. | .gc => by unfold CountsApart; infer_instance

/-! ## Where packets of an account are hidden -/

structure Hidden (username : String) (d : DialogueKey) (w : NotifyWorld) : Prop where
  enabled : (w.receipts.receiptState username d).receiptsEnabled = true
  pushes : ∀ p ∈ w.pushes, p.sender = username → p.dialogue = d → ∀ state, p.point = .write state →
    state.receiptsEnabled = true
  raises : ∀ r ∈ w.raises, r.username = username → r.dialogue = d → ∀ state,
    r.point = .write state → state.receiptsEnabled = true
  small : ∀ p ∈ w.pushes, p.seq < u64Size
  stored : ∀ p ∈ w.pushes, p.dialogue = d → p.point.Raising = true →
    w.store.get d p.seq = some p.sender
  bounded : ∀ s data, w.store.get d s = some data → s < u64Size
  raised : ∀ s, w.store.get d s = some username → s ≤ w.lastSeqOf username d
    ∨ ∃ p ∈ w.pushes, p.sender = username ∧ p.dialogue = d ∧ p.seq = s ∧ p.point.Raising = true

theorem hidden_init (hon : (receipts.receiptState username d).receiptsEnabled = true) :
    Hidden username d (init receipts) where
  enabled := hon
  pushes := by simp [init]
  raises := by simp [init]
  small := by simp [init]
  stored := by simp [init]
  bounded := by simp [init, PacketStore.get, PacketStore.empty]
  raised := by simp [init, PacketStore.get, PacketStore.empty]

/-! ## One step -/

theorem Hidden.congr (h : Hidden username d w) (hstore : w'.store = w.store)
    (hreceipts : w'.receipts = w.receipts) (hpushes : w'.pushes = w.pushes)
    (hraises : ∀ r ∈ w'.raises, r ∈ w.raises ∨ ∀ state, r.point ≠ .write state) :
    Hidden username d w' where
  enabled := by rw [hreceipts]; exact h.enabled
  pushes := by rw [hpushes]; exact h.pushes
  raises := by
    intro r hr hu hd state hpoint
    rcases hraises r hr with hr | hne
    · exact h.raises r hr hu hd state hpoint
    · exact absurd hpoint (hne state)
  small := by rw [hpushes]; exact h.small
  stored := by rw [hpushes, hstore]; exact h.stored
  bounded := by rw [hstore]; exact h.bounded
  raised := by rw [hstore, hpushes, lastSeqOf, hreceipts]; exact h.raised

theorem enabled_raised {state state' : ReceiptState} {seq now : Nat}
    (h : state.raised seq now = some state') : state'.receiptsEnabled = state.receiptsEnabled := by
  unfold ReceiptState.raised at h
  split at h <;> cases h
  rfl

/-- A position that is written is not below the one before. -/
theorem Hidden.setReceipts {state : ReceiptState} {username' : String} {d' : DialogueKey}
    (h : Hidden username d w) (hon : username' = username → d' = d → state.receiptsEnabled = true)
    (hle : username' = username → d' = d → w.lastSeqOf username d ≤ state.lastSeq) :
    Hidden username d { w with receipts := w.receipts.writeReceiptState username' d' state } := by
  by_cases hk : username = username' ∧ d = d'
  · obtain ⟨rfl, rfl⟩ := hk
    refine { h with enabled := ?_, raised := fun s hs => ?_ }
    · rw [ReceiptDb.receiptState_write_self]
      exact hon rfl rfl
    · rw [lastSeqOf, ReceiptDb.receiptState_write_self]
      exact (h.raised s hs).imp_left (fun hs => Nat.le_trans hs (hle rfl rfl))
  · refine { h with enabled := ?_, raised := fun s hs => ?_ }
    · rw [ReceiptDb.receiptState_write_of_ne _ hk]
      exact h.enabled
    · rw [lastSeqOf, ReceiptDb.receiptState_write_of_ne _ hk]
      exact h.raised s hs

/-- A push that moves on: what it has stored is still hidden, or its position is raised. -/
theorem Hidden.movePush {point : PushPoint} (h : Hidden username d w) (hp : w.pushes[i]? = some p)
    (hwrite : p.sender = username → p.dialogue = d → ∀ state, point = .write state →
      state.receiptsEnabled = true)
    (hraising : point.Raising = true → p.point.Raising = true)
    (hdone : p.sender = username → p.dialogue = d → p.point.Raising = true →
      point.Raising = true ∨ p.seq ≤ w.lastSeqOf username d) :
    Hidden username d (w.setPush i p point) := by
  have hmem := List.mem_of_getElem? hp
  refine { h with pushes := fun q hq => ?_, small := fun q hq => ?_, stored := fun q hq => ?_,
                  raised := fun s hs => ?_ }
  · rcases List.mem_or_eq_of_mem_set hq with hq | rfl
    · exact h.pushes q hq
    · exact hwrite
  · rcases List.mem_or_eq_of_mem_set hq with hq | rfl
    · exact h.small q hq
    · exact h.small p hmem
  · rcases List.mem_or_eq_of_mem_set hq with hq | rfl
    · exact h.stored q hq
    · exact fun hd hr => h.stored p hmem hd (hraising hr)
  · rcases h.raised s hs with hle | ⟨q, hq, hu, hd, rfl, hr⟩
    · exact .inl hle
    · rcases Tasks.eq_or_mem_set hp hq with rfl | hq
      · rcases hdone hu hd hr with hr | hle
        · exact .inr ⟨_, List.mem_set (List.getElem?_eq_some_iff.mp hp).1 _, hu, hd, rfl, hr⟩
        · exact .inl hle
      · exact .inr ⟨q, hq, hu, hd, rfl, hr⟩

theorem Hidden.storePush (h : Hidden username d w) (hp : w.pushes[i]? = some p)
    (hpoint : p.point = .store)
    (hfree : w.store.get p.dialogue p.seq = none) :
    Hidden username d
      ({ w with store := w.store.put p.dialogue p.seq p.sender }.setPush i p .read) := by
  have hmem := List.mem_of_getElem? hp
  have hkeep : ∀ {s : Nat} {data : String}, w.store.get d s = some data →
      (w.store.put p.dialogue p.seq p.sender).get d s = some data := by
    intro s data hs
    rw [PacketStore.get_put_of_ne _ _ (not_and_or.mp _)]
    · exact hs
    · rintro ⟨rfl, rfl⟩
      rw [hfree] at hs
      cases hs
  refine ⟨h.enabled, fun q hq hu hd state hpoint => ?_, h.raises, fun q hq => ?_, fun q hq hd hr => ?_,
    fun s data hs => ?_, fun s hs => ?_⟩
  · rcases List.mem_or_eq_of_mem_set hq with hq | rfl
    · exact h.pushes q hq hu hd state hpoint
    · cases hpoint
  · rcases List.mem_or_eq_of_mem_set hq with hq | rfl
    · exact h.small q hq
    · exact h.small p hmem
  · rcases List.mem_or_eq_of_mem_set hq with hq | rfl
    · exact hkeep (h.stored q hq hd hr)
    · rw [← hd]
      exact PacketStore.get_put_self _ _ _ _
  · rcases PacketStore.get_put_eq_some hs with ⟨-, rfl, -⟩ | hs
    · exact h.small p hmem
    · exact h.bounded s data hs
  · rcases PacketStore.get_put_eq_some hs with ⟨hd, rfl, hu⟩ | hs
    · exact .inr ⟨_, List.mem_set (List.getElem?_eq_some_iff.mp hp).1 _, hu.symm, hd.symm, rfl, rfl⟩
    · rcases h.raised s hs with hle | ⟨q, hq, hu, hd, rfl, hr⟩
      · exact .inl hle
      · rcases Tasks.eq_or_mem_set hp hq with rfl | hq
        · rw [hpoint] at hr
          cases hr
        · exact .inr ⟨q, hq, hu, hd, rfl, hr⟩

theorem Hidden.pushStep {now : Nat} (h : Hidden username d w) (hp : w.pushes[i]? = some p)
    (hok : p.sender = username → p.dialogue = d → w.KeepsPush p) (hs : PushCase w i p now w') :
    Hidden username d w' := by
  have hmem := List.mem_of_getElem? hp
  cases hs with
  | stored hpoint hfree hstore =>
      subst hstore
      exact h.storePush hp hpoint hfree
  | refused hpoint =>
      exact h.movePush hp (fun _ _ _ hw => by cases hw) (fun hr => by cases hr)
        (fun _ _ hr => by rw [hpoint] at hr; cases hr)
  | frozen hpoint hoff =>
      refine h.movePush hp (fun _ _ _ hw => by cases hw) (fun hr => by cases hr) (fun hu hd _ => ?_)
      rw [hu, hd, h.enabled] at hoff
      cases hoff
  | read hpoint =>
      refine h.movePush hp (fun hu hd state hw => ?_) (fun _ => by rw [hpoint]; rfl)
        (fun _ _ _ => .inl rfl)
      cases hw
      rw [hu, hd]
      exact h.enabled
  | raised hpoint hraised =>
      have hlast := lastSeq_raised hraised
      have hw : Hidden username d
          { w with receipts := w.receipts.writeReceiptState p.sender p.dialogue _ } :=
        h.setReceipts (fun hu hd => (enabled_raised hraised).trans (h.pushes p hmem hu hd _ hpoint))
          (fun hu hd => ?_)
      · refine hw.movePush hp (fun _ _ _ hw => by cases hw) (fun hr => by cases hr) (fun hu hd _ => ?_)
        refine .inr ?_
        rw [lastSeqOf, hu, hd, ReceiptDb.receiptState_write_self, hlast]
        exact Nat.le_max_right _ _
      · have hkeep := hok hu hd
        unfold KeepsPush at hkeep
        rw [hpoint, hu, hd] at hkeep
        rw [hlast]
        exact hkeep
  | kept hpoint hoff =>
      refine h.movePush hp (fun _ _ _ hw => by cases hw) (fun hr => by cases hr) (fun hu hd _ => ?_)
      rw [h.pushes p hmem hu hd _ hpoint] at hoff
      cases hoff
  | found hpoint =>
      exact h.movePush hp (fun _ _ _ hw => by cases hw) (fun hr => by cases hr)
        (fun _ _ hr => by rw [hpoint] at hr; cases hr)
  | nobody hpoint =>
      exact h.movePush hp (fun _ _ _ hw => by cases hw) (fun hr => by cases hr)
        (fun _ _ hr => by rw [hpoint] at hr; cases hr)
  | woke hpoint =>
      rename_i waker
      have hw : Hidden username d
          { w with notifiers := w.notifiers.modify waker Notify.notifyWaiters } :=
        h.congr rfl rfl rfl (fun _ hr => .inl hr)
      exact hw.movePush hp (fun _ _ _ hw => by cases hw) (fun hr => by cases hr)
        (fun _ _ hr => by rw [hpoint] at hr; cases hr)
  | done hpoint =>
      exact h.movePush hp (fun _ _ _ hw => by cases hw) (fun hr => by cases hr)
        (fun _ _ hr => by rw [hpoint] at hr; cases hr)

theorem Hidden.moveRaise {r : RaiseTask} {point : RaisePoint} (h : Hidden username d w)
    (hwrite : r.username = username → r.dialogue = d → ∀ state, point = .write state →
      state.receiptsEnabled = true) : Hidden username d (w.setRaise i r point) := by
  refine { h with raises := fun q hq => ?_ }
  rcases List.mem_or_eq_of_mem_set hq with hq | rfl
  · exact h.raises q hq
  · exact hwrite

theorem waker_raises (w : NotifyWorld) (d : DialogueKey) : (w.waker d).1.raises = w.raises := by
  unfold waker
  split <;> rfl

theorem Hidden.step (h : Hidden username d w) (hok : RaisesFor username d w l)
    (hs : w.StepCase l w') : Hidden username d w' := by
  cases hs with
  | push hseq =>
      refine { h with pushes := fun q hq => ?_, small := fun q hq => ?_, stored := fun q hq => ?_,
                      raised := fun s hs => (h.raised s hs).imp_right ?_ }
      · rcases List.mem_append.mp hq with hq | hq
        · exact h.pushes q hq
        · cases List.mem_singleton.mp hq
          exact fun _ _ _ hw => by cases hw
      · rcases List.mem_append.mp hq with hq | hq
        · exact h.small q hq
        · cases List.mem_singleton.mp hq
          exact hseq
      · rcases List.mem_append.mp hq with hq | hq
        · exact h.stored q hq
        · cases List.mem_singleton.mp hq
          exact fun _ hr => by cases hr
      · rintro ⟨q, hq, hown⟩
        exact ⟨q, List.mem_append_left _ hq, hown⟩
  | pushStep hp hs => exact h.pushStep hp (hok _ hp) (push_cases hs)
  | pushError hp hpoint =>
      refine h.movePush hp (fun _ _ _ hw => by cases hw) (fun hr => by cases hr)
        (fun hu hd _ => .inr (hok _ hp hu hd))
  | pull =>
      unfold stepPull
      dsimp only
      split
      · exact h
      · split
        · exact h
        · refine h.congr rfl rfl rfl (fun r hr => ?_)
          rcases List.mem_append.mp hr with hr | hr
          · exact .inl hr
          · cases List.mem_singleton.mp hr
            exact .inr (fun _ hw => by cases hw)
  | raiseStep hr hs =>
      have hmem := List.mem_of_getElem? hr
      cases raise_cases hs with
      | aside hpoint =>
          refine h.moveRaise (fun hu hd state hw => ?_)
          subst hw
          rcases hpoint with ⟨-, hw | hw⟩ | hw <;> cases hw
          rw [hu, hd]
          exact h.enabled
      | raised hpoint hraised =>
          have hlast := lastSeq_raised hraised
          refine (h.setReceipts (fun hu hd => ?_) (fun hu hd => ?_)).moveRaise
            (fun _ _ _ hw => by cases hw)
          · exact (enabled_raised hraised).trans (h.raises _ hmem hu hd _ hpoint)
          · have hkeep := hok _ hr hu hd
            unfold KeepsRaise at hkeep
            rw [hpoint, hu, hd] at hkeep
            rw [hlast]
            exact hkeep
  | notify => exact h.congr rfl rfl rfl (fun _ hr => .inl hr)
  | pollStep ht hs =>
      cases poll_cases hs with
      | subscribe =>
          obtain ⟨hreceipts, hstore, hpushes, -⟩ := waker_aside w _
          exact h.congr hstore hreceipts hpushes (fun _ hr => .inl (by rwa [← waker_raises w _]))
      | scan => exact h.congr rfl rfl rfl (fun _ hr => .inl hr)
      | subscribed => exact h.congr rfl rfl rfl (fun _ hr => .inl hr)
      | future => exact h.congr rfl rfl rfl (fun _ hr => .inl hr)
      | futures => exact h.congr rfl rfl rfl (fun _ hr => .inl hr)
      | woken => exact h.congr rfl rfl rfl (fun _ hr => .inl hr)
  | timeout => exact h.congr rfl rfl rfl (fun _ hr => .inl hr)
  | ended => exact h.congr rfl rfl rfl (fun _ hr => .inl hr)
  | gc => exact h.congr rfl rfl rfl (fun _ hr => .inl hr)

theorem hidden_reachable (hon : (receipts.receiptState username d).receiptsEnabled = true)
    (hr : Lts.Reach step (RaisesFor username d) (init receipts) w) : Hidden username d w :=
  hr.invariant (hidden_init hon) (fun _ _ _ _ h hok hs => h.step hok (step_cases hs))

/-! ## What counts as new -/

theorem Hidden.lastSeq_lt (h : Hidden username d w) : w.store.lastSeq d < u64Size := by
  rcases w.store.lastSeq_mem_or_zero d with hmem | hzero
  · obtain ⟨data, hdata⟩ := PacketStore.mem_live.mp hmem
    exact h.bounded _ data hdata
  · rw [hzero]
    decide

theorem lt_of_counted {floor : Nat} {pkt : RawPacket String} (hfloor : floor + 1 < u64Size)
    (h : pkt ∈ w.store.counted d floor) : floor < pkt.seq := by
  have := (PacketStore.mem_counted.mp h).2
  unfold saturatingAdd at this
  omega

/-- A packet of the account counts as new while its push has not raised the position, and only
then. -/
theorem Hidden.newPackets_iff (h : Hidden username d w) (afterSeq : Nat) :
    (∀ pkt ∈ w.newPackets d afterSeq username, pkt.payload ≠ username) ↔
      ∀ p ∈ w.pushes, p.sender = username → p.dialogue = d → p.point.Raising = true →
        p.seq ≤ max afterSeq (w.lastSeqOf username d) := by
  constructor
  · intro hnone p hp hu hd hr
    by_contra hlt
    have hstored := h.stored p hp hd hr
    have hlast := PacketStore.le_lastSeq (PacketStore.mem_live.mpr ⟨_, hstored⟩)
    have hnew : (⟨p.seq, p.sender⟩ : RawPacket String) ∈ w.newPackets d afterSeq username := by
      unfold newPackets
      dsimp only
      rw [if_neg (by omega)]
      refine PacketStore.mem_counted.mpr ⟨hstored, ?_⟩
      unfold saturatingAdd
      dsimp only
      omega
    exact hnone _ hnew hu
  · intro hall pkt hpkt hown
    unfold newPackets at hpkt
    dsimp only at hpkt
    split at hpkt
    · cases hpkt
    · rename_i hlast
      have hlt := lt_of_counted (by have := h.lastSeq_lt; omega) hpkt
      have hget := (PacketStore.mem_counted.mp hpkt).1
      rw [hown] at hget
      rcases h.raised _ hget with hle | ⟨p, hp, hu, hd, hseq, hr⟩
      · omega
      · have := hall p hp hu hd hr
        omega

/-! ## Counts under way -/

/-- The count of the account that is under way has only packets of others above it. -/
def CountsOthers (username : String) (d : DialogueKey) (w : NotifyWorld) (t : PollTask) : Prop :=
  t.sender = username → ∀ e ∈ t.countIn d, ∀ floor ∈ e.2.floor?,
    (∀ s, w.store.get d s = some username → s ≤ floor)
      ∧ (e.2 = .scan floor → floor + 1 < u64Size)

theorem countsOthers_of_position (h : ∀ e ∈ t.countIn d, e.2 = .position) :
    CountsOthers username d w t := by
  intro _ e he floor hfloor
  rw [h e he] at hfloor
  cases hfloor

theorem countIn_of_position {phase : ScanPhase} {j : Nat} {lit : List (String × Nat)}
    (hpoint : t.point = .scan phase j .position lit) : ∀ e ∈ t.countIn d, e.2 = .position := by
  intro e he
  unfold PollTask.countIn at he
  rw [hpoint] at he
  obtain ⟨item, -, he⟩ := Option.bind_eq_some_iff.mp he
  obtain ⟨-, he⟩ := Option.ite_none_right_eq_some.mp he
  cases he
  rfl

theorem countIn_of_item {phase : ScanPhase} {j : Nat} {count : CountPoint}
    {lit : List (String × Nat)} {item : NotifyItem} (hpoint : t.point = .scan phase j count lit)
    (hitem : t.items[j]? = some item) :
    t.countIn d = if t.dialogue item = d then some (item, count) else none := by
  unfold PollTask.countIn
  rw [hpoint]
  dsimp only
  rw [hitem]
  rfl

theorem countsOthers_afterScan {phase : ScanPhase} {longPoll : Bool} {lit : List (String × Nat)} :
    CountsOthers username d w { t with point := afterScan phase longPoll lit } := by
  refine countsOthers_of_position (fun e he => ?_)
  cases phase <;> unfold afterScan at he <;> dsimp only at he
  · split at he <;> cases he
  · split at he <;> cases he
  · cases he

theorem CountsOthers.stepScan {phase : ScanPhase} {j : Nat} {count : CountPoint}
    {lit : List (String × Nat)} (hh : Hidden username d w)
    (hpoint : t.point = .scan phase j count lit)
    (hok : t.sender = username → ∀ e ∈ t.countIn d, e.2 = .position →
      ∀ p ∈ w.pushes, p.sender = username → p.dialogue = d → p.point.Raising = true →
        p.seq ≤ max e.1.seq (w.lastSeqOf username d))
    (h : CountsOthers username d w t) :
    CountsOthers username d w { t with point := w.stepScan t phase j count lit } := by
  unfold NotifyWorld.stepScan
  split
  · exact countsOthers_afterScan
  · rename_i item hitem
    split
    · rename_i count' hcount
      intro hsender e he floor hfloor
      rw [countIn_of_item (t := { t with point := .scan phase j count' lit }) rfl hitem] at he
      obtain ⟨hitemd, he⟩ := Option.ite_none_right_eq_some.mp he
      cases he
      have hu : t.sender = username := hsender
      have hd : t.dialogue item = d := hitemd
      have hin : (item, count) ∈ t.countIn d := by
        rw [countIn_of_item hpoint hitem, if_pos hd]
        rfl
      cases count with
      | position =>
          cases hcount
          cases hfloor
          refine ⟨fun s hs => ?_, fun hscan => by cases hscan⟩
          rw [hu, hd]
          rcases hh.raised s hs with hle | ⟨p, hp, hpu, hpd, rfl, hr⟩
          · exact Nat.le_trans hle (Nat.le_max_right _ _)
          · exact hok hu _ hin rfl p hp hpu hpd hr
      | seek floor' =>
          unfold NotifyWorld.stepCount at hcount
          dsimp only at hcount
          split at hcount <;> cases hcount
          rename_i hlast
          cases hfloor
          refine ⟨(h hu _ hin floor rfl).1, fun _ => ?_⟩
          have := hh.lastSeq_lt
          rw [hd] at hlast
          omega
      | scan floor' => cases hcount
    · exact countsOthers_of_position (countIn_of_position rfl)

/-- A push of the account stores nothing above a count of its own, and other steps store nothing. -/
theorem CountsOthers.congr (h : CountsOthers username d w t)
    (hstore : ∀ s, w'.store.get d s = some username → w.store.get d s = some username
      ∨ ∀ e ∈ t.countIn d, t.sender = username → ∀ floor ∈ e.2.floor?, s ≤ floor) :
    CountsOthers username d w' t := by
  intro hu e he floor hfloor
  refine ⟨fun s hs => ?_, (h hu e he floor hfloor).2⟩
  rcases hstore s hs with hs | hle
  · exact (h hu e he floor hfloor).1 s hs
  · exact hle e he hu floor hfloor

theorem countsOthers_setPoll (h : ∀ t ∈ w.polls, CountsOthers username d w t)
    (ht : CountsOthers username d w t') :
    ∀ t ∈ (w.setPoll i t').polls, CountsOthers username d (w.setPoll i t') t := by
  intro t hmem
  rcases List.mem_or_eq_of_mem_set hmem with hmem | rfl
  · exact h t hmem
  · exact ht

/-- Nothing is counted where no count is under way. -/
theorem countsOthers_of_idle (h : t.countIn d = none) : CountsOthers username d w t :=
  countsOthers_of_position (fun e he => by rw [h] at he; cases he)

theorem countsOthers_step (hh : Hidden username d w) (h : ∀ t ∈ w.polls, CountsOthers username d w t)
    (hok : CountsApart username d w l) (hs : w.StepCase l w') :
    ∀ t ∈ w'.polls, CountsOthers username d w' t := by
  cases hs with
  | push => exact h
  | pushStep hp hs =>
      cases push_cases hs with
      | stored hpoint hfree hstore =>
          subst hstore
          refine fun t ht => (h t ht).congr (fun s hs => ?_)
          rcases PacketStore.get_put_eq_some hs with ⟨hd, rfl, hu⟩ | hs
          · exact .inr (fun e he hsender => hok _ hp hu.symm hd.symm hpoint t ht hsender e he)
          · exact .inl hs
      | refused => exact h
      | frozen => exact h
      | read => exact h
      | raised => exact h
      | kept => exact h
      | found => exact h
      | nobody => exact h
      | woke => exact h
      | done => exact h
  | pushError => exact h
  | pull =>
      unfold stepPull
      dsimp only
      split
      · exact h
      · split <;> exact h
  | raiseStep hr hs => cases raise_cases hs <;> exact h
  | notify =>
      intro t ht
      rcases List.mem_append.mp ht with ht | ht
      · exact h t ht
      · cases List.mem_singleton.mp ht
        exact countsOthers_of_position (countIn_of_position rfl)
  | pollStep ht hs =>
      have htask := h _ (List.mem_of_getElem? ht)
      cases poll_cases hs with
      | scan hpoint => exact countsOthers_setPoll h (htask.stepScan hh hpoint (hok _ ht))
      | subscribe hpoint hitem =>
          rename_i item
          obtain ⟨-, hstore, -, hpolls⟩ := waker_aside w (PollTask.dialogue _ item)
          refine countsOthers_setPoll (fun t ht => ?_) (countsOthers_of_idle ?_)
          · rw [hpolls] at ht
            exact (h t ht).congr (fun s hs => .inl (by rwa [hstore] at hs))
          · unfold PollTask.countIn
            dsimp only
            rw [hpoint]
      | subscribed => exact countsOthers_setPoll h (countsOthers_of_idle rfl)
      | future hpoint =>
          refine countsOthers_setPoll h (countsOthers_of_idle ?_)
          unfold PollTask.countIn
          dsimp only
          rw [hpoint]
      | futures => exact countsOthers_setPoll h (countsOthers_of_position (countIn_of_position rfl))
      | woken => exact countsOthers_setPoll h (countsOthers_of_position (countIn_of_position rfl))
  | timeout => exact countsOthers_setPoll h (countsOthers_of_position (countIn_of_position rfl))
  | ended => exact countsOthers_setPoll h (countsOthers_of_idle rfl)
  | gc => exact h

theorem countsOthers_reachable (hon : (receipts.receiptState username d).receiptsEnabled = true)
    (hr : Lts.Reach step (fun w l => RaisesFor username d w l ∧ CountsApart username d w l)
      (init receipts) w) : ∀ t ∈ w.polls, CountsOthers username d w t := by
  have hboth := hr.invariant
    (P := fun w => Hidden username d w ∧ ∀ t ∈ w.polls, CountsOthers username d w t)
    ⟨hidden_init hon, fun _ ht => by cases ht⟩ (fun w l w' _ h hok hs => ?_)
  · exact hboth.2
  · have hcase := step_cases hs
    exact ⟨h.1.step hok.1 hcase, countsOthers_step h.1 h.2 hok.2 hcase⟩

/-- **Own packets and new ones.** As long as no position of the account goes back and no raise of it
fails, exactly the packets whose push has not raised the position yet count as new for their own
account; and if no such push overlaps a count, every count is of packets of others. -/
theorem own_never_new (hon : (receipts.receiptState username d).receiptsEnabled = true) :
    (∀ w, Lts.Reach step (RaisesFor username d) (init receipts) w → ∀ afterSeq,
      (∀ pkt ∈ w.newPackets d afterSeq username, pkt.payload ≠ username) ↔
        ∀ p ∈ w.pushes, p.sender = username → p.dialogue = d → p.point.Raising = true →
          p.seq ≤ max afterSeq (w.lastSeqOf username d))
    ∧ ∀ w, Lts.Reach step (fun w l => RaisesFor username d w l ∧ CountsApart username d w l)
        (init receipts) w →
      ∀ t ∈ w.polls, t.sender = username → ∀ item floor, t.countIn d = some (item, .scan floor) →
        ∀ pkt ∈ w.store.counted d floor, pkt.payload ≠ username := by
  refine ⟨fun w hr afterSeq => (hidden_reachable hon hr).newPackets_iff afterSeq,
    fun w hr t ht hu item floor hin pkt hpkt hown => ?_⟩
  obtain ⟨hothers, hfloor⟩ := countsOthers_reachable hon hr t ht hu _ hin floor rfl
  have hget := (PacketStore.mem_counted.mp hpkt).1
  rw [hown] at hget
  have := lt_of_counted (hfloor rfl) hpkt
  have := hothers _ hget
  omega

/-! ## A packet of one's own that is new, and one that is not -/

section Example

def aliceBob : DialogueKey := DialogueKey.new "alice" "bob"

/-- Between the steps of a push its packet is new for the account that pushed it, and a count that
has begun before finds it when the push has long been over; after a raise that was overtaken it is
new for good. -/
theorem own_new :
    (∃ w, Lts.exec step (init .empty) [.push "alice" "bob" 1, .pushStep 0 0] = some w
      ∧ w.newPackets aliceBob 0 "alice" = [⟨1, "alice"⟩])
    ∧ (∃ w, Lts.exec step (init .empty) ([.notify "alice" [⟨"bob", 0⟩] true, .pollStep 0]
          ++ wholePush "alice" "bob" 0 1 ++ List.replicate 3 (.pollStep 0)) = some w
      ∧ (w.polls.map PollTask.point) = [.answered [("bob", 1)]])
    ∧ ∃ w, Lts.exec step (init .empty) (overtaken ++ List.replicate 3 (.pushStep 0 0)) = some w
      ∧ w.newPackets aliceBob 0 "alice" = [⟨7, "alice"⟩] ∧ ∀ p ∈ w.pushes, p.point = .done :=
  ⟨⟨_, rfl, by decide⟩, ⟨_, rfl, by decide⟩, ⟨_, rfl, by decide, by decide⟩⟩

/-- Bob and Alice push, and another device of Alice's counts. -/
def countingRun : List NotifyLabel :=
  wholePush "bob" "alice" 0 1 ++ wholePush "alice" "bob" 1 2
    ++ [.notify "alice" [⟨"bob", 0⟩] true, .pollStep 0] ++ wholePush "bob" "alice" 2 3 ++ [.pollStep 0]

def countingWorld : NotifyWorld :=
  (Lts.execWhile step (fun w l => RaisesFor "alice" aliceBob w l ∧ CountsApart "alice" aliceBob w l)
    (init .empty) countingRun).getD (init .empty)

theorem own_never_new_countingRun :
    (∀ pkt ∈ countingWorld.newPackets aliceBob 0 "alice", pkt.payload ≠ "alice")
    ∧ ∀ pkt ∈ countingWorld.store.counted aliceBob 2, pkt.payload ≠ "alice" := by
  have h : (Lts.execWhile step
      (fun w l => RaisesFor "alice" aliceBob w l ∧ CountsApart "alice" aliceBob w l) (init .empty)
      countingRun).isSome = true := by decide
  have hr := Lts.reach_getD h
  have hon : (ReceiptDb.empty.receiptState "alice" aliceBob).receiptsEnabled = true := rfl
  have hrule := own_never_new hon
  refine ⟨(hrule.1 _ (hr.mono (fun _ _ hok => hok.1)) 0).mpr (by decide), ?_⟩
  exact hrule.2 _ hr _ (List.mem_singleton_self _) rfl ⟨"bob", 0⟩ 2 rfl

end Example

end NotifyWorld

end Paranoia
