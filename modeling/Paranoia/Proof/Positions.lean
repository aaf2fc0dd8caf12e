import Paranoia.Lib.Lts
import Paranoia.Server.Positions
import Paranoia.Spec

/-!
# What a read position says

The server in a world of requests: any accounts and devices push, pull, ask for maps and
for counts, opt in and out and delete ranges, in any order. The ghosts remember which
packet was accepted from whom and sent to whom, and whose packet a number holds now.

A position is one number. What holds of it in every run is that the account was sent, or
pushed itself, a packet at or above it. That all packets up to it were sent takes
discipline: who pushes has pulled first, what is pushed lands above the position of the
others, and no pull leaves out a packet below its greatest.
-/

namespace Paranoia

/-- A packet of a dialogue and the account it came from or went to. -/
structure Handover (π : Type) where
  username : String
  dialogue : DialogueKey
  pkt : RawPacket π
deriving DecidableEq

inductive ServerRequest (π : Type) where
  | push (req : PushRequest π) (now : Nat)
  | pull (req : RangeRequest) (now : Nat)
  | map (req : RangeRequest)
  | notify (req : NotifyRequest)
  | setReceiptsEnabled (username : String) (dialogue : DialogueKey) (receiptsEnabled : Bool)
      (now : Nat)
  | removeRange (dialogue : DialogueKey) (fromSeq toSeq : Nat)

structure PositionWorld (π : Type) where
  srv : PositionServer π
  pushed : List (Handover π)
  sent : List (Handover π)
  /-- Whose packet was the last one accepted at a number. -/
  author : DialogueKey → Nat → String

namespace PositionWorld

variable {π : Type}

def init (users : List String) : PositionWorld π where
  srv := ⟨⟨users, PacketStore.empty⟩, ReceiptDb.empty⟩
  pushed := []
  sent := []
  author := fun _ _ => ""

/-- Remember an accepted push. -/
def noteAccepted (w : PositionWorld π) (req : PushRequest π) : PositionWorld π :=
  { w with
    pushed := w.pushed ++ [⟨req.sender, req.dialogue, ⟨req.seq, req.payload⟩⟩]
    author := fun k s =>
      if k = req.dialogue ∧ s = req.seq then req.sender else w.author k s }

def step (w : PositionWorld π) : ServerRequest π → Option (PositionWorld π)
  | .push req now =>
      let (srv, resp) := w.srv.doPush req now
      if resp.success then some ({ w with srv := srv }.noteAccepted req)
      else some { w with srv := srv }
  | .pull req now =>
      match w.srv.doPull req now with
      | (srv, .error _) => some { w with srv := srv }
      | (srv, .ok packets) =>
          some { w with
            srv := srv
            sent := w.sent ++ packets.map (fun pkt => ⟨req.signer, req.dialogue, pkt⟩) }
  | .map _ => some w
  | .notify _ => some w
  | .setReceiptsEnabled username dialogue receiptsEnabled now =>
      some { w with
        srv := { w.srv with
          receipts := w.srv.receipts.setReceiptsEnabled username dialogue receiptsEnabled now } }
  | .removeRange dialogue fromSeq toSeq =>
      match w.srv.core.store.removeRange dialogue fromSeq toSeq with
      | .error _ => some w
      | .ok store => some { w with srv := { w.srv with core := { w.srv.core with store := store } } }

/-- A position is that of a packet the account was sent or pushed itself. -/
def Positioned (w : PositionWorld π) : Prop :=
  ∀ username dialogue, w.srv.lastSeqOf username dialogue = 0 ∨
    ∃ h, (h ∈ w.sent ∨ h ∈ w.pushed) ∧ h.username = username ∧ h.dialogue = dialogue ∧
      h.pkt.seq = w.srv.lastSeqOf username dialogue

/-- A live packet of the dialogue that someone else pushed. -/
def FromOther (w : PositionWorld π) (username : String) (dialogue : DialogueKey)
    (pkt : RawPacket π) : Prop :=
  pkt ∈ w.srv.core.store.packets dialogue ∧ w.author dialogue pkt.seq ≠ username

/-- The position of an account covers only packets that one of its devices was sent. -/
def Truthful (w : PositionWorld π) : Prop :=
  ∀ username ∈ w.srv.core.users, ∀ dialogue pkt, w.FromOther username dialogue pkt →
    pkt.seq ≤ w.srv.lastSeqOf username dialogue → ⟨username, dialogue, pkt⟩ ∈ w.sent

/-- Every packet of the dialogue below `bound` that someone else pushed was sent to the account. -/
def SentBelow (w : PositionWorld π) (username : String) (dialogue : DialogueKey) (bound : Nat)
    (sent : List (Handover π)) : Prop :=
  ∀ pkt ∈ w.srv.core.store.packets dialogue, w.author dialogue pkt.seq ≠ username →
    pkt.seq ≤ bound → ⟨username, dialogue, pkt⟩ ∈ sent

/-- The discipline of an accepted push and of an answered pull. -/
def Disciplined (w : PositionWorld π) : ServerRequest π → Prop
  | .push req _ =>
      (w.srv.core.doPush req).2.success = true →
        (∀ username ∈ w.srv.core.users, username ≠ req.sender →
          w.srv.lastSeqOf username req.dialogue < req.seq) ∧
        w.SentBelow req.sender req.dialogue req.seq w.sent
  | .pull req _ =>
      match w.srv.core.doPull req with
      | .error _ => True
      | .ok packets => ∀ bound ∈ packets.map RawPacket.seq,
          w.SentBelow req.signer req.dialogue bound
            (w.sent ++ packets.map (fun pkt => ⟨req.signer, req.dialogue, pkt⟩))
  | _ => True

instance [DecidableEq π] (w : PositionWorld π) (username : String) (dialogue : DialogueKey)
    (bound : Nat) (sent : List (Handover π)) :
    Decidable (w.SentBelow username dialogue bound sent) :=
  inferInstanceAs (Decidable (∀ _ ∈ _, _ → _ → _))

instance [DecidableEq π] (w : PositionWorld π) (l : ServerRequest π) :
    Decidable (w.Disciplined l) := by
  unfold Disciplined
  split
  · infer_instance
  · split <;> infer_instance
  · infer_instance

end PositionWorld

/-! ## Raising a position -/

/-- An update leaves the position where it was or at the number it was made with, and nobody
else's position moves. -/
theorem ReceiptDb.updateLastSeq_lastSeq (db : ReceiptDb) (username : String)
    (dialogue : DialogueKey) (pulledSeq now : Nat) (u : String) (k : DialogueKey) :
    ((db.updateLastSeq username dialogue pulledSeq now).receiptState u k).lastSeq =
        (db.receiptState u k).lastSeq ∨
      (u = username ∧ k = dialogue ∧
        ((db.updateLastSeq username dialogue pulledSeq now).receiptState u k).lastSeq =
          pulledSeq) := by
  unfold updateLastSeq ReceiptState.raised
  by_cases he : (db.receiptState username dialogue).receiptsEnabled = true
  · simp only [he, Bool.not_true, Bool.false_eq_true, ↓reduceIte]
    by_cases hk : u = username ∧ k = dialogue
    · obtain ⟨rfl, rfl⟩ := hk
      rw [receiptState_write_self]
      dsimp only
      by_cases hle : pulledSeq ≤ (db.receiptState u k).lastSeq
      · exact Or.inl (by omega)
      · exact Or.inr ⟨rfl, rfl, by omega⟩
    · exact Or.inl (by rw [receiptState_write_of_ne _ hk])
  · have he' : (db.receiptState username dialogue).receiptsEnabled = false := by simpa using he
    simp [he']

/-- Opting in or out moves no position. -/
theorem ReceiptDb.setReceiptsEnabled_lastSeq (db : ReceiptDb) (username : String)
    (dialogue : DialogueKey) (receiptsEnabled : Bool) (now : Nat) (u : String) (k : DialogueKey) :
    ((db.setReceiptsEnabled username dialogue receiptsEnabled now).receiptState u k).lastSeq =
      (db.receiptState u k).lastSeq := by
  unfold setReceiptsEnabled
  by_cases hk : u = username ∧ k = dialogue
  · obtain ⟨rfl, rfl⟩ := hk
    rw [receiptState_write_self]
    rfl
  · rw [receiptState_write_of_ne _ hk]

namespace PositionWorld

variable {π : Type} {w w' : PositionWorld π} {l : ServerRequest π} {users : List String}

/-- Positions and ghosts as before, and no new packet. -/
structure Quiet (w w' : PositionWorld π) : Prop where
  users : w'.srv.core.users = w.srv.core.users
  lastSeqOf : ∀ username dialogue,
    w'.srv.lastSeqOf username dialogue = w.srv.lastSeqOf username dialogue
  packets : ∀ dialogue pkt, pkt ∈ w'.srv.core.store.packets dialogue →
    pkt ∈ w.srv.core.store.packets dialogue
  pushed : w'.pushed = w.pushed
  sent : w'.sent = w.sent
  author : w'.author = w.author

theorem Quiet.refl (w : PositionWorld π) : Quiet w w :=
  ⟨rfl, fun _ _ => rfl, fun _ _ h => h, rfl, rfl, rfl⟩

/-- **What a request can do.** It stores a packet and raises the sender's position, answers with
packets and raises the signer's, or moves no position. -/
theorem step_cases (h : w.step l = some w') :
    (∃ req now, l = .push req now ∧ (w.srv.core.doPush req).2.success = true ∧
      w' = { w with srv := ⟨{ w.srv.core with
          store := w.srv.core.store.put req.dialogue req.seq req.payload },
        w.srv.receipts.updateLastSeq req.sender req.dialogue req.seq now⟩ }.noteAccepted req) ∨
    (∃ req now packets pulledSeq, l = .pull req now ∧ w.srv.core.doPull req = .ok packets ∧
      pulledSeq ∈ packets.map RawPacket.seq ∧
      w' = { w with
        srv := { w.srv with
          receipts := w.srv.receipts.updateLastSeq req.signer req.dialogue pulledSeq now }
        sent := w.sent ++ packets.map (fun pkt => ⟨req.signer, req.dialogue, pkt⟩) }) ∨
    Quiet w w' := by
  cases l with
  | push req now =>
      simp only [step, PositionServer.doPush] at h
      cases hdo : w.srv.core.doPush req with
      | mk core resp =>
          simp only [hdo] at h
          cases hresp : resp.success with
          | true =>
              obtain ⟨_, _, _, rfl⟩ := Server.doPush_success hdo hresp
              simp only [hresp, ↓reduceIte] at h
              cases h
              exact Or.inl ⟨req, now, rfl, by rw [hdo, hresp], rfl⟩
          | false =>
              obtain rfl := Server.doPush_failure hdo hresp
              simp only [hresp, Bool.false_eq_true, ↓reduceIte] at h
              cases h
              exact Or.inr (Or.inr (Quiet.refl w))
  | pull req now =>
      simp only [step, PositionServer.doPull] at h
      cases hpull : w.srv.core.doPull req with
      | error msg =>
          simp only [hpull] at h
          cases h
          exact Or.inr (Or.inr (Quiet.refl w))
      | ok packets =>
          simp only [hpull] at h
          cases hmax : (packets.map RawPacket.seq).max? with
          | none =>
              -- an empty answer
              obtain rfl : packets = [] := by simpa using List.max?_eq_none_iff.mp hmax
              cases h
              exact Or.inr (Or.inr ⟨rfl, fun _ _ => rfl, fun _ _ h => h, rfl,
                List.append_nil _, rfl⟩)
          | some pulledSeq =>
              simp only [hmax] at h
              cases h
              exact Or.inr (Or.inl ⟨req, now, packets, pulledSeq, rfl, hpull,
                List.max?_mem hmax, rfl⟩)
  | map req =>
      cases h
      exact Or.inr (Or.inr (Quiet.refl _))
  | notify req =>
      cases h
      exact Or.inr (Or.inr (Quiet.refl _))
  | setReceiptsEnabled username dialogue receiptsEnabled now =>
      cases h
      refine Or.inr (Or.inr ⟨rfl, fun u k => ?_, fun _ _ h => h, rfl, rfl, rfl⟩)
      exact ReceiptDb.setReceiptsEnabled_lastSeq _ _ _ _ _ u k
  | removeRange dialogue fromSeq toSeq =>
      simp only [step] at h
      split at h
      · cases h
        exact Or.inr (Or.inr (Quiet.refl _))
      · rename_i store hremove
        cases h
        refine Or.inr (Or.inr ⟨rfl, fun _ _ => rfl, fun k pkt hpkt => ?_, rfl, rfl, rfl⟩)
        exact PacketStore.mem_packets.mpr
          (PacketStore.get_of_removeRange hremove (PacketStore.mem_packets.mp hpkt))

theorem positioned_init : (init users : PositionWorld π).Positioned := fun _ _ => Or.inl rfl

/-- No request moves a position anywhere but to a packet sent or pushed. -/
theorem positioned_step (h : w.Positioned) (hs : w.step l = some w') : w'.Positioned := by
  intro username dialogue
  rcases step_cases hs with ⟨req, now, _, _, rfl⟩ | ⟨req, now, packets, pulledSeq, _, _, hmem, rfl⟩
    | hquiet
  · rcases ReceiptDb.updateLastSeq_lastSeq w.srv.receipts req.sender req.dialogue req.seq now
      username dialogue with heq | ⟨rfl, rfl, heq⟩
    · rcases h username dialogue with hz | ⟨ho, hmem, hu, hk, hseq⟩
      · exact Or.inl (heq.trans hz)
      · exact Or.inr ⟨ho, hmem.imp_right (List.mem_append_left _), hu, hk, hseq.trans heq.symm⟩
    · exact Or.inr ⟨⟨req.sender, req.dialogue, ⟨req.seq, req.payload⟩⟩,
        Or.inr (List.mem_append_right _ (List.mem_singleton_self _)), rfl, rfl, heq.symm⟩
  · rcases ReceiptDb.updateLastSeq_lastSeq w.srv.receipts req.signer req.dialogue pulledSeq now
      username dialogue with heq | ⟨rfl, rfl, heq⟩
    · rcases h username dialogue with hz | ⟨ho, hmem, hu, hk, hseq⟩
      · exact Or.inl (heq.trans hz)
      · exact Or.inr ⟨ho, hmem.imp_left (List.mem_append_left _), hu, hk, hseq.trans heq.symm⟩
    · obtain ⟨pkt, hpkt, rfl⟩ := List.mem_map.mp hmem
      exact Or.inr ⟨⟨req.signer, req.dialogue, pkt⟩,
        Or.inl (List.mem_append_right _ (List.mem_map_of_mem hpkt)), rfl, rfl, heq.symm⟩
  · rw [hquiet.lastSeqOf, hquiet.sent, hquiet.pushed]
    exact h username dialogue

theorem truthful_init : (init users : PositionWorld π).Truthful := by
  intro username _ dialogue pkt hother
  have hget := PacketStore.mem_packets.mp hother.1
  cases hget

/-- A disciplined request keeps the positions truthful. -/
theorem truthful_step (h : w.Truthful) (hok : w.Disciplined l) (hs : w.step l = some w') :
    w'.Truthful := by
  intro username huser dialogue pkt hother hle
  rcases step_cases hs with ⟨req, now, rfl, hsuccess, rfl⟩ |
    ⟨req, now, packets, pulledSeq, rfl, hpull, hmem, rfl⟩ | hquiet
  · obtain ⟨habove, hbelow⟩ := hok hsuccess
    obtain ⟨hpkt, hauthor⟩ := hother
    simp only [noteAccepted] at hauthor hle ⊢
    by_cases hnew : dialogue = req.dialogue ∧ pkt.seq = req.seq
    · -- the packet just stored lies above the position of everyone else
      obtain ⟨rfl, hseq⟩ := hnew
      rw [if_pos ⟨rfl, hseq⟩] at hauthor
      have hlt := habove username huser (Ne.symm hauthor)
      rcases ReceiptDb.updateLastSeq_lastSeq w.srv.receipts req.sender req.dialogue req.seq now
        username req.dialogue with heq | ⟨rfl, _, _⟩
      · unfold PositionServer.lastSeqOf at hle hlt
        dsimp only at hle
        omega
      · exact absurd rfl hauthor
    · rw [if_neg hnew] at hauthor
      have hold : pkt ∈ w.srv.core.store.packets dialogue := by
        have hget : (w.srv.core.store.put req.dialogue req.seq req.payload).get dialogue pkt.seq =
            some pkt.payload := PacketStore.mem_packets.mp hpkt
        rw [PacketStore.get_put_of_ne _ _ (not_and_or.mp hnew)] at hget
        exact PacketStore.mem_packets.mpr hget
      rcases ReceiptDb.updateLastSeq_lastSeq w.srv.receipts req.sender req.dialogue req.seq now
        username dialogue with heq | ⟨rfl, rfl, heq⟩
      · refine h username huser dialogue pkt ⟨hold, hauthor⟩ ?_
        unfold PositionServer.lastSeqOf at hle ⊢
        dsimp only at hle
        omega
      · refine hbelow pkt hold hauthor ?_
        unfold PositionServer.lastSeqOf at hle
        dsimp only at hle
        omega
  · unfold Disciplined at hok
    simp only [hpull] at hok
    rcases ReceiptDb.updateLastSeq_lastSeq w.srv.receipts req.signer req.dialogue pulledSeq now
      username dialogue with heq | ⟨rfl, rfl, heq⟩
    · refine List.mem_append_left _ (h username huser dialogue pkt hother ?_)
      unfold PositionServer.lastSeqOf at hle ⊢
      dsimp only at hle
      omega
    · refine hok pulledSeq hmem pkt hother.1 hother.2 ?_
      unfold PositionServer.lastSeqOf at hle
      dsimp only at hle
      omega
  · rw [hquiet.sent]
    rw [hquiet.lastSeqOf] at hle
    refine h username (hquiet.users ▸ huser) dialogue pkt ⟨hquiet.packets _ _ hother.1, ?_⟩ hle
    rw [← hquiet.author]
    exact hother.2

theorem positioned_reachable (hr : Lts.Reach step (fun _ _ => True) (init users) w) :
    w.Positioned :=
  hr.invariant positioned_init (fun _ _ _ _ h _ hs => positioned_step h hs)

theorem truthful_reachable (hr : Lts.Reach step Disciplined (init users) w) : w.Truthful :=
  hr.invariant truthful_init (fun _ _ _ _ h hok hs => truthful_step h hok hs)

/-- A count is positive while a live packet lies above everything the account was sent or pushed
and above the cursor it asks with. -/
theorem doNotify_pos (h : w.Positioned) {req : NotifyRequest} {count s : Nat}
    (hn : w.srv.doNotify req = .ok count) (hs : s ∈ w.srv.core.store.live req.dialogue)
    (hseq : req.seq < s)
    (habove : ∀ o, o ∈ w.sent ∨ o ∈ w.pushed → o.username = req.sender →
      o.dialogue = req.dialogue → o.pkt.seq < s) : 0 < count := by
  have hlast : w.srv.lastSeqOf req.sender req.dialogue < s := by
    rcases h req.sender req.dialogue with hz | ⟨o, hmem, hu, hk, ho⟩
    · omega
    · have := habove o hmem hu hk
      omega
  unfold PositionServer.doNotify at hn
  split at hn
  · cases hn
  · split at hn
    · cases hn
    · split at hn
      · cases hn
      · cases hn
        exact PositionServer.countNewForUser_pos hs hseq hlast

/-- **What a read position says.** In every run it is the number of a packet the account was sent
or pushed, so counts stop only for what lies below such a packet; and in a disciplined run
it covers only packets the account was sent. -/
theorem positions_reachable (hr : Lts.Reach step (fun _ _ => True) (init users) w) :
    (∀ username dialogue s, 0 < s → s ≤ w.srv.lastSeqOf username dialogue →
      ∃ o, (o ∈ w.sent ∨ o ∈ w.pushed) ∧ o.username = username ∧ o.dialogue = dialogue ∧
        s ≤ o.pkt.seq) ∧
    (∀ req count s, w.srv.doNotify req = .ok count → s ∈ w.srv.core.store.live req.dialogue →
      req.seq < s →
      (∀ o, o ∈ w.sent ∨ o ∈ w.pushed → o.username = req.sender → o.dialogue = req.dialogue →
        o.pkt.seq < s) → 0 < count) ∧
    (Lts.Reach step Disciplined (init users) w → w.Truthful) := by
  have h := positioned_reachable hr
  refine ⟨?_, fun _ _ _ => doNotify_pos h, truthful_reachable⟩
  intro username dialogue s hpos hle
  rcases h username dialogue with hz | ⟨o, hmem, hu, hk, ho⟩
  · omega
  · exact ⟨o, hmem, hu, hk, by omega⟩

/-! ## A pull that leaves something out -/

/-- Alice's packets at `1` and `2`. -/
def twoPackets : List (ServerRequest Nat) :=
  [.push ⟨"alice", "bob", 1, 10, "alice"⟩ 0, .push ⟨"alice", "bob", 2, 20, "alice"⟩ 0]

/-- Bob pulls both. -/
def bothPulled : PositionWorld Nat :=
  (Lts.execWhile step Disciplined (init ["alice", "bob"]) (twoPackets ++
    [.pull ⟨"alice", "bob", 0, 2, "bob"⟩ 0])).getD (init ["alice", "bob"])

theorem positions_bothPulled :
    bothPulled.srv.lastSeqOf "bob" ⟨"alice", "bob"⟩ = 2 ∧ bothPulled.Truthful := by
  have hr : Lts.Reach step Disciplined (init ["alice", "bob"]) bothPulled :=
    Lts.reach_getD (by decide)
  exact ⟨by decide, (positions_reachable (hr.mono (fun _ _ _ => trivial))).2.2 hr⟩

/-- Bob asks for the packet at `2` alone, and his position covers the one at `1` as well. -/
theorem position_over_unsent :
    ¬ ∀ w : PositionWorld Nat, Lts.Reach step (fun _ _ => True) (init ["alice", "bob"]) w →
      w.Truthful := by
  intro h
  have hrun : (Lts.execWhile step (fun _ _ => True) (init ["alice", "bob"]) (twoPackets ++
      [.pull ⟨"alice", "bob", 1, 2, "bob"⟩ 0])).isSome = true := by decide
  have hmem := h _ (Lts.reach_getD hrun) "bob" (by decide) ⟨"alice", "bob"⟩ ⟨1, 10⟩
    ⟨by decide, by decide⟩ (by decide)
  revert hmem
  decide

end PositionWorld

end Paranoia
