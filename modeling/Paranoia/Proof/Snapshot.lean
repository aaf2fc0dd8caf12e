import Paranoia.Proof.History

/-!
# Map and cursor

The server answers a map request from two reads, a range scan and then the
greatest live number, and the client finally raises its cursor to that number. A
push that falls between the two reads is in no run and yet at or below the number
read: the cursor passes over it (`snapshot_lost_between_reads`).

That is the only way a live packet is passed over. If every push lands where no
cursor and no running `receive` of a device is past it, whatever is live at or
below a cursor was pulled by that device, or is announced by a header it pulled
(`nothingSkipped_reachable`). The packets of an announced body need no landing:
they are dealt with together with their header.
-/

namespace Paranoia

variable {κ π : Type} {n : Nat} [Aead κ π]

/-- A live header that is itself in no announced body announces the number. -/
def Client.Announced (c : Client κ) (ps : PacketStore π) (s : Nat) : Prop :=
  ∃ h ∈ ps.packets c.key, c.announces h s = true
    ∧ ∀ h' ∈ ps.packets c.key, c.announces h' h.seq = false

instance (c : Client κ) (ps : PacketStore π) (s : Nat) : Decidable (c.Announced ps s) :=
  inferInstanceAs (Decidable (∃ h ∈ _, _))

/-- A live packet that has to be pulled on its own. -/
def Client.NeedsPull (c : Client κ) (ps : PacketStore π) (s : Nat) : Prop :=
  s ∈ ps.live c.key ∧ ¬ c.Announced ps s

instance (c : Client κ) (ps : PacketStore π) (s : Nat) : Decidable (c.NeedsPull ps s) :=
  inferInstanceAs (Decidable (_ ∧ _))

namespace World

variable (cfg : Setup κ n) (w : World π n)

/-- The device pulled a packet with this number, or a header that announces it. -/
def Seen (d : Fin n) (s : Nat) : Prop :=
  ∃ pkt ∈ w.pulled d, pkt.seq = s ∨ (cfg.device d).announces pkt s = true

/-- Neither the cursor of the device nor a `receive` running on it is past the number. -/
def Lands (d : Fin n) (s : Nat) : Prop :=
  w.cursor cfg d < s ∧ ∀ rx ∈ w.receiving d, rx.run.Ahead s ∨ rx.run.Beyond s

instance (d : Fin n) (s : Nat) : Decidable (w.Seen cfg d s) :=
  inferInstanceAs (Decidable (∃ pkt ∈ _, _))

instance (d : Fin n) (s : Nat) : Decidable (w.Lands cfg d s) :=
  inferInstanceAs (Decidable (_ ∧ ∀ rx ∈ _, _))

/-- What has to be pulled because of this push has been, or lands ahead of everything that
could pass over it. -/
def Clear (req : PushRequest π) : Prop :=
  ∀ d, ∀ s ∈ (w.server.doPush req).1.store.live cfg.key,
    (cfg.device d).NeedsPull (w.server.doPush req).1.store s →
    (cfg.device d).NeedsPull w.server.store s ∨ w.Seen cfg d s ∨ w.Lands cfg d s

instance (req : PushRequest π) : Decidable (w.Clear cfg req) :=
  inferInstanceAs (Decidable (∀ _, ∀ s ∈ _, _))

/-- The steps of an honest server that deletes nothing, with clear pushes. -/
def ClearStep (l : Label π n) : Prop :=
  l.isRelay = false ∧ l.isRemoval = false ∧ ∀ a ∈ w.incoming l, w.Clear cfg a.2

instance (l : Label π n) : Decidable (w.ClearStep cfg l) :=
  inferInstanceAs (Decidable (_ ∧ _ ∧ _))

/-- Every live packet at or below a cursor was pulled, or is announced by a pulled header. -/
def NothingSkipped : Prop :=
  ∀ d s data, w.server.store.get cfg.key s = some data → s ≤ w.cursor cfg d →
    ⟨s, data⟩ ∈ w.pulled d ∨ ∃ pkt ∈ w.pulled d, (cfg.device d).announces pkt s = true

/-! ## The invariant -/

/-- What a run of clear steps keeps. -/
structure Snapshot : Prop where
  range : ∀ s ∈ w.server.store.live cfg.key, s < u64Size
  positive : ∀ d s, (cfg.device d).NeedsPull w.server.store s → 0 < s
  held : w.Held
  genuine : ∀ d, ∀ pkt ∈ w.pulled d, 0 < pkt.seq
    ∧ w.server.store.get cfg.key pkt.seq = some pkt.payload
  tracks : Tracks cfg w (fun d s => (cfg.device d).NeedsPull w.server.store s) (w.Seen cfg)
    (fun _ _ _ => True)

variable {cfg : Setup κ n} {w w' : World π n} {l : Label π n}

theorem snapshot_init : Snapshot cfg (init cfg : World π n) where
  range _ hs := absurd hs List.not_mem_nil
  positive _ _ hs := absurd hs.1 List.not_mem_nil
  held _ _ hrx := absurd hrx List.not_mem_nil
  genuine _ _ hp := absurd hp List.not_mem_nil
  tracks :=
    { cursor := fun _ _ hs => absurd hs.1 List.not_mem_nil
      running := fun _ _ hrx => absurd hrx List.not_mem_nil }

theorem Seen.mono (hc : Continues w w') {d : Fin n} {s : Nat} (h : w.Seen cfg d s) :
    w'.Seen cfg d s := by
  obtain ⟨pkt, hp, h⟩ := h
  exact ⟨pkt, hc.pulled hp, h⟩

/-- The server after an honest step that deletes nothing is the one after the push it brings, if
it brings one. -/
theorem packets_step (h : StepCase cfg w l w') (hrem : l.isRemoval = false) :
    w'.server.store = w.server.store ∨ ∃ a, w.incoming l = some a
      ∧ w'.server.store = (w.server.doPush a.2).1.store
      ∧ w'.server.store = w.server.store.put a.2.dialogue a.2.seq a.2.payload
      ∧ a.2.seq < u64Size ∧ w.server.store.get a.2.dialogue a.2.seq = none := by
  cases server_step h with
  | quiet hserver => exact Or.inl (by rw [hserver])
  | same hserver => exact Or.inl (by rw [hserver])
  | @stored job req hin hacc hlt _ hfree hserver =>
      refine Or.inr ⟨_, hin, ?_, hserver, hlt, hfree⟩
      obtain ⟨_, _, _, hput⟩ := Server.doPush_success (h := Prod.mk.eta.symm) hacc
      rw [hserver, hput]
  | removed hl => simp [hl, Label.isRemoval] at hrem

theorem snapshot_step (h : StepCase cfg w l w') (hok : w.ClearStep cfg l)
    (hi : Snapshot cfg w) : Snapshot cfg w' := by
  obtain ⟨hrelay, hrem, hclear⟩ := hok
  have hcont := continues_step h
  have hstore := packets_step h hrem
  -- packets stay
  have hkeep : ∀ s data, w.server.store.get cfg.key s = some data →
      w'.server.store.get cfg.key s = some data := by
    intro s data hget
    rcases hstore with he | ⟨a, _, _, he, _, hfree⟩
    · rw [he]
      exact hget
    · rw [he, PacketStore.get_put_of_ne]
      · exact hget
      · by_contra hne
        obtain ⟨hd, hs⟩ := not_or.mp hne
        rw [not_not.mp hd, not_not.mp hs, hfree] at hget
        cases hget
  have hgenuine : ∀ d, ∀ pkt ∈ w'.pulled d, 0 < pkt.seq
      ∧ w.server.store.get cfg.key pkt.seq = some pkt.payload :=
    fun d pkt hp => (pulled_step h hrelay hp).elim (hi.genuine d pkt) id
  -- what begins to need a pull has been seen or lands
  have hnew : ∀ d s, (cfg.device d).NeedsPull w'.server.store s →
      (cfg.device d).NeedsPull w.server.store s ∨ w.Seen cfg d s ∨ w.Lands cfg d s := by
    intro d s hs
    rcases hstore with he | ⟨a, hin, he, _⟩
    · exact Or.inl (he ▸ hs)
    · have hs' := he ▸ hs
      have hmem := hs'.1
      rw [cfg.shared] at hmem
      exact hclear a hin d s hmem hs'
  have hpos : ∀ d s, (cfg.device d).NeedsPull w'.server.store s → 0 < s := by
    intro d s hs
    rcases hnew d s hs with h' | ⟨pkt, hp, rfl | ha⟩ | h'
    · exact hi.positive d s h'
    · exact (hi.genuine d pkt hp).1
    · exact Nat.zero_lt_of_lt (Client.announces_lt ha)
    · exact Nat.zero_lt_of_lt h'.1
  refine ⟨?_, hpos, held_step h hrelay hi.held, ?_, ?_⟩
  · intro s hs
    rcases hstore with he | ⟨a, _, _, he, hlt, _⟩
    · exact hi.range s (he ▸ hs)
    · obtain ⟨data, hget⟩ := PacketStore.mem_live.mp hs
      rw [he] at hget
      rcases PacketStore.get_put_eq_some hget with ⟨_, rfl, _⟩ | hget
      · exact hlt
      · exact hi.range s (PacketStore.mem_live.mpr ⟨data, hget⟩)
  · exact fun d pkt hp => ⟨(hgenuine d pkt hp).1, hkeep _ _ (hgenuine d pkt hp).2⟩
  · refine tracks_step h hrelay hi.tracks ?_ hpos ?_ (fun _ _ _ h => h) ?_ ?_ ?_
    · intro d s hs
      have hmem := hs.1
      rw [cfg.shared] at hmem
      exact ⟨hi.positive d s hs, hi.range s hmem, hmem⟩
    · exact fun d s _ hs => hs.mono hcont
    · intro d s hs
      refine (hnew d s hs).imp_right (Or.imp (Seen.mono hcont) (fun h' => ⟨h'.1, ?_⟩))
      exact fun rx hrx => (h'.2 rx hrx).imp_right (fun hb => ⟨hb, trivial⟩)
    · intro hserver d s hs
      exact Or.inl (hserver ▸ hs)
    · intro d rx hrx rx' _ now pkt queue batchEnd stop todo hpoint target own skipUntil counted
        hstep _
      have hpkt : pkt ∈ rx.run.queue := by simp [Receive.queue, hpoint]
      have hp : pkt ∈ w'.pulled d := hcont.pulled (hi.held d rx hrx pkt hpkt)
      exact ⟨fun _ => ⟨pkt, hp, Or.inl rfl⟩,
        fun s hlt hle _ => ⟨pkt, hp, Or.inr (hstep.announces hlt hle)⟩⟩

/-- What the invariant says about cursors. -/
theorem Snapshot.nothingSkipped (hi : Snapshot cfg w) : w.NothingSkipped cfg := by
  intro d s data hget hle
  have hpacket : ∀ pkt ∈ w.pulled d, pkt ∈ w.server.store.packets (cfg.device d).key := by
    intro pkt hp
    rw [PacketStore.mem_packets, cfg.shared]
    exact (hi.genuine d pkt hp).2
  have hlive : s ∈ w.server.store.live (cfg.device d).key := by
    rw [cfg.shared]
    exact PacketStore.mem_live.mpr ⟨data, hget⟩
  by_cases ha : (cfg.device d).Announced w.server.store s
  · -- the announcing header is itself to be pulled, and lies below the cursor
    obtain ⟨h, hh, has, htop⟩ := ha
    have hhget := PacketStore.mem_packets.mp hh
    have hneeds : (cfg.device d).NeedsPull w.server.store h.seq := by
      refine ⟨PacketStore.mem_live.mpr ⟨_, hhget⟩, ?_⟩
      rintro ⟨h', hh', ha', _⟩
      rw [htop h' hh'] at ha'
      cases ha'
    have hlt := Client.announces_lt has
    obtain ⟨pkt, hp, hseq | ha'⟩ := hi.tracks.cursor d h.seq hneeds (by omega)
    · refine Or.inr ⟨pkt, hp, ?_⟩
      have hpget := PacketStore.mem_packets.mp (hpacket pkt hp)
      rw [hseq, hhget] at hpget
      obtain rfl : pkt = h := by
        cases pkt
        cases h
        cases hseq
        cases hpget
        rfl
      exact has
    · rw [htop pkt (hpacket pkt hp)] at ha'
      cases ha'
  · obtain ⟨pkt, hp, rfl | ha'⟩ := hi.tracks.cursor d s ⟨hlive, ha⟩ hle
    · left
      have hpget := (hi.genuine d pkt hp).2
      rw [hget] at hpget
      cases hpget
      exact hp
    · exact Or.inr ⟨pkt, hp, ha'⟩

/-- **No live packet is passed over**, in any run whose pushes are clear. -/
theorem nothingSkipped_reachable
    (hr : Lts.Reach (step cfg) (fun w l => w.ClearStep cfg l) (init cfg) w) :
    w.NothingSkipped cfg := by
  have hi : Snapshot cfg w :=
    hr.invariant snapshot_init (fun _ _ _ _ hi hok hs => snapshot_step (step_inv hs) hok hi)
  exact hi.nothingSkipped

/-- Alice sends a message, and Bob receives it while the map of his `receive` grows. -/
def received : List (Label Sealed 3) :=
  Sample.sends 0 0 "m1" ++ [.start 1 .receive] ++ Sample.sends 0 2 "m2" ++
    [.scan 1, .lastSeq 1] ++ Sample.steps 1 1 ++ [.pull 1] ++ Sample.steps 1 7

theorem nothingSkipped_received :
    (Lts.execWhile (step Sample.setup) (fun w l => w.ClearStep Sample.setup l) (init Sample.setup)
      received).isSome = true
    ∧ NothingSkipped Sample.setup ((Lts.execWhile (step Sample.setup)
        (fun w l => w.ClearStep Sample.setup l) (init Sample.setup) received).getD
          (init Sample.setup)) :=
  ⟨by decide, nothingSkipped_reachable (Lts.reach_getD (by decide))⟩

/-! ## A push between the two reads -/

/-- Alice's second message is accepted after the scan for Bob's map and before the greatest number
is read for it. -/
def betweenReads : List (Label Sealed 3) :=
  Sample.sends 0 0 "m1" ++ [.start 1 .receive, .scan 1] ++ Sample.sends 0 2 "m2" ++
    [.lastSeq 1] ++ Sample.steps 1 1 ++ [.pull 1] ++ Sample.steps 1 5

/-- Bob's cursor is `2`, and the packet at `2` was not pulled and lies in no body. -/
theorem snapshot_lost_between_reads :
    ¬ ∀ w : World Sealed 3, Lts.Reach (step Sample.setup)
      (fun _ l => l.isRelay = false ∧ l.isRemoval = false) (init Sample.setup) w →
      w.NothingSkipped Sample.setup := by
  intro h
  have hrun : (Lts.execWhile (step Sample.setup)
      (fun _ l => l.isRelay = false ∧ l.isRemoval = false) (init Sample.setup)
      betweenReads).isSome = true := by decide
  rcases h _ (Lts.reach_getD hrun) 1 2 ⟨7, 0, ⟨"m2", 0, "alice", .text "m2", none⟩⟩ (by decide)
    (by decide) with hp | hp
  · revert hp
    decide
  · revert hp
    decide

end World

end Paranoia
