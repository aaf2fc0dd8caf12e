import Paranoia.Client.Jitter

/-!
# The order of what is played

While a number is due, nothing below it is kept and nothing above it has been played. When the buffer
starts anew it has forgotten what was due: from then until its next frame only what it keeps and what
comes in says where it goes on, so the order holds as long as nothing comes in there that is older
than what was played.
-/

namespace Paranoia

namespace Jitter

variable {jb : Jitter} {seq : Nat} {opus : Bytes}

/-- What a push leaves of the entries, and what it adds. -/
theorem mem_push {e : Nat × Bytes}
    (h : e ∈ (jb.push seq opus).items.entries) :
    e ∈ jb.items.entries ∨ (e = (seq, opus) ∧ ∀ exp, jb.expected = some exp → exp ≤ seq) := by
  unfold push at h
  split at h
  · exact .inl h
  · rename_i hlate
    split at h
    · exact .inl h
    · rcases OrdMap.mem_put.mp h with rfl | ⟨hold, -⟩
      · refine .inr ⟨rfl, fun exp hexp => ?_⟩
        rw [hexp] at hlate
        simpa using hlate
      · refine .inl ?_
        split at hold
        · exact (OrdMap.mem_eraseWhere.mp hold).1
        · exact hold

theorem push_fixed (jb : Jitter) (seq : Nat) (opus : Bytes) :
    (jb.push seq opus).maxDepth = jb.maxDepth ∧ (jb.push seq opus).expected = jb.expected := by
  unfold push
  split
  · exact ⟨rfl, rfl⟩
  · split <;> exact ⟨rfl, rfl⟩

/-- The oldest frame makes room. -/
theorem length_push (h : jb.items.entries.length ≤ jb.maxDepth)
    (hpos : 1 ≤ jb.maxDepth) : (jb.push seq opus).items.entries.length ≤ jb.maxDepth := by
  unfold push
  split
  · exact h
  · split
    · exact h
    · refine Nat.le_trans (OrdMap.length_put_le _ _ _) ?_
      split
      · cases hfirst : jb.items.firstKey? with
        | none =>
            have hnil := List.map_eq_nil_iff.mp (OrdMap.firstKey?_eq_none.mp hfirst)
            have hzero : (jb.items.eraseWhere (fun k => some k = none)).entries.length = 0 := by
              simp [OrdMap.eraseWhere, hnil]
            omega
        | some first =>
            have hlt := OrdMap.length_eraseWhere_lt (p := fun k => some k = some first)
              (OrdMap.firstKey?_mem hfirst) (by simp)
            omega
      · omega

end Jitter

namespace JitterRun

variable {run : JitterRun} {buffer : Jitter} {seq exp : Nat} {opus : Bytes}

/-- The invariant. -/
structure Ordered (run : JitterRun) : Prop where
  increasing : (run.popped.map (·.1)).Pairwise (· > ·)
  pushed : ∀ p ∈ run.popped, p ∈ run.pushed
  stored : ∀ p ∈ run.buffer.items.entries, p ∈ run.pushed
  depth : run.buffer.items.entries.length ≤ run.buffer.maxDepth
  /-- What is kept comes after all that was played. -/
  later : ∀ p ∈ run.popped, ∀ k ∈ run.buffer.items.keys, p.1 < k
  due : ∀ exp, run.buffer.expected = some exp →
    (∀ p ∈ run.popped, p.1 < exp) ∧ ∀ k ∈ run.buffer.items.keys, exp ≤ k
  depth_pos : 1 ≤ run.buffer.maxDepth

theorem Ordered.inOrder (h : run.Ordered) : run.InOrder := ⟨h.increasing, h.pushed, h.depth⟩

theorem Ordered.init (hitems : buffer.items = .empty) (hexp : buffer.expected = none)
    (hdepth : 1 ≤ buffer.maxDepth) : (init buffer).Ordered where
  increasing := List.Pairwise.nil
  pushed _ hp := absurd hp List.not_mem_nil
  stored p hp := by
    rw [show (JitterRun.init buffer).buffer.items = .empty from hitems] at hp
    exact absurd hp List.not_mem_nil
  depth := by
    rw [show (JitterRun.init buffer).buffer.items = .empty from hitems]
    exact Nat.zero_le _
  later _ hp := absurd hp List.not_mem_nil
  due exp h := by
    rw [show (JitterRun.init buffer).buffer.expected = none from hexp] at h
    cases h
  depth_pos := hdepth

/-! ## A frame comes in -/

theorem Ordered.push (h : run.Ordered) (hallowed : run.NotPlayed seq) :
    ({ run with
      buffer := run.buffer.push seq opus, pushed := (seq, opus) :: run.pushed } :
        JitterRun).Ordered := by
  obtain ⟨hdepth, hexp⟩ := Jitter.push_fixed run.buffer seq opus
  -- the new frame comes after all that was played
  have hnew : (∀ exp, run.buffer.expected = some exp → exp ≤ seq) →
      ∀ p ∈ run.popped, p.1 < seq := by
    intro hdue p hp
    cases he : run.buffer.expected with
    | none => exact hallowed he p hp
    | some exp => exact Nat.lt_of_lt_of_le ((h.due exp he).1 p hp) (hdue exp he)
  constructor
  · exact h.increasing
  · exact fun p hp => List.mem_cons_of_mem _ (h.pushed p hp)
  · intro p hp
    rcases Jitter.mem_push hp with hold | ⟨rfl, -⟩
    · exact List.mem_cons_of_mem _ (h.stored p hold)
    · exact List.mem_cons_self
  · exact hdepth ▸ Jitter.length_push h.depth h.depth_pos
  · intro p hp k hk
    obtain ⟨e, he, rfl⟩ := List.mem_map.mp hk
    rcases Jitter.mem_push he with hold | ⟨rfl, hdue⟩
    · exact h.later p hp _ (List.mem_map_of_mem hold)
    · exact hnew hdue p hp
  · intro exp he
    rw [show ({ run with buffer := run.buffer.push seq opus, pushed := (seq, opus) :: run.pushed } :
      JitterRun).buffer.expected = run.buffer.expected from hexp] at he
    refine ⟨(h.due exp he).1, fun k hk => ?_⟩
    obtain ⟨e, he', rfl⟩ := List.mem_map.mp hk
    rcases Jitter.mem_push he' with hold | ⟨rfl, hdue⟩
    · exact (h.due exp he).2 _ (List.mem_map_of_mem hold)
    · exact hdue exp he
  · exact hdepth ▸ h.depth_pos

/-! ## A tick -/

theorem Ordered.popAt (h : run.Ordered) (hlow : ∀ p ∈ run.popped, p.1 < exp)
    (hhigh : ∀ k ∈ run.buffer.items.keys, exp ≤ k) {jb : Jitter}
    (hjb : jb = { run.buffer with expected := some exp }) :
    match jb.popAt exp with
    | (.frame opus, buffer) =>
        ({ run with buffer := buffer, popped := (exp, opus) :: run.popped } : JitterRun).Ordered
    | (_, buffer) => ({ run with buffer := buffer } : JitterRun).Ordered := by
  subst hjb
  unfold Jitter.popAt
  dsimp only
  cases hget : run.buffer.items.get? exp with
  | some opus =>
      have hkeys : ∀ k ∈ (run.buffer.items.eraseWhere (fun k => k = exp)).keys,
          k ∈ run.buffer.items.keys ∧ k ≠ exp := by
        intro k hk
        obtain ⟨hmem, hne⟩ := OrdMap.mem_keys_eraseWhere.mp hk
        exact ⟨hmem, by simpa using hne⟩
      have hin := h.stored _ (OrdMap.get?_eq_some.mp hget)
      dsimp only
      constructor
      · refine List.pairwise_cons.mpr ⟨fun n hn => ?_, h.increasing⟩
        obtain ⟨p, hp, rfl⟩ := List.mem_map.mp hn
        exact hlow p hp
      · intro p hp
        rcases List.mem_cons.mp hp with rfl | hp
        · exact hin
        · exact h.pushed p hp
      · exact fun p hp => h.stored p (OrdMap.mem_eraseWhere.mp hp).1
      · exact Nat.le_trans (List.length_filter_le _ _) h.depth
      · intro p hp k hk
        obtain ⟨hmem, hne⟩ := hkeys k hk
        rcases List.mem_cons.mp hp with rfl | hp
        · exact Nat.lt_of_le_of_ne (hhigh k hmem) (Ne.symm hne)
        · exact h.later p hp k hmem
      · intro exp' he
        cases he
        refine ⟨fun p hp => ?_, fun k hk => ?_⟩
        · rcases List.mem_cons.mp hp with rfl | hp
          · exact Nat.lt_succ_self _
          · exact Nat.lt_succ_of_lt (hlow p hp)
        · obtain ⟨hmem, hne⟩ := hkeys k hk
          exact Nat.lt_of_le_of_ne (hhigh k hmem) (Ne.symm hne)
      · exact h.depth_pos
  | none =>
      dsimp only
      by_cases hlater : run.buffer.items.firstKey?.any (fun k => decide (exp < k)) = true
      · rw [if_pos hlater]
        -- all that is kept is later than the number that is due
        have habove : ∀ k ∈ run.buffer.items.keys, exp + 1 ≤ k := by
          intro k hk
          obtain ⟨first, hfirst, hlt⟩ := (Option.any_eq_true _ _).mp hlater
          exact Nat.lt_of_lt_of_le (of_decide_eq_true hlt) (OrdMap.firstKey?_le hfirst hk)
        by_cases hstreak : run.buffer.plcStreak + 1 > run.buffer.maxPlcStreak
        · rw [if_pos hstreak]
          refine ⟨h.increasing, h.pushed, h.stored, h.depth, h.later, fun exp' he => ?_,
            h.depth_pos⟩
          cases he
        · rw [if_neg hstreak]
          refine ⟨h.increasing, h.pushed, h.stored, h.depth, h.later, fun exp' he => ?_,
            h.depth_pos⟩
          cases he
          exact ⟨fun p hp => Nat.lt_succ_of_lt (hlow p hp), habove⟩
      · rw [if_neg hlater]
        refine ⟨h.increasing, h.pushed, h.stored, h.depth, h.later, fun exp' he => ?_, h.depth_pos⟩
        cases he
        exact ⟨hlow, hhigh⟩

/-- **One tick.** -/
theorem Ordered.tick {run' : JitterRun} (h : run.Ordered) (ht : run.tick Jitter.popNext = some run') :
    run'.Ordered := by
  -- where a number is due, the tick is at that number
  have hat : ∀ exp jb, jb = { run.buffer with expected := some exp } → run.buffer.due = some exp →
      run.buffer.popNext = some (jb.popAt exp) → (∀ p ∈ run.popped, p.1 < exp) →
      (∀ k ∈ run.buffer.items.keys, exp ≤ k) → run'.Ordered := by
    intro exp jb hjb hdue hpop hlow hhigh
    have hnext := h.popAt hlow hhigh hjb
    unfold JitterRun.tick at ht
    rw [hpop] at ht
    rcases hout : jb.popAt exp with ⟨out, buffer⟩
    rw [hout] at ht hnext
    cases out with
    | frame opus =>
        rw [hdue] at ht
        cases ht
        exact hnext
    | plc =>
        cases ht
        exact hnext
    | wait =>
        cases ht
        exact hnext
  cases hexp : run.buffer.expected with
  | some exp =>
      refine hat exp run.buffer ?_ ?_ ?_ (h.due exp hexp).1 (h.due exp hexp).2
      · rw [← hexp]
      · rw [Jitter.due, hexp]
        rfl
      · rw [Jitter.popNext, hexp]
  | none =>
      by_cases hdelay : run.buffer.items.entries.length < run.buffer.initialDelay
      · -- the buffer does not start yet
        unfold JitterRun.tick Jitter.popNext at ht
        rw [hexp] at ht
        dsimp only at ht
        rw [if_pos hdelay] at ht
        cases ht
        exact h
      · cases hfirst : run.buffer.items.firstKey? with
        | none =>
            unfold JitterRun.tick Jitter.popNext at ht
            rw [hexp] at ht
            dsimp only at ht
            rw [if_neg hdelay, hfirst] at ht
            cases ht
        | some first =>
            refine hat first _ rfl ?_ ?_
              (fun p hp => h.later p hp first (OrdMap.firstKey?_mem hfirst))
              (fun k hk => OrdMap.firstKey?_le hfirst hk)
            · rw [Jitter.due, hexp, hfirst]
              rfl
            · rw [Jitter.popNext, hexp]
              dsimp only
              rw [if_neg hdelay, hfirst]
              rfl

/-! ## Runs -/

/-- The buffer of the library. -/
theorem Ordered.reach {cfg : JitterConfig} (hdepth : 1 ≤ cfg.maxDepth)
    (h : Lts.Reach step Allowed (JitterRun.init (JitterBuffer.new cfg)) run) : run.Ordered := by
  refine h.invariant (Ordered.init rfl rfl hdepth) (fun run l run' _ hinv hok hs => ?_)
  cases l with
  | push seq opus =>
      cases hs
      exact hinv.push hok
  | popNext => exact hinv.tick hs

/-- The buffer of the engine. -/
theorem Ordered.reach_engine {sessionGeneration : Nat}
    (h : Lts.Reach (engineStep sessionGeneration) (fun run => run.EngineAllowed sessionGeneration)
      (JitterRun.init CallEngine.newJitter) run) : run.Ordered := by
  refine h.invariant (Ordered.init rfl rfl (by decide)) (fun run l run' _ hinv hok hs => ?_)
  cases l with
  | enqueueIncomingFrame opus sequence generation =>
      cases hs
      unfold CallEngine.enqueueIncomingFrame
      by_cases hgen : generation = sessionGeneration
      · rw [if_neg (not_not.mpr hgen), if_pos hgen]
        exact hinv.push (hok hgen)
      · rw [if_pos hgen, if_neg hgen]
        exact hinv
  | popFromJitter => exact hinv.tick hs

/-- **What is played is in order**, in both buffers, whatever comes in late, twice or far ahead, as
long as nothing that is no later than what was played comes in while no number is due. -/
theorem played_in_order {cfg : JitterConfig} (hdepth : 1 ≤ cfg.maxDepth) (sessionGeneration : Nat) :
    (∀ run, Lts.Reach step Allowed (JitterRun.init (JitterBuffer.new cfg)) run → run.InOrder)
    ∧ ∀ run, Lts.Reach (engineStep sessionGeneration) (fun run => run.EngineAllowed sessionGeneration)
        (JitterRun.init CallEngine.newJitter) run → run.InOrder :=
  ⟨fun _ h => (Ordered.reach hdepth h).inOrder, fun _ h => (Ordered.reach_engine h).inOrder⟩

/-! ## Numbers are `u64` -/

/-- The number that is due is a `u64`, as the buffers have it. -/
structure WithinWord (buffer : Jitter) : Prop where
  kept : ∀ k ∈ buffer.items.keys, k < u64Size - 1
  due : ∀ exp, buffer.expected = some exp → exp < u64Size

theorem WithinWord.push (h : WithinWord buffer) (hseq : seq < u64Size - 1) (opus : Bytes) :
    WithinWord (buffer.push seq opus) where
  kept k hk := by
    obtain ⟨e, he, rfl⟩ := List.mem_map.mp hk
    rcases Jitter.mem_push he with hold | ⟨rfl, -⟩
    · exact h.kept _ (List.mem_map_of_mem hold)
    · exact hseq
  due exp he := h.due exp ((Jitter.push_fixed buffer seq opus).2 ▸ he)

theorem WithinWord.popAt (h : WithinWord buffer) (exp : Nat) : WithinWord (buffer.popAt exp).2 := by
  unfold Jitter.popAt
  cases hget : buffer.items.get? exp with
  | some frame =>
      have hkey : exp < u64Size - 1 := h.kept exp (OrdMap.mem_keys.mpr ⟨frame, hget⟩)
      refine ⟨fun k hk => h.kept k (OrdMap.mem_keys_eraseWhere.mp hk).1, fun exp' he => ?_⟩
      cases he
      omega
  | none =>
      dsimp only
      by_cases hlater : buffer.items.firstKey?.any (fun k => decide (exp < k)) = true
      · rw [if_pos hlater]
        obtain ⟨first, hfirst, hlt⟩ := (Option.any_eq_true _ _).mp hlater
        have hkey := h.kept first (OrdMap.firstKey?_mem hfirst)
        have hlt : exp < first := of_decide_eq_true hlt
        split
        · exact ⟨h.kept, fun exp' he => by cases he⟩
        · refine ⟨h.kept, fun exp' he => ?_⟩
          cases he
          omega
      · rw [if_neg hlater]
        exact h

theorem WithinWord.popNext {out : JitterOut} {buffer' : Jitter} (h : WithinWord buffer)
    (hpop : buffer.popNext = some (out, buffer')) : WithinWord buffer' := by
  unfold Jitter.popNext at hpop
  split at hpop
  · rename_i exp _
    have := h.popAt exp
    rw [Option.some.inj hpop] at this
    exact this
  · split at hpop
    · cases hpop
      exact h
    · obtain ⟨first, hfirst, hat⟩ := Option.map_eq_some_iff.mp hpop
      have hstart : WithinWord { buffer with expected := some first } := by
        refine ⟨h.kept, fun exp he => ?_⟩
        cases he
        have := h.kept first (OrdMap.firstKey?_mem hfirst)
        omega
      have := hstart.popAt first
      rw [hat] at this
      exact this

/-- **No number overflows**, if those that come in are below the greatest `u64`. -/
theorem WithinWord.reach {cfg : JitterConfig}
    (h : Lts.Reach step (fun _ l => l.InRange) (JitterRun.init (JitterBuffer.new cfg)) run) :
    WithinWord run.buffer := by
  have hnew : WithinWord (JitterBuffer.new cfg) :=
    ⟨fun _ hk => absurd hk List.not_mem_nil, fun _ he => by cases he⟩
  refine h.invariant (P := fun run => WithinWord run.buffer) hnew
    (fun run l run' _ hinv hok hs => ?_)
  cases l with
  | push seq opus =>
      cases hs
      exact hinv.push hok opus
  | popNext =>
      unfold JitterRun.step tick at hs
      dsimp only at hs
      split at hs
      · rename_i hpop
        cases hs
        exact hinv.popNext hpop
      · rename_i hpop
        cases hs
        exact hinv.popNext hpop
      · cases hs

/-! ## Starting anew -/

/-- After a long loss the buffer starts anew, and a frame comes in that is older than one played. -/
def resync (gaps : Nat) : List JitterLabel :=
  [.push 100 [1], .popNext, .push 200 [2]] ++ List.replicate gaps .popNext
    ++ [.push 50 [3], .popNext]

/-- The same in the engine. -/
def engineResync (gaps : Nat) : List EngineLabel :=
  [.enqueueIncomingFrame [1] 100 0, .popFromJitter, .enqueueIncomingFrame [2] 200 0]
    ++ List.replicate gaps .popFromJitter
    ++ [.enqueueIncomingFrame [3] 50 0, .popFromJitter]

/-- In both buffers a frame is played after a later one. -/
theorem played_backwards :
    (¬ ∀ (cfg : JitterConfig) (run : JitterRun), 1 ≤ cfg.maxDepth →
      Lts.Reach step (fun _ l => l.InRange) (JitterRun.init (JitterBuffer.new cfg)) run →
      run.InOrder)
    ∧ ¬ ∀ (sessionGeneration : Nat) (run : JitterRun),
      Lts.Reach (engineStep sessionGeneration) (fun _ l => l.InRange)
        (JitterRun.init CallEngine.newJitter) run → run.InOrder := by
  constructor
  · intro h
    have hrun : (Lts.execWhile step (fun _ l => l.InRange)
        (JitterRun.init (JitterBuffer.new ⟨1, 16⟩)) (resync 5)).isSome = true := by decide
    have hin := (h ⟨1, 16⟩ _ (by decide) (Lts.reach_exec hrun)).increasing
    exact absurd hin (by decide)
  · intro h
    have hrun : (Lts.execWhile (engineStep 0) (fun _ l => l.InRange)
        (JitterRun.init CallEngine.newJitter) (engineResync 13)).isSome = true := by decide
    have hin := (h 0 _ (Lts.reach_exec hrun)).increasing
    exact absurd hin (by decide)

/-- Three frames in the wrong order and a late one. -/
def lateFrame : List JitterLabel :=
  [.push 12 [3], .push 10 [1], .push 11 [2], .popNext, .push 9 [0], .popNext, .popNext]

def engineLateFrame : List EngineLabel :=
  [.enqueueIncomingFrame [1] 10 0, .popFromJitter, .enqueueIncomingFrame [0] 9 0,
    .enqueueIncomingFrame [2] 11 7, .popFromJitter]

theorem played_in_order_lateFrame :
    ((Lts.exec step (JitterRun.init (JitterBuffer.new .default)) lateFrame).getD
      (JitterRun.init (JitterBuffer.new .default))).InOrder
    ∧ ((Lts.exec (engineStep 0) (JitterRun.init CallEngine.newJitter) engineLateFrame).getD
      (JitterRun.init CallEngine.newJitter)).InOrder :=
  ⟨(played_in_order (by decide : 1 ≤ JitterConfig.default.maxDepth) 0).1 _
      (Lts.reach_exec (by decide)),
    (played_in_order (by decide : 1 ≤ JitterConfig.default.maxDepth) 0).2 _
      (Lts.reach_exec (by decide))⟩

end JitterRun

end Paranoia
