import Paranoia.Client.ReplayWindow

/-!
# The replay window is its set

The word of a window stands for the accepted numbers less than 64 below the greatest one. A step
moves the bits along with it, so it is kept whatever the numbers are and however far they jump.
-/

namespace Paranoia

namespace ReplayWindow

variable {w : ReplayWindow} {accepted : List UInt64} {seq : UInt64} {i : Nat}

/-- The window stands for the numbers accepted. -/
structure StandsFor (w : ReplayWindow) (accepted : List UInt64) : Prop where
  seenAny : w.seenAny = true ↔ accepted ≠ []
  highest_mem : w.seenAny = true → w.highest ∈ accepted
  le_highest : ∀ a ∈ accepted, a ≤ w.highest
  /-- A bit is a number accepted. -/
  bit : ∀ {i : Nat}, i < 64 → (w.bitmap.toNat.testBit i = true ↔
    ∃ a ∈ accepted, a.toNat + i = w.highest.toNat)

/-! ## Bits of a word -/

theorem testBit_one : (1 : UInt64).toNat.testBit i = decide (i = 0) := by
  rw [show (1 : UInt64).toNat = 2 ^ 0 from rfl, Nat.testBit_two_pow]
  exact decide_eq_decide.mpr eq_comm

theorem testBit_or (a b : UInt64) :
    (a ||| b).toNat.testBit i = (a.toNat.testBit i || b.toNat.testBit i) := by
  rw [UInt64.toNat_or, Nat.testBit_or]

theorem testBit_shiftLeft {a s : UInt64} (hs : s.toNat < 64) (hi : i < 64) :
    (a <<< s).toNat.testBit i = (decide (s.toNat ≤ i) && a.toNat.testBit (i - s.toNat)) := by
  rw [UInt64.toNat_shiftLeft, Nat.testBit_mod_two_pow, Nat.mod_eq_of_lt hs, Nat.testBit_shiftLeft]
  simp [hi]

/-- The word with one bit. -/
theorem testBit_mask {s : UInt64} (hs : s.toNat < 64) (hi : i < 64) :
    ((1 : UInt64) <<< s).toNat.testBit i = decide (i = s.toNat) := by
  rw [testBit_shiftLeft hs hi, testBit_one, ← Bool.decide_and]
  exact decide_eq_decide.mpr (by omega)

theorem and_mask_ne_zero {a s : UInt64} (hs : s.toNat < 64) :
    a &&& (1 <<< s) ≠ 0 ↔ a.toNat.testBit s.toNat = true := by
  constructor
  · intro h
    by_contra hbit
    refine h (UInt64.toNat_inj.mp (Nat.eq_of_testBit_eq (fun j => ?_)))
    rw [UInt64.toNat_and, Nat.testBit_and]
    by_cases hj : j < 64
    · rw [testBit_mask hs hj]
      by_cases heq : j = s.toNat
      · rw [heq, Bool.eq_false_iff.mpr hbit, Bool.false_and]
        simp
      · simp [heq]
    · have hzero : a.toNat.testBit j = false :=
        Nat.testBit_lt_two_pow (Nat.lt_of_lt_of_le a.toNat_lt
          (Nat.pow_le_pow_right (by decide) (Nat.le_of_not_lt hj)))
      simp [hzero]
  · intro hbit h
    have hj := congrArg (fun x : UInt64 => x.toNat.testBit s.toNat) h
    simp only [UInt64.toNat_and, Nat.testBit_and, testBit_mask hs hs, hbit] at hj
    simp at hj

/-! ## One number -/

theorem StandsFor.new : StandsFor new [] where
  seenAny := by simp [ReplayWindow.new]
  highest_mem h := by cases h
  le_highest _ ha := absurd ha List.not_mem_nil
  bit _ := by simp [ReplayWindow.new]

/-- The first number. -/
theorem StandsFor.first (seq : UInt64) : StandsFor ⟨seq, 1, true⟩ [seq] where
  seenAny := by simp
  highest_mem _ := List.mem_singleton_self _
  le_highest a ha := UInt64.le_of_eq (List.mem_singleton.mp ha)
  bit {i} _ := by
    rw [testBit_one]
    simp

/-- A number above all others moves the bits, or leaves them all behind. -/
theorem StandsFor.advance (h : StandsFor w accepted) (hlt : w.highest < seq) :
    StandsFor ⟨seq, if seq - w.highest ≥ 64 then 1 else (w.bitmap <<< (seq - w.highest)) ||| 1,
      true⟩ (seq :: accepted) where
  seenAny := by simp
  highest_mem _ := List.mem_cons_self
  le_highest a ha := by
    rcases List.mem_cons.mp ha with rfl | ha
    · exact UInt64.le_refl _
    · exact UInt64.le_trans (h.le_highest a ha) (UInt64.le_of_lt hlt)
  bit {i} hi := by
    have hlt' : w.highest.toNat < seq.toNat := hlt
    have hshift : (seq - w.highest).toNat = seq.toNat - w.highest.toNat :=
      UInt64.toNat_sub_of_le _ _ (UInt64.le_of_lt hlt)
    have hold : ∀ a ∈ accepted, a.toNat ≤ w.highest.toNat := h.le_highest
    dsimp only
    split
    · -- nothing of the old word is left
      rename_i hge
      have hge' : 64 ≤ (seq - w.highest).toNat := hge
      rw [testBit_one, decide_eq_true_eq]
      constructor
      · rintro rfl
        exact ⟨seq, List.mem_cons_self, rfl⟩
      · rintro ⟨a, ha, heq⟩
        rcases List.mem_cons.mp ha with rfl | ha
        · omega
        · have := hold a ha
          omega
    · rename_i hge
      have hs : (seq - w.highest).toNat < 64 := Nat.lt_of_not_le hge
      rw [testBit_or, testBit_shiftLeft hs hi, testBit_one, Bool.or_eq_true, Bool.and_eq_true,
        decide_eq_true_eq, decide_eq_true_eq]
      constructor
      -- a set bit is an old one, moved, or the new number's own
      · rintro (⟨hle, hbit⟩ | rfl)
        · obtain ⟨a, ha, heq⟩ := (h.bit (by omega)).mp hbit
          exact ⟨a, List.mem_cons_of_mem _ ha, by omega⟩
        · exact ⟨seq, List.mem_cons_self, rfl⟩
      · rintro ⟨a, ha, heq⟩
        rcases List.mem_cons.mp ha with rfl | ha
        · exact .inr (by omega)
        · have hle := hold a ha
          exact .inl ⟨by omega, (h.bit (by omega)).mpr ⟨a, ha, by omega⟩⟩

/-- A number within the window sets its bit. -/
theorem StandsFor.mark (h : StandsFor w accepted) (hseen : w.seenAny = true)
    (hle : seq ≤ w.highest) (hdelta : (w.highest - seq).toNat < 64) :
    StandsFor ⟨w.highest, w.bitmap ||| (1 <<< (w.highest - seq)), true⟩ (seq :: accepted) where
  seenAny := by simp
  highest_mem _ := List.mem_cons_of_mem _ (h.highest_mem hseen)
  le_highest a ha := by
    rcases List.mem_cons.mp ha with rfl | ha
    · exact hle
    · exact h.le_highest a ha
  bit {i} hi := by
    have hle' : seq.toNat ≤ w.highest.toNat := hle
    have hsub : (w.highest - seq).toNat = w.highest.toNat - seq.toNat :=
      UInt64.toNat_sub_of_le _ _ hle
    dsimp only
    rw [testBit_or, testBit_mask hdelta hi, Bool.or_eq_true, decide_eq_true_eq, h.bit hi]
    constructor
    · rintro (⟨a, ha, heq⟩ | rfl)
      · exact ⟨a, List.mem_cons_of_mem _ ha, heq⟩
      · exact ⟨seq, List.mem_cons_self, by omega⟩
    · rintro ⟨a, ha, heq⟩
      rcases List.mem_cons.mp ha with rfl | ha
      · exact .inr (by omega)
      · exact .inl ⟨a, ha, heq⟩

/-- What is admitted, told by the greatest number. -/
theorem StandsFor.admits_iff (h : StandsFor w accepted) (hseen : w.seenAny = true) :
    Admits 64 accepted seq ↔
      seq ∉ accepted ∧ (w.highest < seq ∨ w.highest.toNat - seq.toNat < 64) := by
  refine and_congr_right (fun _ => ⟨fun hall => ?_, fun hall h' hmem hmax => ?_⟩)
  · exact hall _ (h.highest_mem hseen) h.le_highest
  · rwa [UInt64.le_antisymm (h.le_highest h' hmem) (hmax _ (h.highest_mem hseen))]

/-- **One number.** It is accepted if the set admits it, and the window stands for the numbers
accepted afterwards. -/
theorem StandsFor.step (h : StandsFor w accepted) (seq : UInt64) :
    ((w.checkAndUpdate seq).1 = true ∧ Admits 64 accepted seq
        ∧ StandsFor (w.checkAndUpdate seq).2 (seq :: accepted))
    ∨ ((w.checkAndUpdate seq).1 = false ∧ ¬ Admits 64 accepted seq
        ∧ StandsFor (w.checkAndUpdate seq).2 accepted) := by
  unfold checkAndUpdate
  by_cases hseen : w.seenAny = true
  · rw [h.admits_iff hseen, hseen, Bool.not_true, if_neg Bool.false_ne_true]
    by_cases hlt : w.highest < seq
    · have hnew : seq ∉ accepted := fun hmem =>
        absurd (h.le_highest seq hmem) (UInt64.not_le.mpr hlt)
      rw [if_pos hlt]
      exact .inl ⟨rfl, ⟨hnew, .inl hlt⟩, h.advance hlt⟩
    · have hle : seq ≤ w.highest := UInt64.not_lt.mp hlt
      have hle' : seq.toNat ≤ w.highest.toNat := hle
      have hsub : (w.highest - seq).toNat = w.highest.toNat - seq.toNat :=
        UInt64.toNat_sub_of_le _ _ hle
      rw [if_neg hlt]
      dsimp only
      split
      · rename_i hge
        have hge' : 64 ≤ (w.highest - seq).toNat := hge
        refine .inr ⟨rfl, ?_, h⟩
        rintro ⟨-, hin⟩
        rcases hin with hin | hin
        · exact hlt hin
        · omega
      · rename_i hge
        have hdelta : (w.highest - seq).toNat < 64 := Nat.lt_of_not_le hge
        -- its bit is set exactly for the number itself: the bits say how far below the highest it is
        have hmem : w.bitmap.toNat.testBit (w.highest - seq).toNat = true ↔ seq ∈ accepted := by
          rw [h.bit hdelta]
          constructor
          · rintro ⟨a, ha, heq⟩
            rwa [show seq = a from UInt64.toNat_inj.mp (by omega)]
          · exact fun ha => ⟨seq, ha, by omega⟩
        split
        · rename_i hbit
          exact .inr ⟨rfl, fun hin => hin.1 (hmem.mp ((and_mask_ne_zero hdelta).mp hbit)), h⟩
        · rename_i hbit
          have hnew : seq ∉ accepted := fun hin =>
            hbit ((and_mask_ne_zero hdelta).mpr (hmem.mpr hin))
          exact .inl ⟨rfl, ⟨hnew, .inr (by omega)⟩, h.mark hseen hle hdelta⟩
  -- nothing has been seen, so nothing has been accepted
  · have hnil : accepted = [] := by
      by_contra hne
      exact hseen (h.seenAny.mpr hne)
    subst hnil
    rw [Bool.eq_false_iff.mpr hseen]
    refine .inl ⟨rfl, ⟨List.not_mem_nil, fun h' hmem => absurd hmem List.not_mem_nil⟩, ?_⟩
    exact StandsFor.first seq

/-! ## All numbers -/

theorem StandsFor.present (h : StandsFor w accepted) (seqs : List UInt64) :
    StandsFor (w.present accepted seqs).1 (w.present accepted seqs).2 := by
  induction seqs generalizing w accepted with
  | nil => exact h
  | cons seq rest ih =>
      rw [ReplayWindow.present.eq_def]
      dsimp only
      rcases h.step seq with ⟨hyes, -, hnext⟩ | ⟨hno, -, hnext⟩
      · rw [show w.checkAndUpdate seq = (true, (w.checkAndUpdate seq).2) from Prod.ext hyes rfl]
        exact ih hnext
      · rw [show w.checkAndUpdate seq = (false, (w.checkAndUpdate seq).2) from Prod.ext hno rfl]
        exact ih hnext

/-- **The window accepts what its set admits**, whatever has been presented before. -/
theorem accepts_iff (seqs : List UInt64) (seq : UInt64) :
    ((after seqs).checkAndUpdate seq).1 = true ↔ Admits 64 (ReplayWindow.accepted seqs) seq := by
  rcases (StandsFor.new.present seqs).step seq with ⟨hyes, hin, -⟩ | ⟨hno, hout, -⟩
  · exact iff_of_true hyes hin
  · exact iff_of_false (fun hyes => Bool.false_ne_true (hno.symm.trans hyes)) hout

example : ReplayWindow.accepted [100, 98, 99, 98, 36, 37, 200] = [200, 37, 99, 98, 100] := by decide

end ReplayWindow

end Paranoia
