import Paranoia.Client.Lockout
import Paranoia.Lib.Lts
import Paranoia.Proof.Rekey

/-!
# When the delays are kept

The counters in `vault.json` are read by one attempt and saved by it later. Two attempts at once
count one failure, and one that was let in before the last failure saves what it read before; the
time left is rounded down to seconds, so an attempt is let in up to a second early. As long as an
attempt that is let in is alone with what it read and its time has come, and the process does not
end between a wrong PIN and its count, the policy is enforced (`pin_policy`).
-/

namespace Paranoia

open VaultState

/-- The PIN was wrong, and `vault.json` does not say so yet. -/
def TryPoint.Uncounted : TryPoint → Bool
  | .count => true
  | .save _ false => true
  | _ => false

namespace LockWorld

variable {μ : Type} {w w' : LockWorld μ} {l : LockLabel} {i : Nat} {t : Trying}
  {a : Asking} {vault : VaultState} {now₀ : Nat}

/-! ## What is asked of the steps -/

/-- An attempt that the clock lets in has reached its time to the nanosecond, is the only one that
was let in, and nobody has saved `vault.json` since it read it. The process does not end between a
wrong PIN and its count, and the count does not overflow. -/
def Orderly (w : LockWorld μ) : LockLabel → Prop
  | .askRemaining i => ∀ a ∈ w.asking[i]?, a.state.lockoutRemaining w.now = 0 →
      w.trying = [] ∧ a.loadedAt = w.saves ∧ ∀ til ∈ a.state.lockoutUntil, til ≤ w.now
  | .restart => ∀ t ∈ w.trying, t.point.Uncounted = false
  | .tick i => ∀ t ∈ w.trying[i]?, t.point = .count → t.state.failedCount < 2 ^ 32 - 1
  | _ => True

instance (w : LockWorld μ) (l : LockLabel) : Decidable (w.Orderly l) := by
  unfold Orderly
  split <;> infer_instance

/-! ## The invariant -/

/-- How far the one attempt that was let in has come. -/
def Attempt (w : LockWorld μ) (t : Trying) : Prop :=
  match t.point with
  | .try => t.state = w.vault ∧ w.exhausted = false ∧ (∀ til ∈ w.vault.lockoutUntil, til ≤ w.now)
      ∧ w.vault.failedCount = w.wrongs ∧ w.InForce
  | .count => t.state = w.vault ∧ w.exhausted = false ∧ w.vault.failedCount + 1 = w.wrongs
  | .save state true => state.failedCount = 0 ∧ state.lockoutUntil = none ∧ w.exhausted = false
      ∧ w.vault.failedCount = w.wrongs ∧ w.InForce
  | .save state false => state.failedCount = w.vault.failedCount + 1 ∧ state.failedCount = w.wrongs
      ∧ InForce { w with vault := state }
  | .reset => w.vault.failedCount = 0 ∧ w.vault.lockoutUntil = none ∧ w.exhausted = false
      ∧ w.wrongs = 0

structure Kept (w : LockWorld μ) : Prop where
  read : ∀ a ∈ w.asking, a.loadedAt ≤ w.saves ∧ (a.loadedAt = w.saves → a.state = w.vault)
  told : w.trying = [] → ∀ a ∈ w.asking, a.admitted = true → a.loadedAt = w.saves →
    w.exhausted = false
  idle : w.trying = [] → w.vault.failedCount = w.wrongs ∧ w.InForce
  alone : ∀ t ∈ w.trying, w.trying = [t] ∧ w.Attempt t

theorem kept_init (hcount : vault.failedCount = 0) (huntil : vault.lockoutUntil = none) :
    (init vault now₀ : LockWorld μ).Kept where
  read := by simp [init]
  told := by simp [init]
  idle := fun _ => ⟨hcount, huntil, rfl⟩
  alone := by simp [init]

/-! ## One step -/

theorem InForce.restart (h : w.InForce) : w.restart.InForce := by
  unfold InForce at h ⊢
  unfold LockWorld.restart
  dsimp only
  split at h
  · exact ⟨h.1, rfl⟩
  · exact ⟨h.1, rfl⟩
  · exact ⟨h.1, .inr rfl⟩

theorem kept_elapse (h : w.Kept) (nanos : Nat) : Kept { w with now := w.now + nanos } where
  read := h.read
  told := h.told
  idle := h.idle
  alone t ht := by
    obtain ⟨hone, hat⟩ := h.alone t ht
    refine ⟨hone, ?_⟩
    unfold Attempt at hat ⊢
    split at hat
    · obtain ⟨hstate, hex, htil, hrest⟩ := hat
      exact ⟨hstate, hex, fun til hm => Nat.le_add_right_of_le (htil til hm), hrest⟩
    all_goals exact hat

theorem kept_restart (h : w.Kept) (hok : w.Orderly .restart) : w.restart.Kept where
  read := by simp [restart]
  told := by simp [restart]
  alone := by simp [restart]
  idle _ := by
    cases htrying : w.trying with
    | nil => exact (h.idle htrying).imp_right InForce.restart
    | cons t ts =>
        have ht : t ∈ w.trying := by rw [htrying]; exact List.mem_cons_self
        have hcounted := hok t ht
        have hat := (h.alone t ht).2
        unfold Attempt at hat
        split at hat
        · exact ⟨hat.2.2.2.1, hat.2.2.2.2.restart⟩
        · rename_i hpoint
          rw [hpoint] at hcounted
          cases hcounted
        · exact ⟨hat.2.2.2.1, hat.2.2.2.2.restart⟩
        · rename_i hpoint
          rw [hpoint] at hcounted
          cases hcounted
        · -- a right PIN is already saved
          obtain ⟨hzero, huntil, -, hwrongs⟩ := hat
          refine ⟨hzero.trans hwrongs.symm, ?_⟩
          unfold InForce restart
          dsimp only
          rw [hwrongs]
          exact ⟨huntil, rfl⟩

theorem kept_load (h : w.Kept) (unlock : Bool) (pin : String) :
    Kept { w with asking := ⟨unlock, pin, w.vault, w.saves, false⟩ :: w.asking } where
  read a ha := by
    rcases List.mem_cons.mp ha with rfl | ha
    · exact ⟨Nat.le_refl _, fun _ => rfl⟩
    · exact h.read a ha
  told hidle a ha hadm := by
    rcases List.mem_cons.mp ha with rfl | ha
    · cases hadm
    · exact h.told hidle a ha hadm
  idle := h.idle
  alone := h.alone

theorem kept_askExhausted (h : w.Kept) (ha : w.asking[i]? = some a) :
    (w.askExhausted i a).Kept := by
  have hmem := List.mem_of_getElem? ha
  unfold askExhausted
  split
  · exact { h with
      read := fun b hb => h.read b (List.mem_of_mem_eraseIdx hb)
      told := fun hidle b hb => h.told hidle b (List.mem_of_mem_eraseIdx hb) }
  · rename_i hex
    refine { h with read := fun b hb => ?_, told := fun hidle b hb hadm hat => ?_ }
    · rcases List.mem_or_eq_of_mem_set hb with hb | rfl
      · exact h.read b hb
      · exact h.read a hmem
    · exact Bool.eq_false_iff.mpr hex

theorem kept_askRemaining (h : w.Kept) (hok : w.Orderly (.askRemaining i))
    (ha : w.asking[i]? = some a) (hadm : a.admitted = true) : (w.askRemaining i a).Kept := by
  have hmem := List.mem_of_getElem? ha
  unfold askRemaining
  split
  · exact { h with
      read := fun b hb => h.read b (List.mem_of_mem_eraseIdx hb)
      told := fun hidle b hb => h.told hidle b (List.mem_of_mem_eraseIdx hb) }
  · rename_i hrem
    obtain ⟨hnone, hat, htil⟩ := hok a ha (by omega)
    have hstate := (h.read a hmem).2 hat
    obtain ⟨hcount, hforce⟩ := h.idle hnone
    refine ⟨fun b hb => h.read b (List.mem_of_mem_eraseIdx hb), fun hidle => ?_, fun hidle => ?_,
      fun t ht => ?_⟩
    · exact absurd hidle (List.cons_ne_nil _ _)
    · exact absurd hidle (List.cons_ne_nil _ _)
    · dsimp only at ht ⊢
      rw [hnone] at ht ⊢
      cases List.mem_singleton.mp ht
      refine ⟨rfl, hstate, h.told hnone a hmem hadm hat, ?_, hcount, hforce⟩
      rw [← hstate]
      exact htil

/-- What a wrong PIN makes of the counters is what the policy says. -/
theorem inForce_applyFailedAttempt (hcount : w.vault.failedCount + 1 = w.wrongs)
    (hlt : w.vault.failedCount < 2 ^ 32 - 1) (hex : w.exhausted = false) {trying : List Trying}
    {state : VaultState} {exhausted : Bool}
    (happly : w.vault.applyFailedAttempt w.now = (state, exhausted)) :
    state.failedCount = w.wrongs ∧
      InForce { w with vault := state, exhausted := exhausted || w.exhausted, trying := trying,
                       failedAt := w.now, restarted := false } := by
  have hmin : min (w.vault.failedCount + 1) (2 ^ 32 - 1) = w.wrongs := by omega
  unfold applyFailedAttempt at happly
  rw [hmin] at happly
  unfold InForce
  dsimp only at happly ⊢
  cases haction : lockoutForFailures w.wrongs with
  | none =>
      rw [haction] at happly
      cases happly
      exact ⟨rfl, rfl, by rw [hex]; rfl⟩
  | forSecs secs =>
      rw [haction] at happly
      cases happly
      exact ⟨rfl, rfl, by rw [hex]; rfl⟩
  | exhaustedUntilRestart =>
      rw [haction] at happly
      cases happly
      exact ⟨rfl, rfl, .inl rfl⟩

/-- As long as one attempt is under way there is nothing else to keep. -/
theorem kept_of_one
    (hread : ∀ a ∈ w.asking, a.loadedAt ≤ w.saves ∧ (a.loadedAt = w.saves → a.state = w.vault))
    (hone : w.trying = [t]) (hat : w.Attempt t) : w.Kept where
  read := hread
  told hidle := by rw [hone] at hidle; cases hidle
  idle hidle := by rw [hone] at hidle; cases hidle
  alone u hu := by
    rw [hone] at hu ⊢
    cases List.mem_singleton.mp hu
    exact ⟨rfl, hat⟩

/-- What was read before a save is not what is there now. -/
theorem Kept.outdated (h : w.Kept) {state : VaultState} :
    ∀ b ∈ w.asking, b.loadedAt ≤ w.saves + 1 ∧ (b.loadedAt = w.saves + 1 → b.state = state) := by
  intro b hb
  have := (h.read b hb).1
  exact ⟨by omega, fun heq => by omega⟩

section Steps

variable [VaultCrypto μ]

theorem kept_tick (h : w.Kept) (hok : w.Orderly (.tick i)) (ht : w.trying[i]? = some t) :
    (w.tick i t).Kept := by
  have hmem := List.mem_of_getElem? ht
  obtain ⟨hone, hat⟩ := h.alone t hmem
  obtain rfl : i = 0 := by
    have hlt := (List.getElem?_eq_some_iff.mp ht).1
    rw [hone, List.length_singleton] at hlt
    omega
  unfold tick
  unfold Attempt at hat
  cases hpoint : t.point with
  | «try» =>
      rw [hpoint] at hat
      obtain ⟨hstate, hex, htil, hcount, hforce⟩ := hat
      dsimp only
      split
      · refine kept_of_one h.read (by rw [hone]; rfl) ?_
        exact ⟨rfl, rfl, hex, hcount, hforce⟩
      · refine kept_of_one h.read (by rw [hone]; rfl) ?_
        exact ⟨hstate, hex, congrArg (· + 1) hcount⟩
  | count =>
      rw [hpoint] at hat
      obtain ⟨hstate, hex, hcount⟩ := hat
      have hlt := hok t ht hpoint
      dsimp only
      rw [hstate] at hlt ⊢
      cases happly : w.vault.applyFailedAttempt w.now with
      | mk state exhausted =>
          obtain ⟨hfailed, hforce⟩ := inForce_applyFailedAttempt hcount hlt hex happly
          refine kept_of_one h.read (by rw [hone]; rfl) ?_
          exact ⟨hfailed.trans hcount.symm, hfailed, hforce⟩
  | save state right =>
      rw [hpoint] at hat
      cases right with
      | true =>
          obtain ⟨hzero, huntil, hex, -, -⟩ := hat
          have hnext : w.trying.set 0 { t with point := .reset } = [{ t with point := .reset }] := by
            rw [hone]
            rfl
          dsimp only
          rw [if_pos rfl]
          exact kept_of_one h.outdated hnext ⟨hzero, huntil, hex, rfl⟩
      | false =>
          obtain ⟨-, hfailed, hforce⟩ := hat
          have hnil : w.trying.eraseIdx 0 = [] := by rw [hone]; rfl
          dsimp only
          rw [if_neg (by simp), hnil]
          refine ⟨h.outdated, fun _ b hb _ heq => ?_, fun _ => ⟨hfailed, hforce⟩, fun u hu => ?_⟩
          · -- it was read before this save
            have := (h.read b hb).1
            dsimp only at heq
            omega
          · exact absurd hu List.not_mem_nil
  | reset =>
      rw [hpoint] at hat
      obtain ⟨hzero, huntil, hex, hwrongs⟩ := hat
      have hnil : w.trying.eraseIdx 0 = [] := by rw [hone]; rfl
      dsimp only
      rw [hnil]
      refine ⟨h.read, fun _ _ _ _ _ => rfl, fun _ => ⟨hzero.trans hwrongs.symm, ?_⟩, fun u hu => ?_⟩
      · unfold InForce
        dsimp only
        rw [hwrongs]
        exact ⟨huntil, rfl⟩
      · exact absurd hu List.not_mem_nil

theorem kept_step (h : w.Kept) (hok : w.Orderly l) (hs : w.step l = some w') : w'.Kept := by
  cases l with
  | elapse nanos =>
      cases hs
      exact kept_elapse h nanos
  | restart =>
      cases hs
      exact kept_restart h hok
  | load unlock pin =>
      cases hs
      exact kept_load h unlock pin
  | askExhausted i =>
      simp only [step] at hs
      split at hs
      · cases hs
      · rename_i a ha
        rw [Option.ite_none_left_eq_some] at hs
        obtain ⟨-, hs⟩ := hs
        cases hs
        exact kept_askExhausted h ha
  | askRemaining i =>
      simp only [step] at hs
      split at hs
      · cases hs
      · rename_i a ha
        rw [Option.ite_none_right_eq_some] at hs
        obtain ⟨hadm, hs⟩ := hs
        cases hs
        exact kept_askRemaining h hok ha hadm
  | tick i =>
      obtain ⟨t, ht, rfl⟩ := Option.map_eq_some_iff.mp hs
      exact kept_tick h hok ht

/-! ## Every run -/

omit [VaultCrypto μ] in
theorem Kept.enforced (h : w.Kept) : w.Enforced where
  waits t ht hpoint := by
    have hat := (h.alone t ht).2
    unfold Attempt at hat
    rw [hpoint] at hat
    exact ⟨hat.2.1, hat.2.2.1⟩
  counts t ht state right hpoint := by
    have hat := (h.alone t ht).2
    unfold Attempt at hat
    rw [hpoint] at hat
    cases right with
    | true => exact hat.1
    | false => exact hat.1
  delay := h.idle

/-- **The policy is enforced** in every run in which an attempt that is let in is alone with what it
read and its time has come, and every wrong PIN is counted. -/
theorem pin_policy (hcount : vault.failedCount = 0) (huntil : vault.lockoutUntil = none)
    (hr : Lts.Reach step Orderly (init vault now₀ : LockWorld μ) w) : w.Enforced :=
  (hr.invariant (kept_init hcount huntil) (fun _ _ _ _ h hok hs => kept_step h hok hs)).enforced

end Steps

/-! ## Four runs that go wrong, and one that does not -/

section Example

/-- A master that shows the PIN and the salt it was made from. -/
structure PinMaster where
  bytes : List UInt8
  deriving DecidableEq

def pinKey : VaultKey PinMaster → List UInt8
  | .json m => 0 :: m.bytes
  | .attachment m salt => 1 :: marked m.bytes salt

theorem pinKey_injective {k k' : VaultKey PinMaster} (h : pinKey k' = pinKey k) : k' = k := by
  cases k with
  | json m =>
      cases k' with
      | json m' =>
          cases m
          cases m'
          cases h
          rfl
      | attachment m' salt' => cases h
  | attachment m salt =>
      cases k' with
      | json m' => cases h
      | attachment m' salt' =>
          have hmarked : marked m'.bytes salt' = marked m.bytes salt := (List.cons.inj h).2
          have hopen := unmark_marked m'.bytes salt'
          rw [hmarked] at hopen
          have hbytes := salt_of_unmark hopen
          rw [hbytes, unmark_marked] at hopen
          cases m
          cases m'
          cases hbytes
          cases hopen
          rfl

@[reducible]
def pinCrypto : VaultCrypto PinMaster where
  deriveMaster pin salt := ⟨pin.toList.map (fun c => UInt8.ofNat c.toNat) ++ salt⟩
  sealBytes k _ m := marked (pinKey k) m
  openBytes k bytes := unmark (pinKey k) bytes
  openDb _ bytes _ _ := some bytes
  open_sealBytes k _ m := unmark_marked (pinKey k) m
  key_of_open _ _ _ _ _ h := pinKey_injective (salt_of_unmark h)

/-- The right PIN is `1111`. -/
def pinVault : VaultState :=
  newFresh [1] (marked (0 :: [49, 49, 49, 49, 1]) verifierPlaintext)

def lockStart : LockWorld PinMaster := init pinVault 0

def lockStep : LockWorld PinMaster → LockLabel → Option (LockWorld PinMaster) :=
  @step PinMaster pinCrypto

/-- One attempt from its beginning to its end, in three steps after it is let in. -/
def attempt (pin : String) : List LockLabel :=
  [.load true pin, .askExhausted 0, .askRemaining 0, .tick 0, .tick 0, .tick 0]

/-- Wrong PINs, each half an hour after the other. -/
def guesses (n : Nat) : List LockLabel :=
  (List.replicate n (attempt "0000" ++ [.elapse 1800000000000])).flatten

/-- Six wrong PINs, and one more in the last second of the delay. -/
def earlyRun : List LockLabel :=
  (List.replicate 6 (attempt "0000")).flatten
    ++ [.elapse 29000000001, .load true "0000", .askExhausted 0, .askRemaining 0]

/-- Two wrong PINs at once. -/
def pairRun : List LockLabel :=
  [.load true "0000", .load false "0001", .askExhausted 0, .askExhausted 1, .askRemaining 0,
    .askRemaining 0, .tick 0, .tick 1, .tick 0, .tick 1, .tick 0, .tick 0]

/-- A wrong PIN, and the end of the process. -/
def cutRun : List LockLabel :=
  [.load true "0000", .askExhausted 0, .askRemaining 0, .tick 0, .restart]

/-- A right PIN that is let in before twenty-one wrong ones, and saved after them. -/
def lateRun : List LockLabel :=
  [.load false "1111", .askExhausted 0, .askRemaining 0] ++ guesses 21

/-- A PIN is tried in the last second of the delay; two wrong ones count as one; one is not counted
at all; and a right one that was let in before ends the full lockout, without a restart. -/
theorem policy_evaded :
    (∃ w, Lts.exec lockStep lockStart earlyRun = some w ∧ w.now = 29000000001
      ∧ w.vault.lockoutUntil = some 30000000000 ∧ w.trying.map Trying.point = [.try]
      ∧ ¬ w.Enforced)
    ∧ (∃ w, Lts.exec lockStep lockStart pairRun = some w ∧ w.trying = [] ∧ w.wrongs = 2
      ∧ w.vault.failedCount = 1)
    ∧ (∃ w, Lts.exec lockStep lockStart cutRun = some w ∧ w.trying = [] ∧ w.wrongs = 1
      ∧ w.vault.failedCount = 0)
    ∧ ∃ w w', Lts.exec lockStep lockStart lateRun = some w ∧ w.exhausted = true
      ∧ Lts.exec lockStep w [.tick 0, .tick 0, .tick 0] = some w' ∧ w'.exhausted = false
      ∧ w'.restarted = false := by
  refine ⟨⟨_, rfl, by decide +kernel, by decide +kernel, by decide +kernel, fun h => ?_⟩,
    ⟨_, rfl, by decide +kernel⟩, ⟨_, rfl, by decide +kernel⟩,
    ⟨_, _, rfl, by decide +kernel, rfl, by decide +kernel⟩⟩
  exact absurd ((h.waits _ (List.mem_singleton_self _) rfl).2 30000000000 rfl) (by decide +kernel)

/-- Six wrong PINs one after the other, and the right one when the delay is over. -/
def patientRun : List LockLabel :=
  (List.replicate 6 (attempt "0000")).flatten ++ [.elapse 30000000000] ++ attempt "1111"
    ++ [.load true "1111", .restart]

theorem pin_policy_patientRun :
    (Lts.execWhile lockStep Orderly lockStart patientRun).isSome = true
    ∧ ((Lts.execWhile lockStep Orderly lockStart patientRun).getD lockStart).Enforced :=
  have h : (Lts.execWhile lockStep Orderly lockStart patientRun).isSome = true := by decide +kernel
  ⟨h, @pin_policy PinMaster _ _ _ pinCrypto rfl rfl (Lts.reach_getD h)⟩

end Example

end LockWorld

end Paranoia
