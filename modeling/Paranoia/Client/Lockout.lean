import Paranoia.Client.Vault

/-!
# Attempts at the PIN

`unlock` and `verify_pin` read `vault.json`, ask whether PINs are taken at all until the next start,
look at the clock, try the PIN, and save what they read with its counters changed. Nothing keeps two
of them apart, and each of these is a step of its own: in between the clock goes on, others read and
save, and the process may end.
-/

namespace Paranoia

/-- An attempt that has read `vault.json` and not looked at the clock yet. -/
structure Asking where
  unlock : Bool
  pin : String
  state : VaultState
  /-- How often `vault.json` had been saved when it was read. -/
  loadedAt : Nat
  /-- It was told that PINs are taken. -/
  admitted : Bool
  deriving DecidableEq

/-- What an attempt that was not sent away does next. -/
inductive TryPoint
  | try
  /-- The PIN was wrong. -/
  | count
  | save (state : VaultState) (right : Bool)
  /-- The PIN was right, and what it was read from is saved. -/
  | reset
  deriving DecidableEq

structure Trying where
  unlock : Bool
  pin : String
  state : VaultState
  point : TryPoint
  deriving DecidableEq

structure LockWorld (μ : Type) where
  /-- In nanoseconds. -/
  now : Nat
  vault : VaultState
  active : Option μ
  /-- No PIN is taken until the next start. -/
  exhausted : Bool
  asking : List Asking
  trying : List Trying
  /-- How often `vault.json` was saved. -/
  saves : Nat
  /-- The wrong PINs that were tried since the last right one was saved. -/
  wrongs : Nat
  /-- When the last wrong one was counted. -/
  failedAt : Nat
  /-- The process has been started anew since then. -/
  restarted : Bool

inductive LockLabel
  | elapse (nanos : Nat)
  | restart
  | load (unlock : Bool) (pin : String)
  | askExhausted (i : Nat)
  | askRemaining (i : Nat)
  | tick (i : Nat)
  deriving DecidableEq

namespace LockWorld

variable {μ : Type} [VaultCrypto μ]

def init (vault : VaultState) (now : Nat) : LockWorld μ where
  now := now
  vault := vault
  active := none
  exhausted := false
  asking := []
  trying := []
  saves := 0
  wrongs := 0
  failedAt := 0
  restarted := false

def askExhausted (w : LockWorld μ) (i : Nat) (a : Asking) : LockWorld μ :=
  if w.exhausted then { w with asking := w.asking.eraseIdx i }
  else { w with asking := w.asking.set i { a with admitted := true } }

def askRemaining (w : LockWorld μ) (i : Nat) (a : Asking) : LockWorld μ :=
  if 0 < a.state.lockoutRemaining w.now then { w with asking := w.asking.eraseIdx i }
  else { w with asking := w.asking.eraseIdx i
                trying := ⟨a.unlock, a.pin, a.state, .try⟩ :: w.trying }

/-- The next step of an attempt. -/
def tick (w : LockWorld μ) (i : Nat) (t : Trying) : LockWorld μ :=
  match t.point with
  | .try =>
      match t.state.verifyPin (μ := μ) t.pin with
      | some _ =>
          let state := { t.state with failedCount := 0, lockoutUntil := none }
          { w with trying := w.trying.set i { t with point := .save state true } }
      | none =>
          { w with trying := w.trying.set i { t with point := .count }, wrongs := w.wrongs + 1 }
  | .count =>
      let (state, exhausted) := t.state.applyFailedAttempt w.now
      { w with exhausted := exhausted || w.exhausted
               trying := w.trying.set i { t with point := .save state false }
               failedAt := w.now
               restarted := false }
  | .save state right =>
      if right then
        { w with vault := state
                 saves := w.saves + 1
                 wrongs := 0
                 trying := w.trying.set i { t with point := .reset } }
      else { w with vault := state, saves := w.saves + 1, trying := w.trying.eraseIdx i }
  | .reset =>
      { w with exhausted := false
               active := if t.unlock then t.state.verifyPin t.pin else w.active
               trying := w.trying.eraseIdx i }

/-- The process ends and starts again. What is on the disk stays. -/
def restart (w : LockWorld μ) : LockWorld μ :=
  { w with active := none, exhausted := false, asking := [], trying := [], restarted := true }

def step (w : LockWorld μ) : LockLabel → Option (LockWorld μ)
  | .elapse nanos => some { w with now := w.now + nanos }
  | .restart => some w.restart
  | .load unlock pin => some { w with asking := ⟨unlock, pin, w.vault, w.saves, false⟩ :: w.asking }
  | .askExhausted i =>
      match w.asking[i]? with
      | none => none
      | some a => if a.admitted then none else some (w.askExhausted i a)
  | .askRemaining i =>
      match w.asking[i]? with
      | none => none
      | some a => if a.admitted then some (w.askRemaining i a) else none
  | .tick i => (w.trying[i]?).map (w.tick i)

/-! ## The policy -/

/-- The delay that the policy has for as many wrong PINs as are counted is in force. -/
def InForce (w : LockWorld μ) : Prop :=
  match VaultState.lockoutForFailures w.wrongs with
  | .none => w.vault.lockoutUntil = none ∧ w.exhausted = false
  | .forSecs secs =>
      w.vault.lockoutUntil = some (w.failedAt + secs * 1000000000) ∧ w.exhausted = false
  | .exhaustedUntilRestart =>
      w.vault.lockoutUntil = none ∧ (w.exhausted = true ∨ w.restarted = true)

/-- No PIN is tried before its time, every wrong one is counted until a right one comes, and between
two attempts the delay that the policy has is in force. -/
structure Enforced (w : LockWorld μ) : Prop where
  waits : ∀ t ∈ w.trying, t.point = .try →
    w.exhausted = false ∧ ∀ til, w.vault.lockoutUntil = some til → til ≤ w.now
  counts : ∀ t ∈ w.trying, ∀ state right, t.point = .save state right →
    state.failedCount = if right then 0 else w.vault.failedCount + 1
  delay : w.trying = [] → w.vault.failedCount = w.wrongs ∧ w.InForce

end LockWorld

end Paranoia
