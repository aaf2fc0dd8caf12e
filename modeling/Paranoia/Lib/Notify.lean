import Mathlib.Algebra.Order.Ring.Int
import Mathlib.Order.Basic

/-!
# Notifications that keep no permit

Who wants to be woken first makes a future, and later waits for it. `notifyWaiters` makes every
future ready that exists by then, waited for or not, and leaves nothing behind for those made
later. So it is enough to count the calls: a future is ready once there was one after it was made.
-/

structure Notify where
  calls : Nat
deriving DecidableEq

/-- A future, by the calls there had been when it was made. -/
structure Notified where
  seen : Nat
deriving DecidableEq

namespace Notify

def new : Notify := ⟨0⟩

def notified (n : Notify) : Notified := ⟨n.calls⟩

def notifyWaiters (n : Notify) : Notify := ⟨n.calls + 1⟩

/-- It has been called. -/
def Signalled (n : Notify) : Prop := 0 < n.calls

instance (n : Notify) : Decidable n.Signalled := inferInstanceAs (Decidable (0 < n.calls))

end Notify

namespace Notified

variable {f : Notified} {n : Notify}

/-- The future is complete. -/
def Ready (f : Notified) (n : Notify) : Prop := f.seen < n.calls

instance (f : Notified) (n : Notify) : Decidable (f.Ready n) :=
  inferInstanceAs (Decidable (f.seen < n.calls))

/-- The future was made before now. -/
def Before (f : Notified) (n : Notify) : Prop := f.seen ≤ n.calls

theorem before_notified : n.notified.Before n := Nat.le_refl n.calls

theorem Before.notifyWaiters (h : f.Before n) : f.Before n.notifyWaiters := Nat.le_succ_of_le h

/-- A call completes what was made before it. -/
theorem Before.ready (h : f.Before n) : f.Ready n.notifyWaiters := Nat.lt_succ_of_le h

theorem Ready.notifyWaiters (h : f.Ready n) : f.Ready n.notifyWaiters := Nat.lt_succ_of_lt h

end Notified
