import Mathlib.Data.Finset.Basic
import Paranoia.Server.Signing

/-!
# The nonces of `/blob`

The handler of `/blob` remembers the nonces of the last requests it took, up to a capacity, in two
structures: a set, which is asked whether a nonce is fresh, and a queue, which says which one goes
next. `Signing` has the guard by its queue alone; here it is with both.
-/

namespace Paranoia

namespace Blob

structure NonceGuard where
  seen : Finset String
  order : List String
  cap : Nat
deriving DecidableEq

namespace NonceGuard

def new (cap : Nat) : NonceGuard := ⟨∅, [], cap⟩

/-- Take the oldest nonces out, until there is room for one more. -/
def makeRoom (cap : Nat) (seen : Finset String) : List String → Finset String × List String
  | [] => (seen, [])
  | old :: rest =>
      if cap ≤ (old :: rest).length then makeRoom cap (seen.erase old) rest
      else (seen, old :: rest)

/-- Whether the nonce is fresh, and the guard that has noted it. -/
def insertFresh (g : NonceGuard) (nonce : String) : NonceGuard × Bool :=
  if nonce = "" || nonce ∈ g.seen then (g, false)
  else
    let (seen, order) := makeRoom g.cap g.seen g.order
    ({ g with seen := insert nonce seen, order := order ++ [nonce] }, true)

/-- Present nonces one after the other: the guard afterwards, and those that were accepted. -/
def present (g : NonceGuard) (accepted : List String) : List String → NonceGuard × List String
  | [] => (g, accepted)
  | nonce :: rest =>
      match g.insertFresh nonce with
      | (g', true) => present g' (accepted ++ [nonce]) rest
      | (g', false) => present g' accepted rest

/-- The guard of `Signing` with the same queue. -/
def queue (g : NonceGuard) : Paranoia.NonceGuard := ⟨g.order, g.cap⟩

end NonceGuard

end Blob

/-- The last of a list. -/
def lastOf (n : Nat) (l : List String) : List String := l.drop (l.length - n)

end Paranoia
