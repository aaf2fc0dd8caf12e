import Paranoia.Types

/-!
# Payload encryption

`encrypt` draws a nonce and seals the serialised plaintext under a key, with no
associated data; `decrypt` opens it again and parses the result. The cipher and
the serialiser are libraries, so they are a parameter here: a pair of functions
of which only the round trip is known, and that what opens at all opens to what was
sealed.
-/

namespace Paranoia

/-- Sealing and opening packet plaintexts under keys `κ`, into payloads `π`. -/
class Aead (κ : outParam Type) (π : Type) where
  /-- Encrypt under a key and a nonce. -/
  encrypt : κ → Nat → PacketInner → π
  /-- Decrypt and parse; `none` for a wrong key, a damaged payload or a bad plaintext. -/
  decrypt : κ → π → Option PacketInner
  decrypt_encrypt : ∀ k n m, decrypt k (encrypt k n m) = some m
  /-- No key opens a sealed plaintext as another one. -/
  decrypt_sound : ∀ k k' n m m', decrypt k' (encrypt k n m) = some m' → m' = m

/-- A payload that shows its key, nonce and plaintext. -/
structure Sealed where
  key : Nat
  nonce : Nat
  inner : PacketInner
deriving DecidableEq

/-- The transparent cipher concrete traces are run with. -/
instance : Aead Nat Sealed where
  encrypt k n m := ⟨k, n, m⟩
  decrypt k p := if p.key = k then some p.inner else none
  decrypt_encrypt k n m := by simp
  decrypt_sound k k' n m m' h := by
    dsimp only at h
    split at h
    · exact (Option.some.inj h).symm
    · cases h

end Paranoia
