import Paranoia.Lib.Lts
import Paranoia.Lib.Table
import Paranoia.Server.Signing

/-!
# Requests of the administrator

A request is an envelope signed by a key of the administrator. Its handler checks the
operation, reads the clock and checks the timestamp against it; then it takes its turn at the
table of nonces, which it prunes by the clock it has read; then it verifies the signature. The
table is locked for a turn, and nothing else is: handlers interleave between the three.
-/

namespace Paranoia

/-- Greatest distance between the clock and the timestamp of a request. -/
def maxTsSkewSecs : Nat := 300

inductive Capability where
  | base
  | extended
deriving DecidableEq

/-- A patch is its compact JSON text. -/
structure AdminEnvelope where
  op : String
  nonce : String
  ts : Nat
  username : Option String
  patch : Option String
  sig : String
deriving DecidableEq

inductive AdminRoute where
  | usersList
  | usersDelete
  | dialoguesList
  | dialoguesPrune
  | configGet
  | configSet
deriving DecidableEq

namespace AdminRoute

def expectedOp : AdminRoute → String
  | usersList => "list_users"
  | usersDelete => "delete_user"
  | dialoguesList => "list_dialogues"
  | dialoguesPrune => "prune"
  | configGet => "get_config"
  | configSet => "set_config"

def capability : AdminRoute → Capability
  | usersList | usersDelete => .base
  | dialoguesList | dialoguesPrune | configGet | configSet => .extended

/-- What is signed besides the operation, the nonce and the timestamp, or why there is nothing
to verify. -/
def extra (env : AdminEnvelope) : AdminRoute → Except String String
  | usersDelete =>
      match env.username with
      | some username => if username = "" then .error "missing_username" else .ok username
      | none => .error "missing_username"
  | configSet => .ok (env.patch.getD "null")
  | usersList | dialoguesList | dialoguesPrune | configGet => .ok ""

end AdminRoute

def canonicalMessage (op nonce : String) (ts : Nat) (extra : String) : String :=
  "paranoia-admin\n" ++ op ++ "\n" ++ nonce ++ "\n" ++ toString ts ++ "\n" ++ extra

/-- The keys of the configuration; the base key may not decode. -/
structure AdminKeys (κ : Type) where
  base : Except String κ
  extended : Option κ

section Signatures

variable {κ : Type} (verifies : κ → String → List Nat → Bool)

/-- The extended key will do where the base key is asked for. -/
def verifyWithKeys (base : κ) (extended : Option κ) (capability : Capability) (msg : String)
    (sig : List Nat) : Except String Unit :=
  match capability with
  | .extended =>
      match extended with
      | none => .error "extended_key_not_configured"
      | some ext => if verifies ext msg sig then .ok () else .error "invalid_admin_signature"
  | .base =>
      if verifies base msg sig || extended.any (verifies · msg sig) then .ok ()
      else .error "invalid_admin_signature"

def verifyAdminSig (keys : AdminKeys κ) (msg : String) (sig : List Nat) (capability : Capability) :
    Except String Unit :=
  match keys.base with
  | .error e => .error ("server_config_error: " ++ e)
  | .ok base => verifyWithKeys verifies base keys.extended capability msg sig

end Signatures

/-! ## The table of nonces -/

structure SeenNonce where
  nonce : String
  ts : Nat
deriving DecidableEq

abbrev SeenNonces := Table SeenNonce SeenNonce.nonce

namespace SeenNonces

/-- Keep the entries that are no further behind the clock than allowed. -/
def retain (seen : SeenNonces) (now : Nat) : SeenNonces :=
  seen.deleteWhere (fun e => decide (maxTsSkewSecs < now - e.ts))

/-- One turn at the table, by a request that has read the clock at `now`. -/
def turn (seen : SeenNonces) (now : Nat) (env : AdminEnvelope) : SeenNonces × Except String Unit :=
  let seen := seen.retain now
  if (seen.find? (fun e => decide (e.nonce = env.nonce))).isSome then (seen, .error "nonce_replayed")
  else (seen.insertOrReplace ⟨env.nonce, env.ts⟩, .ok ())

end SeenNonces

/-! ## Handlers side by side -/

structure AdminRequest where
  route : AdminRoute
  env : AdminEnvelope
deriving DecidableEq

namespace AdminRequest

/-- Everything before the table, with the clock at `now`. -/
def checkArrival (r : AdminRequest) (now : Nat) : Except String String :=
  match r.route.extra r.env with
  | .error e => .error e
  | .ok extra =>
      if r.env.op ≠ r.route.expectedOp then .error "op_mismatch"
      else if saturatingAdd now maxTsSkewSecs < r.env.ts ∨ maxTsSkewSecs < now - r.env.ts then
        .error "stale_or_future_timestamp"
      else .ok extra

/-- Everything after it. -/
def checkSignature {κ : Type} (verifies : κ → String → List Nat → Bool) (keys : AdminKeys κ)
    (r : AdminRequest) : Except String Unit :=
  match r.route.extra r.env, decodeB64 r.env.sig.toList with
  | .error e, _ => .error e
  | .ok _, none => .error "bad_sig_encoding"
  | .ok extra, some sig =>
      verifyAdminSig verifies keys (canonicalMessage r.env.op r.env.nonce r.env.ts extra) sig
        r.route.capability

/-- What the table knows a request by. -/
def entry (r : AdminRequest) : SeenNonce := ⟨r.env.nonce, r.env.ts⟩

end AdminRequest

/-- A request and the clock it has read. -/
structure AdminTurn where
  request : AdminRequest
  now : Nat
deriving DecidableEq

structure AdminWorld where
  now : Nat
  seen : SeenNonces
  /-- Handlers that have read the clock and wait for the table. -/
  waiting : List AdminTurn
  /-- Handlers that have left the table with a fresh nonce. -/
  fresh : List AdminRequest
  /-- Requests that were verified, and so carried out. -/
  accepted : List AdminRequest
  /-- The turns at the table so far, the last one first. -/
  turns : List AdminTurn

inductive AdminLabel where
  /-- The clock moves on. -/
  | tick (now : Nat)
  /-- A request comes in, once more or for the first time. -/
  | arrive (r : AdminRequest)
  /-- A handler gets the lock. -/
  | turn (t : AdminTurn)
  | verify (r : AdminRequest)
deriving DecidableEq

namespace AdminWorld

def init (now : Nat) : AdminWorld := ⟨now, .empty, [], [], [], []⟩

section Step

variable {κ : Type} (verifies : κ → String → List Nat → Bool) (keys : AdminKeys κ)

def step (w : AdminWorld) : AdminLabel → Option AdminWorld
  | .tick now => if w.now ≤ now ∧ now < u64Size then some { w with now := now } else none
  | .arrive r =>
      if r.env.ts < u64Size then
        match r.checkArrival w.now with
        | .ok _ => some { w with waiting := ⟨r, w.now⟩ :: w.waiting }
        | .error _ => some w
      else none
  | .turn t =>
      if t ∈ w.waiting then
        match w.seen.turn t.now t.request.env with
        | (seen, .ok ()) =>
            some { w with
              seen := seen, waiting := w.waiting.erase t, fresh := t.request :: w.fresh
              turns := t :: w.turns }
        | (seen, .error _) =>
            some { w with seen := seen, waiting := w.waiting.erase t, turns := t :: w.turns }
      else none
  | .verify r =>
      if r ∈ w.fresh then
        match r.checkSignature verifies keys with
        | .ok () => some { w with fresh := w.fresh.erase r, accepted := r :: w.accepted }
        | .error _ => some { w with fresh := w.fresh.erase r }
      else none

end Step

end AdminWorld

end Paranoia
