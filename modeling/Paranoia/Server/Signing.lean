import Paranoia.Lib.Decimal
import Paranoia.Lib.Glued
import Paranoia.Lib.Lts
import Paranoia.Server.Routes

/-!
# What the keys of the accounts sign

Every request of an account carries a signature over one text made of its fields. Most
operations glue the fields together as they are, names, numerals and payloads, with nothing in
front; `/arrived` and `/blob` put the operation in front and a separator between the fields. A
handler rebuilds the text from the request it was sent and verifies the signature over it, so
what a signature is worth is decided by which requests have that text.

A signature is the account whose key made it and the text. Signatures cannot be forged: one
that is submitted was made by its account, over the text of a request that account has signed.
Texts are compared as characters, which is the same as comparing their UTF-8.
-/

namespace Paranoia

/-! ## Requests and their texts -/

/-- One dialogue of a `/notify` over several. -/
structure NotifyItem where
  partner : String
  seq : Nat
deriving DecidableEq

/-- What is signed of a request. A `/notify` over several dialogues has at least one: without
any it is the one over a single dialogue. `other` is whatever else the key of an account signs. -/
inductive SignedRequest where
  | push (sender recver : String) (seq : Nat) (payload : String)
  | pull (sender recver : String) (afterSeq toSeq : Nat)
  | map (sender recver : String) (afterSeq toSeq : Nat)
  | determinate (sender recver : String) (fromSeq toSeq : Nat)
  | notify (sender partner : String) (seq : Nat)
  | notifyMulti (sender : String) (item : NotifyItem) (items : List NotifyItem)
  | callSignal (sender recver : String) (kind : Nat) (tsMs : Int) (payload : String)
  | callPoll (user : String) (nonce longPollMs : Nat)
  | arrivedGet (sender partner dialogueId : String)
  | arrivedPut (sender dialogueId : String) (receiptsEnabled : Bool)
  | blobInfo (user nonce : String)
  | blobPut (user peer fileId : String) (chunkIndex totalChunks totalSize : Nat)
      (nonce payload : String)
  | blobGet (user peer fileId : String) (chunkIndex : Nat) (nonce : String)
  | other (text : String)
deriving DecidableEq

inductive Operation where
  | push | pull | map | determinate | notify | notifyMulti | callSignal | callPoll
  | arrivedGet | arrivedPut | blobInfo | blobPut | blobGet | other
deriving DecidableEq

/-- What a text of this operation starts with. -/
def Operation.tag : Operation → List Char
  | arrivedGet => "arrived:get:".toList
  | arrivedPut => "arrived:put:".toList
  | blobInfo => "blob.info|".toList
  | blobPut => "blob.put|".toList
  | blobGet => "blob.get|".toList
  | _ => []

/-- What stands between two fields. -/
def Operation.separator : Operation → List Char
  | arrivedGet | arrivedPut => [':']
  | blobInfo | blobPut | blobGet => ['|']
  | _ => []

def NotifyItem.fields (item : NotifyItem) : List (List Char) :=
  [item.partner.toList, Decimal.numeral item.seq]

def boolean (b : Bool) : List Char := if b then "true".toList else "false".toList

namespace SignedRequest

def operation : SignedRequest → Operation
  | push .. => .push
  | pull .. => .pull
  | map .. => .map
  | determinate .. => .determinate
  | notify .. => .notify
  | notifyMulti .. => .notifyMulti
  | callSignal .. => .callSignal
  | callPoll .. => .callPoll
  | arrivedGet .. => .arrivedGet
  | arrivedPut .. => .arrivedPut
  | blobInfo .. => .blobInfo
  | blobPut .. => .blobPut
  | blobGet .. => .blobGet
  | other .. => .other

/-- The account the request names as the one who makes it, if it names one. -/
def user : SignedRequest → String
  | push sender .. | pull sender .. | map sender .. | determinate sender .. => sender
  | notify sender .. | notifyMulti sender .. | callSignal sender .. => sender
  | arrivedGet sender .. | arrivedPut sender .. => sender
  | callPoll user .. | blobInfo user .. | blobPut user .. | blobGet user .. => user
  | other .. => ""

/-- The fields in the order they are signed in. -/
def fields : SignedRequest → List (List Char)
  | push sender recver seq payload =>
      [sender.toList, recver.toList, Decimal.numeral seq, payload.toList]
  | pull sender recver afterSeq toSeq | map sender recver afterSeq toSeq =>
      [sender.toList, recver.toList, Decimal.numeral afterSeq, Decimal.numeral toSeq]
  | determinate sender recver fromSeq toSeq =>
      [sender.toList, recver.toList, Decimal.numeral fromSeq, Decimal.numeral toSeq]
  | notify sender partner seq => [sender.toList, partner.toList, Decimal.numeral seq]
  | notifyMulti sender item items => sender.toList :: (item :: items).flatMap NotifyItem.fields
  | callSignal sender recver kind tsMs payload =>
      [sender.toList, recver.toList, Decimal.numeral kind, Decimal.integer tsMs, payload.toList]
  | callPoll user nonce longPollMs =>
      [user.toList, Decimal.numeral nonce, Decimal.numeral longPollMs]
  | arrivedGet sender partner dialogueId => [sender.toList, partner.toList, dialogueId.toList]
  | arrivedPut sender dialogueId receiptsEnabled =>
      [sender.toList, dialogueId.toList, boolean receiptsEnabled]
  | blobInfo user nonce => [user.toList, nonce.toList]
  | blobPut user peer fileId chunkIndex totalChunks totalSize nonce payload =>
      [user.toList, peer.toList, fileId.toList, Decimal.numeral chunkIndex,
        Decimal.numeral totalChunks, Decimal.numeral totalSize, nonce.toList, payload.toList]
  | blobGet user peer fileId chunkIndex nonce =>
      [user.toList, peer.toList, fileId.toList, Decimal.numeral chunkIndex, nonce.toList]
  | other text => [text.toList]

/-- The text the signature is over. -/
def text (r : SignedRequest) : List Char :=
  r.operation.tag ++ r.operation.separator.intercalate r.fields

/-- Where the text is cut into fields. -/
def shape (r : SignedRequest) : Operation × List Nat := (r.operation, r.fields.map List.length)

/-- Every number fits the type of its field. -/
def Bounded : SignedRequest → Prop
  | push _ _ seq _ | notify _ _ seq => seq < u64Size
  | pull _ _ afterSeq toSeq | map _ _ afterSeq toSeq => afterSeq < u64Size ∧ toSeq < u64Size
  | determinate _ _ fromSeq toSeq => fromSeq < u64Size ∧ toSeq < u64Size
  | notifyMulti _ item items => ∀ i ∈ item :: items, i.seq < u64Size
  | callSignal _ _ kind tsMs _ => kind < 2 ^ 8 ∧ -2 ^ 63 ≤ tsMs ∧ tsMs < 2 ^ 63
  | callPoll _ nonce longPollMs => nonce < u64Size ∧ longPollMs < 2 ^ 32
  | blobPut _ _ _ chunkIndex totalChunks totalSize _ _ =>
      chunkIndex < 2 ^ 32 ∧ totalChunks < 2 ^ 32 ∧ totalSize < u64Size
  | blobGet _ _ _ chunkIndex _ => chunkIndex < 2 ^ 32
  | arrivedGet .. | arrivedPut .. | blobInfo .. | other .. => True

instance : DecidablePred Bounded := fun r => by
  cases r <;> unfold Bounded <;> infer_instance

/-! ## The text and the lengths determine the request -/

theorem boolean_inj {b c : Bool} : boolean b = boolean c ↔ b = c := by
  cases b <;> cases c <;> decide

theorem flatMap_fields_inj {is js : List NotifyItem} :
    is.flatMap NotifyItem.fields = js.flatMap NotifyItem.fields ↔ is = js := by
  constructor
  · intro h
    induction is generalizing js with
    | nil =>
        cases js with
        | nil => rfl
        | cons j js => simp [NotifyItem.fields] at h
    | cons i is ih =>
        cases js with
        | nil => simp [NotifyItem.fields] at h
        | cons j js =>
            simp only [List.flatMap_cons, NotifyItem.fields, List.cons_append, List.nil_append,
              List.cons.injEq, String.toList_inj, Decimal.numeral_inj] at h
            obtain ⟨hp, hs, hrest⟩ := h
            rw [ih hrest]
            cases i
            cases j
            simp_all
  · rintro rfl
    rfl

/-- A request is its operation and its fields. -/
theorem ext_fields {r r' : SignedRequest} (hop : r.operation = r'.operation)
    (hf : r.fields = r'.fields) : r = r' := by
  cases r <;> cases r' <;> first
    | (cases hop; done)
    | simpa [fields, boolean_inj, String.toList_inj, flatMap_fields_inj, -List.flatMap_cons] using hf

/-- **Two requests with one text that is cut at the same places are one.** -/
theorem eq_of_text {r r' : SignedRequest} (hs : r.shape = r'.shape) (ht : r.text = r'.text) :
    r = r' := by
  obtain ⟨hop, hlen⟩ := Prod.mk.inj hs
  unfold text at ht
  rw [hop] at ht
  exact ext_fields hop (Glued.intercalate_inj hlen (List.append_cancel_left ht))

end SignedRequest

/-! ## Signatures -/

/-- A signature: whose key made it, and over what. -/
structure Signature where
  signer : String
  text : List Char
deriving DecidableEq

/-- Verifying under an account's key, over the text rebuilt from a request. -/
def verifySignature (username : String) (text : List Char) (sig : Signature) : Bool :=
  sig = ⟨username, text⟩

/-! ## Payloads -/

/-- The six bits of a character of base64. -/
def sextet (c : Char) : Option Nat :=
  if 'A' ≤ c ∧ c ≤ 'Z' then some (c.toNat - 'A'.toNat)
  else if 'a' ≤ c ∧ c ≤ 'z' then some (c.toNat - 'a'.toNat + 26)
  else if '0' ≤ c ∧ c ≤ '9' then some (c.toNat - '0'.toNat + 52)
  else if c = '+' then some 62
  else if c = '/' then some 63
  else none

/-- Padding is required, and the bits it stands for must be zero. -/
def decodeB64 : List Char → Option (List Nat)
  | [] => some []
  | [a, b, '=', '='] => do
      let a ← sextet a
      let b ← sextet b
      if b % 16 = 0 then some [a * 4 + b / 16] else none
  | [a, b, c, '='] => do
      let a ← sextet a
      let b ← sextet b
      let c ← sextet c
      if c % 4 = 0 then some [a * 4 + b / 16, b % 16 * 16 + c / 4] else none
  | a :: b :: c :: d :: rest => do
      let a ← sextet a
      let b ← sextet b
      let c ← sextet c
      let d ← sextet d
      let bytes ← decodeB64 rest
      some ([a * 4 + b / 16, b % 16 * 16 + c / 4, c % 4 * 64 + d] ++ bytes)
  | _ => none

/-- Greatest number of bytes in the payload of a call signal. -/
def maxPayloadLen : Nat := 4 * 1024

/-- Greatest number of dialogues of one `/notify`. -/
def maxNotifyItems : Nat := 512

/-! ## The handlers -/

/-- Nonces that were used, in the order they came in; the oldest go when there are too many. -/
structure NonceGuard where
  order : List String
  cap : Nat
deriving DecidableEq

namespace NonceGuard

def new (cap : Nat) : NonceGuard := ⟨[], cap⟩

/-- Whether the nonce is fresh, and the guard that has noted it. -/
def insertFresh (g : NonceGuard) (nonce : String) : NonceGuard × Bool :=
  if nonce = "" || g.order.contains nonce then (g, false)
  else ({ g with order := g.order.drop (g.order.length + 1 - g.cap) ++ [nonce] }, true)

end NonceGuard

/-- What the handlers of signed requests look at besides the request. -/
structure Config where
  users : List String
  largeFileMax : Nat
deriving DecidableEq

/-- The message of the first check that fails. -/
def refusal (checks : List (Bool × String)) : Option String :=
  (checks.find? (·.1)).map (·.2)

theorem refusal_eq_none {checks : List (Bool × String)} :
    refusal checks = none ↔ ∀ c ∈ checks, c.1 = false := by
  simp [refusal]

/-- The last check, too, has not failed. -/
theorem refusal_last {checks : List (Bool × String)} {c : Bool × String}
    (h : refusal checks = none) (hlast : checks.getLast? = some c) : c.1 = false :=
  refusal_eq_none.mp h c (List.mem_of_getLast? hlast)

namespace SignedRequest

/-- No signature at all, or one over another text or by another account. -/
def unsigned (r : SignedRequest) (username : String) : Option Signature → Bool
  | none => true
  | some sig => !verifySignature username r.text sig

theorem unsigned_eq_false {r : SignedRequest} {username : String} {sig : Option Signature} :
    r.unsigned username sig = false ↔ sig = some ⟨username, r.text⟩ := by
  cases sig <;> simp [unsigned, verifySignature]

end SignedRequest

namespace Config

variable (cfg : Config)

/-- Why `/push` refuses a request before the store is asked. -/
def refusePush (sender recver : String) (seq : Nat) (payload : String)
    (sig : Option Signature) : Option String :=
  refusal [(sig.isNone, "Bad sig encoding"),
    ((decodeB64 payload.toList).isNone, "Bad payload encoding"),
    (!cfg.users.contains recver, "One user in pair not registered"),
    (!cfg.users.contains sender, "One user in pair not registered"),
    ((SignedRequest.push sender recver seq payload).unsigned sender sig, "Invalid signature")]

def refuseNotify (sender partner : String) (seq : Nat) (sig : Option Signature) :
    Option String :=
  refusal [(sig.isNone, "Bad sig encoding"),
    (!cfg.users.contains partner, "One user in pair not registered"),
    (!cfg.users.contains sender, "One user in pair not registered"),
    ((SignedRequest.notify sender partner seq).unsigned sender sig, "Invalid signature")]

/-- Partners that are not registered are passed over, so nothing is checked of them. -/
def refuseNotifyMulti (sender : String) (item : NotifyItem) (items : List NotifyItem)
    (sig : Option Signature) : Option String :=
  refusal [(decide (maxNotifyItems < (item :: items).length), "too many items (>512)"),
    (sig.isNone, "Bad sig encoding"),
    (!cfg.users.contains sender, "sender not registered"),
    ((SignedRequest.notifyMulti sender item items).unsigned sender sig, "Invalid signature")]

def refuseSignal (sender recver : String) (kind : Nat) (tsMs : Int) (payload : String)
    (sig : Option Signature) : Option String :=
  let payloadBytes := decodeB64 payload.toList
  let size := (payloadBytes.getD []).length
  refusal [(sig.isNone, "Bad sig encoding"),
    (payloadBytes.isNone, "Bad payload encoding"),
    (decide (maxPayloadLen < size),
      "Payload too large: " ++ toString size ++ " > " ++ toString maxPayloadLen),
    (!cfg.users.contains recver, "recver not registered"),
    (!cfg.users.contains sender, "sender not registered"),
    ((SignedRequest.callSignal sender recver kind tsMs payload).unsigned sender sig,
      "Invalid signature")]

def refusePoll (user : String) (nonce longPollMs : Nat) (sig : Option Signature) :
    Option String :=
  refusal [(sig.isNone, "Bad sig encoding"),
    (!cfg.users.contains user, "user not registered"),
    ((SignedRequest.callPoll user nonce longPollMs).unsigned user sig, "Invalid signature")]

/-- Why `/blob` refuses a request before it looks at the nonce. -/
def refuseBlob (r : SignedRequest) (sig : Option Signature) : Option String :=
  refusal [(!cfg.users.contains r.user, "user not registered"),
    (sig.isNone, "bad sig encoding"),
    (r.unsigned r.user sig, "invalid signature")]

/-- Why a `put` is refused after its nonce was noted. -/
def refuseBlobPut (peer fileId : String) (totalSize : Nat) (payload : String) : Option String :=
  refusal [(decide (cfg.largeFileMax < totalSize), "file too large"),
    (fileId = "" || peer = "", "bad request"),
    ((decodeB64 payload.toList).isNone, "bad payload encoding")]

def refuseBlobGet (peer fileId : String) : Option String :=
  refusal [(fileId = "" || peer = "", "bad request")]

/-- `/blob`: the checks all its operations share, and those of the one asked for. -/
def doBlob (nonces : NonceGuard) (r : SignedRequest) (nonce : String)
    (rest : Option String) (sig : Option Signature) : NonceGuard × Option String :=
  match cfg.refuseBlob r sig with
  | some msg => (nonces, some msg)
  | none =>
      match nonces.insertFresh nonce with
      | (nonces', false) => (nonces', some "replay")
      | (nonces', true) => (nonces', rest)

/-- What the handler of a request answers: why it refuses, or nothing when it does what was
asked. `none` for an operation that another handler sees to. -/
def handle (nonces : NonceGuard) (r : SignedRequest) (sig : Option Signature) :
    Option (NonceGuard × Option String) :=
  match r with
  | .push sender recver seq payload =>
      some (nonces, cfg.refusePush sender recver seq payload sig)
  | .notify sender partner seq => some (nonces, cfg.refuseNotify sender partner seq sig)
  | .notifyMulti sender item items =>
      some (nonces, cfg.refuseNotifyMulti sender item items sig)
  | .callSignal sender recver kind tsMs payload =>
      some (nonces, cfg.refuseSignal sender recver kind tsMs payload sig)
  | .callPoll user nonce longPollMs => some (nonces, cfg.refusePoll user nonce longPollMs sig)
  | .blobInfo _ nonce => some (cfg.doBlob nonces r nonce none sig)
  | .blobPut _ peer fileId _ _ totalSize nonce payload =>
      some (cfg.doBlob nonces r nonce (cfg.refuseBlobPut peer fileId totalSize payload) sig)
  | .blobGet _ peer fileId _ nonce =>
      some (cfg.doBlob nonces r nonce (refuseBlobGet peer fileId) sig)
  | _ => none

end Config

/-! ## Deletions -/

structure DeterminateRequest where
  sender : String
  recver : String
  fromSeq : Nat
  toSeq : Nat
deriving DecidableEq

namespace DeterminateRequest

def dialogue (req : DeterminateRequest) : DialogueKey := DialogueKey.new req.sender req.recver

/-- What is signed of it. -/
def signed (req : DeterminateRequest) : SignedRequest :=
  .determinate req.sender req.recver req.fromSeq req.toSeq

/-- The same request with the names the other way round, which is about the same dialogue. -/
def swapped (req : DeterminateRequest) : DeterminateRequest :=
  { req with sender := req.recver, recver := req.sender }

end DeterminateRequest

/-- The deletion a request asks for, if that is what it is. -/
def SignedRequest.deletion? : SignedRequest → Option DeterminateRequest
  | .determinate sender recver fromSeq toSeq => some ⟨sender, recver, fromSeq, toSeq⟩
  | _ => none

/-- Why `/determinate` refuses: either participant may have signed. -/
def refuseDeterminate (users : List String) (req : DeterminateRequest) (sig : Option Signature) :
    Option String :=
  refusal [(sig.isNone, "Bad sig encoding"),
    (decide (req.toSeq = 0), "to_seq must be > 0"),
    (decide (req.fromSeq ≠ 0 ∧ req.toSeq < req.fromSeq), "Invalid range"),
    (!(users.contains req.sender && users.contains req.recver), "One user in pair not registered"),
    (req.signed.unsigned req.sender sig && req.signed.unsigned req.recver sig,
      "Invalid signature")]

/-- `/determinate`: delete a range of a dialogue. -/
def Server.doDeterminate {π : Type} (srv : Server π) (req : DeterminateRequest)
    (sig : Option Signature) : Server π × ApiResponse :=
  match refuseDeterminate srv.users req sig with
  | some msg => (srv, fail msg)
  | none =>
      match srv.store.removeRange req.dialogue req.fromSeq req.toSeq with
      | .ok store => ({ srv with store := store }, ok "OK")
      | .error msg => (srv, fail msg)

/-! ## The server among its accounts -/

structure SigningWorld (π : Type) where
  server : Server π
  largeFileMax : Nat
  nonces : NonceGuard
  /-- What was signed, and by whom. -/
  signed : List (String × SignedRequest)
  /-- The requests the handlers of `Config.handle` accepted. -/
  accepted : List SignedRequest
  /-- The deletions `/determinate` carried out. -/
  removed : List DeterminateRequest

inductive SigningLabel (π : Type) where
  /-- An account signs a request, whether or not it is ever sent. -/
  | sign (username : String) (r : SignedRequest)
  /-- Anybody submits a request with any signature there is. -/
  | submit (r : SignedRequest) (sig : Option Signature)
  | determinate (req : DeterminateRequest) (sig : Option Signature)
  /-- The administrator registers or deletes accounts, or sets the limit on files. -/
  | configure (users : List String) (largeFileMax : Nat)
  /-- Whatever else happens to the packets: pushes, and the administrator's pruning. -/
  | store (store : PacketStore π)

namespace SigningWorld

variable {π : Type}

def init (server : Server π) (largeFileMax cap : Nat) : SigningWorld π :=
  ⟨server, largeFileMax, .new cap, [], [], []⟩

def config (w : SigningWorld π) : Config := ⟨w.server.users, w.largeFileMax⟩

/-- Signatures are not forged. -/
def Made (w : SigningWorld π) : Option Signature → Prop
  | none => True
  | some sig => ∃ p ∈ w.signed, sig = ⟨p.1, p.2.text⟩

instance (w : SigningWorld π) : DecidablePred w.Made := fun sig => by
  cases sig <;> unfold Made <;> infer_instance

/-- A request whose numbers do not fit their types does not parse, and no handler sees it. -/
def step (w : SigningWorld π) : SigningLabel π → Option (SigningWorld π)
  | .sign username r => some { w with signed := w.signed ++ [(username, r)] }
  | .submit r sig =>
      if r.Bounded ∧ w.Made sig then
        match w.config.handle w.nonces r sig with
        | none => none
        | some (nonces, some _) => some { w with nonces := nonces }
        | some (nonces, none) =>
            some { w with nonces := nonces, accepted := w.accepted ++ [r] }
      else none
  | .determinate req sig =>
      if req.signed.Bounded ∧ w.Made sig then
        match w.server.doDeterminate req sig with
        | (server, resp) =>
            some { w with
              server := server
              removed := if resp.success then w.removed ++ [req] else w.removed }
      else none
  | .configure users largeFileMax =>
      some { w with server := { w.server with users := users }, largeFileMax := largeFileMax }
  | .store store => some { w with server := { w.server with store := store } }

end SigningWorld

end Paranoia
