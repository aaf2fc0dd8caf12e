import Paranoia.Server.KeyOps
import Paranoia.Server.Signing

/-!
# Requests about a dialogue, over the keys

The routes that read or change what the store has of a dialogue: each checks its request and the
signature first, then makes the hash of the two names, and works with the keys that begin with it.
`PUT /arrived` is sent the hash itself. A `/notify` that waits counts again later what it counts
here.
-/

namespace Paranoia

/-- What is computed by libraries: the hash, the bytes of a record, and whose signature a text of
base64 is and over what. -/
structure AccessEnv where
  hash : String → DialogueId
  codec : ReceiptCodec
  sigOf : String → Option Signature

/-- The header of a request to `/arrived`. -/
inductive Authorization where
  | missing
  /-- No text, or no base64 of one. -/
  | unreadable
  | token (text : List Char)
deriving DecidableEq

/-- The account and the signature, the account up to the first colon. -/
def parseAuthorization : Authorization → Except String (String × String)
  | .missing => .error "Missing authorization"
  | .unreadable => .error "Invalid authorization"
  | .token text =>
      match Glued.splitOnce ':' text with
      | none => .error "Invalid authorization"
      | some (username, sig) =>
          if username.isEmpty || sig.isEmpty then .error "Invalid authorization"
          else .ok (String.ofList username, String.ofList sig)

inductive AccessRequest where
  | push (sender recver : String) (seq : Fin u64Size) (payload sig : String)
  | pull (sender recver : String) (afterSeq toSeq : Fin u64Size) (sig : String)
  | map (sender recver : String) (afterSeq toSeq : Fin u64Size) (sig : String)
  | determinate (sender recver : String) (fromSeq toSeq : Fin u64Size) (sig : String)
  | notify (sender partner : String) (seq : Fin u64Size) (sig : String)
  | notifyMulti (sender : String) (item : NotifyItem) (items : List NotifyItem) (sig : String)
  | arrivedGet (authorization : Authorization) (dialogueId partner : String)
  | arrivedPut (authorization : Authorization) (dialogueId : String) (receiptsEnabled : Bool)
      (sig : String)

inductive AccessResponse where
  | refused (message : String)
  | done (message : String)
  | packets (packets : List (RawPacket (List UInt8)))
  | runs (result : MapResult)
  | count (n : Nat)
  | items (items : List (String × Nat))
  | receipt (partnerLastSeq : Option Nat) (ownLastSeq ts : Nat)
deriving DecidableEq

namespace AccessEnv

variable (env : AccessEnv)

/-! ## The checks -/

/-- Either participant may have signed. -/
def refusePair (users : List String) (r : SignedRequest) (sender recver : String)
    (sig : Option Signature) (badRange : Bool × String) : Option String :=
  refusal [(sig.isNone, "Bad sig encoding"), badRange,
    (!(users.contains sender && users.contains recver), "One user in pair not registered"),
    (r.unsigned sender sig && r.unsigned recver sig, "Invalid signature")]

/-- `verify_user_signature` of `/arrived`. -/
def refuseArrived (users : List String) (r : SignedRequest) (username partner : String)
    (sig : Option Signature) : Option String :=
  refusal [(sig.isNone, "Bad sig encoding"),
    (!users.contains partner, "One user in pair not registered"),
    (!users.contains username, "One user in pair not registered"),
    (r.unsigned username sig, "Invalid signature")]

/-- Why a request is refused before the store is asked. -/
def refuse (users : List String) : AccessRequest → Option String
  | .push sender recver seq payload sig =>
      Config.refusePush ⟨users, 0⟩ sender recver seq payload (env.sigOf sig)
  | .pull sender recver afterSeq toSeq sig =>
      refusePair users (.pull sender recver afterSeq toSeq) sender recver (env.sigOf sig)
        (decide (toSeq.val = 0 ∨ toSeq ≤ afterSeq), "Invalid pull range")
  | .map sender recver afterSeq toSeq sig =>
      refusePair users (.map sender recver afterSeq toSeq) sender recver (env.sigOf sig)
        (decide (toSeq.val ≠ 0 ∧ toSeq ≤ afterSeq), "Invalid map range")
  | .determinate sender recver fromSeq toSeq sig =>
      refuseDeterminate users ⟨sender, recver, fromSeq, toSeq⟩ (env.sigOf sig)
  | .notify sender partner seq sig =>
      Config.refuseNotify ⟨users, 0⟩ sender partner seq (env.sigOf sig)
  | .notifyMulti sender item items sig =>
      Config.refuseNotifyMulti ⟨users, 0⟩ sender item items (env.sigOf sig)
  | .arrivedGet authorization dialogueId partner =>
      match parseAuthorization authorization with
      | .error e => some e
      | .ok (username, sig) =>
          if dialogueId = "" ∨ partner = "" then some "Invalid arrived request"
          else if (makeDialogueId env.hash username partner).text ≠ dialogueId.toList then
            some "Invalid dialogue_id"
          else refuseArrived users (.arrivedGet username partner dialogueId) username partner
            (env.sigOf sig)
  | .arrivedPut authorization dialogueId receiptsEnabled sig =>
      match parseAuthorization authorization with
      | .error e => some e
      | .ok (username, authSig) =>
          if dialogueId = "" then some "Invalid arrived request"
          else if authSig ≠ sig then some "Signature mismatch"
          else refuseArrived users (.arrivedPut username dialogueId receiptsEnabled) username
            username (env.sigOf authSig)

/-! ## What is done then -/

/-- The participant whose signature a pull has; that of the sender is tried first. -/
def pullSigner (sender recver : String) (afterSeq toSeq : Nat) (sig : String) : String :=
  if (SignedRequest.pull sender recver afterSeq toSeq).unsigned sender (env.sigOf sig) then recver
  else sender

/-- A push whose position cannot be raised is a push all the same. -/
def pushStored (ks : KeyStore (List UInt8)) (sender : String) (dialogueId : DialogueId)
    (seq : Fin u64Size) (data : List UInt8) (now : Nat) : KeyStore (List UInt8) × AccessResponse :=
  match ks.push dialogueId seq seq.isLt data with
  | .error e => (ks, .refused e)
  | .ok ks' =>
      ((ks'.updateLastSeq env.codec sender dialogueId seq now).toOption.getD ks', .done "OK")

def pullStored (ks : KeyStore (List UInt8)) (signer : String) (dialogueId : DialogueId)
    (afterSeq toSeq now : Nat) : KeyStore (List UInt8) × AccessResponse :=
  match ks.pull dialogueId afterSeq toSeq with
  | .error e => (ks, .refused e)
  | .ok packets =>
      match (packets.map RawPacket.seq).max? with
      | none => (ks, .packets packets)
      | some pulledSeq =>
          match ks.updateLastSeq env.codec signer dialogueId pulledSeq now with
          | .error e => (ks, .refused e)
          | .ok ks' => (ks', .packets packets)

/-- The dialogues of a `/notify` over several that have something new. -/
def scanPairs (ks : KeyStore (List UInt8)) (sender : String) :
    List NotifyItem → Except String (List (String × Nat))
  | [] => .ok []
  | item :: items =>
      match ks.countNewForUser env.codec (makeDialogueId env.hash sender item.partner) item.seq
        sender with
      | .error e => .error e
      | .ok n =>
          if 0 < n then (scanPairs ks sender items).map ((item.partner, n) :: ·)
          else scanPairs ks sender items

def getArrived (ks : KeyStore (List UInt8)) (username partner : String) (dialogueId : List Char)
    (now : Nat) : AccessResponse :=
  let ownLastSeq := match ks.receiptState env.codec username dialogueId with
    | .ok state => state.lastSeq
    | .error _ => 0
  match ks.receiptState env.codec partner dialogueId with
  | .error e => .refused e
  | .ok state =>
      .receipt (if state.receiptsEnabled then some state.lastSeq else none) ownLastSeq
        (if state.updatedAt = 0 then now else state.updatedAt)

def answer {α : Type} (f : α → AccessResponse) : Except String α → AccessResponse
  | .error e => .refused e
  | .ok a => f a

/-- A change of the store, and the answer to it. -/
def changed (ks : KeyStore (List UInt8)) (message : String) :
    Except String (KeyStore (List UInt8)) → KeyStore (List UInt8) × AccessResponse
  | .error e => (ks, .refused e)
  | .ok ks' => (ks', .done message)

def perform (users : List String) (now : Nat) (ks : KeyStore (List UInt8)) :
    AccessRequest → KeyStore (List UInt8) × AccessResponse
  | .push sender recver seq payload _ =>
      env.pushStored ks sender (makeDialogueId env.hash sender recver) seq
        (((decodeB64 payload.toList).getD []).map UInt8.ofNat) now
  | .pull sender recver afterSeq toSeq sig =>
      env.pullStored ks (env.pullSigner sender recver afterSeq toSeq sig)
        (makeDialogueId env.hash sender recver) afterSeq toSeq now
  | .map sender recver afterSeq toSeq _ =>
      (ks, answer .runs (ks.map (makeDialogueId env.hash sender recver) afterSeq toSeq mapMaxRuns))
  | .determinate sender recver fromSeq toSeq _ =>
      changed ks "OK" (ks.removeRange (makeDialogueId env.hash sender recver) fromSeq toSeq)
  | .notify sender partner seq _ =>
      (ks, answer .count
        (ks.countNewForUser env.codec (makeDialogueId env.hash sender partner) seq sender))
  | .notifyMulti sender item items _ =>
      (ks, answer .items (env.scanPairs ks sender
        ((item :: items).filter (fun i => users.contains i.partner))))
  | .arrivedGet authorization dialogueId partner =>
      match parseAuthorization authorization with
      | .error e => (ks, .refused e)
      | .ok (username, _) => (ks, env.getArrived ks username partner dialogueId.toList now)
  | .arrivedPut authorization dialogueId receiptsEnabled _ =>
      match parseAuthorization authorization with
      | .error e => (ks, .refused e)
      | .ok (username, _) =>
          changed ks "" (ks.setReceiptsEnabled env.codec username dialogueId.toList receiptsEnabled
            now)

def handle (users : List String) (now : Nat) (r : AccessRequest) (ks : KeyStore (List UInt8)) :
    KeyStore (List UInt8) × AccessResponse :=
  match env.refuse users r with
  | some msg => (ks, .refused msg)
  | none => env.perform users now ks r

/-- Whose signature the request has. -/
def signer : AccessRequest → Option String
  | .push _ _ _ _ sig | .pull _ _ _ _ sig | .map _ _ _ _ sig | .determinate _ _ _ _ sig
  | .notify _ _ _ sig | .notifyMulti _ _ _ sig => (env.sigOf sig).map Signature.signer
  | .arrivedGet authorization _ _ | .arrivedPut authorization _ _ _ =>
      match parseAuthorization authorization with
      | .error _ => none
      | .ok (_, sig) => (env.sigOf sig).map Signature.signer

end AccessEnv

end Paranoia
