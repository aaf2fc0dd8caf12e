import Paranoia.Client.Outgoing
import Paranoia.Cover.Engine
import Paranoia.Lib.Decimal

/-!
# What is under a cover

The requests of the client and the responses of the server, for each of the kinds, and how they are
written as JSON and read back. Reading and writing the text of JSON is a library and so a
parameter.
-/

namespace Paranoia

namespace Cover

/-! ## Fields of a value -/

/-- `body[key]`: what is not there is `null`. -/
def field (v : Json) (key : String) : Json :=
  match v with
  | .obj fields => (Json.lookup key fields).getD .null
  | _ => .null

/-- `body[i]`. -/
def item (v : Json) (i : Nat) : Json :=
  match v with
  | .arr items => items[i]?.getD .null
  | _ => .null

def asArray : Json → Option (List Json)
  | .arr items => some items
  | _ => none

def asBool : Json → Option Bool
  | .bool b => some b
  | _ => none

def asU64 : Json → Option UInt64
  | .num text =>
      match Decimal.read? text.toList with
      | some n => if n < UInt64.size then some (UInt64.ofNat n) else none
      | none => none
  | _ => none

def asI64 : Json → Option Int64
  | .num text =>
      match text.toList with
      | '-' :: digits =>
          match Decimal.read? digits with
          | some n => if 0 < n ∧ n ≤ 2 ^ 63 then some (Int64.ofInt (-n)) else none
          | none => none
      | digits =>
          match Decimal.read? digits with
          | some n => if n < 2 ^ 63 then some (Int64.ofInt n) else none
          | none => none
  | _ => none

def ofNat (n : Nat) : Json := .num (String.ofList (Decimal.numeral n))

def ofU64 (n : UInt64) : Json := ofNat n.toNat

def ofU32 (n : UInt32) : Json := ofNat n.toNat

def ofU8 (n : UInt8) : Json := ofNat n.toNat

def ofI64 (n : Int64) : Json := .num (String.ofList (Decimal.integer n.toInt))

def toU32? (n : UInt64) : Option UInt32 :=
  if n.toNat < UInt32.size then some (UInt32.ofNat n.toNat) else none

def toU8? (n : UInt64) : Option UInt8 :=
  if n.toNat < UInt8.size then some (UInt8.ofNat n.toNat) else none

/-! ## What can go wrong -/

inductive Fault where
  | text (message : String)
  /-- `"{op} failed: {message}"`. -/
  | failed (op message : String)
  /-- `"{op} failed: {body}"`. -/
  | failedBody (op : String) (body : Json)
  | base64
  | serde
  | engine (e : CoverError)

def need {α : Type} (o : Option α) (message : String) : Except Fault α :=
  match o with
  | some a => .ok a
  | none => .error (.text message)

def decode (s : String) : Except Fault (List UInt8) :=
  match b64Decode s with
  | .ok bytes => .ok bytes
  | .error _ => .error .base64

/-! ## Requests -/

structure CorePush where
  sender : String
  recver : String
  seq : UInt64
  payload : List UInt8
  sig : List UInt8

/-- Pull and map ask for the same things. -/
structure CoreRange where
  sender : String
  recver : String
  afterSeq : UInt64
  toSeq : UInt64
  sig : List UInt8

structure CoreNotify where
  sender : String
  partner : String
  seq : UInt64
  sig : List UInt8
  longPollMs : UInt32

structure CoreNotifyMulti where
  sender : String
  items : List (String × UInt64)
  sig : List UInt8
  longPollMs : UInt32

structure CoreDeterminate where
  sender : String
  recver : String
  fromSeq : UInt64
  toSeq : UInt64
  sig : List UInt8

structure CoreCallSignal where
  sender : String
  recver : String
  kind : UInt8
  payload : List UInt8
  tsMs : Int64
  sig : List UInt8

structure CoreCallPoll where
  user : String
  nonce : UInt64
  longPollMs : UInt32
  sig : List UInt8

/-- Of the server, and of the core of a schema cover: payload and signature are in base64. -/
structure PushRequest where
  sender : String
  recver : String
  seq : UInt64
  payload : String
  sig : String
deriving DecidableEq

structure RangeRequest where
  sender : String
  recver : String
  afterSeq : UInt64
  toSeq : UInt64
  sig : String
deriving DecidableEq

structure NotifyItem where
  partner : String
  seq : UInt64
deriving DecidableEq

structure NotifyRequest where
  sender : String
  partner : String
  seq : UInt64
  sig : String
  longPollMs : UInt32
  items : List NotifyItem
deriving DecidableEq

structure DeterminateRequest where
  sender : String
  recver : String
  fromSeq : UInt64
  toSeq : UInt64
  sig : String
deriving DecidableEq

structure CallSignalRequest where
  sender : String
  recver : String
  kind : UInt8
  payload : String
  tsMs : Int64
  sig : String
deriving DecidableEq

structure CallPollRequest where
  user : String
  nonce : UInt64
  longPollMs : UInt32
  sig : String
deriving DecidableEq

/-! ## Responses -/

structure PullResponse where
  success : Bool
  packets : List (UInt64 × String)
  message : String
deriving DecidableEq

structure MapResponse where
  success : Bool
  runs : List (UInt64 × UInt64)
  lastSeq : UInt64
  truncated : Bool
  message : String
deriving DecidableEq

structure NotifyRespItem where
  partner : String
  n : UInt64
deriving DecidableEq

structure NotifyResponse where
  success : Bool
  n : UInt64
  message : String
  items : List NotifyRespItem
deriving DecidableEq

structure CallEnvelopeOut where
  sender : String
  kind : UInt8
  payload : String
  tsMs : Int64
deriving DecidableEq

structure CallPollResponse where
  success : Bool
  items : List CallEnvelopeOut
  message : String
deriving DecidableEq

/-- A packet as the client has it, with its payload decoded. -/
structure RawPacket where
  seq : UInt64
  payload : List UInt8
deriving DecidableEq

structure MapResult where
  runs : List (UInt64 × UInt64)
  lastSeq : UInt64
  truncated : Bool
deriving DecidableEq

structure CallEnvelopeIn where
  sender : String
  kind : UInt8
  payload : List UInt8
  tsMs : Int64
deriving DecidableEq

/-! ## Kinds -/

/-- What the client may ask of the transport. -/
inductive Call
  | push
  | pull
  | map
  | notify
  | notifyMulti
  | determinate
  | callSignal
  | callPoll
deriving DecidableEq

namespace Call

/-- The client's request. -/
def Core : Call → Type
  | .push => CorePush
  | .pull => CoreRange
  | .map => CoreRange
  | .notify => CoreNotify
  | .notifyMulti => CoreNotifyMulti
  | .determinate => CoreDeterminate
  | .callSignal => CoreCallSignal
  | .callPoll => CoreCallPoll

/-- The server's request. Both calls of `notify` come to one. -/
def Request : Call → Type
  | .push => PushRequest
  | .pull => RangeRequest
  | .map => RangeRequest
  | .notify => NotifyRequest
  | .notifyMulti => NotifyRequest
  | .determinate => DeterminateRequest
  | .callSignal => CallSignalRequest
  | .callPoll => CallPollRequest

/-- The server's response. -/
def Response : Call → Type
  | .push => ApiResponse
  | .pull => PullResponse
  | .map => MapResponse
  | .notify => NotifyResponse
  | .notifyMulti => NotifyResponse
  | .determinate => ApiResponse
  | .callSignal => ApiResponse
  | .callPoll => CallPollResponse

/-- What the client gets. -/
def Answer : Call → Type
  | .push => Unit
  | .pull => List RawPacket
  | .map => MapResult
  | .notify => UInt64
  | .notifyMulti => List (String × UInt64)
  | .determinate => Unit
  | .callSignal => Unit
  | .callPoll => List CallEnvelopeIn

/-- The name in a profile, of requests. -/
def kind : Call → String
  | .push => "push"
  | .pull => "pull"
  | .map => "map"
  | .notify => "notify"
  | .notifyMulti => "notify"
  | .determinate => "determinate"
  | .callSignal => "call_signal"
  | .callPoll => "call_poll"

def respKind : Call → String
  | .push => "push_resp"
  | .pull => "pull_resp"
  | .map => "map_resp"
  | .notify => "notify_resp"
  | .notifyMulti => "notify_resp"
  | .determinate => "determinate_resp"
  | .callSignal => "call_signal_resp"
  | .callPoll => "call_poll_resp"

end Call

/-- The cover of the client: requests go out, responses come in. -/
structure ClientCover where
  wrap : ∀ call : Call, call.Core → Rng → Except Fault Json
  unwrapResponse : ∀ call : Call, Json → Except Fault call.Answer

/-- The cover of the server. -/
structure ServerCover where
  unwrap : ∀ call : Call, Json → Except Fault call.Request
  wrapResponse : ∀ call : Call, call.Response → Rng → Json

/-- What the transport makes of a push that was refused. -/
def pushFault (message : String) : Fault :=
  let msg := toAsciiLowercase message
  if containsText msg "duplicate" then .text "duplicate_seq"
  else if containsText msg "invalid seq" || containsText msg "expected seq" then .text "invalid_seq"
  else .failed "Push" message

end Cover

end Paranoia
