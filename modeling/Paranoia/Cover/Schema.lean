import Paranoia.Cover.Food

/-!
# The schema cover

The core of a request or of a response is written as JSON, sealed, and laid out by the profile. The
client and the server write the same structures, so it is one definition for each of them; what
differs is what they make of a profile that does not have the kind.
-/

namespace Paranoia

namespace Cover

/-! ## Cores as JSON -/

/-- A field that has to be there. -/
def required {α : Type} (v : Json) (key : String) (read : Json → Option α) : Option α :=
  match v with
  | .obj fields => (Json.lookup key fields).bind read
  | _ => none

/-- A field that has a default. -/
def defaulted {α : Type} (v : Json) (key : String) (read : Json → Option α) (default : α) :
    Option α :=
  match v with
  | .obj fields =>
      match Json.lookup key fields with
      | none => some default
      | some w => read w
  | _ => none

def readU32 (v : Json) : Option UInt32 := (asU64 v).bind toU32?

def readU8 (v : Json) : Option UInt8 := (asU64 v).bind toU8?

def readVec {α : Type} (read : Json → Option α) (v : Json) : Option (List α) :=
  (asArray v).bind fun items => items.mapM read

def readPair (v : Json) : Option (UInt64 × UInt64) :=
  match v with
  | .arr [a, b] => do
      let a ← asU64 a
      let b ← asU64 b
      return (a, b)
  | _ => none

namespace Call

/-- The request that a call asks for. -/
def inner : ∀ call : Call, call.Core → call.Request
  | .push, (c : CorePush) =>
      { sender := c.sender, recver := c.recver, seq := c.seq, payload := b64Encode c.payload,
        sig := b64Encode c.sig : PushRequest }
  | .pull, (c : CoreRange) =>
      { sender := c.sender, recver := c.recver, afterSeq := c.afterSeq, toSeq := c.toSeq,
        sig := b64Encode c.sig : RangeRequest }
  | .map, (c : CoreRange) =>
      { sender := c.sender, recver := c.recver, afterSeq := c.afterSeq, toSeq := c.toSeq,
        sig := b64Encode c.sig : RangeRequest }
  | .notify, (c : CoreNotify) =>
      { sender := c.sender, partner := c.partner, seq := c.seq, sig := b64Encode c.sig,
        longPollMs := c.longPollMs, items := [] : NotifyRequest }
  | .notifyMulti, (c : CoreNotifyMulti) =>
      { sender := c.sender, partner := "", seq := 0, sig := b64Encode c.sig,
        longPollMs := c.longPollMs, items := c.items.map fun i => ⟨i.1, i.2⟩ : NotifyRequest }
  | .determinate, (c : CoreDeterminate) =>
      { sender := c.sender, recver := c.recver, fromSeq := c.fromSeq, toSeq := c.toSeq,
        sig := b64Encode c.sig : DeterminateRequest }
  | .callSignal, (c : CoreCallSignal) =>
      { sender := c.sender, recver := c.recver, kind := c.kind, payload := b64Encode c.payload,
        tsMs := c.tsMs, sig := b64Encode c.sig : CallSignalRequest }
  | .callPoll, (c : CoreCallPoll) =>
      { user := c.user, nonce := c.nonce, longPollMs := c.longPollMs,
        sig := b64Encode c.sig : CallPollRequest }

end Call

def rangeJson (r : RangeRequest) : Json :=
  .obj [("sender", .str r.sender), ("recver", .str r.recver), ("after_seq", ofU64 r.afterSeq),
    ("to_seq", ofU64 r.toSeq), ("sig", .str r.sig)]

def readRange (v : Json) : Option RangeRequest := do
  let sender ← required v "sender" asStr
  let recver ← required v "recver" asStr
  let afterSeq ← required v "after_seq" asU64
  let toSeq ← required v "to_seq" asU64
  let sig ← required v "sig" asStr
  return { sender, recver, afterSeq, toSeq, sig }

/-- The items are left out if there are none. -/
def notifyJson (r : NotifyRequest) : Json :=
  .obj ([("sender", .str r.sender), ("partner", .str r.partner), ("seq", ofU64 r.seq),
    ("sig", .str r.sig), ("long_poll_ms", ofU32 r.longPollMs)] ++
    if r.items = [] then [] else [("items", .arr (r.items.map fun i =>
      .obj [("partner", .str i.partner), ("seq", ofU64 i.seq)]))])

def readNotifyItem (v : Json) : Option NotifyItem := do
  let partner ← required v "partner" asStr
  let seq ← defaulted v "seq" asU64 0
  return { partner, seq }

def readNotify (v : Json) : Option NotifyRequest := do
  let sender ← required v "sender" asStr
  let partner ← defaulted v "partner" asStr ""
  let seq ← defaulted v "seq" asU64 0
  let sig ← required v "sig" asStr
  let longPollMs ← defaulted v "long_poll_ms" readU32 0
  let items ← defaulted v "items" (readVec readNotifyItem) []
  return { sender, partner, seq, sig, longPollMs, items }

def requestJson : ∀ call : Call, call.Request → Json
  | .push, (r : PushRequest) =>
      .obj [("sender", .str r.sender), ("recver", .str r.recver), ("seq", ofU64 r.seq),
        ("payload", .str r.payload), ("sig", .str r.sig)]
  | .pull, r => rangeJson r
  | .map, r => rangeJson r
  | .notify, r => notifyJson r
  | .notifyMulti, r => notifyJson r
  | .determinate, (r : DeterminateRequest) =>
      .obj [("sender", .str r.sender), ("recver", .str r.recver), ("from_seq", ofU64 r.fromSeq),
        ("to_seq", ofU64 r.toSeq), ("sig", .str r.sig)]
  | .callSignal, (r : CallSignalRequest) =>
      .obj [("sender", .str r.sender), ("recver", .str r.recver), ("kind", ofU8 r.kind),
        ("payload", .str r.payload), ("ts_ms", ofI64 r.tsMs), ("sig", .str r.sig)]
  | .callPoll, (r : CallPollRequest) =>
      .obj [("user", .str r.user), ("nonce", ofU64 r.nonce), ("long_poll_ms", ofU32 r.longPollMs),
        ("sig", .str r.sig)]

def readRequest : ∀ call : Call, Json → Option call.Request
  | .push, v => show Option PushRequest from do
      let sender ← required v "sender" asStr
      let recver ← required v "recver" asStr
      let seq ← required v "seq" asU64
      let payload ← required v "payload" asStr
      let sig ← required v "sig" asStr
      return { sender, recver, seq, payload, sig }
  | .pull, v => readRange v
  | .map, v => readRange v
  | .notify, v => readNotify v
  | .notifyMulti, v => readNotify v
  | .determinate, v => show Option DeterminateRequest from do
      let sender ← required v "sender" asStr
      let recver ← required v "recver" asStr
      let fromSeq ← required v "from_seq" asU64
      let toSeq ← required v "to_seq" asU64
      let sig ← required v "sig" asStr
      return { sender, recver, fromSeq, toSeq, sig }
  | .callSignal, v => show Option CallSignalRequest from do
      let sender ← required v "sender" asStr
      let recver ← required v "recver" asStr
      let kind ← required v "kind" readU8
      let payload ← required v "payload" asStr
      let tsMs ← required v "ts_ms" asI64
      let sig ← required v "sig" asStr
      return { sender, recver, kind, payload, tsMs, sig }
  | .callPoll, v => show Option CallPollRequest from do
      let user ← required v "user" asStr
      let nonce ← required v "nonce" asU64
      let longPollMs ← required v "long_poll_ms" readU32
      let sig ← required v "sig" asStr
      return { user, nonce, longPollMs, sig }

def simpleJson (r : ApiResponse) : Json :=
  .obj [("ok", .bool r.success), ("message", .str r.message)]

def readSimple (v : Json) : Option ApiResponse := do
  let success ← required v "ok" asBool
  let message ← defaulted v "message" asStr ""
  return { success, message }

def notifyRespJson (r : NotifyResponse) : Json :=
  .obj ([("ok", .bool r.success), ("n", ofU64 r.n), ("message", .str r.message)] ++
    if r.items = [] then [] else [("items", .arr (r.items.map fun i =>
      .obj [("partner", .str i.partner), ("n", ofU64 i.n)]))])

def readNotifyRespItem (v : Json) : Option NotifyRespItem := do
  let partner ← required v "partner" asStr
  let n ← required v "n" asU64
  return { partner, n }

def readNotifyResp (v : Json) : Option NotifyResponse := do
  let success ← required v "ok" asBool
  let n ← defaulted v "n" asU64 0
  let message ← defaulted v "message" asStr ""
  let items ← defaulted v "items" (readVec readNotifyRespItem) []
  return { success, n, message, items }

def readPacket (v : Json) : Option (UInt64 × String) := do
  let seq ← required v "seq" asU64
  let payload ← required v "payload" asStr
  return (seq, payload)

def readEnvelope (v : Json) : Option CallEnvelopeOut := do
  let sender ← required v "sender" asStr
  let kind ← required v "kind" readU8
  let payload ← required v "payload" asStr
  let tsMs ← required v "ts_ms" asI64
  return { sender, kind, payload, tsMs }

def responseJson : ∀ call : Call, call.Response → Json
  | .push, r => simpleJson r
  | .pull, (r : PullResponse) =>
      .obj [("ok", .bool r.success), ("packets", .arr (r.packets.map fun p =>
        .obj [("seq", ofU64 p.1), ("payload", .str p.2)])), ("message", .str r.message)]
  | .map, (r : MapResponse) =>
      .obj [("ok", .bool r.success),
        ("runs", .arr (r.runs.map fun run => .arr [ofU64 run.1, ofU64 run.2])),
        ("last_seq", ofU64 r.lastSeq), ("truncated", .bool r.truncated),
        ("message", .str r.message)]
  | .notify, r => notifyRespJson r
  | .notifyMulti, r => notifyRespJson r
  | .determinate, r => simpleJson r
  | .callSignal, r => simpleJson r
  | .callPoll, (r : CallPollResponse) =>
      .obj [("ok", .bool r.success), ("items", .arr (r.items.map fun e =>
        .obj [("sender", .str e.sender), ("kind", ofU8 e.kind), ("payload", .str e.payload),
          ("ts_ms", ofI64 e.tsMs)])), ("message", .str r.message)]

def readResponse : ∀ call : Call, Json → Option call.Response
  | .push, v => readSimple v
  | .pull, v => show Option PullResponse from do
      let success ← required v "ok" asBool
      let packets ← defaulted v "packets" (readVec readPacket) []
      let message ← defaulted v "message" asStr ""
      return { success, packets, message }
  | .map, v => show Option MapResponse from do
      let success ← required v "ok" asBool
      let runs ← defaulted v "runs" (readVec readPair) []
      let lastSeq ← defaulted v "last_seq" asU64 0
      let truncated ← defaulted v "truncated" asBool false
      let message ← defaulted v "message" asStr ""
      return { success, runs, lastSeq, truncated, message }
  | .notify, v => readNotifyResp v
  | .notifyMulti, v => readNotifyResp v
  | .determinate, v => readSimple v
  | .callSignal, v => readSimple v
  | .callPoll, v => show Option CallPollResponse from do
      let success ← required v "ok" asBool
      let items ← defaulted v "items" (readVec readEnvelope) []
      let message ← defaulted v "message" asStr ""
      return { success, items, message }

/-! ## The client -/

def asFault {α : Type} (r : Except CoverError α) : Except Fault α :=
  match r with
  | .ok a => .ok a
  | .error e => .error (.engine e)

variable (S : SerdeJson) (C : CoverCipher) (profile : MaskingProfile)

namespace SchemaClientCover

def wrapCore (kind : String) (core : Json) (rng : Rng) : Except Fault Json :=
  asFault (wrap C profile kind (S.toVec core) rng)

def unwrapCore {α : Type} (kind : String) (read : Json → Option α) (body : Json) :
    Except Fault α := do
  let inner ← asFault (unwrap C profile kind body)
  match (S.fromSlice inner).bind read with
  | some core => .ok core
  | none => .error .serde

/-- What the client makes of a response, once it is uncovered. -/
def answer : ∀ call : Call, call.Response → Except Fault call.Answer
  | .push, (r : ApiResponse) => if r.success then .ok () else .error (pushFault r.message)
  | .pull, (r : PullResponse) => show Except Fault (List RawPacket) from
      if ¬ r.success then .error (.failed "Pull" r.message)
      else r.packets.mapM fun p => do return { seq := p.1, payload := ← decode p.2 }
  | .map, (r : MapResponse) => show Except Fault MapResult from
      if ¬ r.success then .error (.failed "Map" r.message)
      else .ok { runs := r.runs, lastSeq := r.lastSeq, truncated := r.truncated }
  | .notify, (r : NotifyResponse) =>
      if ¬ r.success then .error (.failed "Notify" r.message) else .ok r.n
  | .notifyMulti, (r : NotifyResponse) =>
      if ¬ r.success then .error (.failed "Notify" r.message)
      else .ok (r.items.map fun i => (i.partner, i.n))
  | .determinate, (r : ApiResponse) =>
      if ¬ r.success then .error (.failed "Determinate" r.message) else .ok ()
  | .callSignal, (r : ApiResponse) =>
      if ¬ r.success then .error (.failed "CallSignal" r.message) else .ok ()
  | .callPoll, (r : CallPollResponse) => show Except Fault (List CallEnvelopeIn) from
      if ¬ r.success then .error (.failed "CallPoll" r.message)
      else r.items.mapM fun e => do
        return { sender := e.sender, kind := e.kind, payload := ← decode e.payload, tsMs := e.tsMs }

def cover : ClientCover where
  wrap call core rng := wrapCore S C profile call.kind (requestJson call (call.inner core)) rng
  unwrapResponse call body := do
    let resp ← unwrapCore S C profile call.respKind (readResponse call) body
    answer call resp

end SchemaClientCover

/-! ## The server -/

namespace SchemaCover

def parse {α : Type} (kind : String) (read : Json → Option α) (body : Json) : Except Fault α := do
  let inner ← asFault (unwrap C profile kind body)
  match (S.fromSlice inner).bind read with
  | some core => .ok core
  | none => .error .serde

/-- A response that cannot be covered is sent as an empty object, which the client cannot take for
one. -/
def sealCore (kind : String) (core : Json) (rng : Rng) : Json :=
  match wrap C profile kind (S.toVec core) rng with
  | .ok value => value
  | .error _ => .obj []

def cover : ServerCover where
  unwrap call body := parse S C profile call.kind (readRequest call) body
  wrapResponse call resp rng := sealCore S C profile call.respKind (responseJson call resp) rng

end SchemaCover

end Cover

end Paranoia
