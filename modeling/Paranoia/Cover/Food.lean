import Mathlib.Data.List.Sort
import Paranoia.Cover.Core

/-!
# The food-delivery cover

Requests look like those of a shop: pushes are updates of orders, calls are couriers. The core of a
push is cut into four parts, at places that come from a hash of the order; everything else is a
field under another name. Client and server are written by hand, each for itself.
-/

namespace Paranoia

namespace Cover

/-- Writing and reading the text of JSON. -/
structure SerdeJson where
  toVec : Json → List UInt8
  fromSlice : List UInt8 → Option Json

/-- `operation`, which has to be the one of the kind. -/
def checkOperation (body : Json) (operation : String) : Except Fault Unit := do
  let op ← need (asStr (field body "operation")) "no operation"
  if op ≠ operation then .error (.text "unsupported operation") else .ok ()

def needStr (body : Json) (key : String) : Except Fault String :=
  need (asStr (field body key)) ("no " ++ key)

def needU64 (body : Json) (key : String) : Except Fault UInt64 :=
  need (asU64 (field body key)) ("no " ++ key)

/-! ## The client -/

namespace FoodDeliveryClientCover

/-- What stands between one bound and the next. -/
def cuts (data : List UInt8) : List Nat → List (List UInt8)
  | a :: b :: bounds => (data.drop a).take (b - a) :: cuts data (b :: bounds)
  | _ => []

def split4 (hash : String → List UInt8) (data : List UInt8) (seed : String) : List (List UInt8) :=
  if data = [] then [[], [], [], []]
  else
    let h := hash seed
    let n := data.length
    let c := [(h.getD 0 0).toNat % n, (h.getD 1 0).toNat % n, (h.getD 2 0).toNat % n]
    cuts data (0 :: (c.insertionSort (· ≤ ·) ++ [n]))

def checkOk (body : Json) (op : String) : Except Fault Unit :=
  if (asBool (field body "ok")).getD false then .ok () else .error (.failedBody op body)

/-- The inner core of a push. -/
def pushCore (core : CorePush) : Json :=
  .obj [("sender", .str core.sender), ("recver", .str core.recver), ("seq", ofU64 core.seq),
    ("payload", .str (b64Encode core.payload)), ("sig", .str (b64Encode core.sig))]

def wrapPush (S : SerdeJson) (hash : String → List UInt8) (core : CorePush) : Json :=
  let seed := "ORD-" ++ core.sender ++ "-" ++ core.recver ++ "-"
    ++ String.ofList (Decimal.numeral core.seq.toNat)
  let parts := (split4 hash (S.toVec (pushCore core)) seed).map b64Encode
  .obj [("operation", .str "updateOrder"), ("orderId", .str seed),
    ("client", .obj [("id", .str core.sender), ("segment", .str "retail")]),
    ("items", .arr [.obj [("sku", .str core.recver), ("qty", ofNat 1)]]),
    ("meta", .obj [("p1", .str (parts.getD 0 "")), ("p2", .str (parts.getD 1 "")),
      ("p3", .str (parts.getD 2 "")), ("p4", .str (parts.getD 3 ""))])]

def wrapPull (core : CoreRange) : Json :=
  .obj [("operation", .str "syncOrders"), ("clientId", .str core.sender),
    ("partnerId", .str core.recver), ("cursor", ofU64 core.afterSeq), ("toSeq", ofU64 core.toSeq),
    ("auth", .str (b64Encode core.sig))]

def wrapNotify (core : CoreNotify) : Json :=
  .obj [("operation", .str "checkOrders"), ("clientId", .str core.sender),
    ("partnerId", .str core.partner), ("cursor", ofU64 core.seq),
    ("auth", .str (b64Encode core.sig)), ("waitMs", ofU32 core.longPollMs)]

def wrapNotifyMulti (core : CoreNotifyMulti) : Json :=
  .obj [("operation", .str "checkOrders"), ("clientId", .str core.sender),
    ("lines", .arr (core.items.map fun i =>
      .obj [("partnerId", .str i.1), ("cursor", ofU64 i.2)])),
    ("auth", .str (b64Encode core.sig)), ("waitMs", ofU32 core.longPollMs)]

def wrapMap (core : CoreRange) : Json :=
  .obj [("operation", .str "scanInventory"), ("clientId", .str core.sender),
    ("partnerId", .str core.recver), ("cursor", ofU64 core.afterSeq), ("toSeq", ofU64 core.toSeq),
    ("auth", .str (b64Encode core.sig))]

def wrapDeterminate (core : CoreDeterminate) : Json :=
  .obj [("operation", .str "cleanupHistory"), ("clientId", .str core.sender),
    ("partnerId", .str core.recver), ("fromSeq", ofU64 core.fromSeq), ("toSeq", ofU64 core.toSeq),
    ("auth", .str (b64Encode core.sig))]

def wrapCallSignal (core : CoreCallSignal) : Json :=
  .obj [("operation", .str "dispatchCourier"), ("courierId", .str core.sender),
    ("targetId", .str core.recver), ("stage", ofU8 core.kind), ("issuedAt", ofI64 core.tsMs),
    ("manifest", .str (b64Encode core.payload)), ("auth", .str (b64Encode core.sig))]

def wrapCallPoll (core : CoreCallPoll) : Json :=
  .obj [("operation", .str "pollDispatch"), ("courierId", .str core.user),
    ("nonce", ofU64 core.nonce), ("waitMs", ofU32 core.longPollMs),
    ("auth", .str (b64Encode core.sig))]

def unwrapPullResponse (body : Json) : Except Fault (List RawPacket) := do
  checkOk body "Pull"
  let orders ← need (asArray (field body "orders")) "Pull: expected 'orders' array"
  orders.mapM fun item => do
    let seq ← need (asU64 (field item "id")) "Missing id"
    let payload ← decode (← need (asStr (field item "blob")) "Missing blob")
    return { seq, payload }

def unwrapShelf (shelf : Json) : Except Fault (UInt64 × UInt64) := do
  let arr ← need (asArray shelf) "Map: shelf is not an array"
  if arr.length ≠ 2 then .error (.text "Map: shelf must be [begin, end]")
  let first ← need (asU64 (item shelf 0)) "Map: bad shelf begin"
  let last ← need (asU64 (item shelf 1)) "Map: bad shelf end"
  return (first, last)

def unwrapMapResponse (body : Json) : Except Fault MapResult := do
  checkOk body "Map"
  let shelves ← need (asArray (field body "shelves")) "Map: expected 'shelves' array"
  let runs ← shelves.mapM unwrapShelf
  let lastSeq ← need (asU64 (field body "topShelf")) "Map: missing topShelf"
  return { runs, lastSeq, truncated := (asBool (field body "more")).getD false }

def unwrapNotifyResponse (body : Json) : Except Fault UInt64 := do
  checkOk body "Notify"
  need (asU64 (field body "n")) "Notify: missing n"

/-- Without `lines` nothing is lit. -/
def unwrapNotifyResponseMulti (body : Json) : Except Fault (List (String × UInt64)) := do
  checkOk body "Notify"
  match asArray (field body "lines") with
  | none => return []
  | some lines =>
      return lines.filterMap fun l => do
        let partner ← asStr (field l "partnerId")
        let n ← asU64 (field l "n")
        return (partner, n)

def unwrapPushResponse (body : Json) : Except Fault Unit :=
  if (asBool (field body "ok")).getD false then .ok ()
  else .error (pushFault ((asStr (field body "message")).getD ""))

def unwrapCallPollResponse (body : Json) : Except Fault (List CallEnvelopeIn) := do
  checkOk body "CallPoll"
  let tasks ← need (asArray (field body "tasks")) "CallPoll: expected 'tasks' array"
  tasks.mapM fun item => do
    let sender ← need (asStr (field item "from")) "CallPoll: missing from"
    let stage ← need (asU64 (field item "stage")) "CallPoll: missing stage"
    let kind ← need (toU8? stage) "CallPoll: stage out of range"
    let payload ← decode (← need (asStr (field item "manifest")) "CallPoll: missing manifest")
    let tsMs ← need (asI64 (field item "issuedAt")) "CallPoll: missing issuedAt"
    return { sender, kind, payload, tsMs }

def cover (S : SerdeJson) (hash : String → List UInt8) : ClientCover where
  wrap
    | .push, core, _ => .ok (wrapPush S hash core)
    | .pull, core, _ => .ok (wrapPull core)
    | .map, core, _ => .ok (wrapMap core)
    | .notify, core, _ => .ok (wrapNotify core)
    | .notifyMulti, core, _ => .ok (wrapNotifyMulti core)
    | .determinate, core, _ => .ok (wrapDeterminate core)
    | .callSignal, core, _ => .ok (wrapCallSignal core)
    | .callPoll, core, _ => .ok (wrapCallPoll core)
  unwrapResponse
    | .push, body => unwrapPushResponse body
    | .pull, body => unwrapPullResponse body
    | .map, body => unwrapMapResponse body
    | .notify, body => unwrapNotifyResponse body
    | .notifyMulti, body => unwrapNotifyResponseMulti body
    | .determinate, body => checkOk body "Determinate"
    | .callSignal, body => checkOk body "CallSignal"
    | .callPoll, body => unwrapCallPollResponse body

end FoodDeliveryClientCover

/-! ## The server -/

namespace FoodDeliveryCover

def unwrapPush (S : SerdeJson) (body : Json) : Except Fault PushRequest := do
  checkOperation body "updateOrder"
  let sender ← need (asStr (field (field body "client") "id")) "no client.id"
  let recver ← need (asStr (field (item (field body "items") 0) "sku")) "no items[0].sku"
  let parts := field body "meta"
  let p1 ← decode (← need (asStr (field parts "p1")) "no meta.p1")
  let p2 ← decode (← need (asStr (field parts "p2")) "no meta.p2")
  let p3 ← decode (← need (asStr (field parts "p3")) "no meta.p3")
  let p4 ← decode (← need (asStr (field parts "p4")) "no meta.p4")
  match S.fromSlice [p1, p2, p3, p4].flatten with
  | none => .error .serde
  | some core =>
      let senderCore ← needStr core "sender"
      let recverCore ← needStr core "recver"
      if senderCore ≠ sender ∨ recverCore ≠ recver then .error (.text "cover/core mismatch")
      let seq ← needU64 core "seq"
      let payload ← needStr core "payload"
      let sig ← needStr core "sig"
      return { sender, recver, seq, payload, sig }

/-- Pull and map look the same but for the operation. -/
def unwrapRange (operation : String) (body : Json) : Except Fault RangeRequest := do
  checkOperation body operation
  let sender ← needStr body "clientId"
  let recver ← needStr body "partnerId"
  let afterSeq ← needU64 body "cursor"
  let toSeq ← needU64 body "toSeq"
  let sig ← needStr body "auth"
  return { sender, recver, afterSeq, toSeq, sig }

def unwrapPull : Json → Except Fault RangeRequest := unwrapRange "syncOrders"

def unwrapMap : Json → Except Fault RangeRequest := unwrapRange "scanInventory"

def unwrapNotify (body : Json) : Except Fault NotifyRequest := do
  checkOperation body "checkOrders"
  let sender ← needStr body "clientId"
  let sig ← needStr body "auth"
  let longPollMs := ((asU64 (field body "waitMs")).getD 0).toUInt32
  match asArray (field body "lines") with
  | some lines =>
      let items := lines.filterMap fun l => do
        let partner ← asStr (field l "partnerId")
        return ({ partner, seq := (asU64 (field l "cursor")).getD 0 } : NotifyItem)
      return { sender, partner := "", seq := 0, sig, longPollMs, items }
  | none =>
      let partner ← needStr body "partnerId"
      let seq ← needU64 body "cursor"
      return { sender, partner, seq, sig, longPollMs, items := [] }

def unwrapDeterminate (body : Json) : Except Fault DeterminateRequest := do
  checkOperation body "cleanupHistory"
  let sender ← needStr body "clientId"
  let recver ← needStr body "partnerId"
  let fromSeq ← needU64 body "fromSeq"
  let toSeq ← needU64 body "toSeq"
  let sig ← needStr body "auth"
  return { sender, recver, fromSeq, toSeq, sig }

def unwrapCallSignal (body : Json) : Except Fault CallSignalRequest := do
  checkOperation body "dispatchCourier"
  let sender ← needStr body "courierId"
  let recver ← needStr body "targetId"
  let stage ← needU64 body "stage"
  let kind ← need (toU8? stage) "stage out of u8 range"
  let tsMs ← need (asI64 (field body "issuedAt")) "no issuedAt"
  let payload ← needStr body "manifest"
  let sig ← needStr body "auth"
  return { sender, recver, kind, payload, tsMs, sig }

def unwrapCallPoll (body : Json) : Except Fault CallPollRequest := do
  checkOperation body "pollDispatch"
  let user ← needStr body "courierId"
  let nonce ← needU64 body "nonce"
  let waitMs ← needU64 body "waitMs"
  let longPollMs ← need (toU32? waitMs) "waitMs out of u32 range"
  let sig ← needStr body "auth"
  return { user, nonce, longPollMs, sig }

/-- The status of an order, of a cleanup or of a courier. -/
def wrapSimple (done : String) (resp : ApiResponse) : Json :=
  .obj [("ok", .bool resp.success), ("status", .str (if resp.success then done else "error")),
    ("message", .str resp.message)]

def wrapPushResponse : ApiResponse → Json := wrapSimple "updated"

def wrapDeterminateResponse : ApiResponse → Json := wrapSimple "cleaned"

def wrapCallSignalResponse : ApiResponse → Json := wrapSimple "dispatched"

def refused (message : String) : Json :=
  .obj [("ok", .bool false), ("status", .str "error"), ("message", .str message)]

def wrapPullResponse (resp : PullResponse) : Json :=
  if ¬ resp.success then .obj [("ok", .bool false), ("error", .str resp.message)]
  else .obj [("ok", .bool true), ("orders", .arr (resp.packets.map fun p =>
    .obj [("id", ofU64 p.1), ("blob", .str p.2)]))]

def wrapMapResponse (resp : MapResponse) : Json :=
  if ¬ resp.success then refused resp.message
  else .obj [("ok", .bool true),
    ("shelves", .arr (resp.runs.map fun r => .arr [ofU64 r.1, ofU64 r.2])),
    ("topShelf", ofU64 resp.lastSeq), ("more", .bool resp.truncated)]

def wrapNotifyResponse (resp : NotifyResponse) : Json :=
  if ¬ resp.success then refused resp.message
  else if resp.items ≠ [] then .obj [("ok", .bool true), ("lines", .arr (resp.items.map fun i =>
    .obj [("partnerId", .str i.partner), ("n", ofU64 i.n)]))]
  else .obj [("ok", .bool true), ("n", ofU64 resp.n)]

def wrapCallPollResponse (resp : CallPollResponse) : Json :=
  if ¬ resp.success then refused resp.message
  else .obj [("ok", .bool true), ("tasks", .arr (resp.items.map fun e =>
    .obj [("from", .str e.sender), ("stage", ofU8 e.kind), ("manifest", .str e.payload),
      ("issuedAt", ofI64 e.tsMs)]))]

def cover (S : SerdeJson) : ServerCover where
  unwrap
    | .push, body => unwrapPush S body
    | .pull, body => unwrapPull body
    | .map, body => unwrapMap body
    | .notify, body => unwrapNotify body
    | .notifyMulti, body => unwrapNotify body
    | .determinate, body => unwrapDeterminate body
    | .callSignal, body => unwrapCallSignal body
    | .callPoll, body => unwrapCallPoll body
  wrapResponse
    | .push, resp, _ => wrapPushResponse resp
    | .pull, resp, _ => wrapPullResponse resp
    | .map, resp, _ => wrapMapResponse resp
    | .notify, resp, _ => wrapNotifyResponse resp
    | .notifyMulti, resp, _ => wrapNotifyResponse resp
    | .determinate, resp, _ => wrapDeterminateResponse resp
    | .callSignal, resp, _ => wrapCallSignalResponse resp
    | .callPoll, resp, _ => wrapCallPollResponse resp

end FoodDeliveryCover

end Cover

end Paranoia
