import Paranoia.Cover.Schema

/-!
# Rolling a schema

The panel rolls a variant and a path for it. What the dice show, and the names and words that another
library makes up, are given.
-/

namespace Paranoia

namespace Cover

/-- What is rolled. -/
structure Dice where
  archetype : Fin 5
  seconds : Fin 40000000
  hex : Nat → Fin 16
  qty : Fin 4
  price : Fin 9899
  name : String
  company : String
  word : String
  pathPrefix : Fin 12
  first : Fin 25
  second : Option (Fin 25)

def hexDigits : List Char := "0123456789abcdef".toList

def randHex (d : Dice) (n : Nat) : List Char :=
  (List.range n).map (fun i => hexDigits.getD (d.hex i).1 '0')

def pathPrefixes : List String :=
  ["/api", "/api/v1", "/api/v2", "/v1", "/v2", "/gw", "/svc", "/o", "/cdn", "/edge", "/rpc", "/data"]

def pathSegs : List String :=
  ["sync", "events", "track", "collect", "ingest", "notify", "push", "pull", "feed", "items",
    "data", "ping", "beacon", "metrics", "log", "upload", "fetch", "state", "poll", "queue",
    "session", "report", "batch", "stream", "tx"]

def generateRandomPath (d : Dice) : String :=
  let pre := pathPrefixes.getD d.pathPrefix.1 ""
  let w1 := pathSegs.getD d.first.1 ""
  match d.second with
  | some second => pre ++ "/" ++ w1 ++ "/" ++ pathSegs.getD second.1 ""
  | none => pre ++ "/" ++ w1

def schemaJson (template : Json) (carriers : List String) (optional : List (String × Json)) : Json :=
  .obj [
    ("template", template),
    ("carriers", .arr (carriers.map .str)),
    ("optional", .arr (optional.map (fun opt => .obj [("path", .str opt.1), ("value", opt.2)])))]

def generateRandomSchema (d : Dice) : Json :=
  let ts := 1700000000 + d.seconds.1
  match d.archetype with
  | 0 => schemaJson
      (.obj [
        ("event", .str "order.created"),
        ("order_id", .str (String.ofList ("ord_".toList ++ randHex d 16))),
        ("ts", ofNat ts),
        ("customer", .obj [("id", .str ""), ("name", .str d.name)]),
        ("items", .arr [.obj [("sku", .str ""), ("qty", ofNat (1 + d.qty.1)),
          ("price", ofNat (100 + d.price.1))]]),
        ("signature", .str "")])
      ["customer.id", "items.0.sku", "signature"]
      [("coupon", .str "SUMMER25")]
  | 1 => schemaJson
      (.obj [
        ("type", .str "telemetry"),
        ("app", .str d.company),
        ("session_id", .str ""),
        ("ts", ofNat ts),
        ("events", .arr [.obj [("name", .str d.word), ("trace", .str ""),
          ("attrs", .obj [("id", .str "")])]])])
      ["session_id", "events.0.trace", "events.0.attrs.id"]
      [("sdk_version", .str "3.2.1")]
  | 2 => schemaJson
      (.obj [
        ("op", .str "sync"),
        ("device", .str (String.ofList ("dev-".toList ++ randHex d 8))),
        ("cursor", .str ""),
        ("notes", .arr [.obj [("id", .str ""), ("etag", .str ""), ("title", .str d.word),
          ("updated_at", ofNat ts)]])])
      ["cursor", "notes.0.id", "notes.0.etag"]
      [("full_sync", .bool false)]
  | 3 => schemaJson
      (.obj [
        ("to", .str ""),
        ("collapse_key", .str (String.ofList ("ck_".toList ++ randHex d 6))),
        ("priority", .str "high"),
        ("data", .obj [("token", .str ""), ("payload", .str "")])])
      ["to", "data.token", "data.payload"]
      [("ttl", ofNat 3600)]
  | 4 => schemaJson
      (.obj [
        ("status", .str "ok"),
        ("request_id", .str (String.ofList ("req_".toList ++ randHex d 12))),
        ("ts", ofNat ts),
        ("data", .obj [("hash", .str ""), ("blob", .str "")])])
      ["data.hash", "data.blob"]
      [("cached", .bool true)]

/-! ## Reading a variant -/

def readOptionalField (v : Json) (hv : v.Tidy) : Option OptionalField :=
  match v with
  | .obj fields =>
      match h : Json.lookup "value" fields with
      | none => none
      | some value =>
          ((Json.lookup "path" fields).bind asStr).map
            (fun path => ⟨path, value, (Json.tidy_obj.mp hv).2 _ _ h⟩)
  | _ => none

def readOptionalFields : (items : List Json) → (∀ v ∈ items, v.Tidy) → Option (List OptionalField)
  | [], _ => some []
  | v :: items, h =>
      (readOptionalField v (h v List.mem_cons_self)).bind (fun opt =>
        (readOptionalFields items (fun w hw => h w (List.mem_cons_of_mem v hw))).map (opt :: ·))

/-- `optional` may be missing. -/
def readOptional (fields : List (String × Json)) (hfields : (Json.obj fields).Tidy) :
    Option (List OptionalField) :=
  match h : Json.lookup "optional" fields with
  | none => some []
  | some (.arr items) =>
      readOptionalFields items (fun v hv => (List.getElem?_of_mem hv).elim (fun i hi =>
        Json.tidy_arr.mp ((Json.tidy_obj.mp hfields).2 _ _ h) i v hi))
  | some _ => none

/-- Objects have no key twice once they are read. -/
def readSchemaVariant (v : Json) (hv : v.Tidy) : Option SchemaVariant :=
  match v with
  | .obj fields =>
      match h : Json.lookup "template" fields with
      | none => none
      | some template =>
          ((Json.lookup "carriers" fields).bind (readVec asStr)).bind (fun carriers =>
            (readOptional fields hv).map
              (fun optional => ⟨template, (Json.tidy_obj.mp hv).2 _ _ h, carriers, optional⟩))
  | _ => none

end Cover

end Paranoia
