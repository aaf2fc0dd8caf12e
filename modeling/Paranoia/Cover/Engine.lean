import Mathlib.Data.String.Basic
import Paranoia.Client.Exchange
import Paranoia.Client.Incoming
import Paranoia.Lib.Json
import Paranoia.Lib.OrdMap

/-!
# The cover engine

A packet is sealed under the cover key, cut into pieces, and laid out in the carrier fields of a
plausible JSON value; decoys are put in or left out, and the keys of the objects shuffled. To take
it off, every variant of the kind is tried, and the tag of the cipher tells the right one. The
cipher is a library and so a parameter.
-/

namespace Paranoia

/-- What a generator of random numbers will give; it is zero from then on. -/
abbrev Rng := List Nat

def nextU32 : Rng → Nat × Rng
  | [] => (0, [])
  | d :: rng => (d % 2 ^ 32, rng)

def fillBytes : Nat → Rng → List UInt8 × Rng
  | 0, rng => ([], rng)
  | n + 1, rng =>
      let (d, rng) := nextU32 rng
      let (bytes, rng) := fillBytes n rng
      (UInt8.ofNat d :: bytes, rng)

/-! ## Profiles -/

abbrev coverKeyLen : Nat := 32

abbrev maxSchemasPerKind : Nat := 10

structure OptionalField where
  path : String
  value : Json
  tidy : value.Tidy

structure SchemaVariant where
  template : Json
  tidy : template.Tidy
  carriers : List String
  optional : List OptionalField

structure KindSpec where
  path : String
  schemas : List SchemaVariant

structure MaskingProfile where
  name : String
  coverKeyB64 : String
  kinds : OrdMap String KindSpec

inductive CoverError where
  | unknownKind (kind : String)
  | base64
  | coverKeyLength (length : Nat)
  | emptyName
  | noKinds
  | badPath (kind : String)
  | noSchemas (kind : String)
  | tooManySchemas (kind : String) (count : Nat)
  | noCarriers (kind : String) (index : Nat)
  | sealFailed
  | tooShort
  | openFailed
  | noVariant (kind : String)
  | write (e : Json.WriteError)
deriving DecidableEq

def b64Encode (bytes : List UInt8) : String := String.ofList (encodeB64 bytes)

def b64Decode (s : String) : Except CoverError (List UInt8) :=
  match decodeB64 s.toList with
  | some bytes => .ok (bytes.map UInt8.ofNat)
  | none => .error .base64

namespace MaskingProfile

def coverKey (profile : MaskingProfile) : Except CoverError (List UInt8) := do
  let raw ← b64Decode profile.coverKeyB64
  if raw.length ≠ coverKeyLen then .error (.coverKeyLength raw.length) else .ok raw

/-- What is wrong with a kind. -/
def refuseKind (kind : String) (spec : KindSpec) : Option CoverError :=
  if ¬ spec.path.toList.head? = some '/' then some (.badPath kind)
  else if spec.schemas = [] then some (.noSchemas kind)
  else if maxSchemasPerKind < spec.schemas.length then
    some (.tooManySchemas kind spec.schemas.length)
  else (spec.schemas.findIdx? (fun v => v.carriers = [])).map (.noCarriers kind)

def validate (profile : MaskingProfile) : Except CoverError Unit := do
  if profile.name.toList.all Client.isWhitespace then .error .emptyName
  let _ ← profile.coverKey
  if profile.kinds.entries = [] then .error .noKinds
  match profile.kinds.entries.findSome? (fun e => refuseKind e.1 e.2) with
  | some e => .error e
  | none => .ok ()

end MaskingProfile

/-! ## The envelope -/

structure CoverCipher where
  encrypt : List UInt8 → List UInt8 → List UInt8 → Option (List UInt8)
  decrypt : List UInt8 → List UInt8 → List UInt8 → Option (List UInt8)

variable (C : CoverCipher)

abbrev nonceLen : Nat := 12

def sealWith (key nonce plain : List UInt8) : Except CoverError (List UInt8) :=
  match C.encrypt key nonce plain with
  | some ciphertext => .ok (nonce ++ ciphertext)
  | none => .error .sealFailed

def openWith (key bytes : List UInt8) : Except CoverError (List UInt8) :=
  if bytes.length < nonceLen then .error .tooShort
  else match C.decrypt key (bytes.take nonceLen) (bytes.drop nonceLen) with
    | some plain => .ok plain
    | none => .error .openFailed

/-! ## Paths -/

/-- A segment that reads as a `usize` is an index. -/
def parseUsize (segment : List Char) : Option Nat :=
  let digits := if segment.head? = some '+' then segment.tail else segment
  if digits ≠ [] ∧ digits.all Char.isDigit then
    let n := digits.foldl (fun n c => 10 * n + (c.toNat - 48)) 0
    if n < u64Size then some n else none
  else none

def stepOf (segment : List Char) : Json.Step :=
  match parseUsize segment with
  | some i => .index i
  | none => .key (String.ofList segment)

def steps (path : String) : List Json.Step := (path.toList.splitOn '.').map stepOf

def getPath (value : Json) (path : String) : Option Json := value.get (steps path)

def setPath (value : Json) (path : String) (leaf : Json) : Except CoverError Json :=
  match value.write (steps path) leaf with
  | .ok value => .ok value
  | .error e => .error (.write e)

/-! ## Shuffling -/

def swap {α : Type} (items : List α) (i j : Nat) : List α :=
  match items[i]?, items[j]? with
  | some a, some b => (items.set i b).set j a
  | _, _ => items

def fisherYatesFrom {α : Type} : Nat → List α → Rng → List α × Rng
  | 0, items, rng => (items, rng)
  | i + 1, items, rng =>
      let (d, rng) := nextU32 rng
      fisherYatesFrom i (swap items (i + 1) (d % (i + 2))) rng

def fisherYates {α : Type} (items : List α) (rng : Rng) : List α × Rng :=
  fisherYatesFrom (items.length - 1) items rng

mutual

/-- The keys of every object are put in another order; the items of an array stay in theirs. -/
def shuffleObjectKeys : Json → Rng → Json × Rng
  | .obj fields, rng =>
      let (fields, rng) := shuffleFields fields rng
      let (fields, rng) := fisherYates fields rng
      (.obj fields, rng)
  | .arr items, rng =>
      let (items, rng) := shuffleItems items rng
      (.arr items, rng)
  | .null, rng => (.null, rng)
  | .bool b, rng => (.bool b, rng)
  | .num text, rng => (.num text, rng)
  | .str s, rng => (.str s, rng)

def shuffleFields : List (String × Json) → Rng → List (String × Json) × Rng
  | [], rng => ([], rng)
  | (k, v) :: fields, rng =>
      let (v, rng) := shuffleObjectKeys v rng
      let (fields, rng) := shuffleFields fields rng
      ((k, v) :: fields, rng)

def shuffleItems : List Json → Rng → List Json × Rng
  | [], rng => ([], rng)
  | v :: items, rng =>
      let (v, rng) := shuffleObjectKeys v rng
      let (items, rng) := shuffleItems items rng
      (v :: items, rng)

end

/-! ## Packets -/

/-- Cut the rest of some data into pieces; the first ones are longer by one. -/
def splitLoop (base rem : Nat) : Nat → Nat → List UInt8 → List (List UInt8)
  | 0, _, _ => []
  | k + 1, i, rest =>
      let len := base + if i < rem then 1 else 0
      rest.take len :: splitLoop base rem k (i + 1) (rest.drop len)

def split (data : List UInt8) (n : Nat) : List (List UInt8) :=
  if n = 0 then [] else splitLoop (data.length / n) (data.length % n) n 0 data

def setAll : Json → List (String × Json) → Except CoverError Json
  | out, [] => .ok out
  | out, (path, leaf) :: writes => do
      let out ← setPath out path leaf
      setAll out writes

/-- The decoys that are put in, each with probability one half. -/
def drawOptional : List OptionalField → Rng → List OptionalField × Rng
  | [], rng => ([], rng)
  | opt :: opts, rng =>
      let (d, rng) := nextU32 rng
      let (drawn, rng) := drawOptional opts rng
      (if d % 2 = 0 then opt :: drawn else drawn, rng)

def buildPacket (variant : SchemaVariant) (bytes : List UInt8) (rng : Rng) :
    Except CoverError Json := do
  let chunks := split bytes variant.carriers.length
  let out ← setAll variant.template
    (variant.carriers.zip (chunks.map (fun chunk => .str (b64Encode chunk))))
  let (drawn, rng) := drawOptional variant.optional rng
  let out ← setAll out (drawn.map (fun opt => (opt.path, opt.value)))
  .ok (shuffleObjectKeys out rng).1

def asStr : Json → Option String
  | .str s => some s
  | _ => none

/-- The pieces, from a value of this variant. -/
def extract (variant : SchemaVariant) (body : Json) : Option (List UInt8) :=
  (variant.carriers.mapM (fun path =>
    ((getPath body path).bind asStr).bind (fun s => (b64Decode s).toOption))).map List.flatten

def wrap (profile : MaskingProfile) (kind : String) (inner : List UInt8) (rng : Rng) :
    Except CoverError Json :=
  match profile.kinds.get? kind with
  | none => .error (.unknownKind kind)
  | some spec =>
      let (idx, rng) := nextU32 rng
      -- a validated kind has a variant
      match spec.schemas[idx % spec.schemas.length]? with
      | none => .error (.noSchemas kind)
      | some variant => do
          let key ← profile.coverKey
          let (nonce, rng) := fillBytes nonceLen rng
          let bytes ← sealWith C key nonce inner
          buildPacket variant bytes rng

def unwrap (profile : MaskingProfile) (kind : String) (body : Json) :
    Except CoverError (List UInt8) :=
  match profile.kinds.get? kind with
  | none => .error (.unknownKind kind)
  | some spec => do
      let key ← profile.coverKey
      match spec.schemas.findSome? (fun variant =>
        (extract variant body).bind (fun bytes => (openWith C key bytes).toOption)) with
      | some plain => .ok plain
      | none => .error (.noVariant kind)

end Paranoia
