import Paranoia.Stun

/-!
# Building TURN messages

A message is built from its type, its transaction identifier and its attributes, and may be finished
with an attribute that authenticates what stands before it. Whoever checks that attribute walks over
the attributes once more to find where it stands. HMAC-SHA1 is a library and a parameter.
-/

namespace Paranoia

abbrev IntegrityKey := Vector UInt8 16

abbrev HmacSha1 := IntegrityKey → List UInt8 → Vector UInt8 20

namespace Turn

def attrMessageIntegrity : UInt16 := 0x0008

def makeMessageType (method : UInt16) (cls : MessageClass) : UInt16 :=
  let c : UInt16 :=
    match cls with
    | .request => 0b00
    | .indication => 0b01
    | .successResponse => 0b10
    | .errorResponse => 0b11
  let c0 := (c &&& 0b01) >>> 0
  let c1 := (c &&& 0b10) >>> 1
  let low := method &&& 0x000F
  let middle := (method &&& 0x0070) >>> 4
  let high := (method &&& 0x0F80) >>> 7
  (high <<< 9) ||| (c1 <<< 8) ||| (middle <<< 5) ||| (c0 <<< 4) ||| low

structure MessageBuilder where
  typ : UInt16
  transactionId : TransactionId
  attrs : List Attribute
deriving DecidableEq

namespace MessageBuilder

def new (method : UInt16) (cls : MessageClass) (transactionId : TransactionId) : MessageBuilder :=
  ⟨makeMessageType method cls, transactionId, []⟩

def pushAttr (b : MessageBuilder) (typ : UInt16) (value : List UInt8) : MessageBuilder :=
  { b with attrs := b.attrs ++ [⟨typ, value⟩] }

/-- How many bytes the attributes take, with their padding. -/
def attrsLen (b : MessageBuilder) : Nat :=
  (b.attrs.map (fun a => 4 + paddedLen a.value.length)).sum

variable (hmacSha1 : HmacSha1)

/-- The length in the header is a `u16` and counts the last attribute before it is there. -/
def encode (b : MessageBuilder) (integrityKey : Option IntegrityKey) : List UInt8 :=
  let attrsLen := b.attrsLen + (if integrityKey.isSome then 4 + 20 else 0)
  let buf := BigEndian.bytes 2 b.typ.toNat ++ BigEndian.bytes 2 attrsLen ++ cookieBytes.toList
    ++ b.transactionId.toList
    ++ b.attrs.flatMap (fun a =>
      BigEndian.bytes 2 a.typ.toNat ++ BigEndian.bytes 2 a.value.length ++ a.value
        ++ List.replicate (paddedLen a.value.length - a.value.length) 0)
  match integrityKey with
  | none => buf
  | some key =>
      buf ++ BigEndian.bytes 2 attrMessageIntegrity.toNat ++ BigEndian.bytes 2 20
        ++ (hmacSha1 key buf).toList

def finish (b : MessageBuilder) : List UInt8 := b.encode hmacSha1 none

def finishWithIntegrity (b : MessageBuilder) (integrityKey : IntegrityKey) : List UInt8 :=
  b.encode hmacSha1 (some integrityKey)

end MessageBuilder

/-- Where the attribute that authenticates the message begins, looked for from `pos` to `fin`. -/
def integrityOffset (raw : List UInt8) (pos fin : Nat) : Option Nat :=
  if pos + 4 ≤ fin then
    if u16At raw pos = attrMessageIntegrity then some pos
    else integrityOffset raw (pos + 4 + paddedLen (u16At raw (pos + 2)).toNat) fin
  else none
termination_by fin - pos

def verifyMessageIntegrity (hmacSha1 : HmacSha1) (raw : List UInt8) (integrityKey : IntegrityKey) :
    Except String Bool :=
  match parse raw with
  | .error e => .error e
  | .ok msg =>
      match msg.find attrMessageIntegrity with
      | none => .ok false
      | some mi =>
          if mi.value.length ≠ 20 then .ok false
          else
            match integrityOffset raw headerLen (headerLen + msg.header.messageLength.toNat) with
            | none => .ok false
            | some miOffset =>
                .ok ((hmacSha1 integrityKey (raw.take miOffset)).toList = mi.value)

end Turn

end Paranoia
