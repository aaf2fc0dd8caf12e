import Mathlib.Data.List.OfFn
import Paranoia.Lib.BigEndian

/-!
# STUN and TURN messages

Client and server have no code in common here: each reads messages and writes and reads addresses
in its own way, and the client does so twice, for the one address it asks a STUN server for and for
TURN. `Turn` and `Stun` are the client's modules, `VoipStun` the server's. A message is a header of
20 bytes and attributes, each with its type, its length and its value, padded to four bytes.
-/

namespace Paranoia

inductive IpAddr where
  | v4 (octets : Vector UInt8 4)
  | v6 (octets : Vector UInt8 16)
deriving DecidableEq

structure SocketAddr where
  ip : IpAddr
  port : UInt16
deriving DecidableEq

abbrev TransactionId := Vector UInt8 12

/-- What both sides know of a message. -/
inductive MessageClass where
  | request
  | indication
  | successResponse
  | errorResponse
deriving DecidableEq

structure Attribute where
  typ : UInt16
  value : List UInt8
deriving DecidableEq

/-! ## Bytes -/

/-- An index the code has checked to be in bounds. -/
def byteAt (msg : List UInt8) (i : Nat) : UInt8 := msg.getD i 0

def slice (msg : List UInt8) (start len : Nat) : List UInt8 := (msg.drop start).take len

def u16At (msg : List UInt8) (pos : Nat) : UInt16 :=
  BigEndian.u16 (byteAt msg pos) (byteAt msg (pos + 1))

def u32At (msg : List UInt8) (pos : Nat) : UInt32 :=
  BigEndian.u32 (byteAt msg pos) (byteAt msg (pos + 1)) (byteAt msg (pos + 2))
    (byteAt msg (pos + 3))

def tidOf (msg : List UInt8) : TransactionId := Vector.ofFn (fun i => byteAt msg (8 + i))

def headerLen : Nat := 20

def magicCookie : UInt32 := 0x2112A442

/-- `magicCookie` as it is sent. -/
def cookieBytes : Vector UInt8 4 := #v[0x21, 0x12, 0xA4, 0x42]

def cookiePort : UInt16 := 0x2112

def paddedLen (len : Nat) : Nat := (len + 3) / 4 * 4

/-! ## The client's `turn` -/

namespace Turn

def methodBinding : UInt16 := 0x001
def methodAllocate : UInt16 := 0x003
def methodRefresh : UInt16 := 0x004
def methodCreatePermission : UInt16 := 0x008

def attrLifetime : UInt16 := 0x000D
def attrXorRelayedAddress : UInt16 := 0x0016
def attrXorMappedAddress : UInt16 := 0x0020

def parseMessageType (t : UInt16) : UInt16 × MessageClass :=
  let c0 := (t &&& 0x0010) >>> 4
  let c1 := (t &&& 0x0100) >>> 8
  let classBits := (c1 <<< 1) ||| c0
  let cls : MessageClass :=
    if classBits = 0b00 then .request
    else if classBits = 0b01 then .indication
    else if classBits = 0b10 then .successResponse
    else .errorResponse
  let low := t &&& 0x000F
  let middle := (t &&& 0x00E0) >>> 1
  let high := (t &&& 0x3E00) >>> 2
  (high ||| middle ||| low, cls)

structure Header where
  messageType : UInt16
  method : UInt16
  cls : MessageClass
  messageLength : UInt16
  transactionId : TransactionId
deriving DecidableEq

structure Message where
  header : Header
  attrs : List Attribute
deriving DecidableEq

/-- The loop of `parse`, from `pos` to `fin`. -/
def attributes (buf : List UInt8) (pos fin : Nat) : Except String (List Attribute) :=
  if pos + 4 ≤ fin then
    let typ := u16At buf pos
    let len := (u16At buf (pos + 2)).toNat
    let valStart := pos + 4
    if valStart + len > fin then .error "turn parse: attr length overflow"
    else
      match attributes buf (valStart + paddedLen len) fin with
      | .ok attrs => .ok (⟨typ, slice buf valStart len⟩ :: attrs)
      | .error e => .error e
  else .ok []
termination_by fin - pos

def parse (buf : List UInt8) : Except String Message :=
  if buf.length < headerLen then .error "turn parse: too short"
  else
    let typ := u16At buf 0
    let len := (u16At buf 2).toNat
    if u32At buf 4 ≠ magicCookie then .error "turn parse: bad magic cookie"
    else if headerLen + len > buf.length then .error "turn parse: length overflow"
    else
      let (method, cls) := parseMessageType typ
      match attributes buf headerLen (headerLen + len) with
      | .ok attrs => .ok ⟨⟨typ, method, cls, UInt16.ofNat len, tidOf buf⟩, attrs⟩
      | .error e => .error e

def encodeXorAddress (addr : SocketAddr) (tid : TransactionId) : List UInt8 :=
  let xorPort := BigEndian.bytes 2 (addr.port ^^^ cookiePort).toNat
  match addr.ip with
  | .v4 oct => 0x00 :: 0x01 :: xorPort ++ List.ofFn (fun i => oct.get i ^^^ cookieBytes.get i)
  | .v6 oct =>
      let key : Vector UInt8 16 := cookieBytes ++ tid
      0x00 :: 0x02 :: xorPort ++ List.ofFn (fun i => oct.get i ^^^ key.get i)

def decodeXorAddress (value : List UInt8) (tid : TransactionId) : Option SocketAddr :=
  if value.length < 4 then none
  else
    let family := byteAt value 1
    let port := u16At value 2 ^^^ cookiePort
    if family = 0x01 then
      if value.length < 8 then none
      else some ⟨.v4 (Vector.ofFn (fun i => byteAt value (4 + i) ^^^ cookieBytes.get i)), port⟩
    else if family = 0x02 then
      if value.length < 20 then none
      else
        let key : Vector UInt8 16 := cookieBytes ++ tid
        some ⟨.v6 (Vector.ofFn (fun i => byteAt value (4 + i) ^^^ key.get i)), port⟩
    else none

namespace Message

def find (m : Message) (typ : UInt16) : Option Attribute := m.attrs.find? (fun a => a.typ = typ)

def findXorAddress (m : Message) (typ : UInt16) : Option SocketAddr :=
  (m.find typ).bind (fun a => decodeXorAddress a.value m.header.transactionId)

def findLifetime (m : Message) : Option Nat :=
  (m.find attrLifetime).bind (fun a =>
    if a.value.length ≠ 4 then none else some (u32At a.value 0).toNat)

end Message

end Turn

/-- How the session tells control datagrams from media. -/
def isStun (pkt : List UInt8) : Bool :=
  decide (pkt.length ≥ 20) && byteAt pkt 0 &&& 0b11000000 == 0
    && slice pkt 4 4 == cookieBytes.toList

/-- What the session handles as a control message. -/
def controlMessage (data : List UInt8) : Option Turn.Message :=
  if isStun data then (Turn.parse data).toOption else none

/-! ## The client's `stun` -/

namespace Stun

def msgTypeBindingSuccess : UInt16 := 0x0101

def attrXorMappedAddress : UInt16 := 0x0020

/-- The value of the attribute of `buildBindingSuccess`. -/
def xorMappedValue (mapped : SocketAddr) (transactionId : TransactionId) : List UInt8 :=
  let xorPort := BigEndian.bytes 2 (mapped.port ^^^ cookiePort).toNat
  match mapped.ip with
  | .v4 octets =>
      0x00 :: 0x01 :: xorPort ++ List.ofFn (fun i => octets.get i ^^^ cookieBytes.get i)
  | .v6 octets =>
      let key : Vector UInt8 16 := cookieBytes ++ transactionId
      0x00 :: 0x02 :: xorPort ++ List.ofFn (fun i => octets.get i ^^^ key.get i)

def buildBindingSuccess (transactionId : TransactionId) (mapped : SocketAddr) : List UInt8 :=
  let attrValue := xorMappedValue mapped transactionId
  BigEndian.bytes 2 msgTypeBindingSuccess.toNat ++ BigEndian.bytes 2 (4 + attrValue.length)
    ++ cookieBytes.toList ++ transactionId.toList
    ++ BigEndian.bytes 2 attrXorMappedAddress.toNat ++ BigEndian.bytes 2 attrValue.length
    ++ attrValue

def parseXorMappedValue (value cookieAndTid : List UInt8) : Option SocketAddr :=
  if value.length < 4 then none
  else
    let family := byteAt value 1
    let port := u16At value 2 ^^^ cookiePort
    if family = 0x01 then
      if value.length < 8 then none
      else some ⟨.v4 (Vector.ofFn (fun i => byteAt value (4 + i) ^^^ byteAt cookieAndTid i)), port⟩
    else if family = 0x02 then
      if value.length < 20 then none
      else some ⟨.v6 (Vector.ofFn (fun i => byteAt value (4 + i) ^^^ byteAt cookieAndTid i)), port⟩
    else none

/-- The loop of `parseXorMappedAddress`, from `pos` to `fin`. -/
def findXorMapped (msg : List UInt8) (pos fin : Nat) : Option SocketAddr :=
  if pos + 4 ≤ fin then
    let attrType := u16At msg pos
    let attrLen := (u16At msg (pos + 2)).toNat
    let valueStart := pos + 4
    if valueStart + attrLen > msg.length then none
    else if attrType = attrXorMappedAddress then
      parseXorMappedValue (slice msg valueStart attrLen) (slice msg 4 16)
    else findXorMapped msg (valueStart + paddedLen attrLen) fin
  else none
termination_by fin - pos

def parseXorMappedAddress (msg : List UInt8) (expectedTransactionId : TransactionId) :
    Option SocketAddr :=
  if msg.length < headerLen then none
  else if u16At msg 0 ≠ msgTypeBindingSuccess then none
  else
    let length := (u16At msg 2).toNat
    if length + headerLen > msg.length then none
    else if u32At msg 4 ≠ magicCookie then none
    else if slice msg 8 12 ≠ expectedTransactionId.toList then none
    else findXorMapped msg headerLen (headerLen + length)

end Stun

/-! ## The server's `voip_stun` -/

namespace VoipStun

def methodBinding : UInt16 := 0x001

def attrXorMappedAddress : UInt16 := 0x0020

def makeMessageType (method : UInt16) (cls : MessageClass) : UInt16 :=
  let c : UInt16 :=
    match cls with
    | .request => 0b00
    | .indication => 0b01
    | .successResponse => 0b10
    | .errorResponse => 0b11
  let c0 := c &&& 0b01
  let c1 := (c &&& 0b10) >>> 1
  let low := method &&& 0x000F
  let middle := (method &&& 0x0070) >>> 4
  let high := (method &&& 0x0F80) >>> 7
  (high <<< 9) ||| (c1 <<< 8) ||| (middle <<< 5) ||| (c0 <<< 4) ||| low

def parseMessageType (t : UInt16) : UInt16 × MessageClass :=
  let c0 := (t &&& 0x0010) >>> 4
  let c1 := (t &&& 0x0100) >>> 8
  let bits := (c1 <<< 1) ||| c0
  let cls : MessageClass :=
    if bits = 0b00 then .request
    else if bits = 0b01 then .indication
    else if bits = 0b10 then .successResponse
    else .errorResponse
  let low := t &&& 0x000F
  let middle := (t &&& 0x00E0) >>> 1
  let high := (t &&& 0x3E00) >>> 2
  (high ||| middle ||| low, cls)

structure Message where
  method : UInt16
  cls : MessageClass
  tid : TransactionId
  attrs : List Attribute
deriving DecidableEq

def Message.find (m : Message) (typ : UInt16) : Option (List UInt8) :=
  (m.attrs.find? (fun a => a.typ = typ)).map (·.value)

def parseHeader (msg : List UInt8) : Option (UInt16 × TransactionId) :=
  if msg.length < headerLen then none
  else if u32At msg 4 ≠ magicCookie then none
  else if msg.length < headerLen + (u16At msg 2).toNat then none
  else if byteAt msg 0 &&& 0xC0 ≠ 0 then none
  else some (u16At msg 0, tidOf msg)

/-- The loop of `parseMessage`, from `pos` to `fin`. -/
def attributes (msg : List UInt8) (pos fin : Nat) : Option (List Attribute) :=
  if pos + 4 ≤ fin then
    let typ := u16At msg pos
    let len := (u16At msg (pos + 2)).toNat
    let valueStart := pos + 4
    if valueStart + len > fin then none
    else (attributes msg (valueStart + paddedLen len) fin).map (⟨typ, slice msg valueStart len⟩ :: ·)
  else some []
termination_by fin - pos

def parseMessage (msg : List UInt8) : Option Message := do
  let (messageType, tid) ← parseHeader msg
  let (method, cls) := parseMessageType messageType
  let attrs ← attributes msg headerLen (headerLen + (u16At msg 2).toNat)
  return ⟨method, cls, tid, attrs⟩

def encodeAttribute (a : Attribute) : List UInt8 :=
  BigEndian.bytes 2 a.typ.toNat ++ BigEndian.bytes 2 a.value.length ++ a.value
    ++ List.replicate (paddedLen a.value.length - a.value.length) 0

def buildMessage (method : UInt16) (cls : MessageClass) (tid : TransactionId)
    (attrs : List Attribute) : List UInt8 :=
  let attrsLen := (attrs.map (fun a => 4 + paddedLen a.value.length)).sum
  BigEndian.bytes 2 (makeMessageType method cls).toNat ++ BigEndian.bytes 2 attrsLen
    ++ cookieBytes.toList ++ tid.toList ++ attrs.flatMap encodeAttribute

def encodeXorAddress (addr : SocketAddr) (tid : TransactionId) : List UInt8 :=
  let portXor := BigEndian.bytes 2 (addr.port ^^^ cookiePort).toNat
  match addr.ip with
  | .v4 octets => 0 :: 0x01 :: portXor ++ List.ofFn (fun i => octets.get i ^^^ cookieBytes.get i)
  | .v6 octets =>
      let key : Vector UInt8 16 := cookieBytes ++ tid
      0 :: 0x02 :: portXor ++ List.ofFn (fun i => octets.get i ^^^ key.get i)

def decodeXorAddress (value : List UInt8) (tid : TransactionId) : Option SocketAddr :=
  if value.length < 4 then none
  else
    let family := byteAt value 1
    let port := u16At value 2 ^^^ cookiePort
    if family = 0x01 then
      if value.length < 8 then none
      else some ⟨.v4 (Vector.ofFn (fun i => byteAt value (4 + i) ^^^ cookieBytes.get i)), port⟩
    else if family = 0x02 then
      if value.length < 20 then none
      else
        let key : Vector UInt8 16 := cookieBytes ++ tid
        some ⟨.v6 (Vector.ofFn (fun i => byteAt value (4 + i) ^^^ key.get i)), port⟩
    else none

def buildBindingSuccess (tid : TransactionId) (mapped : SocketAddr) : List UInt8 :=
  buildMessage methodBinding .successResponse tid [⟨attrXorMappedAddress, encodeXorAddress mapped tid⟩]

end VoipStun

end Paranoia
