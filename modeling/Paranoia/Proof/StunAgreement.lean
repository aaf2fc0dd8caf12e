import Mathlib.Data.List.GetD
import Mathlib.Tactic.IntervalCases
import Paranoia.Stun

/-!
# Client and server read the same messages

What the client's session takes for a control message is what the server parses, with the same
method, class, transaction and attributes. An attribute gives the same address on both sides, and
what one side writes for an address the other reads back (`stun_agrees`).
-/

namespace Paranoia

variable {buf value rest : List UInt8} {tid : TransactionId} {addr : SocketAddr} {pos fin : Nat}

/-! ## Bytes -/

theorem cookieBytes_toList : cookieBytes.toList = [0x21, 0x12, 0xA4, 0x42] := rfl

theorem u32At_eq_magicCookie : u32At buf pos = magicCookie ↔
    byteAt buf pos = 0x21 ∧ byteAt buf (pos + 1) = 0x12 ∧ byteAt buf (pos + 2) = 0xA4
      ∧ byteAt buf (pos + 3) = 0x42 := by
  have hcookie : magicCookie = BigEndian.u32 0x21 0x12 0xA4 0x42 := by decide
  rw [hcookie, u32At, BigEndian.u32_eq_iff]

theorem slice_four (h : pos + 4 ≤ buf.length) :
    slice buf pos 4
      = [byteAt buf pos, byteAt buf (pos + 1), byteAt buf (pos + 2), byteAt buf (pos + 3)] := by
  refine List.ext_getElem ?_ (fun i h₁ h₂ => ?_)
  · simp only [slice, List.length_take, List.length_drop, List.length_cons, List.length_nil]
    omega
  · have hi : i < 4 := by simpa using h₂
    interval_cases i <;> simp [slice, byteAt, List.getD_eq_getElem?_getD] <;> grind

theorem slice_tid (h : headerLen ≤ buf.length) : slice buf 8 12 = (tidOf buf).toList := by
  have h : 20 ≤ buf.length := h
  refine List.ext_getElem ?_ (fun i h₁ h₂ => ?_)
  · simp only [slice, List.length_take, List.length_drop, Vector.length_toList]
    omega
  · have hi : i < 12 := by simpa using h₂
    have hin : 8 + i < buf.length := by omega
    simp [slice, tidOf, byteAt, hin]

theorem isStun_iff : isStun buf = true ↔
    headerLen ≤ buf.length ∧ byteAt buf 0 &&& 0xC0 = 0 ∧ u32At buf 4 = magicCookie := by
  unfold isStun
  rw [u32At_eq_magicCookie, Bool.and_eq_true, Bool.and_eq_true, decide_eq_true_iff, beq_iff_eq,
    beq_iff_eq, and_assoc]
  refine and_congr_right (fun hlen => and_congr_right (fun _ => ?_))
  rw [slice_four (by omega), cookieBytes_toList]
  simp

/-! ## Messages -/

theorem attributes_agree :
    (Turn.attributes buf pos fin).toOption = VoipStun.attributes buf pos fin := by
  fun_induction VoipStun.attributes buf pos fin with
  | case1 pos h len valueStart hover =>
      rw [Turn.attributes, if_pos h]
      simp only [hover, valueStart, len]
      rfl
  | case2 pos h typ len valueStart hfits ih =>
      rw [Turn.attributes, if_pos h, ← ih]
      dsimp only
      rw [if_neg hfits]
      cases Turn.attributes buf (valueStart + paddedLen len) fin <;> rfl
  | case3 pos h =>
      rw [Turn.attributes, if_neg h]
      rfl

/-- What the server knows of a message, of the client's message. -/
def Turn.Message.seen (m : Turn.Message) : VoipStun.Message :=
  ⟨m.header.method, m.header.cls, m.header.transactionId, m.attrs⟩

/-- The client checks the two highest bits first and the server last. -/
theorem parse_agrees : (controlMessage buf).map Turn.Message.seen = VoipStun.parseMessage buf := by
  unfold controlMessage VoipStun.parseMessage VoipStun.parseHeader Turn.parse
  by_cases hlen : buf.length < headerLen
  · have hstun : isStun buf = false := by
      rw [Bool.eq_false_iff]
      intro h
      have := (isStun_iff.mp h).1
      omega
    simp [hstun, hlen]
  by_cases hcookie : u32At buf 4 = magicCookie
  swap
  · have hstun : isStun buf = false := by
      rw [Bool.eq_false_iff]
      exact fun h => hcookie (isStun_iff.mp h).2.2
    simp [hstun, hlen, hcookie]
  by_cases hbits : byteAt buf 0 &&& 0xC0 = 0
  swap
  · have hstun : isStun buf = false := by
      rw [Bool.eq_false_iff]
      exact fun h => hbits (isStun_iff.mp h).2.1
    simp [hstun, hlen, hcookie, hbits]
  have hstun : isStun buf = true := isStun_iff.mpr ⟨Nat.le_of_not_lt hlen, hbits, hcookie⟩
  by_cases hover : buf.length < headerLen + (u16At buf 2).toNat
  · simp [hstun, hlen, hcookie, hover, Except.toOption]
  rw [if_pos hstun, if_neg hlen, if_neg hlen]
  simp only [hcookie, ne_eq, not_true_eq_false, if_false, hover, hbits, Option.bind_eq_bind,
    Option.bind_some, ← attributes_agree]
  cases Turn.attributes buf headerLen (headerLen + (u16At buf 2).toNat) <;> rfl

/-! ## Addresses -/

theorem decodeXorAddress_agrees :
    Turn.decodeXorAddress value tid = VoipStun.decodeXorAddress value tid := rfl

theorem byteAt_toList {n : Nat} (v : Vector UInt8 n) (i : Fin n) : byteAt v.toList i = v.get i := by
  simp [byteAt, Vector.get]

theorem parseXorMappedValue_agrees :
    Stun.parseXorMappedValue value (cookieBytes.toList ++ tid.toList)
      = VoipStun.decodeXorAddress value tid := by
  have hcookie : ∀ i : Fin 4, byteAt (cookieBytes.toList ++ tid.toList) i = cookieBytes.get i := by
    intro i
    rw [← byteAt_toList]
    simp [byteAt, List.getElem?_append_left]
  have hkey : ∀ i : Fin 16, byteAt (cookieBytes.toList ++ tid.toList) i
      = (cookieBytes ++ tid : Vector UInt8 16).get i := by
    intro i
    rw [← byteAt_toList, Vector.toList_append]
  unfold Stun.parseXorMappedValue VoipStun.decodeXorAddress
  simp only [hcookie, hkey]

theorem xor_back (a b : UInt8) : a ^^^ b ^^^ b = a := by
  rw [UInt8.xor_assoc, UInt8.xor_self, UInt8.xor_zero]

theorem port_back (port : UInt16) (a b : UInt8) :
    u16At (a :: b :: BigEndian.bytes 2 (port ^^^ cookiePort).toNat ++ rest) 2 ^^^ cookiePort
      = port := by
  rw [BigEndian.bytes_two]
  show BigEndian.u16 (UInt8.ofNat ((port ^^^ cookiePort).toNat / 256))
    (UInt8.ofNat (port ^^^ cookiePort).toNat) ^^^ cookiePort = port
  rw [BigEndian.u16_toNat, UInt16.xor_assoc, UInt16.xor_self, UInt16.xor_zero]

theorem octets_back {n : Nat} (oct key : Vector UInt8 n) (a b : UInt8) (m : Nat) :
    Vector.ofFn (fun i : Fin n => byteAt (a :: b :: BigEndian.bytes 2 m
      ++ List.ofFn (fun i => oct.get i ^^^ key.get i)) (4 + i) ^^^ key.get i) = oct := by
  refine Vector.ext (fun i hi => ?_)
  have hpos : 4 + i = i + 1 + 1 + 1 + 1 := by omega
  rw [Vector.getElem_ofFn, BigEndian.bytes_two]
  simp only [byteAt, Vector.get, Fin.val_cast, Vector.getElem_toArray, List.cons_append,
    List.nil_append, hpos, List.getD_eq_getElem?_getD, List.length_cons, List.length_ofFn,
    add_lt_add_iff_right, hi, getElem?_pos, List.getElem_cons_succ, List.getElem_ofFn,
    Option.getD_some, Fin.cast_mk, xor_back]

/-- What is written for an address is read back. -/
theorem decode_encode :
    VoipStun.decodeXorAddress (VoipStun.encodeXorAddress addr tid) tid = some addr := by
  obtain ⟨ip, port⟩ := addr
  cases ip with
  | v4 oct =>
      unfold VoipStun.encodeXorAddress VoipStun.decodeXorAddress
      dsimp only
      rw [port_back, octets_back]
      simp [byteAt, BigEndian.length_bytes]
  | v6 oct =>
      unfold VoipStun.encodeXorAddress VoipStun.decodeXorAddress
      dsimp only
      rw [port_back, octets_back oct (cookieBytes ++ tid)]
      simp [byteAt, BigEndian.length_bytes]

/-! ## The address a STUN server was asked for -/

theorem findXorMapped_of_attributes {attrs : List Attribute}
    (hfin : fin ≤ buf.length) (h : VoipStun.attributes buf pos fin = some attrs) :
    Stun.findXorMapped buf pos fin
      = (attrs.find? (fun a => a.typ = Stun.attrXorMappedAddress)).bind
          (fun a => Stun.parseXorMappedValue a.value (slice buf 4 16)) := by
  fun_induction VoipStun.attributes buf pos fin generalizing attrs with
  | case1 => cases h
  | case2 pos hpos typ len valueStart hfits =>
      rename_i ih
      obtain ⟨attrs', hrest, rfl⟩ := Option.map_eq_some_iff.mp h
      rw [Stun.findXorMapped, if_pos hpos]
      dsimp only
      rw [if_neg (by omega), List.find?_cons]
      by_cases htyp : u16At buf pos = Stun.attrXorMappedAddress
      · rw [if_pos htyp, decide_eq_true htyp]
        rfl
      · rw [if_neg htyp, decide_eq_false htyp]
        exact ih hrest
  | case3 pos hpos =>
      cases h
      rw [Stun.findXorMapped, if_neg hpos]
      rfl

theorem slice_cookie_tid (h : headerLen ≤ buf.length) (hcookie : u32At buf 4 = magicCookie) :
    slice buf 4 16 = cookieBytes.toList ++ (tidOf buf).toList := by
  have hhead : slice buf 4 4 = cookieBytes.toList := by
    obtain ⟨h4, h5, h6, h7⟩ := u32At_eq_magicCookie.mp hcookie
    rw [slice_four (Nat.le_trans (by decide) h), h4, h5, h6, h7, cookieBytes_toList]
  have htail : slice buf 8 12 = (tidOf buf).toList := slice_tid h
  rw [← hhead, ← htail]
  show (buf.drop 4).take (4 + 12) = (buf.drop 4).take 4 ++ (buf.drop 8).take 12
  rw [List.take_add, List.drop_drop]

/-- What a control message was parsed from. -/
theorem controlMessage_cases {m : Turn.Message} (h : controlMessage buf = some m) :
    isStun buf = true ∧ headerLen + (u16At buf 2).toNat ≤ buf.length
    ∧ m.header.messageType = u16At buf 0 ∧ m.header.transactionId = tidOf buf
    ∧ VoipStun.attributes buf headerLen (headerLen + (u16At buf 2).toNat) = some m.attrs := by
  unfold controlMessage at h
  split at h
  · rename_i hstun
    have hlen : ¬ buf.length < headerLen := Nat.not_lt_of_le (isStun_iff.mp hstun).1
    unfold Turn.parse at h
    rw [if_neg hlen] at h
    dsimp only at h
    rw [if_neg (not_not_intro (isStun_iff.mp hstun).2.2)] at h
    split at h
    · cases h
    · rename_i hfits
      split at h
      · rename_i attrs hattrs
        cases h
        refine ⟨hstun, Nat.le_of_not_lt hfits, rfl, rfl, ?_⟩
        rw [← attributes_agree, hattrs]
        rfl
      · cases h
  · cases h

/-- The two decoders of the client. -/
theorem parseXorMappedAddress_of_controlMessage {m : Turn.Message}
    (h : controlMessage buf = some m) :
    Stun.parseXorMappedAddress buf tid
      = if m.header.messageType = Stun.msgTypeBindingSuccess ∧ m.header.transactionId = tid
        then m.findXorAddress Turn.attrXorMappedAddress else none := by
  obtain ⟨hstun, hfits, htype, htid, hattrs⟩ := controlMessage_cases h
  obtain ⟨hlen, -, hcookie⟩ := isStun_iff.mp hstun
  have hexpected : slice buf 8 12 = tid.toList ↔ tidOf buf = tid := by
    rw [slice_tid hlen, Vector.toList_inj]
  unfold Stun.parseXorMappedAddress
  rw [htype, htid, if_neg (Nat.not_lt_of_le hlen)]
  by_cases ht : u16At buf 0 = Stun.msgTypeBindingSuccess
  swap
  · simp [ht]
  by_cases hid : tidOf buf = tid
  swap
  · simp [ht, hid, hcookie, hexpected]
  have hlong : ¬ (u16At buf 2).toNat + headerLen > buf.length := by omega
  rw [if_neg (not_not_intro ht)]
  dsimp only
  rw [if_neg hlong, if_neg (not_not_intro hcookie),
    if_neg (not_not_intro (hexpected.mpr hid)), if_pos ⟨ht, hid⟩,
    findXorMapped_of_attributes hfits hattrs, slice_cookie_tid hlen hcookie]
  unfold Turn.Message.findXorAddress Turn.Message.find
  rw [htid]
  refine congrArg _ (funext (fun a => ?_))
  exact parseXorMappedValue_agrees

theorem findXorAddress_seen (m : Turn.Message) (typ : UInt16) :
    m.findXorAddress typ
      = (m.seen.find typ).bind (fun value => VoipStun.decodeXorAddress value m.seen.tid) := by
  unfold Turn.Message.findXorAddress Turn.Message.find VoipStun.Message.find Turn.Message.seen
  rw [Option.bind_map]
  rfl

/-! ## What is written is read -/

theorem byteAt_append (pre l : List UInt8) (i : Nat) :
    byteAt (pre ++ l) (pre.length + i) = byteAt l i := by
  rw [byteAt, byteAt, List.getD_append_right _ _ _ _ (Nat.le_add_right _ _), Nat.add_sub_cancel_left]

theorem u16At_append (pre l : List UInt8) (i : Nat) :
    u16At (pre ++ l) (pre.length + i) = u16At l i := by
  rw [u16At, Nat.add_assoc, byteAt_append, byteAt_append, u16At]

theorem slice_append (pre l : List UInt8) (i n : Nat) :
    slice (pre ++ l) (pre.length + i) n = slice l i n := by
  rw [slice, List.drop_length_add_append, slice]

theorem u16At_bytes (n : Nat) : u16At (BigEndian.bytes 2 n ++ rest) 0 = UInt16.ofNat n := by
  rw [BigEndian.bytes_two]
  exact BigEndian.u16_bytes n

theorem length_encodeAttribute (a : Attribute) :
    (VoipStun.encodeAttribute a).length = 4 + paddedLen a.value.length := by
  unfold VoipStun.encodeAttribute paddedLen
  simp only [List.length_append, BigEndian.length_bytes, List.length_replicate]
  omega

theorem length_flatMap_encodeAttribute (attrs : List Attribute) :
    (attrs.flatMap VoipStun.encodeAttribute).length
      = (attrs.map (fun a => 4 + paddedLen a.value.length)).sum := by
  rw [List.length_flatMap]
  exact congrArg List.sum (List.map_congr_left (fun a _ => length_encodeAttribute a))

/-- The four parts of an attribute, read where it begins. -/
theorem read_encodeAttribute {a : Attribute} (pre : List UInt8) (h : a.value.length < 65536) :
    u16At (pre ++ (VoipStun.encodeAttribute a ++ rest)) pre.length = a.typ
    ∧ (u16At (pre ++ (VoipStun.encodeAttribute a ++ rest)) (pre.length + 2)).toNat = a.value.length
    ∧ slice (pre ++ (VoipStun.encodeAttribute a ++ rest)) (pre.length + 4) a.value.length
      = a.value := by
  set pad : List UInt8 := List.replicate (paddedLen a.value.length - a.value.length) 0
  have hsplit : VoipStun.encodeAttribute a ++ rest
      = BigEndian.bytes 2 a.typ.toNat
        ++ (BigEndian.bytes 2 a.value.length ++ (a.value ++ (pad ++ rest))) := by
    simp [VoipStun.encodeAttribute, pad]
  rw [hsplit]
  refine ⟨?_, ?_, ?_⟩
  · have := u16At_append pre (BigEndian.bytes 2 a.typ.toNat
      ++ (BigEndian.bytes 2 a.value.length ++ (a.value ++ (pad ++ rest)))) 0
    rw [Nat.add_zero, u16At_bytes, UInt16.ofNat_toNat] at this
    exact this
  · have := u16At_append (BigEndian.bytes 2 a.typ.toNat)
      (BigEndian.bytes 2 a.value.length ++ (a.value ++ (pad ++ rest))) 0
    rw [BigEndian.length_bytes, Nat.add_zero, u16At_bytes] at this
    rw [u16At_append, this, UInt16.toNat_ofNat_of_lt' h]
  · have := slice_append (BigEndian.bytes 2 a.typ.toNat ++ BigEndian.bytes 2 a.value.length)
      (a.value ++ (pad ++ rest)) 0 a.value.length
    rw [List.length_append, BigEndian.length_bytes, BigEndian.length_bytes, List.append_assoc] at this
    rw [slice_append, this, slice, List.drop_zero, List.take_left]

theorem attributes_encoded (attrs : List Attribute) (pre : List UInt8)
    (h : ∀ a ∈ attrs, a.value.length < 65536) :
    VoipStun.attributes (pre ++ attrs.flatMap VoipStun.encodeAttribute) pre.length
      (pre ++ attrs.flatMap VoipStun.encodeAttribute).length = some attrs := by
  induction attrs generalizing pre with
  | nil => rw [VoipStun.attributes, if_neg (by simp)]
  | cons a attrs ih =>
      rw [List.flatMap_cons]
      set tail := attrs.flatMap VoipStun.encodeAttribute
      obtain ⟨htyp, hval, hslice⟩ :=
        @read_encodeAttribute tail a pre (h a List.mem_cons_self)
      have hlen := length_encodeAttribute a
      have hall : (pre ++ (VoipStun.encodeAttribute a ++ tail)).length
          = pre.length + (4 + paddedLen a.value.length + tail.length) := by
        rw [List.length_append, List.length_append, hlen]
      have hpad : a.value.length ≤ paddedLen a.value.length := by
        unfold paddedLen
        omega
      have hnext := ih (pre ++ VoipStun.encodeAttribute a)
        (fun b hb => h b (List.mem_cons_of_mem _ hb))
      have hpos : (pre ++ VoipStun.encodeAttribute a).length
          = pre.length + 4 + paddedLen a.value.length := by
        rw [List.length_append, hlen, Nat.add_assoc]
      rw [List.append_assoc, hpos] at hnext
      rw [VoipStun.attributes, if_pos (by omega)]
      dsimp only
      rw [htyp, hval, hslice, if_neg (by omega), hnext]
      rfl

/-- What a message begins with. -/
def messageHeader (typ : UInt16) (n : Nat) (tid : TransactionId) : List UInt8 :=
  BigEndian.bytes 2 typ.toNat ++ BigEndian.bytes 2 n ++ cookieBytes.toList ++ tid.toList

theorem length_messageHeader (typ : UInt16) (n : Nat) :
    (messageHeader typ n tid).length = headerLen := by
  simp [messageHeader, BigEndian.length_bytes, headerLen]

/-- The four parts of a header, read where they stand. -/
theorem read_messageHeader (typ : UInt16) {n : Nat} (hn : n < 65536) (body : List UInt8) :
    u16At (messageHeader typ n tid ++ body) 0 = typ
    ∧ (u16At (messageHeader typ n tid ++ body) 2).toNat = n
    ∧ u32At (messageHeader typ n tid ++ body) 4 = magicCookie
    ∧ tidOf (messageHeader typ n tid ++ body) = tid := by
  refine ⟨?_, ?_, ?_, ?_⟩
  · simp only [messageHeader, List.append_assoc]
    rw [u16At_bytes, UInt16.ofNat_toNat]
  · have := u16At_append (BigEndian.bytes 2 typ.toNat)
      (BigEndian.bytes 2 n ++ (cookieBytes.toList ++ (tid.toList ++ body))) 0
    rw [BigEndian.length_bytes, Nat.add_zero, u16At_bytes] at this
    simp only [messageHeader, List.append_assoc]
    rw [this, UInt16.toNat_ofNat_of_lt' hn]
  · simp only [messageHeader, BigEndian.bytes_two, cookieBytes_toList]
    exact u32At_eq_magicCookie.mpr ⟨rfl, rfl, rfl, rfl⟩
  · have := slice_tid (show headerLen ≤ (messageHeader typ n tid ++ body).length by
      rw [List.length_append, length_messageHeader]; omega)
    have hslice := slice_append (BigEndian.bytes 2 typ.toNat ++ BigEndian.bytes 2 n
      ++ cookieBytes.toList) (tid.toList ++ body) 0 12
    have htake : slice (tid.toList ++ body) 0 12 = tid.toList := by
      rw [slice, List.drop_zero, List.take_left' (by simp)]
    have hpre : (BigEndian.bytes 2 typ.toNat ++ BigEndian.bytes 2 n ++ cookieBytes.toList).length
        = 8 := by simp [BigEndian.length_bytes]
    rw [hpre, Nat.add_zero, htake, ← List.append_assoc] at hslice
    exact Vector.toList_inj.mp (this.symm.trans hslice)

/-- The server reads back what it has built. -/
theorem parse_build {method : UInt16} {cls : MessageClass} {attrs : List Attribute}
    (htype : VoipStun.parseMessageType (VoipStun.makeMessageType method cls) = (method, cls))
    (hbits : UInt8.ofNat ((VoipStun.makeMessageType method cls).toNat / 256) &&& 0xC0 = 0)
    (hvalues : ∀ a ∈ attrs, a.value.length < 65536)
    (hlen : (attrs.map (fun a => 4 + paddedLen a.value.length)).sum < 65536) :
    VoipStun.parseMessage (VoipStun.buildMessage method cls tid attrs)
      = some ⟨method, cls, tid, attrs⟩ := by
  set n := (attrs.map (fun a => 4 + paddedLen a.value.length)).sum with hn
  set typ := VoipStun.makeMessageType method cls
  set body := attrs.flatMap VoipStun.encodeAttribute
  have hbody : body.length = n := length_flatMap_encodeAttribute attrs
  set header := messageHeader typ n tid with hheader'
  have hheader : header.length = headerLen := length_messageHeader typ n
  have hmsg : VoipStun.buildMessage method cls tid attrs = header ++ body := rfl
  obtain ⟨h0, h2, h4, htid⟩ := @read_messageHeader tid typ n hlen body
  rw [← hheader'] at h0 h2 h4 htid
  have hbyte : byteAt (header ++ body) 0 &&& 0xC0 = 0 := by
    simp only [header, messageHeader, BigEndian.bytes_two]
    exact hbits
  have hattrs := attributes_encoded attrs header hvalues
  rw [hheader, List.length_append, hheader, hbody] at hattrs
  change VoipStun.attributes (header ++ body) headerLen (headerLen + n) = some attrs at hattrs
  unfold VoipStun.parseMessage VoipStun.parseHeader
  rw [hmsg, if_neg (by rw [List.length_append, hheader]; omega), if_neg (not_not_intro h4),
    if_neg (by rw [List.length_append, hheader, h2, hbody]; omega), if_neg (not_not_intro hbyte)]
  simp only [Option.bind_eq_bind, Option.bind_some, h0, h2, htid, htype, hattrs]
  rfl

theorem length_encodeXorAddress :
    (VoipStun.encodeXorAddress addr tid).length = 8
    ∨ (VoipStun.encodeXorAddress addr tid).length = 20 := by
  unfold VoipStun.encodeXorAddress
  cases addr.ip <;> simp [BigEndian.length_bytes]

/-- Both sides answer a binding request with the same bytes. -/
theorem buildBindingSuccess_agrees :
    Stun.buildBindingSuccess tid addr = VoipStun.buildBindingSuccess tid addr := by
  have hvalue : Stun.xorMappedValue addr tid = VoipStun.encodeXorAddress addr tid := rfl
  have htype : VoipStun.makeMessageType VoipStun.methodBinding .successResponse
      = Stun.msgTypeBindingSuccess := by decide
  have hpad : paddedLen (VoipStun.encodeXorAddress addr tid).length
      = (VoipStun.encodeXorAddress addr tid).length := by
    rcases @length_encodeXorAddress tid addr with h | h <;> rw [h] <;> rfl
  unfold Stun.buildBindingSuccess VoipStun.buildBindingSuccess VoipStun.buildMessage
  simp only [hvalue, htype, List.map_cons, List.map_nil, List.sum_cons, List.sum_nil,
    List.flatMap_cons, List.flatMap_nil, VoipStun.encodeAttribute, hpad, Nat.sub_self,
    List.replicate_zero, List.append_nil, Nat.add_zero, List.append_assoc]
  rfl

theorem parse_buildBindingSuccess :
    VoipStun.parseMessage (VoipStun.buildBindingSuccess tid addr)
      = some ⟨VoipStun.methodBinding, .successResponse, tid,
          [⟨VoipStun.attrXorMappedAddress, VoipStun.encodeXorAddress addr tid⟩]⟩ := by
  have hlen := @length_encodeXorAddress tid addr
  refine parse_build (by decide) (by decide) (fun a ha => ?_) ?_
  · cases List.mem_singleton.mp ha
    show (VoipStun.encodeXorAddress addr tid).length < 65536
    omega
  · rcases hlen with h | h <;> simp [h, paddedLen]

/-- **Client and server read the same messages.** -/
theorem stun_agrees :
    (∀ buf, (controlMessage buf).map Turn.Message.seen = VoipStun.parseMessage buf)
    ∧ (∀ buf typ, (controlMessage buf).bind (·.findXorAddress typ)
        = (VoipStun.parseMessage buf).bind (fun m =>
            (m.find typ).bind (fun value => VoipStun.decodeXorAddress value m.tid)))
    ∧ (∀ value tid, Turn.decodeXorAddress value tid = VoipStun.decodeXorAddress value tid
        ∧ Stun.parseXorMappedValue value (cookieBytes.toList ++ tid.toList)
          = VoipStun.decodeXorAddress value tid)
    ∧ (∀ buf tid, (controlMessage buf).bind (fun _ => Stun.parseXorMappedAddress buf tid)
        = (controlMessage buf).bind (fun m =>
            if m.header.messageType = Stun.msgTypeBindingSuccess ∧ m.header.transactionId = tid
            then m.findXorAddress Stun.attrXorMappedAddress else none))
    ∧ (∀ addr tid,
        VoipStun.decodeXorAddress (Turn.encodeXorAddress addr tid) tid = some addr
        ∧ VoipStun.decodeXorAddress (Stun.xorMappedValue addr tid) tid = some addr
        ∧ Turn.decodeXorAddress (VoipStun.encodeXorAddress addr tid) tid = some addr
        ∧ Stun.parseXorMappedValue (VoipStun.encodeXorAddress addr tid)
            (cookieBytes.toList ++ tid.toList) = some addr)
    ∧ (∀ addr tid,
        Stun.parseXorMappedAddress (VoipStun.buildBindingSuccess tid addr) tid = some addr
        ∧ (VoipStun.parseMessage (Stun.buildBindingSuccess tid addr)).bind (fun m =>
            (m.find VoipStun.attrXorMappedAddress).bind (fun value =>
              VoipStun.decodeXorAddress value m.tid)) = some addr) := by
  have haddress : ∀ buf typ, (controlMessage buf).bind (·.findXorAddress typ)
      = (VoipStun.parseMessage buf).bind (fun m =>
          (m.find typ).bind (fun value => VoipStun.decodeXorAddress value m.tid)) := by
    intro buf typ
    rw [← parse_agrees, Option.bind_map]
    exact congrArg _ (funext (fun m => findXorAddress_seen m typ))
  have hserver : ∀ addr tid, (VoipStun.parseMessage (VoipStun.buildBindingSuccess tid addr)).bind
      (fun m => (m.find VoipStun.attrXorMappedAddress).bind (fun value =>
        VoipStun.decodeXorAddress value m.tid)) = some addr := by
    intro addr tid
    rw [parse_buildBindingSuccess]
    exact decode_encode
  refine ⟨fun _ => parse_agrees, haddress, fun _ _ => ⟨decodeXorAddress_agrees,
    parseXorMappedValue_agrees⟩, ?_, ?_, ?_⟩
  · intro buf tid
    cases h : controlMessage buf with
    | none => rfl
    | some m =>
        rw [Option.bind_some, Option.bind_some]
        exact parseXorMappedAddress_of_controlMessage h
  · intro addr tid
    refine ⟨decode_encode, decode_encode, decode_encode, ?_⟩
    rw [parseXorMappedValue_agrees, decode_encode]
  · intro addr tid
    refine ⟨?_, by rw [buildBindingSuccess_agrees, hserver]⟩
    have hread := haddress (VoipStun.buildBindingSuccess tid addr) VoipStun.attrXorMappedAddress
    rw [hserver] at hread
    obtain ⟨m, hm, hfind⟩ := Option.bind_eq_some_iff.mp hread
    have hseen : m.seen = ⟨VoipStun.methodBinding, .successResponse, tid,
        [⟨VoipStun.attrXorMappedAddress, VoipStun.encodeXorAddress addr tid⟩]⟩ := by
      have := @parse_agrees (VoipStun.buildBindingSuccess tid addr)
      rw [hm, parse_buildBindingSuccess] at this
      exact Option.some.inj this
    have htid : m.header.transactionId = tid := congrArg VoipStun.Message.tid hseen
    have htype : m.header.messageType = Stun.msgTypeBindingSuccess := by
      rw [(controlMessage_cases hm).2.2.1, ← buildBindingSuccess_agrees]
      simp only [Stun.buildBindingSuccess, List.append_assoc]
      rw [u16At_bytes, UInt16.ofNat_toNat]
    rw [parseXorMappedAddress_of_controlMessage hm, if_pos ⟨htype, htid⟩]
    exact hfind

end Paranoia
