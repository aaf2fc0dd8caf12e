import Mathlib.Algebra.Order.BigOperators.Group.List
import Paranoia.Client.TurnBuilder
import Paranoia.Proof.StunAgreement

/-!
# What is built is read back

A message that is built is parsed into its type, its transaction identifier and its attributes, one
finished with its authentication into that attribute as well. Whoever holds the key accepts it, if no
other attribute of that type stands before: the first of them is the one that is checked.
-/

namespace Paranoia

namespace Turn

variable {hmacSha1 : HmacSha1} {b : MessageBuilder} {key : IntegrityKey} {attrs : List Attribute}

theorem attributes_eq_ok {buf : List UInt8} {pos fin : Nat}
    (h : VoipStun.attributes buf pos fin = some attrs) : attributes buf pos fin = .ok attrs := by
  rw [← attributes_agree] at h
  cases hattrs : attributes buf pos fin with
  | error e =>
      rw [hattrs] at h
      cases h
  | ok attrs' =>
      rw [hattrs] at h
      cases h
      rfl

/-- A value is no longer than what all the attributes take. -/
theorem value_length_le {a : Attribute} (ha : a ∈ attrs) :
    a.value.length ≤ (attrs.map (fun a => 4 + paddedLen a.value.length)).sum := by
  have hmem : 4 + paddedLen a.value.length
      ∈ attrs.map (fun a : Attribute => 4 + paddedLen a.value.length) := List.mem_map_of_mem ha
  have hle := List.le_sum_of_mem hmem
  have hpad : a.value.length ≤ paddedLen a.value.length := by
    unfold paddedLen
    omega
  omega

/-- A header and attributes are parsed into what they were made of. -/
theorem parse_encoded (typ : UInt16) (tid : TransactionId)
    (hlen : (attrs.map (fun a => 4 + paddedLen a.value.length)).sum < 65536) :
    parse (messageHeader typ (attrs.map (fun a => 4 + paddedLen a.value.length)).sum tid
        ++ attrs.flatMap VoipStun.encodeAttribute)
      = .ok ⟨⟨typ, (parseMessageType typ).1, (parseMessageType typ).2,
          UInt16.ofNat (attrs.map (fun a => 4 + paddedLen a.value.length)).sum, tid⟩, attrs⟩ := by
  set n := (attrs.map (fun a => 4 + paddedLen a.value.length)).sum with hn
  set body := attrs.flatMap VoipStun.encodeAttribute
  have hbody : body.length = n := length_flatMap_encodeAttribute attrs
  have hheader := @length_messageHeader tid typ n
  have hvalues : ∀ a ∈ attrs, a.value.length < 65536 :=
    fun a ha => Nat.lt_of_le_of_lt (value_length_le ha) hlen
  obtain ⟨h0, h2, h4, htid⟩ := @read_messageHeader tid typ n hlen body
  have hattrs := attributes_encoded attrs (messageHeader typ n tid) hvalues
  rw [hheader, List.length_append, hheader, hbody] at hattrs
  unfold parse
  dsimp only
  rw [if_neg (by rw [List.length_append, hheader]; omega), if_neg (not_not_intro h4), h2,
    if_neg (by rw [List.length_append, hheader, hbody]; omega), h0, htid, attributes_eq_ok hattrs]

/-- The last attribute of a message that is authenticated. -/
def integrityAttribute (tag : Vector UInt8 20) : Attribute := ⟨attrMessageIntegrity, tag.toList⟩

/-- What is authenticated: the message up to the attribute, its length counting that as well. -/
def authenticated (b : MessageBuilder) : List UInt8 :=
  messageHeader b.typ (b.attrsLen + 24) b.transactionId
    ++ b.attrs.flatMap VoipStun.encodeAttribute

theorem finishWithIntegrity_eq (hmacSha1 : HmacSha1) (b : MessageBuilder) (key : IntegrityKey) :
    b.finishWithIntegrity hmacSha1 key
      = messageHeader b.typ (b.attrsLen + 24) b.transactionId
        ++ (b.attrs ++ [integrityAttribute (hmacSha1 key (authenticated b))]).flatMap
          VoipStun.encodeAttribute := by
  have hlast : VoipStun.encodeAttribute (integrityAttribute (hmacSha1 key (authenticated b)))
      = BigEndian.bytes 2 attrMessageIntegrity.toNat ++ BigEndian.bytes 2 20
        ++ (hmacSha1 key (authenticated b)).toList := by
    simp [VoipStun.encodeAttribute, integrityAttribute, paddedLen]
  rw [List.flatMap_append, List.flatMap_singleton, hlast, ← List.append_assoc, ← List.append_assoc,
    ← List.append_assoc]
  rfl

theorem attrsLen_integrity (b : MessageBuilder) (tag : Vector UInt8 20) :
    ((b.attrs ++ [integrityAttribute tag]).map (fun a => 4 + paddedLen a.value.length)).sum
      = b.attrsLen + 24 := by
  simp [MessageBuilder.attrsLen, integrityAttribute, paddedLen]

/-- The attribute is found behind all the others. -/
theorem integrityOffset_encoded {a : Attribute} (ha : a.typ = attrMessageIntegrity)
    (hvalue : a.value.length < 65536) (h : ∀ b ∈ attrs, b.typ ≠ attrMessageIntegrity)
    (hvalues : ∀ b ∈ attrs, b.value.length < 65536) (pre : List UInt8) :
    integrityOffset (pre ++ (attrs ++ [a]).flatMap VoipStun.encodeAttribute) pre.length
        (pre ++ (attrs ++ [a]).flatMap VoipStun.encodeAttribute).length
      = some (pre ++ attrs.flatMap VoipStun.encodeAttribute).length := by
  induction attrs generalizing pre with
  | nil =>
      rw [List.nil_append, List.flatMap_singleton, List.flatMap_nil, List.append_nil]
      obtain ⟨htyp, -, -⟩ := @read_encodeAttribute [] a pre hvalue
      rw [List.append_nil] at htyp
      have hlen := length_encodeAttribute a
      rw [integrityOffset, if_pos (by rw [List.length_append]; omega), htyp, if_pos ha]
  | cons c attrs ih =>
      rw [List.cons_append, List.flatMap_cons, List.flatMap_cons]
      set tail := (attrs ++ [a]).flatMap VoipStun.encodeAttribute
      obtain ⟨htyp, hval, -⟩ := @read_encodeAttribute tail c pre (hvalues c List.mem_cons_self)
      have hlen := length_encodeAttribute c
      have hnext := ih (fun b hb => h b (List.mem_cons_of_mem _ hb))
        (fun b hb => hvalues b (List.mem_cons_of_mem _ hb)) (pre ++ VoipStun.encodeAttribute c)
      rw [List.append_assoc, List.length_append, hlen, ← Nat.add_assoc, List.append_assoc] at hnext
      -- not this one: go on behind it, where the attribute ends after its padding
      rw [integrityOffset, if_pos (by rw [List.length_append, List.length_append]; omega), htyp,
        if_neg (h c List.mem_cons_self), hval]
      exact hnext

/-- A message finished with a key is parsed into its attributes and the one that authenticates it. -/
theorem parse_finishWithIntegrity (hmacSha1 : HmacSha1) (b : MessageBuilder) (key : IntegrityKey)
    (h : b.attrsLen + 24 < 65536) :
    parse (b.finishWithIntegrity hmacSha1 key)
      = .ok ⟨⟨b.typ, (parseMessageType b.typ).1, (parseMessageType b.typ).2,
          UInt16.ofNat (b.attrsLen + 24), b.transactionId⟩,
          b.attrs ++ [integrityAttribute (hmacSha1 key (authenticated b))]⟩ := by
  have hlen := attrsLen_integrity b (hmacSha1 key (authenticated b))
  have hparse := parse_encoded b.typ b.transactionId (hlen.trans_lt h)
  rwa [hlen, ← finishWithIntegrity_eq] at hparse

/-- Whoever holds the key accepts the message, if the attribute is the first of its type. -/
theorem verify_finishWithIntegrity (hmacSha1 : HmacSha1) (b : MessageBuilder) (key : IntegrityKey)
    (h : b.attrsLen + 24 < 65536) (hother : ∀ a ∈ b.attrs, a.typ ≠ attrMessageIntegrity) :
    verifyMessageIntegrity hmacSha1 (b.finishWithIntegrity hmacSha1 key) key = .ok true := by
  have hvalues : ∀ a ∈ b.attrs, a.value.length < 65536 := by
    intro a ha
    have hle : a.value.length ≤ b.attrsLen := value_length_le ha
    omega
  unfold verifyMessageIntegrity
  rw [parse_finishWithIntegrity hmacSha1 b key h]
  dsimp only [Message.find]
  set tag := hmacSha1 key (authenticated b) with htag
  have hlen := attrsLen_integrity b tag
  have hraw := finishWithIntegrity_eq hmacSha1 b key
  rw [← htag] at hraw
  have hfind : (b.attrs ++ [integrityAttribute tag]).find? (fun a => a.typ = attrMessageIntegrity)
      = some (integrityAttribute tag) := by
    rw [List.find?_append, List.find?_eq_none.mpr (fun a ha => by simpa using hother a ha)]
    rfl
  have hsize : (integrityAttribute tag).value.length = 20 := by simp [integrityAttribute]
  -- the search stops at the attribute that was pushed last
  have hoffset := integrityOffset_encoded (rfl : (integrityAttribute tag).typ = attrMessageIntegrity)
    (by rw [hsize]; decide) hother hvalues (messageHeader b.typ (b.attrsLen + 24) b.transactionId)
  rw [← hraw, length_messageHeader] at hoffset
  have hend : (b.finishWithIntegrity hmacSha1 key).length = headerLen + (b.attrsLen + 24) := by
    rw [hraw, List.length_append, length_messageHeader, length_flatMap_encodeAttribute, hlen]
  -- what is authenticated again is what was authenticated
  have htake : (b.finishWithIntegrity hmacSha1 key).take
      (messageHeader b.typ (b.attrsLen + 24) b.transactionId
        ++ b.attrs.flatMap VoipStun.encodeAttribute).length = authenticated b := by
    rw [hraw, List.flatMap_append, ← List.append_assoc]
    exact List.take_left
  rw [hfind]
  dsimp only
  rw [if_neg (not_not_intro hsize), UInt16.toNat_ofNat_of_lt' h, ← hend, hoffset]
  dsimp only
  rw [htake]
  exact congrArg Except.ok (decide_eq_true rfl)

/-- **What is built is read back**: with its type, its transaction identifier and its attributes, and
where it was finished with a key, whoever holds the key accepts it. -/
theorem round_trip (hmacSha1 : HmacSha1) (b : MessageBuilder) (key : IntegrityKey) :
    (b.attrsLen < 65536 → ∃ m, parse (b.finish hmacSha1) = .ok m
      ∧ m.header.messageType = b.typ ∧ m.header.transactionId = b.transactionId
      ∧ m.attrs = b.attrs)
    ∧ (b.attrsLen + 24 < 65536 →
      (∃ m, parse (b.finishWithIntegrity hmacSha1 key) = .ok m
        ∧ m.header.messageType = b.typ ∧ m.header.transactionId = b.transactionId
        ∧ m.attrs = b.attrs ++ [integrityAttribute (hmacSha1 key (authenticated b))])
      ∧ ((∀ a ∈ b.attrs, a.typ ≠ attrMessageIntegrity) →
        verifyMessageIntegrity hmacSha1 (b.finishWithIntegrity hmacSha1 key) key = .ok true)) := by
  refine ⟨fun h => ⟨_, parse_encoded b.typ b.transactionId h, rfl, rfl, rfl⟩, fun h => ⟨?_, ?_⟩⟩
  · exact ⟨_, parse_finishWithIntegrity hmacSha1 b key h, rfl, rfl, rfl⟩
  · exact verify_finishWithIntegrity hmacSha1 b key h

/-- A request for a relay, with attributes of every length modulo four. -/
def allocateRequest : MessageBuilder :=
  ((((MessageBuilder.new methodAllocate .request (Vector.replicate 12 7)).pushAttr
    attrLifetime [0, 0, 2, 88]).pushAttr 0x0006 [97]).pushAttr 0x0014 [97, 98]).pushAttr
    0x0015 [97, 98, 99]

theorem round_trip_allocateRequest :
    (∃ m, parse (allocateRequest.finish (fun _ _ => Vector.replicate 20 1)) = .ok m
      ∧ m.header.messageType = allocateRequest.typ
      ∧ m.header.transactionId = allocateRequest.transactionId ∧ m.attrs = allocateRequest.attrs)
    ∧ verifyMessageIntegrity (fun _ _ => Vector.replicate 20 1)
      (allocateRequest.finishWithIntegrity (fun _ _ => Vector.replicate 20 1)
        (Vector.replicate 16 5)) (Vector.replicate 16 5) = .ok true :=
  ⟨(round_trip _ allocateRequest (Vector.replicate 16 5)).1 (by decide),
    ((round_trip _ allocateRequest (Vector.replicate 16 5)).2 (by decide)).2 (by decide)⟩

/-- An attribute of the same type stands before. -/
def doubled : MessageBuilder :=
  (MessageBuilder.new methodAllocate .request (Vector.replicate 12 0)).pushAttr attrMessageIntegrity []

/-- The attribute that was pushed is the one that is checked. -/
theorem own_integrity_refused :
    ¬ ∀ (hmacSha1 : HmacSha1) (b : MessageBuilder) (key : IntegrityKey), b.attrsLen + 24 < 65536 →
      verifyMessageIntegrity hmacSha1 (b.finishWithIntegrity hmacSha1 key) key = .ok true := by
  intro h
  have hyes := h (fun _ _ => Vector.replicate 20 0) doubled (Vector.replicate 16 0) (by decide)
  unfold verifyMessageIntegrity at hyes
  rw [parse_finishWithIntegrity _ doubled _ (by decide)] at hyes
  cases hyes

end Turn

end Paranoia
