import Paranoia.Client.Exchange

/-!
# Who has agreed with whom

The session key is derived from a hash over the version, the three names and the two public keys,
one after the other. Both sides that have the same key have hashed the same bytes. The keys have
one length, the names have any: bytes can be moved between neighbouring names without the hash
changing (`names_shifted`). Where the exchange identifier and the name of the initiator have the
same lengths on both sides, and nowhere else, the two sides agree (`exchange_agreement`).
-/

namespace Paranoia

/-! ## Base64 -/

theorem sextet_base64Char {n : Nat} (h : n < 64) : sextet (base64Char n) = some n := by
  have : ∀ n < 64, sextet (base64Char n) = some n := by decide +kernel
  exact this n h

theorem base64Char_ne_pad {n : Nat} (h : n < 64) : base64Char n ≠ '=' := by
  intro he
  have := sextet_base64Char h
  rw [he, show sextet '=' = none by decide] at this
  cases this

theorem decodeB64_group {a b c d : Char} {rest : List Char} {w x y z : Nat} {bytes : List Nat}
    (ha : sextet a = some w) (hb : sextet b = some x) (hc : sextet c = some y)
    (hd : sextet d = some z) (hpad : d ≠ '=') (hrest : decodeB64 rest = some bytes) :
    decodeB64 (a :: b :: c :: d :: rest)
      = some ([w * 4 + x / 16, x % 16 * 16 + y / 4, y % 4 * 64 + z] ++ bytes) := by
  unfold decodeB64
  split
  · simp_all
  · simp_all
  · simp_all
  · rename_i heq
    cases heq
    simp [ha, hb, hc, hd, hrest]
  · rename_i hno
    exact absurd rfl (hno a b c d rest)

/-- Decoding gives back what was encoded. -/
theorem decodeB64_encodeB64 (bytes : List UInt8) :
    decodeB64 (encodeB64 bytes) = some (bytes.map UInt8.toNat) := by
  fun_induction encodeB64 bytes with
  | case1 => rfl
  | case2 a =>
      have ha := a.toNat_lt
      rw [decodeB64, sextet_base64Char (by omega), sextet_base64Char (by omega)]
      simp
      omega
  | case3 a b =>
      have ha := a.toNat_lt
      have hb := b.toNat_lt
      rw [decodeB64, sextet_base64Char (by omega), sextet_base64Char (by omega),
        sextet_base64Char (by omega)]
      · simp
        omega
      · simpa using base64Char_ne_pad (by omega)
  | case4 a b c rest ih =>
      have ha := a.toNat_lt
      have hb := b.toNat_lt
      have hc := c.toNat_lt
      rw [List.cons_append, List.cons_append, List.cons_append, List.cons_append, List.nil_append,
        decodeB64_group (sextet_base64Char (by omega)) (sextet_base64Char (by omega))
          (sextet_base64Char (by omega)) (sextet_base64Char (by omega))
          (base64Char_ne_pad (by omega)) ih]
      simp
      omega

/-- A key is read back from its text. -/
theorem decodeKey32_encodeB64 (k : Key32) (field : String) :
    decodeKey32 (String.ofList (encodeB64 k.1)) field = .ok k := by
  unfold decodeKey32
  rw [String.toList_ofList, decodeB64_encodeB64]
  have hlen : (k.1.map UInt8.toNat).length = 32 := by rw [List.length_map, k.2]
  have hbytes : (k.1.map UInt8.toNat).map UInt8.ofNat = k.1 := by
    rw [List.map_map]
    exact (List.map_congr_left (fun x _ => UInt8.ofNat_toNat)).trans (List.map_id _)
  simp only [hlen, dite_true, hbytes]

/-- The field is named in errors only. -/
theorem decodeKey32_field {encoded field : String} {k : Key32} (h : decodeKey32 encoded field = .ok k)
    (field' : String) : decodeKey32 encoded field' = .ok k := by
  unfold decodeKey32 at h ⊢
  split at h
  · cases h
  · split at h
    · rename_i hlen
      rw [dif_pos hlen]
      exact h
    · cases h

/-! ## The transcript -/

theorem utf8_injective : Function.Injective utf8 := by
  intro s t h
  exact String.toByteArray_inj.mp (ByteArray.ext (Array.toList_inj.mp h))

/-- The keys at the end of a transcript can be told from the names, but not one name from the
next. -/
theorem transcript_inj {e i r e' i' r' : String} {a b a' b' : Key32} :
    transcript e i r a b = transcript e' i' r' a' b'
      ↔ utf8 e ++ (utf8 i ++ utf8 r) = utf8 e' ++ (utf8 i' ++ utf8 r') ∧ a = a' ∧ b = b' := by
  have hsplit : ∀ e i r (a b : Key32), transcript e i r a b
      = UInt8.ofNat exchangeVersion :: ((utf8 e ++ (utf8 i ++ utf8 r)) ++ (a.1 ++ b.1)) := by
    intro e i r a b
    simp [transcript]
  rw [hsplit, hsplit, List.cons.injEq, and_iff_right rfl]
  constructor
  · intro h
    obtain ⟨hnames, hkeys⟩ := List.append_inj' h
      (by rw [List.length_append, List.length_append, a.2, b.2, a'.2, b'.2])
    obtain ⟨ha, hb⟩ := List.append_inj hkeys (by rw [a.2, a'.2])
    exact ⟨hnames, Subtype.ext ha, Subtype.ext hb⟩
  · rintro ⟨hnames, rfl, rfl⟩
    rw [hnames]

/-- Names that are cut at the same places are the same. -/
theorem names_inj {e i r e' i' r' : String} (he : (utf8 e).length = (utf8 e').length)
    (hi : (utf8 i).length = (utf8 i').length)
    (h : utf8 e ++ (utf8 i ++ utf8 r) = utf8 e' ++ (utf8 i' ++ utf8 r')) :
    e = e' ∧ i = i' ∧ r = r' := by
  obtain ⟨he, h⟩ := List.append_inj h he
  obtain ⟨hi, hr⟩ := List.append_inj h hi
  exact ⟨utf8_injective he, utf8_injective hi, utf8_injective hr⟩

/-! ## A completed exchange -/

section Exchange

variable {δ κ : Type} [ExchangeCrypto δ κ]
variable {state : ExchangeState} {payload : ExchangePayload} {now : Int} {r : CompletedExchange κ}

theorem bind_ok {ε α β : Type} {x : Except ε α} {f : α → Except ε β} {b : β}
    (h : (x >>= f) = .ok b) : ∃ a, x = .ok a ∧ f a = .ok b := by
  cases x with
  | error e => cases h
  | ok a => exact ⟨a, rfl, h⟩

/-- What a side has computed, from its state and from what it has read. -/
theorem completeExchange_ok (h : completeExchange state payload now = .ok r) :
    ∃ own ownPub peerPub : Key32,
      decodeKey32 state.publicKeyB64 "public_key" = .ok ownPub
      ∧ decodeKey32 payload.publicKeyB64 "public_key" = .ok peerPub
      ∧ r.exchangeId = state.exchangeId ∧ r.initiatorId = state.initiatorId
      ∧ r.responderId =
          (if state.role = roleInitiator then payload.responderId else state.responderId)
      ∧ r.sessionKey = ExchangeCrypto.derive (ExchangeCrypto.hash (transcript state.exchangeId
          state.initiatorId r.responderId
          (if state.role = roleInitiator then ownPub else peerPub)
          (if state.role = roleInitiator then peerPub else ownPub)))
        (ExchangeCrypto.diffieHellman own peerPub) := by
  unfold completeExchange at h
  obtain ⟨_, _, h⟩ := bind_ok h
  obtain ⟨_, _, h⟩ := bind_ok h
  obtain ⟨_, _, h⟩ := bind_ok h
  obtain ⟨own, _, h⟩ := bind_ok h
  obtain ⟨_, _, h⟩ := bind_ok h
  obtain ⟨peerPub, hpeer, h⟩ := bind_ok h
  obtain ⟨_, _, h⟩ := bind_ok h
  obtain ⟨hash, hhash, h⟩ := bind_ok h
  obtain ⟨first, hfirst, hhash⟩ := bind_ok hhash
  obtain ⟨second, hsecond, hhash⟩ := bind_ok hhash
  cases hhash
  cases h
  by_cases hrole : state.role = roleInitiator
  · simp only [hrole, if_true] at hfirst hsecond
    have hsame := decodeKey32_field hsecond "public_key"
    rw [hpeer] at hsame
    cases hsame
    exact ⟨own, first, peerPub, decodeKey32_field hfirst _, hpeer, by simp [hrole]⟩
  · simp only [hrole, if_false] at hfirst hsecond
    have hsame := decodeKey32_field hfirst "public_key"
    rw [hpeer] at hsame
    cases hsame
    exact ⟨own, second, peerPub, decodeKey32_field hsecond _, hpeer, by simp [hrole]⟩

/-- The public key a text stands for. -/
def publicKeyOf (encoded : String) : Option Key32 := (decodeKey32 encoded "public_key").toOption

/-- Both sides take each other for the same, over the same keys: the states they keep, the codes
they have read, and what they have computed. -/
structure Agree (stateI : ExchangeState) (readI : ExchangePayload) (stateR : ExchangeState)
    (readR : ExchangePayload) (resultI resultR : CompletedExchange κ) : Prop where
  exchangeId : resultI.exchangeId = resultR.exchangeId
  initiatorId : resultI.initiatorId = resultR.initiatorId
  responderId : resultI.responderId = resultR.responderId
  initiatorKey : publicKeyOf stateI.publicKeyB64 = publicKeyOf readR.publicKeyB64
  responderKey : publicKeyOf readI.publicKeyB64 = publicKeyOf stateR.publicKeyB64

/-- The first two names are as long on one side as on the other. -/
def SameLengths (stateI stateR : ExchangeState) : Prop :=
  (utf8 stateI.exchangeId).length = (utf8 stateR.exchangeId).length
    ∧ (utf8 stateI.initiatorId).length = (utf8 stateR.initiatorId).length

/-- Both sides that have one key agree exactly if their names are cut at the same places. -/
theorem agree_iff {stateI stateR : ExchangeState} {readI readR : ExchangePayload}
    {nowI nowR : Int} {resultI resultR : CompletedExchange κ}
    (hI : stateI.role = roleInitiator) (hR : stateR.role = roleResponder)
    (hcompI : completeExchange stateI readI nowI = .ok resultI)
    (hcompR : completeExchange stateR readR nowR = .ok resultR)
    (hkey : resultI.sessionKey = resultR.sessionKey) :
    Agree stateI readI stateR readR resultI resultR ↔ SameLengths stateI stateR := by
  have hne : ¬ stateR.role = roleInitiator := by rw [hR]; decide
  obtain ⟨ownI, pubI, peerI, hpubI, hpeerI, heI, hiI, _, hkeyI⟩ := completeExchange_ok hcompI
  obtain ⟨ownR, pubR, peerR, hpubR, hpeerR, heR, hiR, _, hkeyR⟩ := completeExchange_ok hcompR
  rw [if_pos hI, if_pos hI] at hkeyI
  rw [if_neg hne, if_neg hne] at hkeyR
  rw [hkeyI, hkeyR] at hkey
  have hhash := (ExchangeCrypto.derive_injective _ _ _ _ hkey).1
  obtain ⟨hnames, hinitiator, hresponder⟩ :=
    transcript_inj.mp (ExchangeCrypto.hash_injective hhash)
  constructor
  · intro h
    refine ⟨?_, ?_⟩
    · rw [← heI, ← heR, h.exchangeId]
    · rw [← hiI, ← hiR, h.initiatorId]
  · rintro ⟨he, hi⟩
    obtain ⟨hexchange, hinit, hresp⟩ := names_inj he hi hnames
    refine ⟨by rw [heI, heR, hexchange], by rw [hiI, hiR, hinit], hresp, ?_, ?_⟩
    · rw [publicKeyOf, publicKeyOf, hpubI, hpeerR, hinitiator]
    · rw [publicKeyOf, publicKeyOf, hpeerI, hpubR, hresponder]

/-! ## An exchange nobody has touched -/

theorem bailIf_eq_ok {p : Prop} [Decidable p] {message : String} (h : ¬ p) :
    bailIf p message = .ok () := if_neg h

/-- What a side has made itself is valid as long as it has not expired. -/
theorem validateState_bundle {role e i r : String} {a : Key32} {expires : Int}
    (hrole : role = roleInitiator ∨ role = roleResponder) (he : e ≠ "") (hi : i ≠ "")
    (hr : role ≠ roleInitiator → r ≠ "") (hnow : now ≤ expires) :
    validateState (bundle role e i r a expires).state now = .ok () := by
  unfold validateState validateStaticFields validateId validateNotExpired bundle
  dsimp only
  rw [bailIf_eq_ok (by simp), bailIf_eq_ok (by simp), bailIf_eq_ok (by simp),
    bailIf_eq_ok (by rcases hrole with rfl | rfl <;> simp), bailIf_eq_ok he, bailIf_eq_ok hi,
    bailIf_eq_ok (by simpa using hr), decodeKey32_encodeB64, decodeKey32_encodeB64,
    bailIf_eq_ok (by omega)]
  rfl

theorem validatePayload_bundle {role e i r : String} {a : Key32} {expires : Int}
    (he : e ≠ "") (hi : i ≠ "") (hr : role ≠ roleInitiator → r ≠ "") (hnow : now ≤ expires) :
    validatePayload (bundle role e i r a expires).payload role now = .ok () := by
  unfold validatePayload validateStaticFields validateId validateNotExpired bundle
  dsimp only
  rw [bailIf_eq_ok (by simp), bailIf_eq_ok (by simp), bailIf_eq_ok (by simp),
    bailIf_eq_ok (by simp), bailIf_eq_ok he, bailIf_eq_ok hi,
    bailIf_eq_ok (by simpa using hr), decodeKey32_encodeB64, bailIf_eq_ok (by omega)]
  rfl

/-- What both sides of an untouched exchange should come to. -/
def outcome (e i r : String) (a b : Key32) : CompletedExchange κ :=
  let h : δ := ExchangeCrypto.hash
    (transcript e i r (ExchangeCrypto.publicKey a) (ExchangeCrypto.publicKey b))
  { exchangeId := e, initiatorId := i, responderId := r
    sessionKey := ExchangeCrypto.derive h
      (ExchangeCrypto.diffieHellman a (ExchangeCrypto.publicKey b))
    fingerprint := fingerprintFromHash h }

section Untouched

variable {e i r r₀ : String} {a b : Key32} {expiresI expiresR : Int}

theorem contributory (a b : Key32) :
    ¬ ∀ x ∈ (ExchangeCrypto.diffieHellman a (ExchangeCrypto.publicKey b)).1, x = 0 := by
  intro h
  obtain ⟨x, hx, hne⟩ := ExchangeCrypto.contributory a b
  exact hne (h x hx)

theorem completeExchange_initiator (he : e ≠ "") (hi : i ≠ "") (hr : r ≠ "")
    (hr₀ : r₀ = "" ∨ r₀ = r) (hI : now ≤ expiresI) (hR : now ≤ expiresR) :
    completeExchange (bundle roleInitiator e i r₀ a expiresI).state
      (bundle roleResponder e i r b expiresR).payload now = .ok (outcome e i r a b) := by
  unfold completeExchange
  rw [validateState_bundle (.inl rfl) he hi (by simp) hI]
  have hpair : validatePair (bundle roleInitiator e i r₀ a expiresI).state
      (bundle roleResponder e i r b expiresR).payload = .ok () := by
    unfold validatePair bundle
    dsimp only
    rw [bailIf_eq_ok (by simp), bailIf_eq_ok (by simp), bailIf_eq_ok]
    · rfl
    · rcases hr₀ with rfl | rfl <;> simp
  dsimp only [bind, Except.bind]
  rw [if_pos (show (bundle roleInitiator e i r₀ a expiresI).state.role = roleInitiator from rfl),
    validatePayload_bundle he hi (fun _ => hr) hR, hpair]
  unfold bundle
  dsimp only
  rw [decodeKey32_encodeB64]
  dsimp only
  rw [bailIf_eq_ok (by simp), decodeKey32_encodeB64]
  dsimp only
  rw [bailIf_eq_ok (contributory a b)]
  simp only [if_true, transcriptHashB64, decodeKey32_encodeB64, bind, Except.bind, pure, Except.pure]
  rfl

theorem completeExchange_responder (he : e ≠ "") (hi : i ≠ "") (hr : r ≠ "")
    (hr₀ : r₀ = "" ∨ r₀ = r) (hI : now ≤ expiresI) (hR : now ≤ expiresR) :
    completeExchange (bundle roleResponder e i r b expiresR).state
      (bundle roleInitiator e i r₀ a expiresI).payload now = .ok (outcome e i r a b) := by
  have hne : ¬ roleResponder = roleInitiator := by decide
  unfold completeExchange
  rw [validateState_bundle (.inr rfl) he hi (fun _ => hr) hR]
  have hpair : validatePair (bundle roleResponder e i r b expiresR).state
      (bundle roleInitiator e i r₀ a expiresI).payload = .ok () := by
    unfold validatePair bundle
    dsimp only
    rw [bailIf_eq_ok (by simp), bailIf_eq_ok (by simp), bailIf_eq_ok]
    · rfl
    · rcases hr₀ with rfl | rfl <;> simp
  dsimp only [bind, Except.bind]
  rw [if_neg (show ¬ (bundle roleResponder e i r b expiresR).state.role = roleInitiator from hne),
    validatePayload_bundle he hi (by simp) hI, hpair]
  unfold bundle
  dsimp only
  rw [decodeKey32_encodeB64]
  dsimp only
  rw [bailIf_eq_ok (by simp), decodeKey32_encodeB64]
  dsimp only
  rw [bailIf_eq_ok (contributory b a)]
  simp only [hne, if_false, transcriptHashB64, decodeKey32_encodeB64, bind, Except.bind, pure,
    Except.pure, outcome, ExchangeCrypto.diffieHellman_comm b a]

theorem createResponse_bundle {now : Int} (he : e ≠ "") (hi : i ≠ "") (hr : r ≠ "")
    (hr₀ : r₀ = "" ∨ r₀ = r) (hI : now ≤ expiresI) :
    createResponse (bundle roleInitiator e i r₀ a expiresI).payload r b now
      = .ok (bundle roleResponder e i r b (now + exchangeTtlSecs)) := by
  unfold createResponse
  rw [validatePayload_bundle he hi (by simp) hI, validateId, bailIf_eq_ok hr, bailIf_eq_ok]
  · rfl
  · rcases hr₀ with rfl | rfl <;> simp [bundle]

end Untouched

/-- **Agreement.** Whatever the two sides have read, if they have come to one key then they agree
exactly if the exchange identifier and the name of the initiator are as long on one side as on the
other; and an exchange nobody has touched, open or addressed, succeeds on both sides with one key
and one fingerprint. -/
theorem exchange_agreement :
    (∀ (stateI stateR : ExchangeState) (readI readR : ExchangePayload) (nowI nowR : Int)
      (resultI resultR : CompletedExchange κ),
      stateI.role = roleInitiator → stateR.role = roleResponder →
      completeExchange stateI readI nowI = .ok resultI →
      completeExchange stateR readR nowR = .ok resultR →
      resultI.sessionKey = resultR.sessionKey →
      (Agree stateI readI stateR readR resultI resultR ↔ SameLengths stateI stateR))
    ∧ ∀ (e i r r₀ : String) (a b : Key32) (invited responded nowI nowR : Int),
      e ≠ "" → i ≠ "" → r ≠ "" → r₀ = "" ∨ r₀ = r →
      responded ≤ invited + exchangeTtlSecs →
      nowI ≤ invited + exchangeTtlSecs → nowI ≤ responded + exchangeTtlSecs →
      nowR ≤ invited + exchangeTtlSecs → nowR ≤ responded + exchangeTtlSecs →
      ∃ response resultI resultR,
        createResponse (bundle roleInitiator e i r₀ a (invited + exchangeTtlSecs)).payload r b
          responded = .ok response
        ∧ completeExchange (bundle roleInitiator e i r₀ a (invited + exchangeTtlSecs)).state
          response.payload nowI = .ok resultI
        ∧ completeExchange response.state
          (bundle roleInitiator e i r₀ a (invited + exchangeTtlSecs)).payload nowR = .ok resultR
        ∧ resultI.sessionKey = resultR.sessionKey ∧ resultI.fingerprint = resultR.fingerprint := by
  refine ⟨fun _ _ _ _ _ _ _ _ => agree_iff, ?_⟩
  intro e i r r₀ a b invited responded nowI nowR he hi hr hr₀ hresponded hI hI' hR hR'
  exact ⟨_, _, _, createResponse_bundle he hi hr hr₀ hresponded,
    completeExchange_initiator he hi hr hr₀ hI hI', completeExchange_responder he hi hr hr₀ hR hR',
    rfl, rfl⟩

end Exchange

/-! ## One letter moved -/

section Example

/-- An exchange in which nothing is hidden: a key is its own public key, and a secret shows both
keys it was agreed on with. -/
instance : ExchangeCrypto (List UInt8) (List UInt8 × Key32) where
  publicKey a := a
  diffieHellman a b := ⟨List.zipWith (fun x y => x ||| y ||| 1) a.1 b.1, by
    rw [List.length_zipWith, a.2, b.2]
    rfl⟩
  hash bytes := bytes
  leading
    | a :: b :: c :: _ => a.toNat * 65536 + b.toNat * 256 + c.toNat
    | _ => 0
  derive h s := (h, s)
  hash_injective _ _ h := h
  derive_injective _ _ _ _ h := Prod.mk.inj h
  diffieHellman_comm a b := by
    refine Subtype.ext ?_
    have hcomm : (fun x y : UInt8 => x ||| y ||| 1) = fun x y => y ||| x ||| 1 := by
      funext x y
      rw [UInt8.or_comm x y]
    show List.zipWith (fun x y => x ||| y ||| 1) a.1 b.1 = _
    rw [List.zipWith_comm, hcomm]
  contributory a b := by
    obtain ⟨x, xs, ha⟩ := List.exists_cons_of_length_eq_add_one a.2
    obtain ⟨y, ys, hb⟩ := List.exists_cons_of_length_eq_add_one b.2
    refine ⟨x ||| y ||| 1, by simp [ha, hb], ?_⟩
    intro h
    exact absurd (UInt8.or_eq_zero_iff.mp h).2 (by decide)

def keyOf (x : UInt8) : Key32 := ⟨List.replicate 32 x, List.length_replicate⟩

def someUuid : String := "123e4567-e89b-42d3-a456-426614174000"

def someUuid' : String := "123e4567-e89b-42d3-a456-426614174000a"

/-- On its way to the responder the first letter of the initiator's name joins the identifier, and
on the way back it returns. -/
theorem names_shifted :
    ∃ invitation response resultI resultR,
      createInvitation "alice" someUuid (keyOf 1) 0 = .ok invitation
      ∧ createResponse { invitation.payload with
          exchangeId := someUuid', initiatorId := "lice" } "bob" (keyOf 2) 0 = .ok response
      ∧ completeExchange invitation.state { response.payload with
          exchangeId := someUuid, initiatorId := "alice" } 0 = .ok resultI
      ∧ completeExchange response.state { invitation.payload with
          exchangeId := someUuid', initiatorId := "lice" } 0 = .ok resultR
      ∧ resultI.sessionKey = resultR.sessionKey
      ∧ resultI.exchangeId ≠ resultR.exchangeId ∧ resultI.initiatorId ≠ resultR.initiatorId := by
  have hi : completeExchange (bundle roleInitiator someUuid "alice" "" (keyOf 1) 300).state
      (bundle roleResponder someUuid "alice" "bob" (keyOf 2) 300).payload 0
      = .ok (outcome someUuid "alice" "bob" (keyOf 1) (keyOf 2)) :=
    completeExchange_initiator (by decide) (by decide) (by decide) (.inl rfl) (by decide)
      (by decide)
  have hr : completeExchange (bundle roleResponder someUuid' "lice" "bob" (keyOf 2) 300).state
      (bundle roleInitiator someUuid' "lice" "" (keyOf 1) 300).payload 0
      = .ok (outcome someUuid' "lice" "bob" (keyOf 1) (keyOf 2)) :=
    completeExchange_responder (by decide) (by decide) (by decide) (.inl rfl) (by decide)
      (by decide)
  refine ⟨_, _, _, _, rfl, createResponse_bundle (by decide) (by decide) (by decide) (.inl rfl)
    (by decide), hi, hr, ?_, by decide, by decide⟩
  have hnames : utf8 someUuid ++ (utf8 "alice" ++ utf8 "bob")
      = utf8 someUuid' ++ (utf8 "lice" ++ utf8 "bob") := by decide +kernel
  simp only [outcome, transcript_inj.mpr ⟨hnames, rfl, rfl⟩]

end Example

end Paranoia
