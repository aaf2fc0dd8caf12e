import Paranoia.Cover.Schema
import Paranoia.Proof.CoverRoundTrip

/-!
# Both sides of a cover

What the client wraps is what the server unwraps, for each of the kinds, and what the server answers
is what the client makes of it (`covers_agree`). Numbers are read back from their digits, the four
parts of a push are put together again, lists are read item by item.

A refusal says what the server said; but under the food cover the client gets the whole body, in
which this stands (`refusal_reworded`).
-/

namespace Paranoia

namespace Cover

/-! ## Numbers -/

@[simp]
theorem asU64_ofU64 (n : UInt64) : asU64 (ofU64 n) = some n := by
  have hread : Decimal.read? (Decimal.numeral n.toNat) = some n.toNat :=
    Decimal.read?_eq_some.mpr rfl
  simp only [ofU64, ofNat, asU64, String.toList_ofList, hread, n.toNat_lt, if_true,
    UInt64.ofNat_toNat]

theorem asU64_ofNat {n : Nat} (h : n < UInt64.size) : asU64 (ofNat n) = some (UInt64.ofNat n) := by
  have hread : Decimal.read? (Decimal.numeral n) = some n := Decimal.read?_eq_some.mpr rfl
  simp only [ofNat, asU64, String.toList_ofList, hread, h, if_true]

@[simp]
theorem asU64_ofU32 (n : UInt32) : asU64 (ofU32 n) = some n.toUInt64 := by
  have hlt := n.toNat_lt
  rw [ofU32, asU64_ofNat (by simp only [UInt64.size]; omega), UInt64.ofNat_uInt32ToNat]

@[simp]
theorem asU64_ofU8 (n : UInt8) : asU64 (ofU8 n) = some n.toUInt64 := by
  have hlt := n.toNat_lt
  rw [ofU8, asU64_ofNat (by simp only [UInt64.size]; omega), UInt64.ofNat_uInt8ToNat]

@[simp]
theorem toU32?_toUInt64 (n : UInt32) : toU32? n.toUInt64 = some n := by
  have hlt := n.toNat_lt
  rw [toU32?, UInt32.toNat_toUInt64, if_pos (by simpa [UInt32.size] using hlt), UInt32.ofNat_toNat]

@[simp]
theorem toU8?_toUInt64 (n : UInt8) : toU8? n.toUInt64 = some n := by
  have hlt := n.toNat_lt
  rw [toU8?, UInt8.toNat_toUInt64, if_pos (by simpa [UInt8.size] using hlt), UInt8.ofNat_toNat]

@[simp]
theorem readU32_ofU32 (n : UInt32) : readU32 (ofU32 n) = some n := by
  rw [readU32, asU64_ofU32, Option.bind_some, toU32?_toUInt64]

@[simp]
theorem readU8_ofU8 (n : UInt8) : readU8 (ofU8 n) = some n := by
  rw [readU8, asU64_ofU8, Option.bind_some, toU8?_toUInt64]

@[simp]
theorem asI64_ofI64 (n : Int64) : asI64 (ofI64 n) = some n := by
  have hlow := Int64.le_toInt n
  have hhigh := Int64.toInt_lt n
  have hback := Int64.ofInt_toInt n
  unfold ofI64
  cases hn : n.toInt with
  | ofNat m =>
      rw [hn] at hhigh hback
      have hread : Decimal.read? (Decimal.numeral m) = some m := Decimal.read?_eq_some.mpr rfl
      have hlt : m < 2 ^ 63 := by
        have := Int.ofNat_eq_natCast m
        omega
      simp only [Decimal.integer, asI64, String.toList_ofList]
      split
      · -- no numeral begins with a sign
        rename_i digits heq
        have hdigit := Decimal.isDigit_of_mem_numeral (n := m) (c := '-')
          (heq ▸ List.mem_cons_self)
        exact absurd hdigit (by decide)
      · rw [hread]
        simp only [hlt, if_true]
        exact congrArg some hback
  | negSucc m =>
      rw [hn] at hlow hback
      have hread : Decimal.read? (Decimal.numeral (m + 1)) = some (m + 1) :=
        Decimal.read?_eq_some.mpr rfl
      have hle : 0 < m + 1 ∧ m + 1 ≤ 2 ^ 63 := by
        have := Int.negSucc_eq m
        omega
      simp only [Decimal.integer, asI64, String.toList_ofList, hread, hle, and_self, if_true]
      rw [← hback]
      rfl

/-! ## The four parts of a push -/

open FoodDeliveryClientCover in
theorem flatten_cuts (data : List UInt8) (bounds : List Nat) (a : Nat)
    (hsorted : (a :: bounds).Pairwise (· ≤ ·)) (hle : ∀ b ∈ a :: bounds, b ≤ data.length) :
    (cuts data (a :: (bounds ++ [data.length]))).flatten = data.drop a := by
  induction bounds generalizing a with
  | nil =>
      have ha := hle a List.mem_cons_self
      rw [List.nil_append, cuts, cuts, List.flatten_cons, List.flatten_nil, List.append_nil]
      · exact List.take_of_length_le (by rw [List.length_drop])
      · simp
  | cons b bounds ih =>
      obtain ⟨hab, hrest⟩ := List.pairwise_cons.mp hsorted
      have hb : a ≤ b := hab b List.mem_cons_self
      rw [List.cons_append, cuts, List.flatten_cons,
        ih b hrest fun c hc => hle c (List.mem_cons_of_mem _ hc)]
      have hdrop : data.drop b = (data.drop a).drop (b - a) := by
        rw [List.drop_drop]
        congr 1
        omega
      rw [hdrop, List.take_append_drop]

open FoodDeliveryClientCover in
theorem split4_eq (hash : String → List UInt8) (data : List UInt8) (seed : String) :
    ∃ p1 p2 p3 p4, split4 hash data seed = [p1, p2, p3, p4] ∧ [p1, p2, p3, p4].flatten = data := by
  unfold split4
  split
  · rename_i hnil
    rw [hnil]
    exact ⟨[], [], [], [], rfl, rfl⟩
  · rename_i hne
    have hpos : 0 < data.length := List.length_pos_of_ne_nil hne
    dsimp only
    generalize hc : List.insertionSort (· ≤ ·) [((hash seed).getD 0 0).toNat % data.length,
      ((hash seed).getD 1 0).toNat % data.length,
      ((hash seed).getD 2 0).toNat % data.length] = c
    have hperm := hc ▸ List.perm_insertionSort (· ≤ ·) [((hash seed).getD 0 0).toNat % data.length,
      ((hash seed).getD 1 0).toNat % data.length, ((hash seed).getD 2 0).toNat % data.length]
    have hsorted : c.Pairwise (· ≤ ·) := hc ▸ List.pairwise_insertionSort _ _
    have hle : ∀ b ∈ c, b ≤ data.length := by
      intro b hb
      have hmem := hperm.mem_iff.mp hb
      simp only [List.mem_cons, List.not_mem_nil, or_false] at hmem
      rcases hmem with rfl | rfl | rfl <;> exact (Nat.mod_lt _ hpos).le
    obtain ⟨c1, c2, c3, rfl⟩ := List.length_eq_three.mp hperm.length_eq
    refine ⟨_, _, _, _, rfl, ?_⟩
    have hflat := flatten_cuts data [c1, c2, c3] 0
      (List.pairwise_cons.mpr ⟨fun b _ => Nat.zero_le b, hsorted⟩)
      (fun b hb => (List.mem_cons.mp hb).elim (fun h => h ▸ Nat.zero_le _) (hle b))
    exact hflat

@[simp]
theorem decode_encode (bytes : List UInt8) : decode (b64Encode bytes) = .ok bytes := by
  rw [decode, b64Decode_encode]

/-! ## Requests under the food cover -/

/-- What was written reads back. -/
def SerdeJson.Reads (S : SerdeJson) (v : Json) : Prop := S.fromSlice (S.toVec v) = some v

theorem checkOperation_self {fields : List (String × Json)} {operation : String} :
    checkOperation (.obj (("operation", .str operation) :: fields)) operation = .ok () := by
  simp [checkOperation, field, Json.lookup, asStr, need, bind, Except.bind]

open FoodDeliveryClientCover FoodDeliveryCover in
theorem unwrapPush_wrapPush {S : SerdeJson} {core : CorePush} (hash : String → List UInt8)
    (hS : S.Reads (pushCore core)) :
    unwrapPush S (wrapPush S hash core) = .ok (Call.inner .push core) := by
  obtain ⟨p1, p2, p3, p4, hparts, hflat⟩ := split4_eq hash (S.toVec (pushCore core))
    ("ORD-" ++ core.sender ++ "-" ++ core.recver ++ "-"
      ++ String.ofList (Decimal.numeral core.seq.toNat))
  -- the parts are the core again, and it names the parties that the cover names
  have hread : S.fromSlice [p1, p2, p3, p4].flatten = some (pushCore core) := by
    rw [hflat]
    exact hS
  unfold wrapPush unwrapPush
  simp only [hparts, checkOperation_self]
  simp [field, item, Json.lookup, asStr, need, needStr, needU64, bind, Except.bind, pure,
    Except.pure, pushCore, Call.inner] at hread ⊢
  rw [hread]
  simp [Json.lookup]

/-- What is read of a value that is an object with these fields. -/
theorem field_obj (fields : List (String × Json)) (key : String) :
    field (.obj fields) key = (Json.lookup key fields).getD .null := rfl

open FoodDeliveryClientCover FoodDeliveryCover in
/-- Under the food cover every request comes through. -/
theorem unwrap_wrap_food {S : SerdeJson} {call : Call} {core : call.Core} {rng : Rng} {body : Json}
    (hash : String → List UInt8) (hS : S.Reads (requestJson call (call.inner core)))
    (h : (FoodDeliveryClientCover.cover S hash).wrap call core rng = .ok body) :
    (FoodDeliveryCover.cover S).unwrap call body = .ok (call.inner core) := by
  cases call with
  | push =>
      cases h
      exact unwrapPush_wrapPush hash hS
  | pull =>
      cases h
      simp [FoodDeliveryCover.cover, unwrapPull, unwrapRange, wrapPull, checkOperation_self, needStr,
        needU64, field_obj, Json.lookup, asStr, need, bind, Except.bind, pure, Except.pure, Call.inner]
      rfl
  | map =>
      cases h
      simp [FoodDeliveryCover.cover, unwrapMap, unwrapRange, wrapMap, checkOperation_self, needStr,
        needU64, field_obj, Json.lookup, asStr, need, bind, Except.bind, pure, Except.pure, Call.inner]
      rfl
  | notify =>
      cases h
      simp [FoodDeliveryCover.cover, unwrapNotify, wrapNotify, checkOperation_self, needStr,
        needU64, field_obj, Json.lookup, asStr, asArray, need, bind, Except.bind, pure, Except.pure,
        Call.inner]
      rfl
  | notifyMulti =>
      cases h
      simp [FoodDeliveryCover.cover, unwrapNotify, wrapNotifyMulti, checkOperation_self, needStr,
        needU64, field_obj, Json.lookup, asStr, asArray, need, bind, Except.bind, pure, Except.pure,
        Call.inner, List.filterMap_map]
      rfl
  | determinate =>
      cases h
      simp [FoodDeliveryCover.cover, unwrapDeterminate, wrapDeterminate, checkOperation_self, needStr,
        needU64, field_obj, Json.lookup, asStr, need, bind, Except.bind, pure, Except.pure, Call.inner]
      rfl
  | callSignal =>
      cases h
      simp [FoodDeliveryCover.cover, unwrapCallSignal, wrapCallSignal, checkOperation_self, needStr,
        needU64, field_obj, Json.lookup, asStr, need, bind, Except.bind, pure, Except.pure, Call.inner]
      rfl
  | callPoll =>
      cases h
      simp [FoodDeliveryCover.cover, unwrapCallPoll, wrapCallPoll, checkOperation_self, needStr,
        needU64, field_obj, Json.lookup, asStr, need, bind, Except.bind, pure, Except.pure, Call.inner]
      rfl

/-! ## Responses -/

/-- The call is refused with what the server said: in a text of its own, or with the body that it
stands in. -/
def Refused {α : Type} (op message : String) (x : Except Fault α) : Prop :=
  x = .error (.failed op message) ∨ ∃ body, x = .error (.failedBody op body) ∧
    (field body "message" = .str message ∨ field body "error" = .str message)

def packetsOf (packets : List (UInt64 × String)) : Except Fault (List RawPacket) :=
  packets.mapM fun p => do return { seq := p.1, payload := ← decode p.2 }

def envelopesOf (items : List CallEnvelopeOut) : Except Fault (List CallEnvelopeIn) :=
  items.mapM fun e => do
    return { sender := e.sender, kind := e.kind, payload := ← decode e.payload, tsMs := e.tsMs }

/-- What a response says to the one who called. -/
def Call.Means : ∀ call : Call, call.Response → Except Fault call.Answer → Prop
  | .push, (r : ApiResponse), x => x = if r.success then .ok () else .error (pushFault r.message)
  | .pull, (r : PullResponse), x =>
      if r.success then x = packetsOf r.packets else Refused "Pull" r.message x
  | .map, (r : MapResponse), x =>
      if r.success then x = .ok (⟨r.runs, r.lastSeq, r.truncated⟩ : MapResult)
      else Refused "Map" r.message x
  | .notify, (r : NotifyResponse), x =>
      -- to a call about one dialogue there are no items
      if r.success then r.items = [] → x = .ok r.n else Refused "Notify" r.message x
  | .notifyMulti, (r : NotifyResponse), x =>
      if r.success then x = .ok (r.items.map fun i => (i.partner, i.n))
      else Refused "Notify" r.message x
  | .determinate, (r : ApiResponse), x =>
      if r.success then x = .ok () else Refused "Determinate" r.message x
  | .callSignal, (r : ApiResponse), x =>
      if r.success then x = .ok () else Refused "CallSignal" r.message x
  | .callPoll, (r : CallPollResponse), x =>
      if r.success then x = envelopesOf r.items else Refused "CallPoll" r.message x

/-- What reads each item reads the list. -/
theorem mapM_enc {α β γ : Type} {enc : α → β} {read : β → Except Fault γ} {f : α → Except Fault γ}
    (h : ∀ a, read (enc a) = f a) (as : List α) : (as.map enc).mapM read = as.mapM f := by
  rw [List.mapM_map]
  exact congrArg (List.mapM · as) (funext h)

theorem mapM_ok {α β γ : Type} {enc : α → β} {read : β → Except Fault γ} {f : α → γ}
    (h : ∀ a, read (enc a) = .ok (f a)) (as : List α) :
    (as.map enc).mapM read = .ok (as.map f) := by
  induction as with
  | nil => rfl
  | cons a as ih => simp [List.mapM_cons, h, ih, bind, Except.bind, pure, Except.pure]

open FoodDeliveryClientCover FoodDeliveryCover

theorem checkOk_true {fields : List (String × Json)} {op : String} :
    checkOk (.obj (("ok", .bool true) :: fields)) op = .ok () := rfl

theorem refused_of_checkOk {α : Type} {body : Json} {op message : String}
    {next : Unit → Except Fault α} (hok : asBool (field body "ok") = some false)
    (hmessage : field body "message" = .str message ∨ field body "error" = .str message) :
    Refused op message (checkOk body op >>= next) := by
  refine .inr ⟨body, ?_, hmessage⟩
  simp [checkOk, hok, bind, Except.bind]

theorem refused_checkOk_wrapSimple {r : ApiResponse} {done op : String} (h : r.success = false) :
    Refused op r.message (checkOk (wrapSimple done r) op) := by
  refine .inr ⟨wrapSimple done r, ?_, .inl rfl⟩
  simp [checkOk, wrapSimple, field, Json.lookup, asBool, h]

/-- Under the food cover every response comes through. -/
theorem means_food (S : SerdeJson) (hash : String → List UInt8) (call : Call)
    (resp : call.Response) (rng : Rng) :
    call.Means resp ((FoodDeliveryClientCover.cover S hash).unwrapResponse call
      ((FoodDeliveryCover.cover S).wrapResponse call resp rng)) := by
  cases call with
  | push =>
      obtain ⟨success, message⟩ := resp
      cases success with
      | false => rfl
      | true => rfl
  | pull =>
      obtain ⟨success, packets, message⟩ := resp
      cases success with
      | false => exact refused_of_checkOk rfl (.inr rfl)
      | true =>
          show (packets.map _).mapM _ = packetsOf packets
          exact mapM_enc (fun p => by
            simp [field_obj, Json.lookup, asStr, need, bind, Except.bind]) packets
  | map =>
      obtain ⟨success, runs, lastSeq, truncated, message⟩ := resp
      cases success with
      | false => exact refused_of_checkOk rfl (.inl rfl)
      | true =>
          show unwrapMapResponse _ = .ok (⟨runs, lastSeq, truncated⟩ : MapResult)
          have hshelf : ∀ r : UInt64 × UInt64, unwrapShelf (.arr [ofU64 r.1, ofU64 r.2]) = .ok r := by
            intro r
            simp [unwrapShelf, asArray, need, item, bind, Except.bind, pure, Except.pure]
          have hruns := mapM_ok hshelf runs
          simp [unwrapMapResponse, wrapMapResponse, FoodDeliveryCover.cover, checkOk_true,
            field_obj, Json.lookup, asArray, asBool, need, bind, Except.bind, pure, Except.pure,
            hruns]
  | notify =>
      obtain ⟨success, n, message, items⟩ := resp
      cases success with
      | false => exact refused_of_checkOk rfl (.inl rfl)
      | true =>
          intro hitems
          cases hitems
          show unwrapNotifyResponse _ = .ok n
          simp [unwrapNotifyResponse, wrapNotifyResponse, FoodDeliveryCover.cover, checkOk_true,
            field_obj, Json.lookup, need, bind, Except.bind]
  | notifyMulti =>
      obtain ⟨success, n, message, items⟩ := resp
      cases success with
      | false => exact refused_of_checkOk rfl (.inl rfl)
      | true =>
          show unwrapNotifyResponseMulti _ = .ok (items.map fun i => (i.partner, i.n))
          -- without items the server writes no lines, which the client takes for none
          by_cases hitems : items = []
          · cases hitems
            simp [unwrapNotifyResponseMulti, wrapNotifyResponse, FoodDeliveryCover.cover,
              checkOk_true, field_obj, Json.lookup, asArray, bind, Except.bind, pure, Except.pure]
          · simp [unwrapNotifyResponseMulti, wrapNotifyResponse, FoodDeliveryCover.cover, hitems,
              checkOk_true, field_obj, Json.lookup, asArray, asStr, bind, Except.bind, pure,
              Except.pure, List.filterMap_map]
  | determinate =>
      obtain ⟨success, message⟩ := resp
      cases success with
      | false => exact refused_checkOk_wrapSimple (r := ⟨false, message⟩) rfl
      | true => rfl
  | callSignal =>
      obtain ⟨success, message⟩ := resp
      cases success with
      | false => exact refused_checkOk_wrapSimple (r := ⟨false, message⟩) rfl
      | true => rfl
  | callPoll =>
      obtain ⟨success, items, message⟩ := resp
      cases success with
      | false => exact refused_of_checkOk rfl (.inl rfl)
      | true =>
          show (items.map _).mapM _ = envelopesOf items
          exact mapM_enc (fun e => by
            simp [field_obj, Json.lookup, asStr, need, bind, Except.bind]) items

/-! ## Cores under the schema cover -/

theorem readVec_map {α : Type} {read : Json → Option α} {enc : α → Json}
    (h : ∀ a, read (enc a) = some a) (as : List α) :
    readVec read (.arr (as.map enc)) = some as := by
  rw [readVec, asArray, Option.bind_some, List.mapM_map]
  induction as with
  | nil => rfl
  | cons a as ih => simp [List.mapM_cons, h, ih]

theorem readRange_rangeJson (r : RangeRequest) : readRange (rangeJson r) = some r := by
  simp [readRange, rangeJson, required, Json.lookup, asStr]

theorem readNotify_notifyJson (r : NotifyRequest) : readNotify (notifyJson r) = some r := by
  have hitem : ∀ i : NotifyItem,
      readNotifyItem (.obj [("partner", .str i.partner), ("seq", ofU64 i.seq)]) = some i := by
    intro i
    simp [readNotifyItem, required, defaulted, Json.lookup, asStr]
  have hitems := readVec_map hitem r.items
  obtain ⟨sender, partner, seq, sig, longPollMs, items⟩ := r
  by_cases hnil : items = [] <;>
    simp_all [readNotify, notifyJson, required, defaulted, Json.lookup, asStr]

theorem readRequest_requestJson (call : Call) (r : call.Request) :
    readRequest call (requestJson call r) = some r := by
  cases call with
  | push =>
      obtain ⟨sender, recver, seq, payload, sig⟩ := r
      simp [readRequest, requestJson, required, Json.lookup, asStr]
      rfl
  | pull => exact readRange_rangeJson r
  | map => exact readRange_rangeJson r
  | notify => exact readNotify_notifyJson r
  | notifyMulti => exact readNotify_notifyJson r
  | determinate =>
      obtain ⟨sender, recver, fromSeq, toSeq, sig⟩ := r
      simp [readRequest, requestJson, required, Json.lookup, asStr]
      rfl
  | callSignal =>
      obtain ⟨sender, recver, kind, payload, tsMs, sig⟩ := r
      simp [readRequest, requestJson, required, Json.lookup, asStr]
      rfl
  | callPoll =>
      obtain ⟨user, nonce, longPollMs, sig⟩ := r
      simp [readRequest, requestJson, required, Json.lookup, asStr]
      rfl

theorem readSimple_simpleJson (r : ApiResponse) : readSimple (simpleJson r) = some r := by
  simp [readSimple, simpleJson, required, defaulted, Json.lookup, asStr, asBool]

theorem readNotifyResp_notifyRespJson (r : NotifyResponse) :
    readNotifyResp (notifyRespJson r) = some r := by
  have hitem : ∀ i : NotifyRespItem,
      readNotifyRespItem (.obj [("partner", .str i.partner), ("n", ofU64 i.n)]) = some i := by
    intro i
    simp [readNotifyRespItem, required, Json.lookup, asStr]
  have hitems := readVec_map hitem r.items
  obtain ⟨success, n, message, items⟩ := r
  by_cases hnil : items = [] <;>
    simp_all [readNotifyResp, notifyRespJson, required, defaulted, Json.lookup, asStr, asBool]

theorem readResponse_responseJson (call : Call) (r : call.Response) :
    readResponse call (responseJson call r) = some r := by
  cases call with
  | push => exact readSimple_simpleJson r
  | pull =>
      have hpacket : ∀ p : UInt64 × String,
          readPacket (.obj [("seq", ofU64 p.1), ("payload", .str p.2)]) = some p := by
        intro p
        simp [readPacket, required, Json.lookup, asStr]
      obtain ⟨success, packets, message⟩ := r
      have hpackets := readVec_map hpacket packets
      simp [readResponse, responseJson, required, defaulted, Json.lookup, asStr, asBool, hpackets]
      rfl
  | map =>
      have hpair : ∀ run : UInt64 × UInt64,
          readPair (.arr [ofU64 run.1, ofU64 run.2]) = some run := by
        intro run
        simp [readPair]
      obtain ⟨success, runs, lastSeq, truncated, message⟩ := r
      have hruns := readVec_map hpair runs
      simp [readResponse, responseJson, required, defaulted, Json.lookup, asStr, asBool, hruns]
      rfl
  | notify => exact readNotifyResp_notifyRespJson r
  | notifyMulti => exact readNotifyResp_notifyRespJson r
  | determinate => exact readSimple_simpleJson r
  | callSignal => exact readSimple_simpleJson r
  | callPoll =>
      have henvelope : ∀ e : CallEnvelopeOut, readEnvelope (.obj [("sender", .str e.sender),
          ("kind", ofU8 e.kind), ("payload", .str e.payload), ("ts_ms", ofI64 e.tsMs)])
          = some e := by
        intro e
        simp [readEnvelope, required, Json.lookup, asStr]
      obtain ⟨success, items, message⟩ := r
      have hitems := readVec_map henvelope items
      simp [readResponse, responseJson, required, defaulted, Json.lookup, asStr, asBool, hitems]
      rfl

/-- What the client makes of a response is what it says. -/
theorem means_answer (call : Call) (resp : call.Response) :
    call.Means resp (SchemaClientCover.answer call resp) := by
  cases call with
  | push => rfl
  | pull =>
      obtain ⟨success, packets, message⟩ := resp
      cases success with
      | false => exact .inl rfl
      | true => rfl
  | map =>
      obtain ⟨success, runs, lastSeq, truncated, message⟩ := resp
      cases success with
      | false => exact .inl rfl
      | true => rfl
  | notify =>
      obtain ⟨success, n, message, items⟩ := resp
      cases success with
      | false => exact .inl rfl
      | true => exact fun _ => rfl
  | notifyMulti =>
      obtain ⟨success, n, message, items⟩ := resp
      cases success with
      | false => exact .inl rfl
      | true => rfl
  | determinate =>
      obtain ⟨success, message⟩ := resp
      cases success with
      | false => exact .inl rfl
      | true => rfl
  | callSignal =>
      obtain ⟨success, message⟩ := resp
      cases success with
      | false => exact .inl rfl
      | true => rfl
  | callPoll =>
      obtain ⟨success, items, message⟩ := resp
      cases success with
      | false => exact .inl rfl
      | true => rfl

/-! ## The schema cover -/

/-- A profile under which packets of the kind come through, and a cipher that opens what this packet
was sealed with. -/
structure Carries (C : CoverCipher) (profile : MaskingProfile) (kind : String) (inner : List UInt8)
    (rng : Rng) : Prop where
  valid : profile.validate = .ok ()
  apart : ∀ spec ∈ profile.kinds.get? kind, ∀ variant ∈ spec.schemas, variant.Apart
  opens : ∀ key ciphertext, profile.coverKey = .ok key →
    C.encrypt key (wrapNonce rng) inner = some ciphertext →
    C.Opens key (wrapNonce rng) inner ciphertext
  wraps : ∃ body, wrap C profile kind inner rng = .ok body

/-- Under the schema cover every request comes through. -/
theorem unwrap_wrap_schema {S : SerdeJson} {C : CoverCipher} {profile : MaskingProfile}
    {call : Call} {core : call.Core} {rng : Rng}
    (hS : S.Reads (requestJson call (call.inner core)))
    (h : Carries C profile call.kind (S.toVec (requestJson call (call.inner core))) rng) :
    ∃ body, (SchemaClientCover.cover S C profile).wrap call core rng = .ok body
      ∧ (SchemaCover.cover S C profile).unwrap call body = .ok (call.inner core) := by
  obtain ⟨body, hbody⟩ := h.wraps
  have hunwrap := unwrap_wrap h.valid h.apart h.opens hbody
  have hread : S.fromSlice (S.toVec (requestJson call (call.inner core)))
      = some (requestJson call (call.inner core)) := hS
  refine ⟨body, ?_, ?_⟩
  · simp only [SchemaClientCover.cover, SchemaClientCover.wrapCore, hbody, asFault]
  · simp only [SchemaCover.cover, SchemaCover.parse, hunwrap, asFault, bind, Except.bind, hread,
      Option.bind_some, readRequest_requestJson]

/-- And every response. -/
theorem means_schema {S : SerdeJson} {C : CoverCipher} {profile : MaskingProfile} {call : Call}
    {resp : call.Response} {rng : Rng} (hS : S.Reads (responseJson call resp))
    (h : Carries C profile call.respKind (S.toVec (responseJson call resp)) rng) :
    call.Means resp ((SchemaClientCover.cover S C profile).unwrapResponse call
      ((SchemaCover.cover S C profile).wrapResponse call resp rng)) := by
  obtain ⟨body, hbody⟩ := h.wraps
  have hunwrap := unwrap_wrap h.valid h.apart h.opens hbody
  have hread : S.fromSlice (S.toVec (responseJson call resp)) = some (responseJson call resp) := hS
  have hanswer : (SchemaClientCover.cover S C profile).unwrapResponse call
      ((SchemaCover.cover S C profile).wrapResponse call resp rng)
      = SchemaClientCover.answer call resp := by
    simp only [SchemaClientCover.cover, SchemaCover.cover, SchemaCover.sealCore, hbody,
      SchemaClientCover.unwrapCore, hunwrap, asFault, bind, Except.bind, hread, Option.bind_some,
      readResponse_responseJson]
  rw [hanswer]
  exact means_answer call resp

/-! ## Both covers -/

/-- **The covers agree.** The server gets the request that the client asks for, and the client what
the server answers. -/
theorem covers_agree {S : SerdeJson} {call : Call} {core : call.Core} {resp : call.Response}
    (hreq : S.Reads (requestJson call (call.inner core)))
    (hresp : S.Reads (responseJson call resp)) :
    (∀ hash rng, ∃ body, (FoodDeliveryClientCover.cover S hash).wrap call core rng = .ok body
      ∧ (FoodDeliveryCover.cover S).unwrap call body = .ok (call.inner core))
    ∧ (∀ hash rng, call.Means resp ((FoodDeliveryClientCover.cover S hash).unwrapResponse call
      ((FoodDeliveryCover.cover S).wrapResponse call resp rng)))
    ∧ (∀ C profile rng,
      Carries C profile call.kind (S.toVec (requestJson call (call.inner core))) rng →
      ∃ body, (SchemaClientCover.cover S C profile).wrap call core rng = .ok body
        ∧ (SchemaCover.cover S C profile).unwrap call body = .ok (call.inner core))
    ∧ ∀ C profile rng, Carries C profile call.respKind (S.toVec (responseJson call resp)) rng →
      call.Means resp ((SchemaClientCover.cover S C profile).unwrapResponse call
        ((SchemaCover.cover S C profile).wrapResponse call resp rng)) := by
  refine ⟨fun hash rng => ?_, fun hash rng => means_food S hash call resp rng,
    fun C profile rng h => unwrap_wrap_schema hreq h, fun C profile rng h => means_schema hresp h⟩
  obtain ⟨body, hbody⟩ : ∃ body,
      (FoodDeliveryClientCover.cover S hash).wrap call core rng = .ok body := by
    cases call <;> exact ⟨_, rfl⟩
  exact ⟨body, hbody, unwrap_wrap_food hash hreq hbody⟩

/-! ## A push that is refused -/

section Example

def onePush : CorePush := ⟨"a", "b", 1, [1], [2]⟩

def duplicatePush : ApiResponse := ⟨false, "duplicate"⟩

def onePushText : List UInt8 :=
  ("\x7b\"sender\":\"a\",\"recver\":\"b\",\"seq\":1,"
    ++ "\"payload\":\"AQ==\",\"sig\":\"Ag==\"\x7d").toUTF8.toList

def duplicateText : List UInt8 := "\x7b\"ok\":false,\"message\":\"duplicate\"\x7d".toUTF8.toList

/-- It knows the texts of these two values. -/
def twoTexts : SerdeJson where
  toVec
    | .obj (("sender", _) :: _) => onePushText
    | _ => duplicateText
  fromSlice bytes :=
    if bytes = onePushText then some (requestJson .push (Call.inner .push onePush))
    else if bytes = duplicateText then some (responseJson .push duplicatePush)
    else none

/-- Only one thing was ever sealed, under a nonce of zeros. -/
def onlySeals (plain : List UInt8) : CoverCipher where
  encrypt _ _ plain := some plain
  decrypt _ nonce ciphertext :=
    if nonce = List.replicate 12 0 ∧ ciphertext = plain then some ciphertext else none

def pushProfile : MaskingProfile where
  name := "app"
  coverKeyB64 := "AAAAAAAAAAAAAAAAAAAAAAAAAAAAAAAAAAAAAAAAAAA="
  kinds := ⟨[("push", ⟨"/orders", [⟨.obj [], tidy_empty, ["a", "b"], []⟩]⟩),
    ("push_resp", ⟨"/orders", [⟨.obj [], tidy_empty, ["a", "b"], []⟩]⟩)], by decide⟩

theorem carries_pushProfile {kind : String} {plain : List UInt8}
    (hkind : kind = "push" ∨ kind = "push_resp")
    (hwraps : ((wrap (onlySeals plain) pushProfile kind plain []).toOption.isSome) = true) :
    Carries (onlySeals plain) pushProfile kind plain [] where
  valid := rfl
  apart spec hspec variant hvariant drawn hdrawn _ := by
    rcases hkind with rfl | rfl <;>
    · cases hspec
      obtain rfl := List.mem_singleton.mp hvariant
      obtain rfl := List.sublist_nil.mp hdrawn
      exact ⟨by decide, by simp⟩
  opens key ciphertext _ henc := by
    cases henc
    refine ⟨if_pos ⟨rfl, rfl⟩, fun nonce' ciphertext' hsome => ?_⟩
    by_contra hnot
    exact hsome (if_neg hnot)
  wraps := by
    cases hwrap : wrap (onlySeals plain) pushProfile kind plain [] with
    | ok body => exact ⟨body, rfl⟩
    | error e =>
        rw [hwrap] at hwraps
        cases hwraps

theorem covers_agree_duplicate :
    (∃ body, (SchemaClientCover.cover twoTexts (onlySeals onePushText) pushProfile).wrap .push
        onePush [] = .ok body
      ∧ (SchemaCover.cover twoTexts (onlySeals onePushText) pushProfile).unwrap .push body
        = .ok (Call.inner .push onePush))
    ∧ (SchemaClientCover.cover twoTexts (onlySeals duplicateText) pushProfile).unwrapResponse .push
        ((SchemaCover.cover twoTexts (onlySeals duplicateText) pushProfile).wrapResponse .push
          duplicatePush []) = .error (.text "duplicate_seq")
    ∧ (FoodDeliveryClientCover.cover twoTexts fun _ => []).unwrapResponse .push
        ((FoodDeliveryCover.cover twoTexts).wrapResponse .push duplicatePush [])
        = .error (.text "duplicate_seq") := by
  have hreq : twoTexts.Reads (requestJson .push (Call.inner .push onePush)) := if_pos rfl
  have hresp : twoTexts.Reads (responseJson .push duplicatePush) :=
    (if_neg (by decide +kernel)).trans (if_pos rfl)
  obtain ⟨-, hfood, hreqSchema, hrespSchema⟩ :=
    @covers_agree twoTexts .push onePush duplicatePush hreq hresp
  exact ⟨hreqSchema _ _ _ (carries_pushProfile (.inl rfl) (by decide +kernel)),
    hrespSchema _ _ _ (carries_pushProfile (.inr rfl) (by decide +kernel)), hfood _ []⟩

/-- A refusal of the map is not the same error under the food cover: it has the whole body. -/
theorem refusal_reworded :
    SchemaClientCover.answer .map (⟨false, [], 0, false, "no"⟩ : MapResponse)
        = .error (.failed "Map" "no")
    ∧ (FoodDeliveryClientCover.cover twoTexts fun _ => []).unwrapResponse .map
        ((FoodDeliveryCover.cover twoTexts).wrapResponse .map
          (⟨false, [], 0, false, "no"⟩ : MapResponse) [])
        = .error (.failedBody "Map" (.obj [("ok", .bool false), ("status", .str "error"),
          ("message", .str "no")])) :=
  ⟨rfl, rfl⟩

end Example

end Cover

end Paranoia
