import Paranoia.Lib.Footprint
import Paranoia.Proof.Deletion
import Paranoia.Proof.KeyOps
import Paranoia.Server.Access
import Paranoia.Server.ConfigStore

/-!
# Isolation of dialogues

What a request reads and writes are the keys of one dialogue: that of the two names it is about, or
the record `PUT /arrived` names. The first is one of the account that signed, whatever its name;
the second need not be. And where two pairs of names read the same once they are glued together
with a colon, the two dialogues are one.

`isolation_exact` says that these two are all there is: ids are apart exactly when no names glue
together, and a request is then confined to the dialogues of its signer exactly when it is no
`PUT /arrived` with the id of another one at its end.
-/

namespace Paranoia

open StoreKey KeyStore Footprint

/-- What stands under a key. -/
def contents (ks : KeyStore (List UInt8)) (k : List Char) : Option (List UInt8) := ks.db.get? k

/-- A key of the dialogue: of a packet, or of the record of some account. -/
def DialogueKeyOf (id : DialogueId) (k : List Char) : Prop :=
  (∃ n, k = makeKey id n) ∨ ∃ username : String, k = makeReceiptKey username.toList id

/-! ## Which dialogue a key is of -/

section Keys

variable {id id' : DialogueId} {t : List Char} {username : String}

/-- The record of an account under a text is one of a dialogue whose id ends the text. -/
theorem dialogueKeyOf_receipt : DialogueKeyOf id (makeReceiptKey username.toList t) ↔
    t = id.text ∨ ∃ x, t = x ++ ':' :: id.text := by
  constructor
  · rintro (⟨n, hn⟩ | ⟨v, hv⟩)
    · exact absurd hn.symm (makeKey_ne_receipt _ _)
    · have hcut := List.append_cancel_left hv
      rcases Glued.append_cons_eq.mp hcut with ⟨-, rfl⟩ | ⟨x, -, rfl⟩ | ⟨x, -, hid⟩
      · exact .inl rfl
      · exact .inr ⟨x, rfl⟩
      · exact absurd (hid ▸ List.mem_append_right _ List.mem_cons_self) (colon_not_mem id)
  · rintro (rfl | ⟨x, rfl⟩)
    · exact .inr ⟨username, rfl⟩
    · have hv : (String.ofList (username.toList ++ ':' :: x)).toList
          = username.toList ++ ':' :: x := String.toList_ofList
      refine .inr ⟨String.ofList (username.toList ++ ':' :: x), ?_⟩
      rw [hv]
      exact makeReceiptKey_append _ _ _

theorem dialogueKeyOf_unique {k : List Char} (h : DialogueKeyOf id k) (h' : DialogueKeyOf id' k) :
    id = id' := by
  rcases h with ⟨n, rfl⟩ | ⟨v, rfl⟩
  · rcases h' with ⟨m, hm⟩ | ⟨v, hv⟩
    · exact (makeKey_inj.mp hm).1
    · exact absurd hv (makeKey_ne_receipt _ _)
  · rcases dialogueKeyOf_receipt.mp h' with heq | ⟨x, hx⟩
    · exact DialogueId.ext_text heq
    · exact absurd (hx ▸ List.mem_append_right _ List.mem_cons_self) (colon_not_mem id)

end Keys

/-! ## What the operations reach -/

namespace KeyStore

variable {K : List Char → Prop} {ks ks' : KeyStore (List UInt8)} {id : DialogueId}
  {codec : ReceiptCodec} {username : String} {t : List Char}

/-- Every dialogue has that id. -/
theorem agree_packets (ha : AgreeOn contents K ks ks') (hK : ∀ n, K (makeKey id n))
    (dialogue : DialogueKey) :
    (ks.packets (fun _ => id)).db dialogue = (ks'.packets (fun _ => id)).db dialogue :=
  packets_congr (fun n => ha _ (hK n))

theorem live_agree (ha : AgreeOn contents K ks ks') (hK : ∀ n, K (makeKey id n)) :
    ks.live id = ks'.live id := by
  have h := agree_packets ha hK ⟨"", ""⟩
  rw [← packets_live (fun _ => id) ks ⟨"", ""⟩, ← packets_live (fun _ => id) ks' ⟨"", ""⟩,
    PacketStore.live, PacketStore.live, h]

theorem pull_agree (ha : AgreeOn contents K ks ks') (hK : ∀ n, K (makeKey id n))
    (afterSeq toSeq : Nat) : ks.pull id afterSeq toSeq = ks'.pull id afterSeq toSeq := by
  have h := agree_packets ha hK ⟨"", ""⟩
  rw [pull_eq (fun _ => id) ks ⟨"", ""⟩, pull_eq (fun _ => id) ks' ⟨"", ""⟩]
  unfold PacketStore.pull
  rw [h]

theorem lastSeq_agree (ha : AgreeOn contents K ks ks') (hK : ∀ n, K (makeKey id n)) :
    ks.lastSeq id = ks'.lastSeq id := by
  rw [lastSeq_eq, lastSeq_eq, live_agree ha hK]

theorem map_agree (ha : AgreeOn contents K ks ks') (hK : ∀ n, K (makeKey id n))
    (afterSeq toSeq maxRuns : Nat) :
    ks.map id afterSeq toSeq maxRuns = ks'.map id afterSeq toSeq maxRuns := by
  unfold map
  rw [mapRuns_eq, mapRuns_eq, live_agree ha hK, lastSeq_agree ha hK]

theorem receiptState_agree (ha : AgreeOn contents K ks ks')
    (hK : K (makeReceiptKey username.toList t)) :
    ks.receiptState codec username t = ks'.receiptState codec username t := by
  have h : ks.db.get? (makeReceiptKey username.toList t)
      = ks'.db.get? (makeReceiptKey username.toList t) := ha _ hK
  unfold receiptState
  rw [h]

theorem countNewForUser_agree (ha : AgreeOn contents K ks ks') (hK : ∀ k, DialogueKeyOf id k → K k)
    (afterSeq : Nat) :
    ks.countNewForUser codec id afterSeq username
      = ks'.countNewForUser codec id afterSeq username := by
  have hp : ∀ n, K (makeKey id n) := fun n => hK _ (.inl ⟨n, rfl⟩)
  unfold countNewForUser
  simp only [receiptState_agree ha (hK _ (.inr ⟨username, rfl⟩)), lastSeq_agree ha hp,
    countAfter_eq, live_agree ha hp]

theorem agree_put (ha : AgreeOn contents K ks ks') (key : StoreKey) (h : key.Bounded)
    (value : List UInt8) : AgreeOn contents K (ks.put key h value) (ks'.put key h value) := by
  intro k hk
  by_cases heq : k = key.text
  · subst heq
    exact (OrdMap.get?_put_self _ _ _).trans (OrdMap.get?_put_self _ _ _).symm
  · exact (OrdMap.get?_put_of_ne _ _ heq).trans
      ((ha k hk).trans (OrdMap.get?_put_of_ne _ _ heq).symm)

theorem frame_put {key : StoreKey} (hK : K key.text) (h : key.Bounded) (value : List UInt8) :
    FrameOf contents K ks (ks.put key h value) :=
  fun _ hk => OrdMap.get?_put_of_ne _ _ (fun heq => hk (heq ▸ hK))

theorem updateLastSeq_within (codec : ReceiptCodec) (hK : K (makeReceiptKey username.toList t))
    (pulledSeq now : Nat) :
    WritesWithin contents K (fun ks => ks.updateLastSeq codec username t pulledSeq now) := by
  intro ks ks' ha
  dsimp only
  unfold updateLastSeq
  rw [receiptState_agree ha hK]
  cases ks'.receiptState codec username t with
  | error e => exact .inl ⟨e, rfl, rfl⟩
  | ok state =>
      dsimp only
      cases state.raised pulledSeq now with
      | none => exact .inr ⟨ks, ks', rfl, rfl, ha, FrameOf.refl _⟩
      | some state =>
          exact .inr ⟨_, _, rfl, rfl, agree_put ha _ _ _, frame_put hK _ _⟩

theorem setReceiptsEnabled_within (hK : K (makeReceiptKey username.toList t))
    (receiptsEnabled : Bool) (now : Nat) : WritesWithin contents K
      (fun ks => ks.setReceiptsEnabled codec username t receiptsEnabled now) := by
  intro ks ks' ha
  dsimp only
  unfold setReceiptsEnabled
  rw [receiptState_agree ha hK]
  cases ks'.receiptState codec username t with
  | error e => exact .inl ⟨e, rfl, rfl⟩
  | ok state =>
      exact .inr ⟨_, _, rfl, rfl, agree_put ha _ _ _, frame_put hK _ _⟩

theorem push_within (hK : ∀ n, K (makeKey id n)) {seq : Nat} (h : seq < u64Size)
    (data : List UInt8) : WritesWithin contents K (fun ks => ks.push id seq h data) := by
  intro ks ks' ha
  have hget : ks.db.get? (makeKey id seq) = ks'.db.get? (makeKey id seq) := ha _ (hK seq)
  dsimp only
  unfold push
  rw [hget]
  cases ks'.db.get? (makeKey id seq) with
  | some _ => exact .inl ⟨_, rfl, rfl⟩
  | none =>
      exact .inr ⟨_, _, rfl, rfl, agree_put ha _ _ _, frame_put (hK seq) _ _⟩

theorem removeRange_within (hK : ∀ n, K (makeKey id n)) {fromSeq toSeq : Nat}
    (hfrom : fromSeq < u64Size) :
    WritesWithin contents K (fun ks => ks.removeRange id fromSeq toSeq) := by
  intro ks ks' ha
  dsimp only
  by_cases hr : toSeq < fromSeq ∧ fromSeq ≠ 0
  · refine .inl ⟨"Invalid range", ?_, ?_⟩
    · rw [removeRange, rangeBatch, if_pos hr]
      rfl
    · rw [removeRange, rangeBatch, if_pos hr]
      rfl
  · obtain ⟨t, ht, hgone, hkept⟩ := removeRange_eq ks id hfrom hr
    obtain ⟨t', ht', hgone', hkept'⟩ := removeRange_eq ks' id hfrom hr
    have hframe : ∀ k, ¬ K k → ∀ n, max fromSeq 1 ≤ n → n ≤ toSeq → k ≠ makeKey id n :=
      fun k hk n _ _ heq => hk (heq ▸ hK n)
    refine .inr ⟨t, t', ht, ht', fun k hk => ?_, fun k hk => hkept k (hframe k hk)⟩
    by_cases hex : ∃ n, max fromSeq 1 ≤ n ∧ n ≤ toSeq ∧ k = makeKey id n
    · obtain ⟨n, hn, hto, rfl⟩ := hex
      exact (hgone n hn hto).trans (hgone' n hn hto).symm
    · have hne : ∀ n, max fromSeq 1 ≤ n → n ≤ toSeq → k ≠ makeKey id n :=
        fun n hn hto heq => hex ⟨n, hn, hto, heq⟩
      exact (hkept k hne).trans ((ha k hk).trans (hkept' k hne).symm)

end KeyStore

/-! ## What a request reaches -/

namespace AccessEnv

variable {env : AccessEnv} {users names : List String} {r : AccessRequest} {u : String}
  {K : List Char → Prop}

/-- The keys a request reads or writes once it is accepted. -/
def Reaches (env : AccessEnv) (users : List String) (k : List Char) : AccessRequest → Prop
  | .push sender recver _ _ _ | .pull sender recver _ _ _ | .map sender recver _ _ _
  | .determinate sender recver _ _ _ | .notify sender recver _ _ =>
      DialogueKeyOf (makeDialogueId env.hash sender recver) k
  | .notifyMulti sender item items _ =>
      ∃ i ∈ item :: items, i.partner ∈ users ∧
        DialogueKeyOf (makeDialogueId env.hash sender i.partner) k
  | .arrivedGet authorization _ partner =>
      match parseAuthorization authorization with
      | .error _ => False
      | .ok (username, _) => DialogueKeyOf (makeDialogueId env.hash username partner) k
  | .arrivedPut authorization dialogueId _ _ =>
      match parseAuthorization authorization with
      | .error _ => False
      | .ok (username, _) => k = makeReceiptKey username.toList dialogueId.toList

theorem changed_within {f : KeyStore (List UInt8) → Except String (KeyStore (List UInt8))}
    (hf : WritesWithin contents K f) (message : String) :
    Within contents K (fun ks => changed ks message (f ks)) := by
  constructor
  · intro s s' ha
    rcases hf.outcome ha with ⟨e, h, h'⟩ | ⟨t, t', h, h', -⟩
    · simp only [h, h', changed]
    · simp only [h, h', changed]
  · intro s s' ha
    rcases hf.outcome ha with ⟨e, h, h'⟩ | ⟨t, t', h, h', hat, -⟩
    · simpa only [h, h', changed] using ha
    · simpa only [h, h', changed] using hat
  · intro s
    rcases hf.outcome (AgreeOn.refl s) with ⟨e, h, -⟩ | ⟨t, t', h, -, -, hframe⟩
    · simp only [h, changed]
      exact FrameOf.refl s
    · simpa only [h, changed] using hframe

section Stored

variable {id : DialogueId} {username : String} (hK : ∀ k, DialogueKeyOf id k → K k)

include hK

theorem pushStored_within (seq : Fin u64Size) (data : List UInt8) (now : Nat) :
    Within contents K (fun ks => env.pushStored ks username id seq data now) := by
  have hpush := push_within (fun n => hK _ (.inl ⟨n, rfl⟩)) seq.isLt data
  have hraise := updateLastSeq_within env.codec (hK _ (.inr ⟨username, rfl⟩)) seq now
  -- the store after the position was raised, or was not
  have hafter : ∀ s s', AgreeOn contents K s s' →
      AgreeOn contents K ((s.updateLastSeq env.codec username id seq now).toOption.getD s)
        ((s'.updateLastSeq env.codec username id seq now).toOption.getD s') ∧
      FrameOf contents K s ((s.updateLastSeq env.codec username id seq now).toOption.getD s) := by
    intro s s' ha
    rcases hraise.outcome ha with ⟨e, h, h'⟩ | ⟨t, t', h, h', hat, hframe⟩
    · rw [h, h']
      exact ⟨ha, FrameOf.refl s⟩
    · rw [h, h']
      exact ⟨hat, hframe⟩
  constructor
  · intro s s' ha
    rcases hpush.outcome ha with ⟨e, h, h'⟩ | ⟨t, t', h, h', -⟩
    · simp only [pushStored, h, h']
    · simp only [pushStored, h, h']
  · intro s s' ha
    rcases hpush.outcome ha with ⟨e, h, h'⟩ | ⟨t, t', h, h', hat, -⟩
    · simpa only [pushStored, h, h'] using ha
    · simpa only [pushStored, h, h'] using (hafter t t' hat).1
  · intro s
    rcases hpush.outcome (AgreeOn.refl s) with ⟨e, h, -⟩ | ⟨t, t', h, -, -, hframe⟩
    · simp only [pushStored, h]
      exact FrameOf.refl s
    · simp only [pushStored, h]
      exact hframe.trans (hafter t t (AgreeOn.refl t)).2

theorem pullStored_within (afterSeq toSeq now : Nat) :
    Within contents K (fun ks => env.pullStored ks username id afterSeq toSeq now) := by
  have hpull : ∀ s s', AgreeOn contents K s s' →
      s.pull id afterSeq toSeq = s'.pull id afterSeq toSeq :=
    fun s s' ha => pull_agree ha (fun n => hK _ (.inl ⟨n, rfl⟩)) _ _
  have hraise := fun seq =>
    updateLastSeq_within env.codec (hK _ (.inr ⟨username, rfl⟩)) seq now
  -- both runs take the same branch
  have hboth : ∀ s s', AgreeOn contents K s s' →
      (env.pullStored s username id afterSeq toSeq now).2
          = (env.pullStored s' username id afterSeq toSeq now).2 ∧
        AgreeOn contents K (env.pullStored s username id afterSeq toSeq now).1
          (env.pullStored s' username id afterSeq toSeq now).1 ∧
        FrameOf contents K s (env.pullStored s username id afterSeq toSeq now).1 := by
    intro s s' ha
    unfold pullStored
    rw [hpull s s' ha]
    cases s'.pull id afterSeq toSeq with
    | error e => exact ⟨rfl, ha, FrameOf.refl s⟩
    | ok packets =>
        dsimp only
        cases (packets.map RawPacket.seq).max? with
        | none => exact ⟨rfl, ha, FrameOf.refl s⟩
        | some seq =>
            dsimp only
            rcases (hraise seq).outcome ha with ⟨e, h, h'⟩ | ⟨t, t', h, h', hat, hframe⟩
            · rw [h, h']
              exact ⟨rfl, ha, FrameOf.refl s⟩
            · rw [h, h']
              exact ⟨rfl, hat, hframe⟩
  exact ⟨fun s s' ha => (hboth s s' ha).1, fun s s' ha => (hboth s s' ha).2.1,
    fun s => (hboth s s (AgreeOn.refl s)).2.2⟩

end Stored

theorem scanPairs_agree {ks ks' : KeyStore (List UInt8)} {sender : String}
    (ha : AgreeOn contents K ks ks') {items : List NotifyItem}
    (hK : ∀ i ∈ items, ∀ k, DialogueKeyOf (makeDialogueId env.hash sender i.partner) k → K k) :
    env.scanPairs ks sender items = env.scanPairs ks' sender items := by
  induction items with
  | nil => rfl
  | cons item items ih =>
      rw [scanPairs, scanPairs, ih (fun i hi => hK i (List.mem_cons_of_mem _ hi)),
        countNewForUser_agree ha (hK item List.mem_cons_self)]

theorem getArrived_agree {ks ks' : KeyStore (List UInt8)} {id : DialogueId}
    (ha : AgreeOn contents K ks ks') (hK : ∀ k, DialogueKeyOf id k → K k)
    (username partner : String) (now : Nat) :
    env.getArrived ks username partner id now = env.getArrived ks' username partner id now := by
  unfold getArrived
  rw [receiptState_agree ha (hK _ (.inr ⟨username, rfl⟩)),
    receiptState_agree ha (hK _ (.inr ⟨partner, rfl⟩))]

/-- The id a `GET /arrived` was sent is that of the two names. -/
theorem arrivedGet_id {authorization : Authorization} {dialogueId partner username sig : String}
    (h : env.refuse users (.arrivedGet authorization dialogueId partner) = none)
    (hp : parseAuthorization authorization = .ok (username, sig)) :
    dialogueId.toList = (makeDialogueId env.hash username partner).text ∧
      refuseArrived users (.arrivedGet username partner dialogueId) username partner
        (env.sigOf sig) = none := by
  rw [refuse, hp] at h
  dsimp only at h
  split at h
  · cases h
  · split at h
    · cases h
    · rename_i hid
      exact ⟨(not_not.mp hid).symm, h⟩

/-- **An accepted request stays within the keys it reaches.** -/
theorem perform_within (now : Nat) (h : env.refuse users r = none) :
    Within contents (fun k => env.Reaches users k r) (fun ks => env.perform users now ks r) := by
  cases r with
  | push sender recver seq payload sig => exact pushStored_within (fun _ hk => hk) _ _ _
  | pull sender recver afterSeq toSeq sig => exact pullStored_within (fun _ hk => hk) _ _ _
  | map sender recver afterSeq toSeq sig =>
      exact within_answer (fun s s' ha =>
        congrArg _ (map_agree ha (fun n => .inl ⟨n, rfl⟩) _ _ _))
  | determinate sender recver fromSeq toSeq sig =>
      exact changed_within (removeRange_within (fun n => .inl ⟨n, rfl⟩) fromSeq.isLt) _
  | notify sender partner seq sig =>
      exact within_answer (fun s s' ha =>
        congrArg _ (countNewForUser_agree ha (fun _ hk => hk) _))
  | notifyMulti sender item items sig =>
      refine within_answer (fun s s' ha => congrArg _ (scanPairs_agree ha ?_))
      intro i hi k hk
      obtain ⟨hi, hreg⟩ := List.mem_filter.mp hi
      exact ⟨i, hi, by simpa using hreg, hk⟩
  | arrivedGet authorization dialogueId partner =>
      cases hp : parseAuthorization authorization with
      | error e =>
          rw [refuse, hp] at h
          cases h
      | ok auth =>
          obtain ⟨username, sig⟩ := auth
          obtain ⟨hid, -⟩ := arrivedGet_id h hp
          simp only [perform, hp, hid]
          refine within_answer (fun s s' ha => getArrived_agree ha (fun k hk => ?_) _ _ _)
          simp only [Reaches, hp]
          exact hk
  | arrivedPut authorization dialogueId receiptsEnabled sig =>
      cases hp : parseAuthorization authorization with
      | error e =>
          rw [refuse, hp] at h
          cases h
      | ok auth =>
          simp only [perform, hp]
          refine changed_within (setReceiptsEnabled_within ?_ _ _) _
          simp only [Reaches, hp]

/-! ## Whose dialogue it is -/

/-- Distinct pairs of names have distinct ids. -/
def DistinctIds (hash : String → DialogueId) (names : List String) : Prop :=
  ∀ a ∈ names, ∀ b ∈ names, ∀ c ∈ names, ∀ d ∈ names,
    makeDialogueId hash a b = makeDialogueId hash c d → DialogueKey.new a b = DialogueKey.new c d

/-- The hash tells apart the texts of the pairs. -/
def CollisionFree (hash : String → DialogueId) (names : List String) : Prop :=
  ∀ a ∈ names, ∀ b ∈ names, ∀ c ∈ names, ∀ d ∈ names,
    makeDialogueId hash a b = makeDialogueId hash c d →
      dialogueText (DialogueKey.new a b) = dialogueText (DialogueKey.new c d)

/-- No name is two others with a colon between them, the second of which glues on to a third. -/
def NoGlue (names : List String) : Prop :=
  ∀ p ∈ names, ∀ s ∈ names, ∀ x : String, p ++ ":" ++ x ∈ names → x ++ ":" ++ s ∈ names →
    ¬ (p ≤ x ++ ":" ++ s ∧ p ++ ":" ++ x ≤ s)

/-- A key of a dialogue the account is no participant of. -/
def Foreign (hash : String → DialogueId) (names : List String) (u : String) (k : List Char) :
    Prop :=
  ∃ a ∈ names, ∃ b ∈ names, u ≠ a ∧ u ≠ b ∧ DialogueKeyOf (makeDialogueId hash a b) k

/-- **Isolation of one request.** Whatever there is of the dialogues of others, the request has the
same answer and the same effect, and leaves that as it is. -/
def Isolated (env : AccessEnv) (names users : List String) (u : String) (r : AccessRequest) :
    Prop :=
  ∀ now, Within contents (fun k => ¬ Foreign env.hash names u k) (env.handle users now r)

/-- A `PUT /arrived` does not have the id of a dialogue of others at its end. -/
def OwnRecord (env : AccessEnv) (names : List String) (u : String) : AccessRequest → Prop
  | .arrivedPut _ dialogueId _ _ => ∀ a ∈ names, ∀ b ∈ names, u ≠ a → u ≠ b →
      dialogueId.toList ≠ (makeDialogueId env.hash a b).text ∧
        ∀ x, dialogueId.toList ≠ x ++ ':' :: (makeDialogueId env.hash a b).text
  | _ => True

theorem toList_glue (a b : String) : (a ++ ":" ++ b).toList = a.toList ++ ':' :: b.toList := by
  simp [String.toList_append]

theorem glue_eq {a b c d : String} (h : a ++ ":" ++ b = c ++ ":" ++ d) : (a = c ∧ b = d) ∨
    (∃ x, c = a ++ ":" ++ x ∧ b = x ++ ":" ++ d) ∨ ∃ x, a = c ++ ":" ++ x ∧ d = x ++ ":" ++ b := by
  have hl := congrArg String.toList h
  rw [toList_glue, toList_glue] at hl
  rcases Glued.append_cons_eq.mp hl with ⟨h1, h2⟩ | ⟨x, h1, h2⟩ | ⟨x, h1, h2⟩
  · exact .inl ⟨String.toList_inj.mp h1, String.toList_inj.mp h2⟩
  · refine .inr (.inl ⟨String.ofList x, String.toList_inj.mp ?_, String.toList_inj.mp ?_⟩)
    · rw [toList_glue, String.toList_ofList, h1]
    · rw [toList_glue, String.toList_ofList, h2]
  · refine .inr (.inr ⟨String.ofList x, String.toList_inj.mp ?_, String.toList_inj.mp ?_⟩)
    · rw [toList_glue, String.toList_ofList, h1]
    · rw [toList_glue, String.toList_ofList, h2]

/-- A pair in order. -/
theorem new_of_le {a b : String} (h : a ≤ b) : DialogueKey.new a b = ⟨a, b⟩ := by
  unfold DialogueKey.new
  split
  · rfl
  · rename_i hlt
    rw [String.le_antisymm h (String.not_lt.mp hlt)]

theorem exists_new (a b : String) :
    ∃ c d, DialogueKey.new a b = ⟨c, d⟩ ∧ c ≤ d ∧ (c = a ∧ d = b ∨ c = b ∧ d = a) := by
  rcases String.le_total a b with h | h
  · exact ⟨a, b, new_of_le h, h, .inl ⟨rfl, rfl⟩⟩
  · exact ⟨b, a, by rw [DialogueKey.new_comm, new_of_le h], h, .inr ⟨rfl, rfl⟩⟩

/-- **Ids are apart exactly when no names glue together.** -/
theorem distinctIds_iff {hash : String → DialogueId} (hfree : CollisionFree hash names) :
    DistinctIds hash names ↔ NoGlue names := by
  constructor
  · rintro hd p hp s hs x hpx hxs ⟨hle, hle'⟩
    have heq : makeDialogueId hash p (x ++ ":" ++ s) = makeDialogueId hash (p ++ ":" ++ x) s := by
      unfold makeDialogueId
      rw [new_of_le hle, new_of_le hle', dialogueText, dialogueText]
      simp only [String.append_assoc]
    have hnew := hd p hp _ hxs _ hpx s hs heq
    rw [new_of_le hle, new_of_le hle'] at hnew
    -- a name is shorter than one it is the beginning of
    have hlen := congrArg String.length (DialogueKey.mk.inj hnew).1
    rw [String.length_append, String.length_append, show ":".length = 1 from rfl] at hlen
    omega
  · intro hno a ha b hb c hc d hd heq
    have htext := hfree a ha b hb c hc d hd heq
    obtain ⟨p, q, hnew, hle, hpq⟩ := exists_new a b
    obtain ⟨p', q', hnew', hle', hpq'⟩ := exists_new c d
    have hmem : ∀ {a b p q : String}, a ∈ names → b ∈ names → (p = a ∧ q = b ∨ p = b ∧ q = a) →
        p ∈ names ∧ q ∈ names := by
      rintro a b p q ha hb (⟨rfl, rfl⟩ | ⟨rfl, rfl⟩)
      · exact ⟨ha, hb⟩
      · exact ⟨hb, ha⟩
    obtain ⟨hp, hq⟩ := hmem ha hb hpq
    obtain ⟨hp', hq'⟩ := hmem hc hd hpq'
    rw [hnew, hnew'] at htext ⊢
    have htext : p ++ ":" ++ q = p' ++ ":" ++ q' := htext
    rcases glue_eq htext with ⟨rfl, rfl⟩ | ⟨x, rfl, rfl⟩ | ⟨x, rfl, rfl⟩
    · rfl
    · exact absurd ⟨hle, hle'⟩ (hno p hp q' hq' x hp' hq)
    · exact absurd ⟨hle', hle⟩ (hno p' hp' q hq x hp hq')

/-- Without a colon in a name nothing glues together. -/
theorem noGlue_of_colon (h : ∀ v ∈ names, ':' ∉ v.toList) : NoGlue names := by
  intro p _ s _ x hx _
  refine absurd ?_ (h _ hx)
  rw [toList_glue]
  exact List.mem_append_right _ List.mem_cons_self

/-- What the client sends, the id of a dialogue of its own, is at the end of no other id. -/
theorem ownRecord_own (hd : DistinctIds env.hash names) {partner : String} (hu : u ∈ names)
    (hp : partner ∈ names) (authorization : Authorization) (receiptsEnabled : Bool) (sig : String) :
    OwnRecord env names u (.arrivedPut authorization
      (String.ofList (makeDialogueId env.hash u partner).text) receiptsEnabled sig) := by
  intro a ha b hb hua hub
  rw [String.toList_ofList]
  constructor
  · intro heq
    rcases DialogueKey.new_eq (hd u hu partner hp a ha b hb (DialogueId.ext_text heq)) with h | h
    · exact hua h.1
    · exact hub h.1
  · intro x hx
    exact absurd (hx ▸ List.mem_append_right _ List.mem_cons_self)
      (colon_not_mem (makeDialogueId env.hash u partner))

/-! ## The signature -/

theorem signer_of_signed {q : SignedRequest} {username : String} {sig : Option Signature}
    (h : q.unsigned username sig = false) (hu : sig.map Signature.signer = some u) :
    u = username := by
  rw [SignedRequest.unsigned_eq_false.mp h] at hu
  exact (Option.some.inj hu).symm

theorem signer_of_pair {q : SignedRequest} {sender recver : String} {sig : Option Signature}
    (h : (q.unsigned sender sig && q.unsigned recver sig) = false)
    (hu : sig.map Signature.signer = some u) : u = sender ∨ u = recver := by
  rcases Bool.and_eq_false_iff.mp h with h | h
  · exact .inl (signer_of_signed h hu)
  · exact .inr (signer_of_signed h hu)

theorem mem_of_contains {username : String} (h : (!users.contains username) = false) :
    username ∈ users := by
  simpa using h

theorem mem_of_contains_pair {sender recver : String}
    (h : (!(users.contains sender && users.contains recver)) = false) :
    sender ∈ users ∧ recver ∈ users := by
  simpa using h

theorem refusePair_none {q : SignedRequest} {sender recver : String} {sig : Option Signature}
    {badRange : Bool × String} (h : refusePair users q sender recver sig badRange = none)
    (hu : sig.map Signature.signer = some u) :
    (sender ∈ users ∧ recver ∈ users) ∧ (u = sender ∨ u = recver) := by
  have hc := refusal_eq_none.mp h
  simp only [List.forall_mem_cons] at hc
  exact ⟨mem_of_contains_pair hc.2.2.1, signer_of_pair hc.2.2.2.1 hu⟩

theorem refuseArrived_none {q : SignedRequest} {username partner : String} {sig : Option Signature}
    (h : refuseArrived users q username partner sig = none)
    (hu : sig.map Signature.signer = some u) :
    (username ∈ users ∧ partner ∈ users) ∧ u = username := by
  have hc := refusal_eq_none.mp h
  simp only [List.forall_mem_cons] at hc
  exact ⟨⟨mem_of_contains hc.2.2.1, mem_of_contains hc.2.1⟩, signer_of_signed hc.2.2.2.1 hu⟩

/-! ## Requests reach dialogues of their signer -/

/-- A key of a dialogue of the account is none of a dialogue of others. -/
theorem not_foreign {hash : String → DialogueId} (hd : DistinctIds hash names)
    {sender recver : String} {k : List Char} (hs : sender ∈ names ∧ recver ∈ names)
    (hu : u = sender ∨ u = recver) (hk : DialogueKeyOf (makeDialogueId hash sender recver) k) :
    ¬ Foreign hash names u k := by
  rintro ⟨a, ha, b, hb, hua, hub, hk'⟩
  have hnew := hd sender hs.1 recver hs.2 a ha b hb (dialogueKeyOf_unique hk hk')
  rcases DialogueKey.new_eq hnew with ⟨rfl, rfl⟩ | ⟨rfl, rfl⟩
  · exact hu.elim hua hub
  · exact hu.elim hub hua

theorem reaches_own (hd : DistinctIds env.hash names) (hsub : ∀ v ∈ users, v ∈ names)
    (h : env.refuse users r = none) (hu : env.signer r = some u) (ho : OwnRecord env names u r)
    {k : List Char} (hk : env.Reaches users k r) : ¬ Foreign env.hash names u k := by
  have hpair : ∀ {s t : String}, s ∈ users ∧ t ∈ users → s ∈ names ∧ t ∈ names :=
    fun hm => ⟨hsub _ hm.1, hsub _ hm.2⟩
  cases r with
  | push sender recver seq payload sig =>
      have hc := refusal_eq_none.mp h
      simp only [List.forall_mem_cons] at hc
      exact not_foreign hd
        (hpair ⟨mem_of_contains hc.2.2.2.1, mem_of_contains hc.2.2.1⟩)
        (.inl (signer_of_signed hc.2.2.2.2.1 hu)) hk
  | pull sender recver afterSeq toSeq sig =>
      obtain ⟨hm, hu⟩ := refusePair_none h hu
      exact not_foreign hd (hpair hm) hu hk
  | map sender recver afterSeq toSeq sig =>
      obtain ⟨hm, hu⟩ := refusePair_none h hu
      exact not_foreign hd (hpair hm) hu hk
  | determinate sender recver fromSeq toSeq sig =>
      have hc := refusal_eq_none.mp h
      simp only [List.forall_mem_cons] at hc
      exact not_foreign hd (hpair (mem_of_contains_pair hc.2.2.2.1))
        (signer_of_pair hc.2.2.2.2.1 hu) hk
  | notify sender partner seq sig =>
      have hc := refusal_eq_none.mp h
      simp only [List.forall_mem_cons] at hc
      exact not_foreign hd (hpair ⟨mem_of_contains hc.2.2.1, mem_of_contains hc.2.1⟩)
        (.inl (signer_of_signed hc.2.2.2.1 hu)) hk
  | notifyMulti sender item items sig =>
      have hc := refusal_eq_none.mp h
      simp only [List.forall_mem_cons] at hc
      obtain ⟨i, -, hreg, hk⟩ := hk
      exact not_foreign hd (hpair ⟨mem_of_contains hc.2.2.1, hreg⟩)
        (.inl (signer_of_signed hc.2.2.2.1 hu)) hk
  | arrivedGet authorization dialogueId partner =>
      cases hp : parseAuthorization authorization with
      | error e =>
          rw [refuse, hp] at h
          cases h
      | ok auth =>
          simp only [signer, hp] at hu
          simp only [Reaches, hp] at hk
          obtain ⟨hm, hu⟩ := refuseArrived_none (arrivedGet_id h hp).2 hu
          exact not_foreign hd (hpair hm) (.inl hu) hk
  | arrivedPut authorization dialogueId receiptsEnabled sig =>
      cases hp : parseAuthorization authorization with
      | error e =>
          rw [refuse, hp] at h
          cases h
      | ok auth =>
          simp only [Reaches, hp] at hk
          rintro ⟨a, ha, b, hb, hua, hub, hk'⟩
          obtain ⟨hne, hend⟩ := ho a ha b hb hua hub
          rw [hk] at hk'
          rcases dialogueKeyOf_receipt.mp hk' with heq | ⟨x, heq⟩
          · exact hne heq
          · exact hend x heq

/-- A `PUT /arrived` with the id of a dialogue of others at its end leaves a record in it. -/
theorem ownRecord_of_isolated (h : env.refuse users r = none) (hi : Isolated env names users u r) :
    OwnRecord env names u r := by
  cases r with
  | arrivedPut authorization dialogueId receiptsEnabled sig =>
      cases hp : parseAuthorization authorization with
      | error e =>
          rw [refuse, hp] at h
          cases h
      | ok auth =>
          obtain ⟨username, authSig⟩ := auth
          -- the store has nothing yet, and the key gets a record
          have hwritten : contents (env.handle users 0
              (.arrivedPut authorization dialogueId receiptsEnabled sig) empty).1
              (makeReceiptKey username.toList dialogueId.toList) ≠ none := by
            rw [handle, h]
            simp only [perform, hp]
            exact Option.ne_none_iff_exists'.mpr ⟨_, OrdMap.get?_put_self _ _ _⟩
          intro a ha b hb hua hub
          have hnot : ¬ DialogueKeyOf (makeDialogueId env.hash a b)
              (makeReceiptKey username.toList dialogueId.toList) := fun hk =>
            hwritten ((hi 0).frame empty _ (not_not.mpr ⟨a, ha, b, hb, hua, hub, hk⟩))
          rw [dialogueKeyOf_receipt, not_or, not_exists] at hnot
          exact hnot
  | _ => trivial

/-- **Isolation of dialogues.** The client makes the ids the server makes. Where the hash has no
collision among the pairs of names, an accepted request is confined to the dialogues of its signer,
and distinct pairs have distinct ids, exactly when no names glue together and the request is no
`PUT /arrived` with the id of a dialogue of others at its end. -/
theorem isolation_exact (env : AccessEnv) {names : List String}
    (hfree : CollisionFree env.hash names) :
    (∀ a b, Client.makeDialogueId env.hash a b = makeDialogueId env.hash a b) ∧
    (DistinctIds env.hash names ↔ NoGlue names) ∧
    ∀ (users : List String) (u : String) (r : AccessRequest), (∀ v ∈ users, v ∈ names) →
      env.refuse users r = none → env.signer r = some u →
      ((DistinctIds env.hash names ∧ Isolated env names users u r) ↔
        (NoGlue names ∧ OwnRecord env names u r)) := by
  refine ⟨fun a b => ?_, distinctIds_iff hfree, fun users u r hsub h hu => ⟨?_, ?_⟩⟩
  · unfold Client.makeDialogueId makeDialogueId dialogueText DialogueKey.new
    by_cases hab : a < b
    · simp only [if_pos hab]
    · simp only [if_neg hab]
  · rintro ⟨hd, hi⟩
    exact ⟨(distinctIds_iff hfree).mp hd, ownRecord_of_isolated h hi⟩
  · rintro ⟨hno, ho⟩
    have hd := (distinctIds_iff hfree).mpr hno
    refine ⟨hd, fun now => ?_⟩
    have hw := (perform_within now h).mono (fun k hk => reaches_own hd hsub h hu ho hk)
    have heq : env.handle users now r = fun ks => env.perform users now ks r := by
      funext ks
      rw [handle, h]
    rw [heq]
    exact hw

/-- A record as three bytes. -/
def smallCodec : ReceiptCodec where
  toVec s := [if s.receiptsEnabled then 1 else 0, UInt8.ofNat s.lastSeq, UInt8.ofNat s.updatedAt]
  fromSlice
    | [enabled, lastSeq, updatedAt] => some ⟨lastSeq.toNat, enabled = 1, updatedAt.toNat⟩
    | _ => none

def idText (a b : String) : String := String.ofList (makeDialogueId binaryHash a b).text

/-- Alice has signed that her records are switched off in her dialogue with Bob. -/
def aliceEnv : AccessEnv where
  hash := binaryHash
  codec := smallCodec
  sigOf s :=
    if s = "put" then
      some ⟨"alice", (SignedRequest.arrivedPut "alice" (idText "alice" "bob") false).text⟩
    else none

theorem isolation_exact_alice : DistinctIds binaryHash ["alice", "bob", "carol"] ∧
    Isolated aliceEnv ["alice", "bob", "carol"] ["alice", "bob"] "alice"
      (.arrivedPut (.token "alice:put".toList) (idText "alice" "bob") false "put") := by
  have hfree : CollisionFree aliceEnv.hash ["alice", "bob", "carol"] := by
    have htexts : ∀ a ∈ ["alice", "bob", "carol"], ∀ b ∈ ["alice", "bob", "carol"],
        ∀ c ∈ ["alice", "bob", "carol"], ∀ d ∈ ["alice", "bob", "carol"],
        (makeDialogueId binaryHash a b).text = (makeDialogueId binaryHash c d).text →
          dialogueText (DialogueKey.new a b) = dialogueText (DialogueKey.new c d) := by
      decide +kernel
    exact fun a ha b hb c hc d hd heq =>
      htexts a ha b hb c hc d hd (congrArg DialogueId.text heq)
  have hno : NoGlue ["alice", "bob", "carol"] := noGlue_of_colon (by decide +kernel)
  obtain ⟨-, hids, hreq⟩ := isolation_exact aliceEnv hfree
  exact (hreq ["alice", "bob"] "alice" _ (by decide +kernel) (by decide +kernel)
    (by decide +kernel)).mpr
    ⟨hno, ownRecord_own (hids.mpr hno) (by decide +kernel) (by decide +kernel) _ _ _⟩

/-- What the account `a` has signed: a pull, and a record that is switched off. -/
def glueEnv : AccessEnv where
  hash := binaryHash
  codec := smallCodec
  sigOf s :=
    if s = "pull" then some ⟨"a", (SignedRequest.pull "a" "b:c" 0 5).text⟩
    else if s = "put" then
      some ⟨"a", (SignedRequest.arrivedPut "a" ("b:" ++ idText "a:b" "c") false).text⟩
    else none

/-- A packet that `a:b` has sent to `c`. -/
def glueStore : KeyStore (List UInt8) :=
  empty.put (.packet (makeDialogueId binaryHash "a:b" "c") 1) (by decide) [7]

/-- Registration admits names with a colon. The account `a` pulls what `a:b` and `c` have, since its
dialogue with `b:c` has the same id. And where there is no `b:c`, it switches off the record of
`a:b` all the same. -/
theorem isolation_lost :
    (((ServerConfig.default.reg "a" "k").bind (·.reg "b:c" "k")).bind (·.reg "a:b" "k")).bind
        (·.reg "c" "k") = .ok { ServerConfig.default with
          users := [("a", "k"), ("b:c", "k"), ("a:b", "k"), ("c", "k")] } ∧
      (makeDialogueId binaryHash "a" "b:c").text = (makeDialogueId binaryHash "a:b" "c").text ∧
      DialogueKey.new "a" "b:c" ≠ DialogueKey.new "a:b" "c" ∧
      (glueEnv.handle ["a", "b:c", "a:b", "c"] 0
        (.pull "a" "b:c" ⟨0, by decide⟩ ⟨5, by decide⟩ "pull") glueStore).2
          = .packets [⟨1, [7]⟩] ∧
      (glueStore.receiptState smallCodec "a:b" (makeDialogueId binaryHash "a:b" "c")).map
        ReceiptState.receiptsEnabled = .ok true ∧
      ((glueEnv.handle ["a", "a:b", "c"] 0
        (.arrivedPut (.token "a:put".toList) ("b:" ++ idText "a:b" "c") false "put")
        glueStore).1.receiptState smallCodec "a:b" (makeDialogueId binaryHash "a:b" "c")).map
          ReceiptState.receiptsEnabled = .ok false := by
  refine ⟨?_, ?_, ?_, ?_, ?_, ?_⟩ <;> decide +kernel

end AccessEnv

end Paranoia
