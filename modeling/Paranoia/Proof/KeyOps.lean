import Mathlib.Data.List.Sort
import Paranoia.Proof.Keys
import Paranoia.Server.KeyOps

/-!
# What the operations over the keys do

A key says of itself what it is a key of, and a packet's key which dialogue it is of and which
number it has. A scan over a dialogue meets its packets and no other entry, so every operation on
the packets of a dialogue is the one of a `PacketStore` that has them.
-/

namespace Paranoia

open Lexical StoreKey KeyStore

variable {t : List Char}

/-! ## Recognising the keys -/

namespace StoreKey

variable {id : DialogueId} {n : Nat}

theorem colon_not_mem (id : DialogueId) : ':' ∉ id.text :=
  fun h => absurd (id.hex _ h) (by decide)

/-- The text before the last colon of a packet's key is its dialogue. -/
theorem eq_of_prefix_makeKey (h : t ++ [':'] <+: makeKey id n) : t = id.text := by
  obtain ⟨rest, hrest⟩ := h
  have hdigits : ':' ∉ Decimal.padded 20 n := fun hmem =>
    absurd (Decimal.isDigit_of_mem_padded hmem) (by decide)
  rw [makeKey, List.append_assoc, List.singleton_append, Glued.append_cons_eq] at hrest
  rcases hrest with ⟨rfl, -⟩ | ⟨x, hid, -⟩ | ⟨x, -, hpad⟩
  · rfl
  · exact absurd (hid ▸ List.mem_append_right _ List.mem_cons_self) (colon_not_mem id)
  · exact absurd (hpad ▸ List.mem_append_right _ List.mem_cons_self) hdigits

/-- No record of a read position stands under the key of a packet. -/
theorem makeKey_ne_receipt (username t : List Char) : makeKey id n ≠ makeReceiptKey username t := by
  intro h
  have hpre : id.keyPrefix <+: (StoreKey.receipt username t).text := by
    rw [show (StoreKey.receipt username t).text = makeReceiptKey username t from rfl, ← h]
    exact keyPrefix_makeKey id n
  obtain ⟨m, hm⟩ := packet_of_keyPrefix hpre
  cases hm

/-- A colon in the dialogue may as well be one in the name. -/
theorem makeReceiptKey_append (username x t : List Char) :
    makeReceiptKey username (x ++ ':' :: t) = makeReceiptKey (username ++ ':' :: x) t := by
  unfold makeReceiptKey
  rw [List.append_assoc, List.cons_append]

theorem makeKey_inj {id' : DialogueId} {m : Nat} :
    makeKey id n = makeKey id' m ↔ id = id' ∧ n = m := by
  constructor
  · intro h
    obtain rfl := DialogueId.ext_text
      (eq_of_prefix_makeKey (t := id.text) (h ▸ keyPrefix_makeKey id n))
    have hpad := (List.cons.inj (List.append_cancel_left h)).2
    exact ⟨rfl, by rw [← Decimal.value_padded 20 n, hpad, Decimal.value_padded]⟩
  · rintro ⟨rfl, rfl⟩
    rfl

end StoreKey

namespace KeyStore

variable {ks : KeyStore (List UInt8)} {id : DialogueId}

/-- The dialogues of a scan that is under way. -/
def listedIds (s : List Listed × Option Listed) : List (List Char) :=
  (s.1 ++ s.2.toList).map (·.1)

/-- A packet goes to the dialogue the scan is in, or opens the next one. -/
theorem listEntry_makeKey (s : List Listed × Option Listed) (id : DialogueId) {n : Nat}
    (h : n < u64Size) (data : List UInt8) :
    listEntry s (makeKey id n, data) = match s.2 with
      | some (cur, last, bytes) =>
          if cur = id.text then (s.1, some (cur, max last n, saturatingAdd bytes data.length))
          else (s.1 ++ [(cur, last, bytes)], some (id.text, n, data.length))
      | none => (s.1, some (id.text, n, data.length)) := by
  have hne : ¬ "receipt:".toList <+: makeKey id n := fun hpre =>
    absurd (eq_of_prefix_makeKey (t := "receipt".toList) hpre) (fun heq =>
      absurd (id.hex 'r' (heq ▸ List.mem_cons_self)) (by decide))
  have hsplit : Glued.splitOnce ':' (makeKey id n) = some (id.text, Decimal.padded 20 n) :=
    Glued.splitOnce_append (colon_not_mem id)
  unfold listEntry
  rw [if_neg hne, hsplit]
  dsimp only
  obtain ⟨result, current⟩ := s
  cases current with
  | none => simp only [Decimal.parse_padded h]
  | some cur => simp only [Decimal.parse_padded h]

theorem listEntry_packet (s : List Listed × Option Listed) (id : DialogueId) {n : Nat}
    (h : n < u64Size) (data : List UInt8) :
    t ∈ listedIds (listEntry s (makeKey id n, data)) ↔ t ∈ listedIds s ∨ t = id.text := by
  rw [listEntry_makeKey s id h]
  obtain ⟨result, current⟩ := s
  cases current with
  | none => simp [listedIds]
  | some cur =>
      obtain ⟨cur, last, bytes⟩ := cur
      dsimp only
      split
      · rename_i hcur
        subst hcur
        simp [listedIds]
      · simp [listedIds, or_assoc]

/-- A key of something else is passed over. -/
theorem listEntry_other (s : List Listed × Option Listed) {key : StoreKey}
    (h : key.isPacket = false) (data : List UInt8) :
    listEntry s (key.text, data) = s := by
  have hskip : ∀ (tag rest : List Char), ':' ∉ tag → ':' ∈ rest →
      listEntry s (tag ++ ':' :: rest, data) = s := by
    intro tag rest htag hrest
    unfold listEntry
    split
    · rfl
    · rw [Glued.splitOnce_append htag]
      dsimp only
      rw [Decimal.parse_eq_none hrest (by decide) (by decide)]
  cases key with
  | packet id n => cases h
  | receipt username id =>
      unfold listEntry
      exact if_pos (List.prefix_append _ _)
  | ephChunk id fileId i => exact hskip "eph".toList _ (by decide) (by simp)
  | ephMeta id fileId => exact hskip "ephmeta".toList _ (by decide) (by simp)

theorem mem_foldl_listEntry {entries : List (List Char × List UInt8)}
    (h : ∀ e ∈ entries, ∃ key : StoreKey, key.Bounded ∧ key.text = e.1)
    (s : List Listed × Option Listed) :
    t ∈ listedIds (entries.foldl listEntry s) ↔
      t ∈ listedIds s ∨ ∃ id n, t = DialogueId.text id ∧ makeKey id n ∈ entries.map (·.1) := by
  induction entries generalizing s with
  | nil => simp
  | cons e entries ih =>
      obtain ⟨key, hbound, hkey⟩ := h e List.mem_cons_self
      obtain ⟨k, data⟩ := e
      subst hkey
      rw [List.foldl_cons, ih (fun e he => h e (List.mem_cons_of_mem _ he))]
      by_cases hp : key.isPacket = true
      · obtain ⟨id, n, rfl⟩ : ∃ id n, key = .packet id n := by
          cases key with
          | packet id n => exact ⟨id, n, rfl⟩
          | _ => cases hp
        rw [show (StoreKey.packet id n).text = makeKey id n from rfl, listEntry_packet s id hbound,
          List.map_cons, or_assoc]
        refine or_congr_right ⟨?_, ?_⟩
        · rintro (rfl | ⟨id', m, rfl, hm⟩)
          · exact ⟨id, n, rfl, List.mem_cons_self⟩
          · exact ⟨id', m, rfl, List.mem_cons_of_mem _ hm⟩
        · rintro ⟨id', m, rfl, hm⟩
          rcases List.mem_cons.mp hm with hm | hm
          · exact .inl (by rw [(makeKey_inj.mp hm).1])
          · exact .inr ⟨id', m, rfl, hm⟩
      · rw [listEntry_other s (Bool.not_eq_true _ ▸ hp)]
        refine or_congr_right ⟨?_, ?_⟩
        · rintro ⟨id, m, rfl, hm⟩
          exact ⟨id, m, rfl, List.mem_cons_of_mem _ hm⟩
        · rintro ⟨id, m, rfl, hm⟩
          rcases List.mem_cons.mp hm with hm | hm
          · obtain ⟨n, rfl⟩ := packet_of_keyPrefix (hm ▸ keyPrefix_makeKey id m)
            exact absurd rfl hp
          · exact ⟨id, m, rfl, hm⟩

/-- **The list has exactly the dialogues there are packets of.** -/
theorem mem_listDialogues : t ∈ ks.listDialogues.map (·.1) ↔
    ∃ id n, t = DialogueId.text id ∧ makeKey id n ∈ ks.db.keys := by
  have h : t ∈ listedIds (ks.db.entries.foldl listEntry ([], none)) ↔ _ :=
    mem_foldl_listEntry (fun e he => ks.known e.1 (List.mem_map_of_mem he)) ([], none)
  rw [show t ∈ listedIds ([], none) ↔ False by simp [listedIds], false_or] at h
  exact h

variable {ν : Type} {ks : KeyStore ν}

/-- The number of a key in the store is a `u64`. -/
theorem number_lt {n : Nat} (hk : makeKey id n ∈ ks.db.keys) : n < u64Size := by
  obtain ⟨m, hm, heq⟩ := number_of_keyPrefix hk (keyPrefix_makeKey id n)
  exact (makeKey_inj.mp heq).2 ▸ hm

/-- A batch holds keys of its dialogue. -/
theorem prefix_of_mem_batchKeys {toSeq : Nat} {keys batch : List (List Char)}
    (h : batchKeys t toSeq keys = .ok batch) : ∀ k ∈ batch, t ++ [':'] <+: k := by
  induction keys generalizing batch with
  | nil =>
      cases h
      exact fun _ hk => absurd hk List.not_mem_nil
  | cons key keys ih =>
      rw [batchKeys] at h
      split at h
      · cases h
        exact fun _ hk => absurd hk List.not_mem_nil
      · rename_i hpre
        split at h
        · cases h
        · split at h
          · cases h
            exact fun _ hk => absurd hk List.not_mem_nil
          · cases hrest : batchKeys t toSeq keys with
            | error e =>
                rw [hrest] at h
                cases h
            | ok rest =>
                rw [hrest] at h
                cases h
                intro k hk
                rcases List.mem_cons.mp hk with rfl | hk
                · exact not_not.mp hpre
                · exact ih hrest k hk

theorem prefix_of_mem_rangeBatch {fromSeq toSeq : Nat} {batch : List (List Char)}
    (h : ks.rangeBatch t fromSeq toSeq = .ok batch) : ∀ k ∈ batch, t ++ [':'] <+: k := by
  unfold rangeBatch at h
  split at h
  · cases h
  · exact prefix_of_mem_batchKeys h

/-- The keys of the dialogue stand together, in the order of their numbers. -/
theorem batchKeys_eq {start : Nat} (toSeq : Nat) {keys : List (List Char)}
    (hsorted : keys.Pairwise (· < ·))
    (hkeys : ∀ k ∈ keys, k ∈ ks.db.keys ∧ makeKey id start ≤ k) :
    ∃ batch, batchKeys id toSeq keys = .ok batch ∧
      ∀ k, k ∈ batch ↔ k ∈ keys ∧ ∃ n, n ≤ toSeq ∧ k = makeKey id n := by
  induction keys with
  | nil => exact ⟨[], rfl, by simp⟩
  | cons key keys ih =>
      obtain ⟨hlt, hsorted'⟩ := List.pairwise_cons.mp hsorted
      obtain ⟨batch, hbatch, hmem⟩ :=
        ih hsorted' (fun k hk => hkeys k (List.mem_cons_of_mem _ hk))
      obtain ⟨hkey, hstart⟩ := hkeys key List.mem_cons_self
      rw [batchKeys, show id.text ++ [':'] = id.keyPrefix from rfl]
      by_cases hpre : id.keyPrefix <+: key
      · obtain ⟨seq, hu, rfl⟩ := number_of_keyPrefix hkey hpre
        rw [if_neg (not_not.mpr hpre), parseSeq_makeKey hu]
        dsimp only
        by_cases hto : toSeq < seq
        · rw [if_pos hto]
          refine ⟨[], rfl, fun k => iff_of_false List.not_mem_nil ?_⟩
          rintro ⟨hk, n, hn, rfl⟩
          have hge : makeKey id seq ≤ makeKey id n := by
            rcases List.mem_cons.mp hk with heq | hk
            · exact le_of_eq heq.symm
            · exact le_of_lt (hlt _ hk)
          have := (makeKey_le hu (number_lt (hkeys _ hk).1)).mp hge
          omega
        · rw [if_neg hto, hbatch]
          refine ⟨_, rfl, fun k => ?_⟩
          rw [List.mem_cons, List.mem_cons, hmem, or_and_right]
          refine or_congr_left ⟨?_, And.left⟩
          rintro rfl
          exact ⟨rfl, seq, Nat.le_of_not_lt hto, rfl⟩
      · rw [if_pos hpre]
        refine ⟨[], rfl, fun k => iff_of_false List.not_mem_nil ?_⟩
        rintro ⟨hk, n, -, rfl⟩
        rcases List.mem_cons.mp hk with rfl | hk
        · exact hpre (keyPrefix_makeKey id n)
        · exact hpre (prefix_of_between (keyPrefix_makeKey id start) (keyPrefix_makeKey id n) hstart
            (le_of_lt (hlt _ hk)))

/-- **The batch over a range has its packets**, but none with number `0`. -/
theorem rangeBatch_eq (ks : KeyStore ν) (id : DialogueId) (fromSeq toSeq : Nat)
    (hfrom : fromSeq < u64Size) (h : ¬ (toSeq < fromSeq ∧ fromSeq ≠ 0)) :
    ∃ batch, ks.rangeBatch id fromSeq toSeq = .ok batch ∧
      ∀ k, k ∈ batch ↔
        k ∈ ks.db.keys ∧ ∃ n, max fromSeq 1 ≤ n ∧ n ≤ toSeq ∧ k = makeKey id n := by
  have hstart : max fromSeq 1 < u64Size := max_lt hfrom (by decide)
  have hkeys : ∀ k ∈ ks.db.keys.filter (fun k => makeKey id (max fromSeq 1) ≤ k),
      k ∈ ks.db.keys ∧ makeKey id (max fromSeq 1) ≤ k := by
    intro k hk
    obtain ⟨hmem, hle⟩ := List.mem_filter.mp hk
    exact ⟨hmem, of_decide_eq_true hle⟩
  obtain ⟨batch, hbatch, hmem⟩ :=
    batchKeys_eq toSeq (ks.db.keys_sorted.sublist List.filter_sublist) hkeys
  refine ⟨batch, ?_, fun k => ?_⟩
  · rw [rangeBatch, if_neg h]
    exact hbatch
  · rw [hmem]
    constructor
    · rintro ⟨hk, n, hn, rfl⟩
      obtain ⟨hk, hle⟩ := hkeys _ hk
      exact ⟨hk, n, (makeKey_le hstart (number_lt hk)).mp hle, hn, rfl⟩
    · rintro ⟨hk, n, hn, hto, rfl⟩
      refine ⟨List.mem_filter.mpr ⟨hk, decide_eq_true ?_⟩, n, hto, rfl⟩
      exact (makeKey_le hstart (number_lt hk)).mpr hn

theorem get?_deleteBatch {batch : List (List Char)} {k : List Char} :
    (ks.deleteBatch batch).db.get? k = if k ∈ batch then none else ks.db.get? k := by
  refine Option.ext (fun v => ?_)
  rw [deleteBatch, OrdMap.get?_eq_some, OrdMap.mem_eraseWhere, ← OrdMap.get?_eq_some]
  by_cases hk : k ∈ batch
  · simp [hk]
  · simp [hk]

/-- **What `remove_range` does to the store.** -/
theorem removeRange_eq (ks : KeyStore ν) (id : DialogueId) {fromSeq toSeq : Nat}
    (hfrom : fromSeq < u64Size) (h : ¬ (toSeq < fromSeq ∧ fromSeq ≠ 0)) :
    ∃ ks', ks.removeRange id fromSeq toSeq = .ok ks' ∧
      (∀ n, max fromSeq 1 ≤ n → n ≤ toSeq → ks'.db.get? (makeKey id n) = none) ∧
      ∀ k, (∀ n, max fromSeq 1 ≤ n → n ≤ toSeq → k ≠ makeKey id n) →
        ks'.db.get? k = ks.db.get? k := by
  obtain ⟨batch, hbatch, hmem⟩ := rangeBatch_eq ks id fromSeq toSeq hfrom h
  have hremove : ks.removeRange id fromSeq toSeq = .ok (ks.deleteBatch batch) := by
    rw [removeRange, hbatch]
    rfl
  refine ⟨ks.deleteBatch batch, hremove, fun n hn hto => ?_, fun k hk => ?_⟩
  · rw [get?_deleteBatch]
    split
    · rfl
    · rename_i hnot
      exact OrdMap.get?_eq_none.mpr (fun hk => hnot ((hmem _).mpr ⟨hk, n, hn, hto, rfl⟩))
  · rw [get?_deleteBatch, if_neg]
    intro hk'
    obtain ⟨-, n, hn, hto, rfl⟩ := (hmem k).mp hk'
    exact hk n hn hto rfl

/-! ## The packets of a dialogue -/

/-- The packet an entry is, if it is one of the dialogue. -/
def packet? (id : DialogueId) (e : List Char × ν) : Option (Nat × ν) :=
  (number? id e.1).map (fun s => (s, e.2))

theorem packet?_eq_some {e : List Char × ν} {p : Nat × ν} (he : e ∈ ks.db.entries) :
    packet? id e = some p ↔ e = (makeKey id p.1, p.2) := by
  unfold packet?
  rw [Option.map_eq_some_iff]
  constructor
  · rintro ⟨n, hn, rfl⟩
    exact Prod.ext ((number?_eq_some (List.mem_map_of_mem he)).mp hn).1 rfl
  · rintro rfl
    have hk := List.mem_map_of_mem (f := Prod.fst) he
    exact ⟨p.1, (number?_eq_some hk).mpr ⟨rfl, number_lt hk⟩, rfl⟩

theorem packets_entries (ids : DialogueKey → DialogueId) (ks : KeyStore ν)
    (dialogue : DialogueKey) :
    ((ks.packets ids).db dialogue).entries = ks.db.entries.filterMap (packet? (ids dialogue)) :=
  rfl

/-- A packet is what stands under its key. -/
theorem packets_get (ids : DialogueKey → DialogueId) (ks : KeyStore ν) (dialogue : DialogueKey)
    (n : Nat) : (ks.packets ids).get dialogue n = ks.db.get? (makeKey (ids dialogue) n) := by
  refine Option.ext (fun v => ?_)
  rw [PacketStore.get, OrdMap.get?_eq_some, OrdMap.get?_eq_some, packets_entries,
    List.mem_filterMap]
  constructor
  · rintro ⟨e, he, hp⟩
    exact (packet?_eq_some he).mp hp ▸ he
  · exact fun he => ⟨_, he, (packet?_eq_some he).mpr rfl⟩

/-- The packets of a dialogue are given by what stands under their keys. -/
theorem packets_congr {ks' : KeyStore ν} {ids : DialogueKey → DialogueId} {dialogue : DialogueKey}
    (h : ∀ n, ks.db.get? (makeKey (ids dialogue) n) = ks'.db.get? (makeKey (ids dialogue) n)) :
    (ks.packets ids).db dialogue = (ks'.packets ids).db dialogue := by
  refine OrdMap.ext_get? (fun n => ?_)
  exact (packets_get ids ks dialogue n).trans
    ((h n).trans (packets_get ids ks' dialogue n).symm)

/-- The loop of `pull` takes the packets of the dialogue up to the last number asked for. -/
theorem pullEntries_eq {start toSeq : Nat} {entries : List (List Char × ν)}
    (hsorted : entries.Pairwise (fun a b => a.1 < b.1))
    (hentries : ∀ e ∈ entries, e ∈ ks.db.entries ∧ makeKey id start ≤ e.1) :
    pullEntries id toSeq entries
      = .ok (((entries.filterMap (packet? id)).filter (fun e => decide (e.1 ≤ toSeq))).map
          (fun e => ⟨e.1, e.2⟩)) := by
  induction entries with
  | nil => rfl
  | cons e entries ih =>
      obtain ⟨hlt, hsorted'⟩ := List.pairwise_cons.mp hsorted
      have ih := ih hsorted' (fun e he => hentries e (List.mem_cons_of_mem _ he))
      obtain ⟨hmem, hstart⟩ := hentries e List.mem_cons_self
      have hkey := List.mem_map_of_mem (f := Prod.fst) hmem
      rw [pullEntries, show id.text ++ [':'] = id.keyPrefix from rfl]
      by_cases hpre : id.keyPrefix <+: e.1
      · obtain ⟨seq, hu, heq⟩ := number_of_keyPrefix hkey hpre
        have hp : packet? id e = some (seq, e.2) :=
          (packet?_eq_some hmem).mpr (Prod.ext heq rfl)
        rw [if_neg (not_not.mpr hpre), heq, parseSeq_makeKey hu, List.filterMap_cons_some hp]
        dsimp only
        by_cases hto : toSeq < seq
        · rw [if_pos hto, List.filter_eq_nil_iff.mpr, List.map_nil]
          intro p hp'
          rcases List.mem_cons.mp hp' with rfl | hp'
          · simpa using hto
          · obtain ⟨e', he', hp'⟩ := List.mem_filterMap.mp hp'
            have hmem' := (hentries e' (List.mem_cons_of_mem _ he')).1
            have heq' := (packet?_eq_some hmem').mp hp'
            have hk' := List.mem_map_of_mem (f := Prod.fst) hmem'
            have hlt' := hlt e' he'
            rw [heq'] at hk' hlt'
            rw [heq] at hlt'
            have := (makeKey_le hu (number_lt hk')).mp (le_of_lt hlt')
            simp only [decide_eq_true_eq]
            omega
        · rw [if_neg hto, List.filter_cons_of_pos (by simpa using hto), ih]
          rfl
      · have hnil : (e :: entries).filterMap (packet? id) = [] := by
          refine List.filterMap_eq_nil_iff.mpr (fun e' he' => ?_)
          have hne : ¬ id.keyPrefix <+: e'.1 := by
            rcases List.mem_cons.mp he' with rfl | he'
            · exact hpre
            · exact fun hpre' => hpre (prefix_of_between (keyPrefix_makeKey id start) hpre' hstart
                (le_of_lt (hlt e' he')))
          rw [packet?, number?_eq_none hne, Option.map_none]
        rw [if_pos hpre, hnil]
        rfl

/-- **A pull over the keys is the pull of the packets.** -/
theorem pull_eq (ids : DialogueKey → DialogueId) (ks : KeyStore ν) (dialogue : DialogueKey)
    (afterSeq toSeq : Nat) :
    ks.pull (ids dialogue) afterSeq toSeq = (ks.packets ids).pull dialogue afterSeq toSeq := by
  unfold pull PacketStore.pull
  split
  · rfl
  · cases hstart : checkedAdd afterSeq 1 with
    | none => rfl
    | some startSeq =>
        have hu : startSeq < u64Size := by
          obtain ⟨rfl, hlt⟩ := checkedAdd_eq_some.mp hstart
          exact hlt
        have hentries : ∀ e ∈ ks.db.entries.filter (fun e =>
            makeKey (ids dialogue) startSeq ≤ e.1),
            e ∈ ks.db.entries ∧ makeKey (ids dialogue) startSeq ≤ e.1 := by
          intro e he
          obtain ⟨hmem, hle⟩ := List.mem_filter.mp he
          exact ⟨hmem, of_decide_eq_true hle⟩
        dsimp only
        rw [pullEntries_eq (ks.db.sorted.sublist List.filter_sublist) hentries, packets_entries]
        congr 2
        rw [List.filterMap_filter, List.filter_filterMap, List.filter_filterMap]
        refine List.filterMap_congr (fun e he => ?_)
        cases hp : packet? (ids dialogue) e with
        | none => simp
        | some p =>
            have heq := (packet?_eq_some he).mp hp
            have hk := List.mem_map_of_mem (f := Prod.fst) he
            rw [heq] at hk
            have hle : makeKey (ids dialogue) startSeq ≤ makeKey (ids dialogue) p.1 ↔
                startSeq ≤ p.1 := makeKey_le hu (number_lt hk)
            rw [heq]
            by_cases hs : startSeq ≤ p.1
            · simp [hle, hs, Option.filter]
            · simp [hle, hs, Option.filter]

theorem lastSeq_packets (ids : DialogueKey → DialogueId) (ks : KeyStore ν)
    (dialogue : DialogueKey) :
    ks.lastSeq (ids dialogue) = .ok ((ks.packets ids).lastSeq dialogue) := by
  rw [lastSeq_eq, PacketStore.lastSeq, OrdMap.lastKey?, ← packets_live]
  rfl

/-! ### Counting -/

theorem foldl_saturatingAdd {α : Type} (l : List α) {c : Nat} (hc : c < u64Size) :
    l.foldl (fun count _ => saturatingAdd count 1) c = min (c + l.length) (u64Size - 1) := by
  induction l generalizing c with
  | nil =>
      rw [List.foldl_nil, List.length_nil]
      omega
  | cons a l ih =>
      have hlt : saturatingAdd c 1 < u64Size := by
        unfold saturatingAdd
        omega
      rw [List.foldl_cons, ih hlt, List.length_cons]
      unfold saturatingAdd
      omega

theorem length_takeWhile_keyPrefix {start : Nat} {keys : List (List Char)}
    (hsorted : keys.Pairwise (· < ·))
    (hkeys : ∀ k ∈ keys, k ∈ ks.db.keys ∧ makeKey id start ≤ k) :
    (keys.takeWhile (fun k => id.keyPrefix <+: k)).length
      = (keys.filterMap (number? id)).length := by
  induction keys with
  | nil => rfl
  | cons key keys ih =>
      obtain ⟨hlt, hsorted'⟩ := List.pairwise_cons.mp hsorted
      obtain ⟨hkey, hstart⟩ := hkeys key List.mem_cons_self
      by_cases hpre : id.keyPrefix <+: key
      · obtain ⟨seq, hu, heq⟩ := number_of_keyPrefix hkey hpre
        rw [List.takeWhile_cons_of_pos (by simpa using hpre),
          List.filterMap_cons_some ((number?_eq_some hkey).mpr ⟨heq, hu⟩), List.length_cons,
          List.length_cons, ih hsorted' (fun k hk => hkeys k (List.mem_cons_of_mem _ hk))]
      · rw [List.takeWhile_cons_of_neg (by simpa using hpre), List.filterMap_eq_nil_iff.mpr]
        · rfl
        · intro k hk
          rcases List.mem_cons.mp hk with rfl | hk
          · exact number?_eq_none hpre
          · exact number?_eq_none (fun hpre' => hpre
              (prefix_of_between (keyPrefix_makeKey id start) hpre' hstart (le_of_lt (hlt k hk))))

/-- The count is that of the numbers, as far as a `u64` goes. -/
theorem countAfter_eq (ks : KeyStore ν) (id : DialogueId) (afterSeq : Nat) :
    ks.countAfter id afterSeq = min ((ks.live id).filter
      (fun s => saturatingAdd afterSeq 1 ≤ s)).length (u64Size - 1) := by
  have hu : saturatingAdd afterSeq 1 < u64Size := by
    have : 0 < u64Size := by decide
    unfold saturatingAdd
    omega
  have hkeys : ∀ k ∈ ks.db.keys.filter (fun k => makeKey id (saturatingAdd afterSeq 1) ≤ k),
      k ∈ ks.db.keys ∧ makeKey id (saturatingAdd afterSeq 1) ≤ k := by
    intro k hk
    obtain ⟨hmem, hle⟩ := List.mem_filter.mp hk
    exact ⟨hmem, of_decide_eq_true hle⟩
  rw [countAfter, foldl_saturatingAdd _ (by decide), Nat.zero_add,
    length_takeWhile_keyPrefix (ks.db.keys_sorted.sublist List.filter_sublist) hkeys,
    filterMap_from hu]

end KeyStore

/-- A hash that can be computed: a text as a number, in binary. -/
def binaryHash (s : String) : DialogueId where
  text := (List.range 64).map (fun i =>
    if (s.toList.foldl (fun n (c : Char) => 32 * n + c.toNat) 0).testBit i then '1' else '0')
  length := by simp
  hex c hc := by
    obtain ⟨i, -, rfl⟩ := List.mem_map.mp hc
    split <;> decide

end Paranoia
