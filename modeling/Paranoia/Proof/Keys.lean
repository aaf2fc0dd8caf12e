import Paranoia.Lib.Lexical
import Paranoia.Server.Keys

/-!
# Scanning the keys

The keys of a dialogue's packets stand together in the order of the database, and in the
order of their numbers: no other kind of key begins like them. A scan of the keys is
therefore a scan of the numbers, whatever else the database holds, and the map read off the
keys is that of a `PacketStore` with the same packets.
-/

namespace Paranoia

open Lexical

/-! ## The keys of a dialogue -/

theorem DialogueId.ext_text {i j : DialogueId} (h : i.text = j.text) : i = j := by
  cases i
  cases j
  cases h
  rfl

namespace StoreKey

variable {id : DialogueId} {m n : Nat}

theorem keyPrefix_makeKey (id : DialogueId) (n : Nat) : id.keyPrefix <+: makeKey id n :=
  ⟨Decimal.padded 20 n, by simp [DialogueId.keyPrefix, makeKey]⟩

/-- Keys compare as their numbers. -/
theorem makeKey_le (hm : m < u64Size) (hn : n < u64Size) :
    makeKey id m ≤ makeKey id n ↔ m ≤ n := by
  have hpad : ∀ {i j : Nat}, i < u64Size → j < u64Size →
      (Decimal.padded 20 i < Decimal.padded 20 j ↔ i < j) := by
    intro i j hi hj
    have hle : u64Size ≤ 10 ^ 20 := by decide
    exact Decimal.padded_lt_padded (by decide) (by omega) (by omega)
  have hlt : ∀ {i j : Nat}, i < u64Size → j < u64Size → i < j → makeKey id i < makeKey id j := by
    intro i j hi hj hij
    exact List.append_left_lt (List.cons_lt_cons_iff.mpr (Or.inr ⟨rfl, (hpad hi hj).mpr hij⟩))
  rcases Nat.lt_trichotomy m n with h | rfl | h
  · exact iff_of_true (le_of_lt (hlt hm hn h)) (Nat.le_of_lt h)
  · exact iff_of_true (le_refl _) (Nat.le_refl _)
  · exact iff_of_false (not_le.mpr (hlt hn hm h)) (Nat.not_le.mpr h)

theorem parseSeq_makeKey (h : n < u64Size) : parseSeq (makeKey id n) id = .ok n := by
  unfold parseSeq makeKey
  rw [List.append_cons, List.drop_left' (by simp), Decimal.parse_padded h]

/-- No other kind of key begins like those of a dialogue's packets. -/
theorem packet_of_keyPrefix {key : StoreKey} (h : id.keyPrefix <+: key.text) :
    ∃ seq, key = packet id seq := by
  have hlen := id.length
  -- the hexadecimal digits are neither `r` nor `p`
  have hdigit : ∀ i, i < 64 → key.text[i]? = some 'r' ∨ key.text[i]? = some 'p' → False := by
    intro i hi hget
    obtain ⟨rest, hrest⟩ := h
    have hat : key.text[i]? = id.text[i]? := by
      rw [← hrest, DialogueId.keyPrefix, List.append_assoc,
        List.getElem?_append_left (by omega)]
    rw [hat] at hget
    rcases hget with hget | hget
    · exact absurd (id.hex _ (List.mem_of_getElem? hget)) (by decide)
    · exact absurd (id.hex _ (List.mem_of_getElem? hget)) (by decide)
  cases key with
  | packet id' seq =>
      refine ⟨seq, ?_⟩
      have hpre : id.text <+: id'.text :=
        List.prefix_of_prefix_length_le ((List.prefix_append _ _).trans h)
          (List.prefix_append _ _) (by rw [id.length, id'.length])
      have heq := hpre.eq_of_length (by rw [id.length, id'.length])
      rw [DialogueId.ext_text heq]
  | receipt username id' => exact (hdigit 0 (by decide) (Or.inl rfl)).elim
  | ephChunk id' fileId i => exact (hdigit 1 (by decide) (Or.inr rfl)).elim
  | ephMeta id' fileId => exact (hdigit 1 (by decide) (Or.inr rfl)).elim

/-- No key is the bound that the last number is looked for from. -/
theorem text_ne_upper (key : StoreKey) : key.text ≠ id.text ++ [';'] := by
  intro h
  have hlen := id.length
  have hat : ∀ i, i < 64 → key.text[i]? = id.text[i]? := by
    intro i hi
    rw [h, List.getElem?_append_left (by omega)]
  have hhex : ∀ (i : Nat) (c : Char), i < 64 → key.text[i]? = some c →
      c ∈ "0123456789abcdef".toList := by
    intro i c hi hget
    rw [hat i hi] at hget
    exact id.hex c (List.mem_of_getElem? hget)
  cases key with
  | packet id' seq =>
      -- the character after the hash is a colon
      have h64 := congrArg (fun l => l[64]?) h
      simp only [text, makeKey] at h64
      rw [List.getElem?_append_right (by rw [id'.length]), List.getElem?_append_right (by omega),
        id'.length, hlen] at h64
      cases h64
  | receipt username id' => exact absurd (hhex 0 'r' (by decide) rfl) (by decide)
  | ephChunk id' fileId i => exact absurd (hhex 1 'p' (by decide) rfl) (by decide)
  | ephMeta id' fileId => exact absurd (hhex 1 'p' (by decide) rfl) (by decide)

end StoreKey

/-! ## A scan of the keys is a scan of the numbers -/

namespace KeyStore

open StoreKey

variable {ν : Type} {ks : KeyStore ν} {id : DialogueId} {seq : Nat}

/-- The numbers of the dialogue are read off its keys. -/
theorem number?_eq_some {k : List Char} (hk : k ∈ ks.db.keys) :
    number? id k = some seq ↔ k = makeKey id seq ∧ seq < u64Size := by
  unfold number?
  constructor
  · intro h
    split at h
    · rename_i hpre
      obtain ⟨key, hbound, rfl⟩ := ks.known k hk
      obtain ⟨n, rfl⟩ := packet_of_keyPrefix hpre
      rw [text, parseSeq_makeKey hbound] at h
      cases h
      exact ⟨rfl, hbound⟩
    · cases h
  · rintro ⟨rfl, hu⟩
    rw [if_pos (keyPrefix_makeKey id seq), parseSeq_makeKey hu]
    rfl

theorem number?_eq_none {k : List Char} (h : ¬ id.keyPrefix <+: k) : number? id k = none :=
  if_neg h

/-- A key with the dialogue's beginning holds a number. -/
theorem number_of_keyPrefix {k : List Char} (hk : k ∈ ks.db.keys) (h : id.keyPrefix <+: k) :
    ∃ seq, seq < u64Size ∧ k = makeKey id seq := by
  obtain ⟨key, hbound, rfl⟩ := ks.known k hk
  obtain ⟨n, rfl⟩ := packet_of_keyPrefix h
  exact ⟨n, hbound, rfl⟩

theorem mem_live : seq ∈ ks.live id ↔ makeKey id seq ∈ ks.db.keys ∧ seq < u64Size := by
  unfold live
  rw [List.mem_filterMap]
  constructor
  · rintro ⟨k, hk, hnum⟩
    obtain ⟨rfl, hu⟩ := (number?_eq_some hk).mp hnum
    exact ⟨hk, hu⟩
  · rintro ⟨hk, hu⟩
    exact ⟨_, hk, (number?_eq_some hk).mpr ⟨rfl, hu⟩⟩

theorem live_sorted (ks : KeyStore ν) (id : DialogueId) : (ks.live id).Pairwise (· < ·) := by
  refine List.pairwise_filterMap.mpr ?_
  refine ks.db.keys_sorted.imp_of_mem (fun {k k'} hk hk' hlt m hm n hn => ?_)
  obtain ⟨rfl, hum⟩ := (number?_eq_some hk).mp hm
  obtain ⟨rfl, hun⟩ := (number?_eq_some hk').mp hn
  exact Nat.lt_of_not_le (fun hle => not_le.mpr hlt ((makeKey_le hun hum).mpr hle))

/-- The loop over the keys is the loop over the numbers: from the first key of something else
on, there is no number of the dialogue. -/
theorem scanKeys_eq {start : Nat} {toSeq maxRuns : Nat} :
    ∀ (keys : List (List Char)) (runs : List (Nat × Nat)) (current : Option (Nat × Nat)),
      keys.Pairwise (· < ·) → (∀ k ∈ keys, k ∈ ks.db.keys ∧ makeKey id start ≤ k) →
      scanKeys id toSeq maxRuns keys runs current
        = .ok (PacketStore.scanRuns toSeq maxRuns (keys.filterMap (number? id)) runs current) := by
  intro keys
  induction keys with
  | nil => exact fun _ _ _ _ => rfl
  | cons key rest ih =>
      intro runs current hsorted hkeys
      obtain ⟨hlt, hsorted'⟩ := List.pairwise_cons.mp hsorted
      have hkeys' : ∀ k ∈ rest, k ∈ ks.db.keys ∧ makeKey id start ≤ k :=
        fun k hk => hkeys k (List.mem_cons_of_mem _ hk)
      obtain ⟨hkey, hstart⟩ := hkeys key List.mem_cons_self
      rw [scanKeys]
      by_cases hpre : id.keyPrefix <+: key
      · obtain ⟨seq, hu, rfl⟩ := number_of_keyPrefix hkey hpre
        have hnum : number? id (makeKey id seq) = some seq :=
          (number?_eq_some hkey).mpr ⟨rfl, hu⟩
        rw [if_neg (not_not.mpr hpre), parseSeq_makeKey hu, List.filterMap_cons_some hnum,
          PacketStore.scanRuns.eq_def]
        dsimp only
        split
        · rfl
        · cases current with
          | none =>
              dsimp only
              split
              · rfl
              · exact ih _ _ hsorted' hkeys'
          | some cur =>
              dsimp only
              split
              · exact ih _ _ hsorted' hkeys'
              · split
                · rfl
                · exact ih _ _ hsorted' hkeys'
      · -- the keys of the dialogue stand together
        have hnone : (key :: rest).filterMap (number? id) = [] := by
          refine List.filterMap_eq_nil_iff.mpr (fun k hk => ?_)
          rcases List.mem_cons.mp hk with rfl | hk
          · exact number?_eq_none hpre
          · refine number?_eq_none (fun hpre' => hpre ?_)
            exact prefix_of_between (keyPrefix_makeKey id start) hpre' hstart
              (le_of_lt (hlt k hk))
        rw [if_pos hpre, hnone, PacketStore.scanRuns.eq_def]

/-- The numbers from `start` on are those of the keys from its key on. -/
theorem filterMap_from {start : Nat} (hstart : start < u64Size) :
    (ks.db.keys.filter (fun k => makeKey id start ≤ k)).filterMap (number? id)
      = (ks.live id).filter (fun s => start ≤ s) := by
  unfold live
  rw [List.filterMap_filter, List.filter_filterMap]
  refine List.filterMap_congr (fun k hk => ?_)
  cases hnum : number? id k with
  | none => simp
  | some seq =>
      obtain ⟨rfl, hu⟩ := (number?_eq_some hk).mp hnum
      simp [makeKey_le hstart hu, Option.filter]

/-- **A scan of the keys is a scan of the numbers**, whatever else the database holds. -/
theorem mapRuns_eq (ks : KeyStore ν) (id : DialogueId) (afterSeq toSeq maxRuns : Nat) :
    ks.mapRuns id afterSeq toSeq maxRuns = .ok (match checkedAdd afterSeq 1 with
      | none => ([], false)
      | some startSeq => PacketStore.scanRuns toSeq maxRuns
          ((ks.live id).filter (fun s => startSeq ≤ s)) [] none) := by
  unfold mapRuns
  cases hstart : checkedAdd afterSeq 1 with
  | none => rfl
  | some startSeq =>
      have hu : startSeq < u64Size := by
        obtain ⟨rfl, hlt⟩ := checkedAdd_eq_some.mp hstart
        exact hlt
      have hkeys : ∀ k ∈ ks.db.keys.filter (fun k => makeKey id startSeq ≤ k),
          k ∈ ks.db.keys ∧ makeKey id startSeq ≤ k := by
        intro k hk
        obtain ⟨hmem, hle⟩ := List.mem_filter.mp hk
        exact ⟨hmem, of_decide_eq_true hle⟩
      dsimp only
      rw [scanKeys_eq _ [] none (ks.db.keys_sorted.sublist List.filter_sublist) hkeys,
        filterMap_from hu]

/-- **The step back finds the greatest number.** -/
theorem lastSeq_eq (ks : KeyStore ν) (id : DialogueId) :
    ks.lastSeq id = .ok ((ks.live id).getLast?.getD 0) := by
  have hbelow : ∀ n, makeKey id n ≤ id.text ++ [';'] := by
    intro n
    refine le_of_lt (List.append_left_lt ?_)
    exact List.cons_lt_cons_iff.mpr (Or.inl (by decide))
  have hsorted := ks.db.keys_sorted.sublist
    (List.filter_sublist (p := fun k => k ≤ id.text ++ [';']))
  unfold lastSeq
  cases hlast : (ks.db.keys.filter (fun k => k ≤ id.text ++ [';'])).getLast? with
  | none =>
      -- no key at all up to there
      have hlive : ks.live id = [] := by
        refine List.eq_nil_iff_forall_not_mem.mpr (fun n hn => ?_)
        have hmem : makeKey id n ∈ ks.db.keys.filter (fun k => k ≤ id.text ++ [';']) :=
          List.mem_filter.mpr ⟨(mem_live.mp hn).1, decide_eq_true (hbelow n)⟩
        rw [List.getLast?_eq_none_iff.mp hlast] at hmem
        exact absurd hmem List.not_mem_nil
      rw [hlive]
      rfl
  | some key =>
      obtain ⟨hkey, hle⟩ := List.mem_filter.mp (List.mem_of_getLast? hlast)
      have hmax : ∀ n ∈ ks.live id, makeKey id n ≤ key := fun n hn =>
        OrdMap.le_getLast? hsorted hlast _
          (List.mem_filter.mpr ⟨(mem_live.mp hn).1, decide_eq_true (hbelow n)⟩)
      dsimp only
      by_cases hpre : id.keyPrefix <+: key
      · obtain ⟨m, hm, rfl⟩ := number_of_keyPrefix hkey hpre
        have hmem : m ∈ ks.live id := mem_live.mpr ⟨hkey, hm⟩
        rw [if_pos hpre, parseSeq_makeKey hm]
        cases hn : (ks.live id).getLast? with
        | none =>
            rw [List.getLast?_eq_none_iff.mp hn] at hmem
            exact absurd hmem List.not_mem_nil
        | some n =>
            have hn' := List.mem_of_getLast? hn
            have hle' := (makeKey_le (mem_live.mp hn').2 hm).mp (hmax n hn')
            have hge := OrdMap.le_getLast? (ks.live_sorted id) hn m hmem
            rw [Option.getD_some, Nat.le_antisymm hge hle']
      · -- between the keys of the dialogue and the bound there is nothing
        have hlive : ks.live id = [] := by
          refine List.eq_nil_iff_forall_not_mem.mpr (fun n hn => hpre ?_)
          have hsucc : ∀ z : Char, ':' ≤ z → z ≤ ';' → z = ':' ∨ z = ';' := by
            intro z hz hz'
            have h1 : ':'.toNat ≤ z.toNat := hz
            have h2 : z.toNat ≤ ';'.toNat := hz'
            have h3 : ':'.toNat = 58 ∧ ';'.toNat = 59 := ⟨rfl, rfl⟩
            rcases (show z.toNat = ':'.toNat ∨ z.toNat = ';'.toNat by omega) with h | h
            · exact Or.inl (Char.toNat_inj.mp h)
            · exact Or.inr (Char.toNat_inj.mp h)
          refine (prefix_of_between_succ hsucc (keyPrefix_makeKey id n) (hmax n hn)
            (of_decide_eq_true hle)).resolve_right (fun heq => ?_)
          obtain ⟨k, _, hk⟩ := ks.known key hkey
          exact text_ne_upper k (hk.trans heq)
        rw [if_neg hpre, hlive]
        rfl

/-- The packets of every dialogue, each dialogue for itself and in numeric order. -/
def packets (ids : DialogueKey → DialogueId) (ks : KeyStore ν) : PacketStore ν where
  db dialogue :=
    { entries := ks.db.entries.filterMap (fun e => (number? (ids dialogue) e.1).map (fun s => (s, e.2)))
      sorted := by
        refine List.pairwise_filterMap.mpr ?_
        refine ks.db.sorted.imp_of_mem (fun {e e'} he he' hlt a ha b hb => ?_)
        obtain ⟨m, hm, rfl⟩ := Option.map_eq_some_iff.mp ha
        obtain ⟨n, hn, rfl⟩ := Option.map_eq_some_iff.mp hb
        obtain ⟨h, hum⟩ := (number?_eq_some (List.mem_map_of_mem he)).mp hm
        obtain ⟨h', hun⟩ := (number?_eq_some (List.mem_map_of_mem he')).mp hn
        rw [h, h'] at hlt
        exact Nat.lt_of_not_le (fun hle => not_le.mpr hlt ((makeKey_le hun hum).mpr hle)) }

theorem packets_live (ids : DialogueKey → DialogueId) (ks : KeyStore ν) (dialogue : DialogueKey) :
    (ks.packets ids).live dialogue = ks.live (ids dialogue) := by
  unfold PacketStore.live packets live OrdMap.keys
  dsimp only
  rw [List.map_filterMap, List.filterMap_map]
  refine List.filterMap_congr (fun e _ => ?_)
  simp only [Function.comp_apply, Option.map_map]
  cases number? (ids dialogue) e.1 <;> rfl

/-- **The map read off the keys is that of the packets of the dialogue.** -/
theorem map_eq (ids : DialogueKey → DialogueId) (ks : KeyStore ν) (dialogue : DialogueKey)
    (afterSeq toSeq maxRuns : Nat) :
    ks.map (ids dialogue) afterSeq toSeq maxRuns
      = (ks.packets ids).map dialogue afterSeq toSeq maxRuns := by
  have hscan : (ks.packets ids).mapRuns dialogue afterSeq toSeq maxRuns
      = match checkedAdd afterSeq 1 with
        | none => ([], false)
        | some startSeq => PacketStore.scanRuns toSeq maxRuns
            ((ks.live (ids dialogue)).filter (fun s => startSeq ≤ s)) [] none := by
    cases hstart : checkedAdd afterSeq 1 with
    | none => simp only [PacketStore.mapRuns, hstart]
    | some startSeq => simp only [PacketStore.mapRuns, hstart, packets_live]
  have hlast : (ks.packets ids).lastSeq dialogue = (ks.live (ids dialogue)).getLast?.getD 0 := by
    rw [PacketStore.lastSeq, OrdMap.lastKey?, ← packets_live]
    rfl
  unfold map PacketStore.map
  rw [mapRuns_eq, lastSeq_eq, hscan, hlast]

end KeyStore

end Paranoia
