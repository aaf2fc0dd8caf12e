import Paranoia.Cover.Engine
import Paranoia.Proof.Exchange

/-!
# Taking a cover off

The pieces of a packet are found where they were put, unless something that was put in later has
spoiled their place: another piece, or a decoy. Nothing in the validation of a profile rules that
out, and where two carriers are one field the packet is lost (`packet_overwritten`). Where no write
clashes with an earlier carrier, what was wrapped is unwrapped (`unwrap_wrap`); the next module shows
that nowhere else it always is.
-/

namespace Paranoia

/-! ## Shuffling -/

theorem swap_perm {α : Type} (items : List α) (i j : Nat) : (swap items i j).Perm items := by
  unfold swap
  split
  · rename_i a b ha hb
    obtain ⟨hi, rfl⟩ := List.getElem?_eq_some_iff.mp ha
    obtain ⟨hj, rfl⟩ := List.getElem?_eq_some_iff.mp hb
    exact List.set_set_perm hi hj
  · exact .refl _

theorem fisherYatesFrom_perm {α : Type} (i : Nat) (items : List α) (rng : Rng) :
    (fisherYatesFrom i items rng).1.Perm items := by
  induction i generalizing items rng with
  | zero => exact .refl _
  | succ i ih => exact (ih _ _).trans (swap_perm _ _ _)

theorem fisherYates_perm {α : Type} (items : List α) (rng : Rng) :
    (fisherYates items rng).1.Perm items := fisherYatesFrom_perm _ _ _

theorem keys_shuffleFields (fields : List (String × Json)) (rng : Rng) :
    (shuffleFields fields rng).1.map Prod.fst = fields.map Prod.fst := by
  induction fields generalizing rng with
  | nil => rfl
  | cons f fields ih =>
      obtain ⟨k, v⟩ := f
      simp [shuffleFields, ih]

theorem lookup_shuffleFields (fields : List (String × Json)) (rng : Rng) (k : String) :
    ∃ rng', Json.lookup k (shuffleFields fields rng).1
      = (Json.lookup k fields).map (fun v => (shuffleObjectKeys v rng').1) := by
  induction fields generalizing rng with
  | nil => exact ⟨[], rfl⟩
  | cons f fields ih =>
      obtain ⟨l, v⟩ := f
      by_cases hlk : l = k
      · exact ⟨rng, by simp [shuffleFields, Json.lookup, hlk]⟩
      · obtain ⟨rng', hrng'⟩ := ih (shuffleObjectKeys v rng).2
        exact ⟨rng', by simpa [shuffleFields, Json.lookup, hlk] using hrng'⟩

theorem getElem?_shuffleItems (items : List Json) (rng : Rng) (i : Nat) :
    ∃ rng', (shuffleItems items rng).1[i]?
      = items[i]?.map (fun v => (shuffleObjectKeys v rng').1) := by
  induction items generalizing rng i with
  | nil => exact ⟨[], rfl⟩
  | cons v items ih =>
      cases i with
      | zero => exact ⟨rng, by simp [shuffleItems]⟩
      | succ i =>
          obtain ⟨rng', hrng'⟩ := ih (shuffleObjectKeys v rng).2 i
          exact ⟨rng', by simpa [shuffleItems] using hrng'⟩

/-- What is at a path is still there, with its own keys in another order. -/
theorem get_shuffle {v : Json} (hv : v.Tidy) (rng : Rng) (p : List Json.Step) :
    ∃ rng', (shuffleObjectKeys v rng).1.get p
      = (v.get p).map (fun x => (shuffleObjectKeys x rng').1) := by
  induction p generalizing v rng with
  | nil => exact ⟨rng, by rw [Json.get, Json.get, Option.map_some]⟩
  | cons s p ih =>
      cases s with
      | index i =>
          cases v with
          | arr items =>
              obtain ⟨rng₁, h₁⟩ := getElem?_shuffleItems items rng i
              cases hi : items[i]? with
              | none =>
                  refine ⟨[], ?_⟩
                  rw [hi] at h₁
                  simp [shuffleObjectKeys, Json.get, h₁, hi]
              | some w =>
                  obtain ⟨rng₂, h₂⟩ := ih (Json.tidy_arr.mp hv i w hi) rng₁
                  refine ⟨rng₂, ?_⟩
                  rw [hi] at h₁
                  simpa [shuffleObjectKeys, Json.get, h₁, hi] using h₂
          | null | bool | num | str | obj => exact ⟨[], by simp [shuffleObjectKeys, Json.get]⟩
      | key k =>
          cases v with
          | obj fields =>
              have hfields := Json.tidy_obj.mp hv
              obtain ⟨rng₁, h₁⟩ := lookup_shuffleFields fields rng k
              have hperm : Json.lookup k
                  (fisherYates (shuffleFields fields rng).1 (shuffleFields fields rng).2).1
                  = Json.lookup k (shuffleFields fields rng).1 := by
                refine (Json.lookup_perm (fisherYates_perm _ _).symm ?_ k).symm
                rw [keys_shuffleFields]
                exact hfields.1
              cases hk : Json.lookup k fields with
              | none =>
                  refine ⟨[], ?_⟩
                  rw [hk] at h₁
                  simp [shuffleObjectKeys, Json.get, hperm, h₁, hk]
              | some w =>
                  obtain ⟨rng₂, h₂⟩ := ih (hfields.2 k w hk) rng₁
                  refine ⟨rng₂, ?_⟩
                  rw [hk] at h₁
                  simpa [shuffleObjectKeys, Json.get, hperm, h₁, hk] using h₂
          | null | bool | num | str | arr => exact ⟨[], by simp [shuffleObjectKeys, Json.get]⟩

/-! ## Pieces -/

theorem length_splitLoop (base rem k i : Nat) (rest : List UInt8) :
    (splitLoop base rem k i rest).length = k := by
  induction k generalizing i rest with
  | zero => rfl
  | succ k ih => simp [splitLoop, ih]

theorem flatten_splitLoop (base rem k i : Nat) (rest : List UInt8) :
    (splitLoop base rem k i rest).flatten
      = rest.take (base * k + (min rem (i + k) - min rem i)) := by
  induction k generalizing i rest with
  | zero => simp [splitLoop]
  | succ k ih =>
      rw [splitLoop, List.flatten_cons, ih, ← List.take_add]
      congr 1
      rw [Nat.mul_succ]
      split <;> omega

theorem length_split (data : List UInt8) (n : Nat) : (split data n).length = n := by
  unfold split
  split
  · rename_i hn
    rw [hn, List.length_nil]
  · exact length_splitLoop _ _ _ _ _

theorem flatten_split (data : List UInt8) {n : Nat} (hn : 0 < n) :
    (split data n).flatten = data := by
  have hmod : data.length % n < n := Nat.mod_lt _ hn
  have hdiv : data.length / n * n + data.length % n = data.length := Nat.div_add_mod' _ _
  unfold split
  rw [if_neg (by omega), flatten_splitLoop, List.take_of_length_le]
  omega

theorem b64Decode_encode (bytes : List UInt8) : b64Decode (b64Encode bytes) = .ok bytes := by
  unfold b64Decode b64Encode
  rw [String.toList_ofList, decodeB64_encodeB64]
  have hmap : bytes.map (UInt8.ofNat ∘ UInt8.toNat) = bytes := by
    conv_rhs => rw [← List.map_id bytes]
    exact List.map_congr_left (fun _ _ => UInt8.ofNat_toNat)
  simp [hmap]

/-! ## Packets -/

theorem setPath_eq_ok {v v' leaf : Json} {path : String} :
    setPath v path leaf = .ok v' ↔ v.write (steps path) leaf = .ok v' := by
  unfold setPath
  split <;> simp_all

theorem setAll_cons {out out' leaf : Json} {path : String} {writes : List (String × Json)}
    (h : setAll out ((path, leaf) :: writes) = .ok out') :
    ∃ mid, out.write (steps path) leaf = .ok mid ∧ setAll mid writes = .ok out' := by
  rw [setAll] at h
  cases hs : setPath out path leaf with
  | error e =>
      rw [hs] at h
      cases h
  | ok mid =>
      rw [hs] at h
      exact ⟨mid, setPath_eq_ok.mp hs, h⟩

theorem tidy_setAll {out out' : Json} {writes : List (String × Json)} (hout : out.Tidy)
    (hwrites : ∀ w ∈ writes, w.2.Tidy) (h : setAll out writes = .ok out') : out'.Tidy := by
  induction writes generalizing out with
  | nil =>
      cases h
      exact hout
  | cons w writes ih =>
      obtain ⟨mid, hmid, h⟩ := setAll_cons h
      exact ih (Json.tidy_write hout (hwrites w List.mem_cons_self) hmid)
        (fun w' hw' => hwrites w' (List.mem_cons_of_mem _ hw')) h

/-- What nothing clashes with stays. -/
theorem get_setAll {out out' x : Json} {q : List Json.Step} {writes : List (String × Json)}
    (hclash : ∀ w ∈ writes, Json.Clash q (steps w.1) = false) (hget : out.get q = some x)
    (h : setAll out writes = .ok out') : out'.get q = some x := by
  induction writes generalizing out with
  | nil =>
      cases h
      exact hget
  | cons w writes ih =>
      obtain ⟨mid, hmid, h⟩ := setAll_cons h
      exact ih (fun w' hw' => hclash w' (List.mem_cons_of_mem _ hw'))
        (Json.get_write_of_not_clash (hclash w List.mem_cons_self) hget hmid) h

/-- Writes that do not clash with each other are all there in the end. -/
theorem getPath_setAll {out out' : Json} {writes : List (String × Json)}
    (hclash : writes.Pairwise (fun a b => Json.Clash (steps a.1) (steps b.1) = false))
    (h : setAll out writes = .ok out') : ∀ w ∈ writes, getPath out' w.1 = some w.2 := by
  induction writes generalizing out with
  | nil => simp
  | cons w writes ih =>
      obtain ⟨mid, hmid, htail⟩ := setAll_cons h
      obtain ⟨hfirst, hrest⟩ := List.pairwise_cons.mp hclash
      intro w' hw'
      rcases List.mem_cons.mp hw' with rfl | hw'
      · exact get_setAll hfirst (Json.get_write hmid) htail
      · exact ih hrest htail w' hw'

theorem drawOptional_sublist (opts : List OptionalField) (rng : Rng) :
    (drawOptional opts rng).1.Sublist opts := by
  induction opts generalizing rng with
  | nil => exact .refl _
  | cons opt opts ih =>
      rw [drawOptional]
      dsimp only
      split
      · exact (ih _).cons_cons _
      · exact (ih _).cons _

namespace SchemaVariant

/-- With these decoys, something can be written at every place. -/
def Writable (variant : SchemaVariant) (drawn : List OptionalField) : Prop :=
  ∃ pieces : List String, ∃ out mid, pieces.length = variant.carriers.length
    ∧ setAll variant.template (variant.carriers.zip (pieces.map .str)) = .ok mid
    ∧ setAll mid (drawn.map (fun opt => (opt.path, opt.value))) = .ok out

/-- With these decoys, no write clashes with an earlier carrier. -/
def Clear (variant : SchemaVariant) (drawn : List OptionalField) : Prop :=
  (variant.carriers.Pairwise (fun q p => Json.Clash (steps q) (steps p) = false))
    ∧ ∀ q ∈ variant.carriers, ∀ opt ∈ drawn, Json.Clash (steps q) (steps opt.path) = false

/-- Whichever decoys are drawn, either the packet cannot be built or nothing clashes. -/
def Apart (variant : SchemaVariant) : Prop :=
  ∀ drawn, drawn.Sublist variant.optional → variant.Writable drawn → variant.Clear drawn

end SchemaVariant

theorem mapM_eq_some {α β : Type} {f : α → Option β} {as : List α} {bs : List β}
    (hlen : as.length = bs.length) (h : ∀ x ∈ as.zip bs, f x.1 = some x.2) :
    as.mapM f = some bs := by
  induction as generalizing bs with
  | nil =>
      obtain rfl := List.length_eq_zero_iff.mp hlen.symm
      rfl
  | cons a as ih =>
      cases bs with
      | nil => simp at hlen
      | cons b bs =>
          have hhead : f a = some b := h (a, b) (by simp)
          have htail : as.mapM f = some bs :=
            ih (by simpa using hlen) (fun x hx => h x (by simp [hx]))
          rw [List.mapM_cons, hhead, htail]
          rfl

/-- The pieces of a packet are found again. -/
theorem extract_buildPacket {variant : SchemaVariant} {bytes : List UInt8} {rng : Rng}
    {body : Json} (hapart : variant.Apart) (hcarriers : variant.carriers ≠ [])
    (h : buildPacket variant bytes rng = .ok body) : extract variant body = some bytes := by
  unfold buildPacket at h
  dsimp only at h
  generalize hchunks : split bytes variant.carriers.length = chunks at h
  have hlen : variant.carriers.length = chunks.length := by rw [← hchunks, length_split]
  generalize hwrites : variant.carriers.zip (chunks.map (fun chunk => Json.str (b64Encode chunk)))
    = writes at h
  cases hmid : setAll variant.template writes with
  | error e =>
      rw [hmid] at h
      cases h
  | ok mid =>
      rw [hmid] at h
      have hsub := drawOptional_sublist variant.optional rng
      generalize drawOptional variant.optional rng = out at h hsub
      obtain ⟨drawn, rng'⟩ := out
      cases hout : setAll mid (drawn.map (fun opt => (opt.path, opt.value))) with
      | error e =>
          simp [bind, Except.bind, hout] at h
      | ok full =>
          have hbody : (shuffleObjectKeys full rng').1 = body := by
            simpa [bind, Except.bind, hout] using h
          have hclear := hapart drawn hsub ⟨chunks.map b64Encode, full, mid, by simp [hlen], by
            rw [List.map_map]
            exact hwrites ▸ hmid, hout⟩
          have hmid_tidy : mid.Tidy := by
            refine tidy_setAll variant.tidy (fun w hw => ?_) hmid
            rw [← hwrites] at hw
            obtain ⟨chunk, _, hchunk⟩ := List.mem_map.mp (List.of_mem_zip hw).2
            rw [← hchunk]
            exact Json.tidy_str _
          have hfull_tidy : full.Tidy := by
            refine tidy_setAll hmid_tidy (fun w hw => ?_) hout
            obtain ⟨opt, _, rfl⟩ := List.mem_map.mp hw
            exact opt.tidy
          have hpairs : writes.Pairwise
              (fun a b => Json.Clash (steps a.1) (steps b.1) = false) := by
            have hfst : writes.map Prod.fst = variant.carriers := by
              rw [← hwrites, List.map_fst_zip]
              rw [List.length_map, hlen]
            exact List.pairwise_map.mp (hfst ▸ hclear.1)
          -- every piece is where it was put
          have hread : ∀ x ∈ variant.carriers.zip chunks,
              ((getPath body x.1).bind asStr).bind (fun s => (b64Decode s).toOption)
                = some x.2 := by
            intro x hx
            have hwrite : (x.1, Json.str (b64Encode x.2)) ∈ writes := by
              rw [← hwrites, List.zip_map_right]
              exact List.mem_map.mpr ⟨x, hx, rfl⟩
            have hput := getPath_setAll hpairs hmid _ hwrite
            have hstay : full.get (steps x.1) = some (.str (b64Encode x.2)) := by
              refine get_setAll (fun w hw => ?_) hput hout
              obtain ⟨opt, hopt, rfl⟩ := List.mem_map.mp hw
              exact hclear.2 x.1 (List.of_mem_zip hx).1 opt hopt
            obtain ⟨rng'', hshuffle⟩ := get_shuffle hfull_tidy rng' (steps x.1)
            rw [getPath, ← hbody, hshuffle, hstay]
            simp [shuffleObjectKeys, asStr, b64Decode_encode, Except.toOption]
          unfold extract
          rw [mapM_eq_some hlen hread, Option.map_some, ← hchunks, flatten_split]
          exact List.length_pos_of_ne_nil hcarriers

/-! ## The whole way -/

/-- The nonce a packet is sealed under, after the variant has been drawn. -/
def wrapNonce (rng : Rng) : List UInt8 := (fillBytes nonceLen (nextU32 rng).2).1

/-- What was sealed opens, and as nothing else was, nothing else does. -/
structure CoverCipher.Opens (C : CoverCipher) (key nonce plain ciphertext : List UInt8) : Prop where
  opens : C.decrypt key nonce ciphertext = some plain
  only : ∀ nonce' ciphertext', C.decrypt key nonce' ciphertext' ≠ none →
    nonce' = nonce ∧ ciphertext' = ciphertext

theorem length_fillBytes (n : Nat) (rng : Rng) : (fillBytes n rng).1.length = n := by
  induction n generalizing rng with
  | zero => rfl
  | succ n ih => simp [fillBytes, ih]

theorem openWith_sealed {C : CoverCipher} {key nonce plain ciphertext bytes opened : List UInt8}
    (hC : C.Opens key nonce plain ciphertext)
    (h : openWith C key bytes = .ok opened) : bytes = nonce ++ ciphertext ∧ opened = plain := by
  unfold openWith at h
  split at h
  · cases h
  · cases hd : C.decrypt key (bytes.take nonceLen) (bytes.drop nonceLen) with
    | none =>
        rw [hd] at h
        cases h
    | some m =>
        rw [hd] at h
        cases h
        obtain ⟨htake, hdrop⟩ := hC.only _ _ (by rw [hd]; exact Option.some_ne_none _)
        rw [htake, hdrop, hC.opens] at hd
        refine ⟨?_, (Option.some.inj hd).symm⟩
        rw [← htake, ← hdrop, List.take_append_drop]

theorem openWith_self {C : CoverCipher} {key nonce plain ciphertext : List UInt8}
    (hnonce : nonce.length = nonceLen) (hC : C.Opens key nonce plain ciphertext) :
    openWith C key (nonce ++ ciphertext) = .ok plain := by
  unfold openWith
  rw [if_neg (by simp [hnonce]), List.take_left' hnonce, List.drop_left' hnonce, hC.opens]

section Validated

variable {profile : MaskingProfile} {kind : String} {spec : KindSpec} {variant : SchemaVariant}

theorem coverKey_of_validate (hvalid : profile.validate = .ok ()) :
    ∃ key, profile.coverKey = .ok key := by
  unfold MaskingProfile.validate at hvalid
  cases hname : profile.name.toList.all Client.isWhitespace <;>
    cases hkey : profile.coverKey <;> simp [hname, hkey, bind, Except.bind] at hvalid ⊢

theorem refuseKind_of_validate (hvalid : profile.validate = .ok ())
    (hspec : profile.kinds.get? kind = some spec) :
    MaskingProfile.refuseKind kind spec = none := by
  have hmem : (kind, spec) ∈ profile.kinds.entries := OrdMap.get?_eq_some.mp hspec
  by_contra hrefuse
  have hsome : profile.kinds.entries.findSome?
      (fun e => MaskingProfile.refuseKind e.1 e.2) ≠ none := by
    intro hnone
    exact hrefuse (List.findSome?_eq_none_iff.mp hnone (kind, spec) hmem)
  unfold MaskingProfile.validate at hvalid
  obtain ⟨e, he⟩ := Option.ne_none_iff_exists'.mp hsome
  rw [he] at hvalid
  cases hname : profile.name.toList.all Client.isWhitespace <;>
    cases hkey : profile.coverKey <;>
      by_cases hkinds : profile.kinds.entries = [] <;>
        simp [hname, hkey, hkinds, bind, Except.bind] at hvalid

theorem length_schemas_le (hvalid : profile.validate = .ok ())
    (hspec : profile.kinds.get? kind = some spec) : spec.schemas.length ≤ 10 := by
  have hrefuse := refuseKind_of_validate hvalid hspec
  unfold MaskingProfile.refuseKind at hrefuse
  split at hrefuse
  · cases hrefuse
  · split at hrefuse
    · cases hrefuse
    · split at hrefuse
      · cases hrefuse
      · rename_i hfew
        exact Nat.le_of_not_lt hfew

theorem carriers_ne_nil (hvalid : profile.validate = .ok ())
    (hspec : profile.kinds.get? kind = some spec) (hvariant : variant ∈ spec.schemas) :
    variant.carriers ≠ [] := by
  intro hnil
  have hrefuse := refuseKind_of_validate hvalid hspec
  unfold MaskingProfile.refuseKind at hrefuse
  split at hrefuse
  · cases hrefuse
  · split at hrefuse
    · cases hrefuse
    · split at hrefuse
      · cases hrefuse
      · have hfound : (spec.schemas.findIdx? (fun v => v.carriers = [])).isSome = true := by
          rw [List.findIdx?_isSome]
          exact List.any_eq_true.mpr ⟨variant, hvariant, by simp [hnil]⟩
        rw [Option.map_eq_none_iff.mp hrefuse] at hfound
        cases hfound

end Validated

/-- **What was wrapped is unwrapped**, where no write clashes with an earlier carrier. -/
theorem unwrap_wrap {C : CoverCipher} {profile : MaskingProfile} {kind : String}
    {inner : List UInt8} {rng : Rng} {body : Json} (hvalid : profile.validate = .ok ())
    (hapart : ∀ spec ∈ profile.kinds.get? kind, ∀ variant ∈ spec.schemas, variant.Apart)
    (hC : ∀ key ciphertext, profile.coverKey = .ok key →
      C.encrypt key (wrapNonce rng) inner = some ciphertext →
      C.Opens key (wrapNonce rng) inner ciphertext)
    (h : wrap C profile kind inner rng = .ok body) : unwrap C profile kind body = .ok inner := by
  unfold wrap at h
  cases hspec : profile.kinds.get? kind with
  | none =>
      rw [hspec] at h
      cases h
  | some spec =>
      rw [hspec] at h
      dsimp only at h
      split at h
      · cases h
      · rename_i variant hvariant
        have hmem : variant ∈ spec.schemas := List.mem_of_getElem? hvariant
        cases hkey : profile.coverKey with
        | error e =>
            rw [hkey] at h
            cases h
        | ok key =>
            rw [hkey] at h
            have hnonce : (wrapNonce rng).length = nonceLen := length_fillBytes _ _
            cases henc : C.encrypt key (wrapNonce rng) inner with
            | none =>
                have hseal : sealWith C key (wrapNonce rng) inner = .error .sealFailed := by
                  unfold sealWith
                  rw [henc]
                simp [bind, Except.bind, wrapNonce] at h hseal
                rw [hseal] at h
                cases h
            | some ciphertext =>
                have hopens := hC key ciphertext hkey henc
                have hseal : sealWith C key (wrapNonce rng) inner
                    = .ok (wrapNonce rng ++ ciphertext) := by
                  unfold sealWith
                  rw [henc]
                have hbuild : buildPacket variant (wrapNonce rng ++ ciphertext)
                    (fillBytes nonceLen (nextU32 rng).2).2 = .ok body := by
                  simp only [bind, Except.bind] at h
                  unfold wrapNonce at hseal ⊢
                  rw [hseal] at h
                  exact h
                have hextract := extract_buildPacket (hapart spec hspec variant hmem)
                  (carriers_ne_nil hvalid hspec hmem) hbuild
                -- whatever another variant reads, nothing but what was sealed opens
                have hfind : spec.schemas.findSome? (fun v =>
                    (extract v body).bind (fun bytes => (openWith C key bytes).toOption))
                    = some inner := by
                  cases hfound : spec.schemas.findSome? (fun v =>
                      (extract v body).bind (fun bytes => (openWith C key bytes).toOption)) with
                  | none =>
                      have hnone := List.findSome?_eq_none_iff.mp hfound variant hmem
                      rw [hextract, Option.bind_some, openWith_self hnonce hopens] at hnone
                      cases hnone
                  | some opened =>
                      obtain ⟨v, _, hv⟩ := List.exists_of_findSome?_eq_some hfound
                      obtain ⟨bytes, _, hbytes⟩ := Option.bind_eq_some_iff.mp hv
                      have hopen : openWith C key bytes = .ok opened := by
                        cases ho : openWith C key bytes with
                        | error e =>
                            rw [ho] at hbytes
                            cases hbytes
                        | ok m =>
                            rw [ho] at hbytes
                            exact congrArg _ (Option.some.inj hbytes)
                      rw [(openWith_sealed hopens hopen).2]
                unfold unwrap
                rw [hspec, hkey]
                simp only [bind, Except.bind]
                rw [hfind]

/-! ## Two carriers in one field -/

section Example

/-- Only one thing was ever sealed: the bytes 1 to 4, under a nonce of zeros. -/
def onceCipher : CoverCipher where
  encrypt _ _ plain := some plain
  decrypt _ nonce ciphertext :=
    if nonce = List.replicate 12 0 ∧ ciphertext = [1, 2, 3, 4] then some ciphertext else none

def profileWith (variant : SchemaVariant) : MaskingProfile where
  name := "app"
  coverKeyB64 := "AAAAAAAAAAAAAAAAAAAAAAAAAAAAAAAAAAAAAAAAAAA="
  kinds := ⟨[("push", ⟨"/orders", [variant]⟩)], List.pairwise_singleton _ _⟩

theorem tidy_empty : (Json.obj []).Tidy :=
  Json.tidy_obj.mpr ⟨List.nodup_nil, by simp [Json.lookup]⟩

/-- A variant that puts both of its pieces into one field. -/
def oneField : SchemaVariant := ⟨.obj [], tidy_empty, ["a", "a"], []⟩

theorem packet_overwritten :
    (profileWith oneField).validate = .ok ()
      ∧ ∃ body, wrap onceCipher (profileWith oneField) "push" [1, 2, 3, 4] [] = .ok body
        ∧ unwrap onceCipher (profileWith oneField) "push" body = .error (.noVariant "push") :=
  ⟨rfl, _, rfl, by decide +kernel⟩

end Example

end Paranoia
