import Paranoia.Proof.CoverRoundTrip

/-!
# When a cover loses its packet

A carrier that a later write clashes with does not keep its piece, and a piece that is heavy enough
is found nowhere else. So a profile brings back every packet exactly if no draw of decoys that can
be built clashes with a carrier (`roundTrip_iff`).
-/

namespace Paranoia

/-! ## Heavy pieces -/

/-- The number of ones among the bytes that a string stands for. -/
def weight (s : String) : Nat :=
  match b64Decode s with
  | .ok bytes => bytes.count 1
  | .error _ => 0

theorem weight_encode (bytes : List UInt8) : weight (b64Encode bytes) = bytes.count 1 := by
  unfold weight
  rw [b64Decode_encode]

/-- No string in the value weighs more. -/
def Light (n : Nat) (v : Json) : Prop := ∀ q s, v.get q = some (.str s) → weight s ≤ n

/-- Only the string at one place may weigh more. -/
def LightBut (n : Nat) (q : List Json.Step) (v : Json) : Prop :=
  ∀ q' s, v.get q' = some (.str s) → weight s ≤ n ∨ q' = q

variable {n : Nat} {v v' leaf : Json} {q p : List Json.Step}

theorem light_str {s : String} (h : weight s ≤ n) : Light n (.str s) := by
  intro q t hq
  rcases q with - | ⟨_ | _, _⟩
  · cases hq
    exact h
  · cases hq
  · cases hq

theorem Light.write (hv : Light n v) (hleaf : Light n leaf) (h : v.write p leaf = .ok v') :
    Light n v' := by
  intro q s hq
  rcases Json.str_of_write h hq with ⟨r, _, hr⟩ | ⟨hold, _⟩
  · exact hleaf r s hr
  · exact hv q s hold

theorem Light.writeStr {s : String} (hv : Light n v) (h : v.write p (.str s) = .ok v') :
    LightBut n p v' := by
  intro q t hq
  rcases Json.str_of_write h hq with ⟨r, rfl, hr⟩ | ⟨hold, _⟩
  · rcases r with - | ⟨_ | _, _⟩
    · exact .inr (List.append_nil p)
    · cases hr
    · cases hr
  · exact .inl (hv q t hold)

theorem LightBut.write (hv : LightBut n q v) (hleaf : Light n leaf)
    (h : v.write p leaf = .ok v') : LightBut n q v' := by
  intro q' s hq'
  rcases Json.str_of_write h hq' with ⟨r, _, hr⟩ | ⟨hold, _⟩
  · exact .inl (hleaf r s hr)
  · exact hv q' s hold

/-- A write that clashes with the place takes its string away. -/
theorem LightBut.clash (hv : LightBut n q v) (hleaf : Light n leaf)
    (hclash : Json.Clash q p = true) (h : v.write p leaf = .ok v') : Light n v' := by
  intro q' s hq'
  rcases Json.str_of_write h hq' with ⟨r, _, hr⟩ | ⟨hold, hapart⟩
  · exact hleaf r s hr
  · rcases hv q' s hold with hlight | rfl
    · exact hlight
    · rw [hclash] at hapart
      cases hapart

theorem Light.setAll {writes : List (String × Json)} (hv : Light n v)
    (hwrites : ∀ w ∈ writes, Light n w.2) (h : setAll v writes = .ok v') : Light n v' := by
  induction writes generalizing v with
  | nil =>
      cases h
      exact hv
  | cons w writes ih =>
      obtain ⟨mid, hmid, h⟩ := setAll_cons h
      exact ih (hv.write (hwrites w List.mem_cons_self) hmid)
        (fun w' hw' => hwrites w' (List.mem_cons_of_mem _ hw')) h

theorem LightBut.setAll {writes : List (String × Json)} (hv : LightBut n q v)
    (hwrites : ∀ w ∈ writes, Light n w.2)
    (hclash : ∃ w ∈ writes, Json.Clash q (steps w.1) = true) (h : setAll v writes = .ok v') :
    Light n v' := by
  induction writes generalizing v with
  | nil =>
      obtain ⟨w, hw, _⟩ := hclash
      cases hw
  | cons w writes ih =>
      obtain ⟨mid, hmid, htail⟩ := setAll_cons h
      have hleaf := hwrites w List.mem_cons_self
      have hrest := fun w' hw' => hwrites w' (List.mem_cons_of_mem _ hw')
      obtain ⟨w', hw', hclash⟩ := hclash
      rcases List.mem_cons.mp hw' with rfl | hw'
      · exact (hv.clash hleaf hclash hmid).setAll hrest htail
      · exact ih (hv.write hleaf hmid) hrest ⟨w', hw', hclash⟩ htail

theorem setAll_append (out : Json) (writes writes' : List (String × Json)) :
    setAll out (writes ++ writes') = (setAll out writes).bind fun mid => setAll mid writes' := by
  induction writes generalizing out with
  | nil => rfl
  | cons w writes ih =>
      obtain ⟨path, leaf⟩ := w
      rw [List.cons_append, setAll, setAll]
      cases setPath out path leaf with
      | error e => rfl
      | ok mid => exact ih mid

/-- One heavy string, and a later write that clashes with it: nothing heavy is left. -/
theorem light_of_clash {before after : List (String × Json)} {path s : String} (hv : Light n v)
    (hbefore : ∀ w ∈ before, Light n w.2) (hafter : ∀ w ∈ after, Light n w.2)
    (hclash : ∃ w ∈ after, Json.Clash (steps path) (steps w.1) = true)
    (h : setAll v (before ++ (path, .str s) :: after) = .ok v') : Light n v' := by
  rw [setAll_append] at h
  cases hmid : setAll v before with
  | error e =>
      rw [hmid] at h
      cases h
  | ok mid =>
      rw [hmid] at h
      obtain ⟨full, hfull, h⟩ := setAll_cons h
      exact ((hv.setAll hbefore hmid).writeStr hfull).setAll hafter hclash h

theorem Light.shuffle (hv : Light n v) (htidy : v.Tidy) (rng : Rng) :
    Light n (shuffleObjectKeys v rng).1 := by
  intro q s hq
  obtain ⟨rng', hget⟩ := get_shuffle htidy rng q
  rw [hq] at hget
  obtain ⟨x, hx, hs⟩ := Option.map_eq_some_iff.mp hget.symm
  cases x with
  | str t =>
      cases hs
      exact hv q _ hx
  | null | bool | num | arr | obj => simp [shuffleObjectKeys] at hs

theorem length_of_mapM {α β : Type} {f : α → Option β} {as : List α} {bs : List β}
    (h : as.mapM f = some bs) : as.length = bs.length ∧ ∀ b ∈ bs, ∃ a ∈ as, f a = some b := by
  induction as generalizing bs with
  | nil =>
      cases h
      exact ⟨rfl, fun b hb => (by cases hb)⟩
  | cons a as ih =>
      rw [List.mapM_cons] at h
      obtain ⟨b, hb, h⟩ := Option.bind_eq_some_iff.mp h
      obtain ⟨bs', hbs', h⟩ := Option.bind_eq_some_iff.mp h
      cases h
      obtain ⟨hlen, hmem⟩ := ih hbs'
      refine ⟨by rw [List.length_cons, List.length_cons, hlen], fun x hx => ?_⟩
      rcases List.mem_cons.mp hx with rfl | hx
      · exact ⟨a, List.mem_cons_self, hb⟩
      · obtain ⟨a', ha', hfa'⟩ := hmem x hx
        exact ⟨a', List.mem_cons_of_mem _ ha', hfa'⟩

theorem count_flatten_le {bs : List (List UInt8)} (h : ∀ b ∈ bs, b.count 1 ≤ n) :
    bs.flatten.count 1 ≤ bs.length * n := by
  induction bs with
  | nil => simp
  | cons b bs ih =>
      have hb := h b List.mem_cons_self
      have hbs := ih fun b' hb' => h b' (List.mem_cons_of_mem _ hb')
      rw [List.flatten_cons, List.count_append, List.length_cons, Nat.succ_mul]
      omega

/-- What is read off light strings is light. -/
theorem count_extract {variant : SchemaVariant} {bytes : List UInt8} (hv : Light n v)
    (h : extract variant v = some bytes) : bytes.count 1 ≤ variant.carriers.length * n := by
  unfold extract at h
  obtain ⟨chunks, hchunks, rfl⟩ := Option.map_eq_some_iff.mp h
  obtain ⟨hlen, hmem⟩ := length_of_mapM hchunks
  rw [hlen]
  refine count_flatten_le fun chunk hchunk => ?_
  obtain ⟨path, _, hpath⟩ := hmem chunk hchunk
  obtain ⟨s, hs, hdecode⟩ := Option.bind_eq_some_iff.mp hpath
  obtain ⟨x, hx, hstr⟩ := Option.bind_eq_some_iff.mp hs
  cases x with
  | str t =>
      cases hstr
      have hlight := hv _ _ hx
      unfold weight at hlight
      cases hd : b64Decode s with
      | ok b =>
          rw [hd] at hlight hdecode
          cases hdecode
          exact hlight
      | error e =>
          rw [hd] at hdecode
          cases hdecode
  | null | bool | num | arr | obj => cases hstr

/-! ## A packet that goes wrong -/

/-- Pieces of one length are cut apart again. -/
theorem split_flatten {chunks : List (List UInt8)} {m : Nat} (hm : ∀ c ∈ chunks, c.length = m)
    (hchunks : chunks ≠ []) : split chunks.flatten chunks.length = chunks := by
  have hlen : chunks.flatten.length = m * chunks.length := by
    clear hchunks
    induction chunks with
    | nil => rfl
    | cons c cs ih =>
        rw [List.flatten_cons, List.length_append, hm c List.mem_cons_self,
          ih fun c' hc' => hm c' (List.mem_cons_of_mem _ hc'), List.length_cons, Nat.mul_succ,
          Nat.add_comm]
  have hpos : 0 < chunks.length := List.length_pos_of_ne_nil hchunks
  have hloop : ∀ (cs : List (List UInt8)) (i : Nat), (∀ c ∈ cs, c.length = m) →
      splitLoop m 0 cs.length i cs.flatten = cs := by
    intro cs
    induction cs with
    | nil => intro i _; rfl
    | cons c cs ih =>
        intro i hcs
        have hc := hcs c List.mem_cons_self
        rw [List.length_cons, splitLoop, List.flatten_cons]
        simp only [Nat.not_lt_zero, if_false, Nat.add_zero]
        rw [← hc, List.take_left, List.drop_left, hc,
          ih (i + 1) fun c' hc' => hcs c' (List.mem_cons_of_mem _ hc')]
  unfold split
  rw [if_neg (by omega), hlen, Nat.mul_div_cancel _ hpos, Nat.mul_mod_left, hloop chunks 0 hm]

theorem nextU32_ofByte (b : UInt8) (rng : Rng) : nextU32 (b.toNat :: rng) = (b.toNat, rng) := by
  have hb := b.toNat_lt
  rw [nextU32, Nat.mod_eq_of_lt (by omega)]

/-- Any bytes can be drawn. -/
theorem fillBytes_map (bytes : List UInt8) (rng : Rng) :
    fillBytes bytes.length (bytes.map UInt8.toNat ++ rng) = (bytes, rng) := by
  induction bytes with
  | nil => rfl
  | cons b bytes ih =>
      rw [List.length_cons, List.map_cons, List.cons_append, fillBytes, nextU32_ofByte]
      dsimp only
      rw [ih, UInt8.ofNat_toNat]

/-- Any decoys can be drawn. -/
theorem exists_drawOptional {opts drawn : List OptionalField} (h : drawn.Sublist opts) :
    ∃ rng, drawOptional opts rng = (drawn, []) := by
  induction h with
  | slnil => exact ⟨[], rfl⟩
  | cons opt _ ih =>
      obtain ⟨rng, hrng⟩ := ih
      refine ⟨1 :: rng, ?_⟩
      simp [drawOptional, nextU32, hrng]
  | cons_cons opt _ ih =>
      obtain ⟨rng, hrng⟩ := ih
      refine ⟨0 :: rng, ?_⟩
      simp [drawOptional, nextU32, hrng]

theorem alike_setAll {w : Json} {writes writes' : List (String × Json)} (h : Json.Alike v w)
    (hpaths : writes.map Prod.fst = writes'.map Prod.fst)
    (hleaves : ∀ x ∈ (writes.map Prod.snd).zip (writes'.map Prod.snd), Json.Alike x.1 x.2)
    (hv : setAll v writes = .ok v') :
    ∃ w', setAll w writes' = .ok w' ∧ Json.Alike v' w' := by
  induction writes generalizing v w writes' with
  | nil =>
      cases hv
      obtain rfl := List.map_eq_nil_iff.mp hpaths.symm
      exact ⟨w, rfl, h⟩
  | cons x writes ih =>
      cases writes' with
      | nil => simp at hpaths
      | cons y writes' =>
          obtain ⟨path, leaf⟩ := x
          obtain ⟨path', leaf'⟩ := y
          obtain ⟨hpath, htails⟩ := List.cons_eq_cons.mp hpaths
          cases hpath
          obtain ⟨mid, hmid, htail⟩ := setAll_cons hv
          obtain ⟨mid', hmid', halike⟩ := h.write (hleaves (leaf, leaf') List.mem_cons_self) hmid
          have hrest := fun z hz => hleaves z (List.mem_cons_of_mem _ hz)
          obtain ⟨w', hw', hend⟩ := ih halike htails hrest htail
          refine ⟨w', ?_, hend⟩
          rw [setAll, setPath_eq_ok.mpr hmid']
          exact hw'

theorem Light.mono {m : Nat} (hv : Light n v) (h : n ≤ m) : Light m v :=
  fun q s hq => (hv q s hq).trans h

theorem exists_light (vs : List Json) : ∃ n, ∀ v ∈ vs, Light n v := by
  induction vs with
  | nil => exact ⟨0, fun v hv => (by cases hv)⟩
  | cons v vs ih =>
      obtain ⟨n, hn⟩ := Json.exists_bound weight v
      obtain ⟨m, hm⟩ := ih
      refine ⟨max n m, fun w hw => ?_⟩
      rcases List.mem_cons.mp hw with rfl | hw
      · exact Light.mono hn (le_max_left n m)
      · exact (hm w hw).mono (le_max_right n m)

theorem exists_length_le (variants : List SchemaVariant) :
    ∃ n, ∀ variant ∈ variants, variant.carriers.length ≤ n := by
  induction variants with
  | nil => exact ⟨0, fun v hv => (by cases hv)⟩
  | cons v variants ih =>
      obtain ⟨n, hn⟩ := ih
      refine ⟨max v.carriers.length n, fun w hw => ?_⟩
      rcases List.mem_cons.mp hw with rfl | hw
      · exact le_max_left _ _
      · exact (hn w hw).trans (le_max_right _ _)

/-- A carrier that something written later clashes with. -/
theorem exists_clash {variant : SchemaVariant} {drawn : List OptionalField}
    (h : ¬ variant.Clear drawn) :
    ∃ before path after, variant.carriers = before ++ path :: after ∧
      ((∃ p ∈ after, Json.Clash (steps path) (steps p) = true) ∨
        ∃ opt ∈ drawn, Json.Clash (steps path) (steps opt.path) = true) := by
  have hpair : ∀ l : List String,
      ¬ l.Pairwise (fun q p => Json.Clash (steps q) (steps p) = false) →
      ∃ before path after, l = before ++ path :: after ∧
        ∃ p ∈ after, Json.Clash (steps path) (steps p) = true := by
    intro l
    induction l with
    | nil => exact fun hl => absurd List.Pairwise.nil hl
    | cons x l ih =>
        intro hl
        by_cases hx : ∃ p ∈ l, Json.Clash (steps x) (steps p) = true
        · exact ⟨[], x, l, rfl, hx⟩
        · have hrest : ¬ l.Pairwise (fun q p => Json.Clash (steps q) (steps p) = false) := by
            intro hl'
            refine hl (List.pairwise_cons.mpr ⟨fun p hp => ?_, hl'⟩)
            by_contra hclash
            exact hx ⟨p, hp, by simpa using hclash⟩
          obtain ⟨before, path, after, rfl, hclash⟩ := ih hrest
          exact ⟨x :: before, path, after, rfl, hclash⟩
  by_cases hcarriers :
      variant.carriers.Pairwise (fun q p => Json.Clash (steps q) (steps p) = false)
  · have hdecoy : ∃ q ∈ variant.carriers, ∃ opt ∈ drawn,
        Json.Clash (steps q) (steps opt.path) = true := by
      by_contra hnone
      refine h ⟨hcarriers, fun q hq opt hopt => ?_⟩
      by_contra hclash
      exact hnone ⟨q, hq, opt, hopt, by simpa using hclash⟩
    obtain ⟨q, hq, hopt⟩ := hdecoy
    obtain ⟨before, after, hsplit⟩ := List.append_of_mem hq
    exact ⟨before, q, after, hsplit, .inr hopt⟩
  · obtain ⟨before, path, after, hsplit, hclash⟩ := hpair _ hcarriers
    exact ⟨before, path, after, hsplit, .inl hclash⟩

/-- What is written for a packet. -/
def packetWrites (variant : SchemaVariant) (pieces : List String) (drawn : List OptionalField) :
    List (String × Json) :=
  variant.carriers.zip (pieces.map .str) ++ drawn.map fun opt => (opt.path, opt.value)

/-- With the decoys of a packet that can be built, any pieces can be written. -/
theorem setAll_packetWrites {variant : SchemaVariant} {drawn : List OptionalField}
    (h : variant.Writable drawn) (pieces : List String)
    (hlen : pieces.length = variant.carriers.length) :
    ∃ out, setAll variant.template (packetWrites variant pieces drawn) = .ok out := by
  obtain ⟨pieces', out, mid, hlen', hmid, hout⟩ := h
  have hall : setAll variant.template (packetWrites variant pieces' drawn) = .ok out := by
    rw [packetWrites, setAll_append, hmid]
    exact hout
  have hpaths : ∀ ps : List String, ps.length = variant.carriers.length →
      (packetWrites variant ps drawn).map Prod.fst
        = variant.carriers ++ drawn.map fun opt => opt.path := by
    intro ps hps
    rw [packetWrites, List.map_append, List.map_fst_zip (by rw [List.length_map, hps]),
      List.map_map]
    rfl
  have hleaves : ∀ ps : List String, ps.length = variant.carriers.length →
      (packetWrites variant ps drawn).map Prod.snd
        = ps.map .str ++ drawn.map fun opt => opt.value := by
    intro ps hps
    rw [packetWrites, List.map_append, List.map_snd_zip (by rw [List.length_map, hps]),
      List.map_map]
    rfl
  have hself : ∀ l : List Json, ∀ y ∈ l.zip l, y.1 = y.2 := by
    intro l
    induction l with
    | nil => simp
    | cons a l ih =>
        intro y hy
        rcases List.mem_cons.mp hy with rfl | hy
        · rfl
        · exact ih y hy
  have halike : ∀ x ∈ ((packetWrites variant pieces' drawn).map Prod.snd).zip
      ((packetWrites variant pieces drawn).map Prod.snd), Json.Alike x.1 x.2 := by
    intro x hx
    rw [hleaves _ hlen', hleaves _ hlen,
      List.zip_append (by rw [List.length_map, List.length_map, hlen, hlen'])] at hx
    rcases List.mem_append.mp hx with hx | hx
    · rw [List.zip_map] at hx
      obtain ⟨y, _, rfl⟩ := List.mem_map.mp hx
      exact Json.alike_str _ _
    · rw [hself _ x hx]
      exact .refl _
  obtain ⟨out', hout', _⟩ := alike_setAll (.refl _) ((hpaths _ hlen').trans (hpaths _ hlen).symm)
    halike hall
  exact ⟨out', hout'⟩

/-- The cipher with which one thing was sealed. -/
def sealedOnce (nonce ciphertext : List UInt8) : CoverCipher where
  encrypt _ _ _ := some ciphertext
  decrypt _ nonce' ciphertext' :=
    if nonce' = nonce ∧ ciphertext' = ciphertext then some [] else none

theorem opens_sealedOnce (key nonce ciphertext : List UInt8) :
    (sealedOnce nonce ciphertext).Opens key nonce [] ciphertext where
  opens := if_pos ⟨rfl, rfl⟩
  only := by
    intro nonce' ciphertext' hsome
    by_contra hnot
    exact hsome (if_neg hnot)

/-- **A packet is lost.** Where a draw of decoys that can be built clashes with a carrier, some
packet does not come back. -/
theorem exists_lost {profile : MaskingProfile} {kind : String} {spec : KindSpec}
    {variant : SchemaVariant} {drawn : List OptionalField} (hvalid : profile.validate = .ok ())
    (hspec : profile.kinds.get? kind = some spec) (hmem : variant ∈ spec.schemas)
    (hsub : drawn.Sublist variant.optional) (hwritable : variant.Writable drawn)
    (hclear : ¬ variant.Clear drawn) :
    ∃ C rng body, (∀ key ciphertext, profile.coverKey = .ok key →
        CoverCipher.encrypt C key (wrapNonce rng) [] = some ciphertext →
        C.Opens key (wrapNonce rng) [] ciphertext)
      ∧ wrap C profile kind [] rng = .ok body ∧ unwrap C profile kind body ≠ .ok [] := by
  obtain ⟨before, path, after, hcarriers, hclash⟩ := exists_clash hclear
  obtain ⟨b, hb⟩ := exists_light (variant.template :: drawn.map fun opt => opt.value)
  obtain ⟨len, hlen⟩ := exists_length_le spec.schemas
  -- one piece outweighs whatever any variant can read elsewhere
  let m := len * b + 12
  let blank : List UInt8 := List.replicate m 0
  let heavy : List UInt8 := List.replicate m 1
  let chunks := before.map (fun _ => blank) ++ heavy :: after.map fun _ => blank
  have hchunks : chunks.length = variant.carriers.length := by
    rw [hcarriers]
    simp [chunks]
  have hpieces : ∀ c ∈ chunks, c.length = m := by
    intro c hc
    simp only [chunks, List.mem_append, List.mem_cons, List.mem_map] at hc
    rcases hc with ⟨_, _, rfl⟩ | rfl | ⟨_, _, rfl⟩ <;> exact List.length_replicate
  have hcount : chunks.flatten.count 1 = m := by
    have hblank : ∀ l : List String, ((l.map fun _ => blank).flatten).count 1 = 0 := by
      intro l
      induction l with
      | nil => rfl
      | cons x l ih =>
          rw [List.map_cons, List.flatten_cons, List.count_append, ih]
          simp [blank, List.count_replicate]
    simp only [chunks, List.flatten_append, List.flatten_cons, List.count_append, hblank, heavy,
      List.count_replicate_self, Nat.zero_add, Nat.add_zero]
  have hlong : 12 ≤ chunks.flatten.length := by
    have := List.count_le_length (l := chunks.flatten) (a := 1)
    omega
  -- the draw: this variant, the first bytes for a nonce, these decoys
  obtain ⟨j, hj⟩ := List.getElem?_of_mem hmem
  obtain ⟨coins, hcoins⟩ := exists_drawOptional hsub
  let nonce := chunks.flatten.take 12
  let ciphertext := chunks.flatten.drop 12
  have hnonce : nonce.length = 12 := by
    rw [List.length_take]
    omega
  have hjlt : j < spec.schemas.length := (List.getElem?_eq_some_iff.mp hj).1
  have hfew : spec.schemas.length ≤ 10 := length_schemas_le hvalid hspec
  have hdraw : nextU32 (j :: (nonce.map UInt8.toNat ++ coins))
      = (j, nonce.map UInt8.toNat ++ coins) := by
    rw [nextU32, Nat.mod_eq_of_lt (by omega)]
  have hfill : fillBytes nonceLen (nonce.map UInt8.toNat ++ coins) = (nonce, coins) := by
    have := fillBytes_map nonce coins
    rwa [hnonce] at this
  have hwrapNonce : wrapNonce (j :: (nonce.map UInt8.toNat ++ coins)) = nonce := by
    rw [wrapNonce, hdraw, hfill]
  obtain ⟨key, hkey⟩ := coverKey_of_validate hvalid
  -- the packet
  have hne : chunks ≠ [] := by simp [chunks]
  have hsplit : split chunks.flatten variant.carriers.length = chunks := by
    rw [← hchunks]
    exact split_flatten hpieces hne
  obtain ⟨full, hfull⟩ := setAll_packetWrites hwritable (chunks.map b64Encode)
    (by rw [List.length_map, hchunks])
  have hbuild : buildPacket variant chunks.flatten coins = .ok (shuffleObjectKeys full []).1 := by
    rw [packetWrites, setAll_append, List.map_map] at hfull
    cases hmid : setAll variant.template
        (variant.carriers.zip (chunks.map (Json.str ∘ b64Encode))) with
    | error e =>
        rw [hmid] at hfull
        cases hfull
    | ok mid =>
        rw [hmid] at hfull
        have hdecoys : setAll mid (drawn.map fun opt => (opt.path, opt.value)) = .ok full := hfull
        have hmid' : setAll variant.template
            (variant.carriers.zip (chunks.map fun chunk => .str (b64Encode chunk))) = .ok mid := hmid
        unfold buildPacket
        simp only [hsplit, hmid', hcoins, hdecoys, bind, Except.bind]
  have hlight : Light b full := by
    have htemplate : Light b variant.template := hb _ List.mem_cons_self
    have hdecoys : ∀ w ∈ drawn.map (fun opt => (opt.path, opt.value)), Light b w.2 := by
      intro w hw
      obtain ⟨opt, hopt, rfl⟩ := List.mem_map.mp hw
      exact hb _ (List.mem_cons_of_mem _ (List.mem_map_of_mem hopt))
    have hblank : ∀ l : List String, ∀ w ∈ l.zip (l.map fun _ => Json.str (b64Encode blank)),
        Light b w.2 := by
      intro l w hw
      obtain ⟨x, _, hx⟩ := List.mem_map.mp (List.of_mem_zip hw).2
      rw [← hx]
      refine light_str ?_
      rw [weight_encode]
      simp [blank, List.count_replicate]
    have hwrites : packetWrites variant (chunks.map b64Encode) drawn
        = before.zip (before.map fun _ => Json.str (b64Encode blank)) ++ (path, .str (b64Encode heavy))
          :: (after.zip (after.map fun _ => Json.str (b64Encode blank))
            ++ drawn.map fun opt => (opt.path, opt.value)) := by
      rw [packetWrites, hcarriers]
      simp only [chunks, List.map_append, List.map_cons, List.map_map]
      rw [List.zip_append (by rw [List.length_map]), List.zip_cons_cons, List.append_assoc]
      rfl
    rw [hwrites] at hfull
    refine light_of_clash htemplate (hblank before) (fun w hw => ?_) ?_ hfull
    · rcases List.mem_append.mp hw with hw | hw
      · exact hblank after w hw
      · exact hdecoys w hw
    · rcases hclash with ⟨p, hp, hclash⟩ | ⟨opt, hopt, hclash⟩
      · obtain ⟨i, hi⟩ := List.getElem?_of_mem hp
        refine ⟨(p, .str (b64Encode blank)), List.mem_append_left _ ?_, hclash⟩
        refine List.mem_of_getElem? (i := i) ?_
        rw [List.getElem?_zip_eq_some]
        exact ⟨hi, by rw [List.getElem?_map, hi]; rfl⟩
      · exact ⟨_, List.mem_append_right _ (List.mem_map_of_mem hopt), hclash⟩
  have htidy : full.Tidy := by
    refine tidy_setAll variant.tidy (fun w hw => ?_) hfull
    rcases List.mem_append.mp hw with hw | hw
    · obtain ⟨s, _, hs⟩ := List.mem_map.mp (List.of_mem_zip hw).2
      rw [← hs]
      exact Json.tidy_str _
    · obtain ⟨opt, _, rfl⟩ := List.mem_map.mp hw
      exact opt.tidy
  have hbody := hlight.shuffle htidy []
  refine ⟨sealedOnce nonce ciphertext, j :: (nonce.map UInt8.toNat ++ coins),
    (shuffleObjectKeys full []).1, ?_, ?_, ?_⟩
  · intro key' ciphertext' _ henc
    rw [hwrapNonce]
    cases henc
    exact opens_sealedOnce key' nonce ciphertext
  · unfold wrap
    rw [hspec]
    simp only [hdraw, Nat.mod_eq_of_lt hjlt, hj, hkey, hfill, sealWith, sealedOnce, bind, Except.bind]
    rw [show nonce ++ ciphertext = chunks.flatten from List.take_append_drop 12 _]
    exact hbuild
  · intro hopen
    unfold unwrap at hopen
    rw [hspec, hkey] at hopen
    simp only [bind, Except.bind] at hopen
    cases hfound : spec.schemas.findSome? (fun v =>
        (extract v (shuffleObjectKeys full []).1).bind
          (fun bytes => (openWith (sealedOnce nonce ciphertext) key bytes).toOption)) with
    | none =>
        rw [hfound] at hopen
        cases hopen
    | some opened =>
        obtain ⟨v, hv, hread⟩ := List.exists_of_findSome?_eq_some hfound
        obtain ⟨bytes, hbytes, hopened⟩ := Option.bind_eq_some_iff.mp hread
        cases ho : openWith (sealedOnce nonce ciphertext) key bytes with
        | error e =>
            rw [ho] at hopened
            cases hopened
        | ok plain =>
            -- what opens is all that was sealed, and too heavy to have been read
            have hall := (openWith_sealed (opens_sealedOnce key nonce ciphertext) ho).1
            rw [show nonce ++ ciphertext = chunks.flatten from List.take_append_drop 12 _] at hall
            have hle := count_extract hbody hbytes
            have hshort : v.carriers.length * b ≤ len * b := Nat.mul_le_mul_right b (hlen v hv)
            rw [hall, hcount] at hle
            omega

/-- **Exactly these profiles bring every packet back**: those where, whichever decoys are drawn, the
packet cannot be built or no write clashes with an earlier carrier. -/
theorem roundTrip_iff {profile : MaskingProfile} (kind : String)
    (hvalid : profile.validate = .ok ()) :
    (∀ C inner rng body, (∀ key ciphertext, profile.coverKey = .ok key →
        CoverCipher.encrypt C key (wrapNonce rng) inner = some ciphertext →
        C.Opens key (wrapNonce rng) inner ciphertext) →
      wrap C profile kind inner rng = .ok body → unwrap C profile kind body = .ok inner) ↔
    ∀ spec ∈ profile.kinds.get? kind, ∀ variant ∈ spec.schemas, variant.Apart := by
  constructor
  · intro hround spec hspec variant hmem drawn hsub hwritable
    by_contra hclear
    obtain ⟨C, rng, body, hC, hwrap, hlost⟩ :=
      exists_lost hvalid hspec hmem hsub hwritable hclear
    exact hlost (hround C [] rng body hC hwrap)
  · intro hapart C inner rng body hC hwrap
    exact unwrap_wrap hvalid hapart hC hwrap

section Example

def twoFields : SchemaVariant := ⟨.obj [], tidy_empty, ["a", "b"], []⟩

theorem apart_twoFields : ∀ spec ∈ (profileWith twoFields).kinds.get? "push",
    ∀ variant ∈ spec.schemas, variant.Apart := by
  intro spec hspec variant hvariant drawn hdrawn _
  cases hspec
  obtain rfl := List.mem_singleton.mp hvariant
  obtain rfl := List.sublist_nil.mp hdrawn
  exact ⟨by decide, by simp⟩

theorem opens_onceCipher (key ciphertext : List UInt8)
    (henc : onceCipher.encrypt key (wrapNonce []) [1, 2, 3, 4] = some ciphertext) :
    onceCipher.Opens key (wrapNonce []) [1, 2, 3, 4] ciphertext := by
  cases henc
  refine ⟨rfl, fun nonce' ciphertext' hsome => ?_⟩
  have hif : nonce' = List.replicate 12 0 ∧ ciphertext' = [1, 2, 3, 4] := by
    by_contra hnot
    exact hsome (if_neg hnot)
  exact hif

theorem roundTrip_twoFields :
    ∃ body, wrap onceCipher (profileWith twoFields) "push" [1, 2, 3, 4] [] = .ok body
      ∧ unwrap onceCipher (profileWith twoFields) "push" body = .ok [1, 2, 3, 4] := by
  obtain ⟨body, hbody⟩ : ∃ body,
      wrap onceCipher (profileWith twoFields) "push" [1, 2, 3, 4] [] = .ok body := ⟨_, rfl⟩
  have hround := (roundTrip_iff "push" rfl).mpr apart_twoFields
  exact ⟨body, hbody, hround onceCipher [1, 2, 3, 4] [] body
    (fun key ciphertext _ henc => opens_onceCipher key ciphertext henc) hbody⟩

end Example

end Paranoia
