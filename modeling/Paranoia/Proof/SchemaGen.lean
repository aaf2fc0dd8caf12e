import Mathlib.Data.List.GetD
import Paranoia.Cover.SchemaGen
import Paranoia.Proof.CoverRoundTrip

/-!
# What is rolled carries

A variant can lose what it carries, when two of its places clash, or refuse to carry anything, when
one of them cannot be written. Neither happens to a variant that was rolled, whatever the dice show:
every place is there from the start, and none is within another. So a profile with nothing but what
was rolled is valid, and brings everything through (`rolled_carried`).
-/

namespace Paranoia

/-! ## Places that are there -/

/-- Places that are there and that do not clash can all be written. -/
theorem setAll_of_get {out : Json} {writes : List (String × Json)}
    (hthere : ∀ w ∈ writes, ∃ x, out.get (steps w.1) = some x)
    (hclash : writes.Pairwise (fun a b => Json.Clash (steps b.1) (steps a.1) = false)) :
    ∃ out', setAll out writes = .ok out' := by
  induction writes generalizing out with
  | nil => exact ⟨out, rfl⟩
  | cons w writes ih =>
      obtain ⟨x, hx⟩ := hthere w List.mem_cons_self
      obtain ⟨mid, hmid⟩ := Json.write_of_get hx w.2
      obtain ⟨hfirst, hrest⟩ := List.pairwise_cons.mp hclash
      have hstay : ∀ w' ∈ writes, ∃ x, mid.get (steps w'.1) = some x := fun w' hw' => by
        obtain ⟨x', hx'⟩ := hthere w' (List.mem_cons_of_mem _ hw')
        exact ⟨x', Json.get_write_of_not_clash (hfirst w' hw') hx' hmid⟩
      obtain ⟨out', hout⟩ := ih hstay hrest
      refine ⟨out', ?_⟩
      rw [setAll, setPath_eq_ok.mpr hmid]
      exact hout

/-- Fields of the value itself can always be written. -/
theorem setAll_fields {out : Json} {writes : List (String × Json)}
    (hfields : ∀ w ∈ writes, ∃ k, steps w.1 = [.key k]) : ∃ out', setAll out writes = .ok out' := by
  induction writes generalizing out with
  | nil => exact ⟨out, rfl⟩
  | cons w writes ih =>
      obtain ⟨k, hk⟩ := hfields w List.mem_cons_self
      have hmid : out.write (steps w.1) w.2 = .ok (.obj (Json.insert k w.2 out.fieldsOf)) := by
        rw [hk]
        rfl
      have hrest : ∃ out', setAll (.obj (Json.insert k w.2 out.fieldsOf)) writes = .ok out' :=
        ih (fun w' hw' => hfields w' (List.mem_cons_of_mem _ hw'))
      obtain ⟨out', hout⟩ := hrest
      refine ⟨out', ?_⟩
      rw [setAll, setPath_eq_ok.mpr hmid]
      exact hout

/-! ## Variants with room -/

/-- The carriers of a template are in it and apart from each other, and the decoys are fields of
their own. -/
structure Roomy (template : Json) (carriers decoys : List String) : Prop where
  some : carriers ≠ []
  there : ∀ q ∈ carriers, ∃ x, template.get (steps q) = .some x
  apart : carriers.Pairwise (fun q p => Json.Clash (steps q) (steps p) = false
    ∧ Json.Clash (steps p) (steps q) = false)
  decoys : ∀ p ∈ decoys, ∃ k, steps p = [.key k]
    ∧ ∀ q ∈ carriers, Json.Clash (steps q) [.key k] = false

namespace SchemaVariant

def Roomy (variant : SchemaVariant) : Prop :=
  Paranoia.Roomy variant.template variant.carriers (variant.optional.map OptionalField.path)

variable {variant : SchemaVariant}

theorem Roomy.clear (h : variant.Roomy) : variant.Apart := by
  intro drawn hsub _
  refine ⟨h.apart.imp And.left, fun q hq opt hopt => ?_⟩
  obtain ⟨k, hk, hclash⟩ := h.decoys opt.path (List.mem_map.mpr ⟨opt, hsub.subset hopt, rfl⟩)
  rw [hk]
  exact hclash q hq

/-- Something is always built of a variant with room. -/
theorem Roomy.buildPacket_ok (h : variant.Roomy) (bytes : List UInt8) (rng : Rng) :
    ∃ body, buildPacket variant bytes rng = .ok body := by
  unfold buildPacket
  dsimp only
  generalize hwrites : variant.carriers.zip ((split bytes variant.carriers.length).map
    (fun chunk => Json.str (b64Encode chunk))) = writes
  have hlen : (split bytes variant.carriers.length).length = variant.carriers.length :=
    length_split _ _
  have hpaths : writes.map Prod.fst = variant.carriers := by
    rw [← hwrites, List.map_fst_zip]
    rw [List.length_map, hlen]
  have hcarried : ∃ mid, setAll variant.template writes = .ok mid :=
    setAll_of_get (fun w hw => h.there w.1 (hpaths ▸ List.mem_map.mpr ⟨w, hw, rfl⟩))
      (List.pairwise_map.mp (hpaths.symm ▸ h.apart.imp And.right))
  obtain ⟨mid, hmid⟩ := hcarried
  have hsub := drawOptional_sublist variant.optional rng
  generalize drawOptional variant.optional rng = out at hsub
  obtain ⟨drawn, rng'⟩ := out
  have hdecoyed :
      ∃ full, setAll mid (drawn.map (fun opt => (opt.path, opt.value))) = .ok full := by
    refine setAll_fields (fun w hw => ?_)
    obtain ⟨opt, hopt, rfl⟩ := List.mem_map.mp hw
    obtain ⟨k, hk, -⟩ := h.decoys opt.path (List.mem_map.mpr ⟨opt, hsub.subset hopt, rfl⟩)
    exact ⟨k, hk⟩
  obtain ⟨full, hfull⟩ := hdecoyed
  refine ⟨(shuffleObjectKeys full rng').1, ?_⟩
  rw [hmid]
  simp only [bind, Except.bind]
  rw [hfull]

end SchemaVariant

namespace Cover

/-! ## What is rolled -/

/-- The paths in what is rolled. -/
theorem steps_rolled :
    ["customer.id", "items.0.sku", "signature", "coupon", "session_id", "events.0.trace",
        "events.0.attrs.id", "sdk_version", "cursor", "notes.0.id", "notes.0.etag", "full_sync",
        "to", "data.token", "data.payload", "ttl", "data.hash", "data.blob", "cached"].map steps
      = [[.key "customer", .key "id"], [.key "items", .index 0, .key "sku"], [.key "signature"],
        [.key "coupon"], [.key "session_id"], [.key "events", .index 0, .key "trace"],
        [.key "events", .index 0, .key "attrs", .key "id"], [.key "sdk_version"], [.key "cursor"],
        [.key "notes", .index 0, .key "id"], [.key "notes", .index 0, .key "etag"],
        [.key "full_sync"], [.key "to"], [.key "data", .key "token"], [.key "data", .key "payload"],
        [.key "ttl"], [.key "data", .key "hash"], [.key "data", .key "blob"], [.key "cached"]] := by
  decide +kernel

theorem tidy_generated (d : Dice) : (generateRandomSchema d).Tidy := by
  unfold generateRandomSchema schemaJson
  split <;>
    simp [Json.tidy_obj_cons, Json.tidy_obj_nil, Json.tidy_arr_cons, Json.tidy_arr_nil,
      Json.tidy_str, Json.tidy_num, Json.tidy_bool, ofNat]

/-- There is room in what is rolled, whatever the dice show. -/
theorem generated_roomy (d : Dice) : ∃ template carriers optional,
    generateRandomSchema d = schemaJson template carriers optional
      ∧ Roomy template carriers (optional.map Prod.fst) := by
  have hsteps := steps_rolled
  simp only [List.map_cons, List.map_nil, List.cons.injEq, and_true] at hsteps
  unfold generateRandomSchema
  dsimp only
  split
  all_goals
    refine ⟨_, _, _, rfl, ?_, ?_, ?_, ?_⟩
    · exact List.cons_ne_nil _ _
    · simp [hsteps, Json.get, Json.lookup]
    · simp [hsteps, Json.Clash]
    · simp [hsteps, Json.Clash]

/-- A path of the panel's is one of the server's. -/
theorem head_generateRandomPath (d : Dice) : (generateRandomPath d).toList.head? = some '/' := by
  have hall : ∀ p ∈ pathPrefixes, p.toList.head? = some '/' := by decide +kernel
  have hpre : (pathPrefixes.getD d.pathPrefix.1 "").toList.head? = some '/' := by
    have hlt : d.pathPrefix.1 < pathPrefixes.length := d.pathPrefix.2
    rw [List.getD_eq_getElem _ _ hlt]
    exact hall _ (List.getElem_mem hlt)
  unfold generateRandomPath
  generalize pathPrefixes.getD d.pathPrefix.1 "" = pre at hpre
  dsimp only
  split <;> simp [String.toList_append, List.head?_append, hpre]

/-! ### Read again -/

theorem readVec_asStr (texts : List String) :
    readVec asStr (.arr (texts.map .str)) = some texts := by
  unfold readVec asArray
  rw [Option.bind_some]
  induction texts with
  | nil => rfl
  | cons text texts ih =>
      rw [List.map_cons, List.mapM_cons, ih]
      rfl

theorem readOptionalField_path (opt : String × Json) (h) :
    ∃ read, readOptionalField (.obj [("path", .str opt.1), ("value", opt.2)]) h = some read
      ∧ read.path = opt.1 := by
  unfold readOptionalField
  dsimp only
  split
  · rename_i hnone
    cases hnone
  · exact ⟨_, rfl, rfl⟩

theorem readOptionalFields_map (opts : List (String × Json)) (h) :
    ∃ read, readOptionalFields
        (opts.map (fun opt => .obj [("path", .str opt.1), ("value", opt.2)])) h = some read
      ∧ read.map OptionalField.path = opts.map Prod.fst := by
  induction opts with
  | nil => exact ⟨[], rfl, rfl⟩
  | cons opt opts ih =>
      obtain ⟨first, hfirst, hpath⟩ := readOptionalField_path opt (h _ List.mem_cons_self)
      obtain ⟨rest, hrest, hpaths⟩ := ih (fun w hw => h w (List.mem_cons_of_mem _ hw))
      refine ⟨first :: rest, ?_, by rw [List.map_cons, List.map_cons, hpath, hpaths]⟩
      unfold readOptionalFields
      exact Option.bind_eq_some_iff.mpr ⟨first, hfirst, Option.map_eq_some_iff.mpr ⟨rest, hrest, rfl⟩⟩

theorem readOptional_map {fields : List (String × Json)} (opts : List (String × Json))
    (hopts : Json.lookup "optional" fields = some (.arr
      (opts.map (fun opt => .obj [("path", .str opt.1), ("value", opt.2)])))) (h) :
    ∃ read, readOptional fields h = some read
      ∧ read.map OptionalField.path = opts.map Prod.fst := by
  unfold readOptional
  split
  · rename_i hnone
    rw [hopts] at hnone
    cases hnone
  · rename_i items hitems
    rw [hopts] at hitems
    cases hitems
    exact readOptionalFields_map opts _
  · rename_i other hother hitems
    rw [hopts] at hitems
    cases hitems
    exact absurd rfl (hother _)

/-- What the panel writes is read as a variant, with the same parts. -/
theorem readSchemaVariant_schemaJson (template : Json) (carriers : List String)
    (optional : List (String × Json)) (h) :
    ∃ variant, readSchemaVariant (schemaJson template carriers optional) h = some variant
      ∧ variant.template = template ∧ variant.carriers = carriers
      ∧ variant.optional.map OptionalField.path = optional.map Prod.fst := by
  obtain ⟨opts, hopts, hpaths⟩ := readOptional_map optional rfl h
  unfold readSchemaVariant schemaJson
  dsimp only
  split
  · rename_i hnone
    cases hnone
  · rename_i t ht
    cases ht
    refine ⟨_, Option.bind_eq_some_iff.mpr ⟨carriers, readVec_asStr carriers,
      Option.map_eq_some_iff.mpr ⟨opts, hopts, rfl⟩⟩, rfl, rfl, hpaths⟩

/-- Whatever the dice show, a variant is read, and it has room. -/
theorem generated_reads (d : Dice) :
    ∃ variant, readSchemaVariant (generateRandomSchema d) (tidy_generated d) = some variant
      ∧ variant.Roomy := by
  obtain ⟨template, carriers, optional, hgen, hroomy⟩ := generated_roomy d
  generalize tidy_generated d = htidy
  revert htidy
  rw [hgen]
  intro htidy
  obtain ⟨variant, hread, rfl, rfl, hoptional⟩ :=
    readSchemaVariant_schemaJson template carriers optional htidy
  refine ⟨variant, hread, ?_⟩
  unfold SchemaVariant.Roomy
  rw [hoptional]
  exact hroomy

/-- A variant the panel can have rolled. -/
def Rolled (variant : SchemaVariant) : Prop :=
  ∃ d, readSchemaVariant (generateRandomSchema d) (tidy_generated d) = some variant

theorem Rolled.roomy {variant : SchemaVariant} (h : Rolled variant) : variant.Roomy := by
  obtain ⟨d, hd⟩ := h
  obtain ⟨rolled, hread, hroomy⟩ := generated_reads d
  rw [hread] at hd
  cases hd
  exact hroomy

/-! ## A profile of the panel's -/

/-- Every kind of the profile has a path and up to ten variants, all of them rolled. -/
def RolledProfile (profile : MaskingProfile) : Prop :=
  ∀ kind spec, profile.kinds.get? kind = some spec →
    (∃ d, spec.path = generateRandomPath d) ∧ spec.schemas ≠ []
      ∧ spec.schemas.length ≤ maxSchemasPerKind ∧ ∀ variant ∈ spec.schemas, Rolled variant

variable {profile : MaskingProfile} {kind : String} {spec : KindSpec} {key : List UInt8}

theorem RolledProfile.refuseKind (h : RolledProfile profile)
    (hspec : profile.kinds.get? kind = some spec) : MaskingProfile.refuseKind kind spec = none := by
  obtain ⟨⟨d, hpath⟩, hsome, hfew, hall⟩ := h kind spec hspec
  unfold MaskingProfile.refuseKind
  rw [if_neg (not_not.mpr (hpath ▸ head_generateRandomPath d)), if_neg hsome,
    if_neg (Nat.not_lt.mpr hfew), Option.map_eq_none_iff, List.findIdx?_eq_none_iff]
  intro variant hvariant
  exact decide_eq_false (hall variant hvariant).roomy.some

theorem RolledProfile.validate (h : RolledProfile profile)
    (hname : profile.name.toList.all Client.isWhitespace = false)
    (hkey : profile.coverKey = .ok key) (hkinds : profile.kinds.entries ≠ []) :
    profile.validate = .ok () := by
  have hnone : profile.kinds.entries.findSome? (fun e => MaskingProfile.refuseKind e.1 e.2)
      = none := by
    rw [List.findSome?_eq_none_iff]
    intro e he
    exact h.refuseKind (OrdMap.get?_eq_some.mpr he)
  unfold MaskingProfile.validate
  simp [hname, hkey, hkinds, hnone, bind, Except.bind]

theorem RolledProfile.wrap_unwrap {C : CoverCipher} {inner ciphertext : List UInt8} {rng : Rng}
    (hrolled : RolledProfile profile) (hvalid : profile.validate = .ok ())
    (hkey : profile.coverKey = .ok key) (hspec : profile.kinds.get? kind = some spec)
    (hseal : C.encrypt key (wrapNonce rng) inner = some ciphertext)
    (hopens : C.Opens key (wrapNonce rng) inner ciphertext) :
    ∃ body, wrap C profile kind inner rng = .ok body
      ∧ unwrap C profile kind body = .ok inner := by
  obtain ⟨-, hsome, -, hall⟩ := hrolled kind spec hspec
  have hlt : (nextU32 rng).1 % spec.schemas.length < spec.schemas.length :=
    Nat.mod_lt _ (List.length_pos_iff.mpr hsome)
  have hroomy := (hall _ (List.getElem_mem hlt)).roomy
  obtain ⟨body, hbody⟩ := hroomy.buildPacket_ok (wrapNonce rng ++ ciphertext)
    (fillBytes nonceLen (nextU32 rng).2).2
  have hwrap : wrap C profile kind inner rng = .ok body := by
    have hsealed : sealWith C key (fillBytes nonceLen (nextU32 rng).2).1 inner
        = .ok (wrapNonce rng ++ ciphertext) := by
      unfold sealWith
      unfold wrapNonce at hseal ⊢
      rw [hseal]
    unfold wrap
    rw [hspec]
    dsimp only
    rw [List.getElem?_eq_getElem hlt]
    dsimp only
    rw [hkey]
    simp only [bind, Except.bind]
    rw [hsealed]
    exact hbody
  refine ⟨body, hwrap, unwrap_wrap hvalid (fun spec' hspec' variant hvariant => ?_)
    (fun key' ciphertext' hkey' hseal' => ?_) hwrap⟩
  · rw [hspec] at hspec'
    cases hspec'
    exact (hall variant hvariant).roomy.clear
  · rw [hkey] at hkey'
    cases hkey'
    rw [hseal] at hseal'
    cases hseal'
    exact hopens

/-- **What is rolled carries**: whatever the dice show, what is rolled is read as a variant whose
carriers are all in its template, apart from each other and from its decoys. A profile with nothing
but what was rolled is valid, and what is wrapped in it, however the wrapping falls out, is
unwrapped. -/
theorem rolled_carried (C : CoverCipher) :
    (∀ d, ∃ variant, readSchemaVariant (generateRandomSchema d) (tidy_generated d) = some variant
      ∧ variant.Roomy)
    ∧ ∀ {profile : MaskingProfile} {kind : String} {spec : KindSpec}
        {key inner ciphertext : List UInt8} {rng : Rng},
      profile.name.toList.all Client.isWhitespace = false → profile.coverKey = .ok key →
      RolledProfile profile → profile.kinds.get? kind = some spec →
      C.encrypt key (wrapNonce rng) inner = some ciphertext →
      C.Opens key (wrapNonce rng) inner ciphertext →
      profile.validate = .ok ()
        ∧ ∃ body, wrap C profile kind inner rng = .ok body
          ∧ unwrap C profile kind body = .ok inner := by
  refine ⟨generated_reads, fun hname hkey hrolled hspec hseal hopens => ?_⟩
  have hvalid := hrolled.validate hname hkey
    (List.ne_nil_of_mem (OrdMap.get?_eq_some.mp hspec))
  exact ⟨hvalid, hrolled.wrap_unwrap hvalid hkey hspec hseal hopens⟩

section Example

/-- All ones, and names of one letter. -/
def aces : Dice := ⟨0, 0, fun _ => 0, 0, 0, "n", "c", "w", 0, 0, none⟩

def aceVariant : SchemaVariant :=
  (readSchemaVariant (generateRandomSchema aces) (tidy_generated aces)).getD oneField

def aceProfile : MaskingProfile where
  name := "app"
  coverKeyB64 := "AAAAAAAAAAAAAAAAAAAAAAAAAAAAAAAAAAAAAAAAAAA="
  kinds := ⟨[("push", ⟨generateRandomPath aces, [aceVariant]⟩)], List.pairwise_singleton _ _⟩

theorem rolled_carried_aces :
    aceProfile.validate = .ok ()
      ∧ ∃ body, wrap onceCipher aceProfile "push" [1, 2, 3, 4] [] = .ok body
        ∧ unwrap onceCipher aceProfile "push" body = .ok [1, 2, 3, 4] := by
  have hkey : aceProfile.coverKey = .ok (List.replicate 32 0) := by decide +kernel
  have hrolled : RolledProfile aceProfile := by
    intro kind spec hspec
    obtain ⟨rfl, rfl⟩ := Prod.mk.inj (List.mem_singleton.mp (OrdMap.get?_eq_some.mp hspec))
    refine ⟨⟨aces, rfl⟩, List.cons_ne_nil _ _, by decide, fun variant hvariant => ?_⟩
    cases List.mem_singleton.mp hvariant
    exact ⟨aces, rfl⟩
  refine (rolled_carried onceCipher).2 (by decide +kernel) hkey hrolled rfl rfl ⟨rfl, fun nonce c h => ?_⟩
  unfold onceCipher at h
  dsimp only at h
  split at h
  · rename_i honce
    exact ⟨honce.1, honce.2⟩
  · exact absurd rfl h

end Example

end Cover

end Paranoia
