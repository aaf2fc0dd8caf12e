import Paranoia.Client.Startup

/-!
# Which profile is open after a start

Only the profile recorded as the last one is made active, so it is the active one in whatever order
the logins finish (`active_finishAll`). But each login that succeeds records its own profile, and so
the record is right afterwards only if the last login to succeed is that of the recorded profile
(`startup_exact`).
-/

namespace Paranoia

namespace Startup

variable {ids : ProfileIds} {stored : StoredClients ids} {manifest : Manifest}

/-- A login is of the profile it is for, and only the last one is made active. -/
def Asked (last : String) (l : StartupLogin) : Prop := l.makeActive = true ↔ l.profileId = last

theorem asked_tryLoad {acc : Loaded} {last profileId : String} {makeActive : Bool}
    (hactive : makeActive = true ↔ profileId = last) (h : ∀ l ∈ acc.logins, Asked last l) :
    ∀ l ∈ (tryLoad stored acc profileId makeActive).logins, Asked last l := by
  unfold tryLoad
  split
  · exact h
  · split
    · exact h
    · rename_i config hconfig
      split
      · exact h
      · intro l hl
        rcases List.mem_append.mp hl with hl | hl
        · exact h l hl
        · unfold loginClientInternal at hl
          split at hl
          · cases hl
          · cases List.mem_singleton.mp hl
            unfold Asked
            rw [hactive, ← stored.own _ _ hconfig]

/-- Only the login of the last profile is to be made active. -/
theorem asked_loadClientConfig :
    ∀ l ∈ loadClientConfig stored manifest, Asked manifest.lastProfileId l := by
  have hprofiles : ∀ (profiles : List ManifestEntry) (acc : Loaded),
      (∀ l ∈ acc.logins, Asked manifest.lastProfileId l) →
      ∀ l ∈ (profiles.foldl
        (fun acc e => tryLoad stored acc e.id (e.id = manifest.lastProfileId)) acc).logins,
        Asked manifest.lastProfileId l := by
    intro profiles
    induction profiles with
    | nil => exact fun _ h => h
    | cons e profiles ih =>
        intro acc h
        exact ih _ (asked_tryLoad (by simp) h)
  have hloop := hprofiles manifest.profiles ⟨[], []⟩ fun _ hl => absurd hl List.not_mem_nil
  unfold loadClientConfig
  dsimp only
  split
  · exact hloop
  · exact asked_tryLoad (by simp) hloop

end Startup

namespace StartupState

variable {hint : Option String} {now last : String} {s : StartupState} {l : StartupLogin} {ok : Bool}
  {order : List (StartupLogin × Bool)}

@[simp]
theorem finish_failed : s.finish hint now l false = s := rfl

theorem lastProfileId_finish : (s.finish hint now l ok).manifest.lastProfileId
    = if ok then l.profileId else s.manifest.lastProfileId := by
  cases ok with
  | false => rfl
  | true =>
      unfold finish
      rw [if_pos rfl]
      dsimp only
      split <;> rfl

/-- The login of the profile that is asked for makes it the active one. -/
theorem active_finish_self (hhint : ∀ p ∈ hint, p = last) (hl : l.profileId = last)
    (hasked : Startup.Asked last l) : (s.finish hint now l true).active = some last := by
  unfold finish
  rw [if_pos rfl]
  dsimp only
  rw [if_pos, hl]
  refine .inr ⟨hasked.mpr hl, .inl ?_⟩
  cases hint with
  | none => exact .inl rfl
  | some p => exact .inr (congrArg some ((hhint p rfl).trans hl.symm))

/-- No other login takes it away. -/
theorem active_finish (hhint : ∀ p ∈ hint, p = last) (hasked : Startup.Asked last l)
    (hactive : s.active = some last) : (s.finish hint now l ok).active = some last := by
  cases ok with
  | false => exact hactive
  | true =>
      by_cases hl : l.profileId = last
      · exact active_finish_self hhint hl hasked
      · unfold finish
        rw [if_pos rfl]
        dsimp only
        rw [if_neg, addSession, hactive, if_neg (by simpa using Ne.symm hl)]
        rintro (hp | ⟨hmake, -⟩)
        · exact hl (hhint _ hp)
        · exact hl (hasked.mp hmake)

theorem active_finishAll_of_active (hhint : ∀ p ∈ hint, p = last)
    (hasked : ∀ l ∈ order, Startup.Asked last l.1) (hactive : s.active = some last) :
    (s.finishAll hint now order).active = some last := by
  induction order generalizing s with
  | nil => exact hactive
  | cons l order ih =>
      exact ih (fun l' hl' => hasked l' (List.mem_cons_of_mem _ hl'))
        (active_finish hhint (hasked l List.mem_cons_self) hactive)

/-- Once the login of the last profile has succeeded, it is the active one. -/
theorem active_finishAll (hhint : ∀ p ∈ hint, p = last)
    (hasked : ∀ l ∈ order, Startup.Asked last l.1) (hl : l.profileId = last)
    (hmem : (l, true) ∈ order) : (s.finishAll hint now order).active = some last := by
  induction order generalizing s with
  | nil => cases hmem
  | cons l' order ih =>
      have htail : ∀ l ∈ order, Startup.Asked last l.1 :=
        fun l hl => hasked l (List.mem_cons_of_mem _ hl)
      rcases List.mem_cons.mp hmem with rfl | hmem
      · change ((s.finish hint now l true).finishAll hint now order).active = some last
        exact active_finishAll_of_active hhint htail
          (active_finish_self hhint hl (hasked (l, true) List.mem_cons_self))
      · exact ih htail hmem

/-- The logins that succeed, in order. -/
def succeeded (order : List (StartupLogin × Bool)) : List StartupLogin :=
  (order.filter (·.2)).map Prod.fst

/-- The last login to succeed is the one that is recorded. -/
theorem lastProfileId_finishAll : (s.finishAll hint now order).manifest.lastProfileId
    = ((succeeded order).getLast?.map StartupLogin.profileId).getD s.manifest.lastProfileId := by
  induction order generalizing s with
  | nil => rfl
  | cons l order ih =>
      obtain ⟨l, ok⟩ := l
      have hstep : (finishAll hint now s ((l, ok) :: order))
          = (s.finish hint now l ok).finishAll hint now order := rfl
      rw [hstep, ih, lastProfileId_finish]
      cases ok with
      | false => rfl
      | true =>
          have hcons : succeeded ((l, true) :: order) = l :: succeeded order := rfl
          rw [hcons, List.getLast?_cons, if_pos rfl]
          cases (succeeded order).getLast? <;> rfl

/-- **What a start leaves**: the recorded profile is active if its login succeeds and no notification
asks for another, and it stays recorded, if and only if no other login is the last to succeed. -/
theorem startup_exact {ids : ProfileIds} (stored : StoredClients ids) (manifest : Manifest)
    (hint : Option String) (now : String) (order : List (StartupLogin × Bool))
    (horder : (order.map Prod.fst).Perm (Startup.loadClientConfig stored manifest)) :
    let s := finishAll hint now ⟨manifest, [], none⟩ order
    ((∀ l, (l, true) ∈ order → l.profileId = manifest.lastProfileId →
        (∀ p ∈ hint, p = manifest.lastProfileId) → s.active = some manifest.lastProfileId)
      ∧ s.manifest.lastProfileId = manifest.lastProfileId)
      ↔ ∀ l ∈ (succeeded order).getLast?, l.profileId = manifest.lastProfileId := by
  have hasked : ∀ l ∈ order, Startup.Asked manifest.lastProfileId l.1 := fun l hl =>
    Startup.asked_loadClientConfig l.1 (horder.mem_iff.mp (List.mem_map_of_mem hl))
  dsimp only
  rw [lastProfileId_finishAll]
  constructor
  · rintro ⟨-, hlast⟩ l hl
    rw [hl] at hlast
    exact hlast
  · intro hlast
    refine ⟨fun l hmem hl hhint => active_finishAll hhint hasked hl hmem, ?_⟩
    cases hl : (succeeded order).getLast? with
    | none => rfl
    | some l => exact hlast l hl

section Example

/-- The key is the server id, and the server id the profile. -/
def plainIds : ProfileIds := ⟨id, fun _ serverId => serverId⟩

def annAndBob : StoredClients plainIds where
  client id := if id = "ann" ∨ id = "bob" then some ⟨"https://one", id, id⟩ else none
  own id config h := by
    obtain ⟨-, h⟩ := Option.ite_none_right_eq_some.mp h
    cases h
    rfl

def annLast : Manifest :=
  ⟨[⟨"ann", [("server", "https://one")]⟩, ⟨"bob", [("server", "https://one")]⟩], "ann"⟩

def annLogin : StartupLogin := ⟨"ann", "https://one", "ann", true⟩

def bobLogin : StartupLogin := ⟨"bob", "https://one", "bob", false⟩

/-- Bob's login finishes last: Ann is active, and after a restart Bob will be. -/
theorem startup_forgets :
    Startup.loadClientConfig annAndBob annLast = [annLogin, bobLogin]
      ∧ (finishAll none "10:00" ⟨annLast, [], none⟩ [(annLogin, true), (bobLogin, true)]).active
        = some "ann"
      ∧ (finishAll none "10:00" ⟨annLast, [], none⟩
        [(annLogin, true), (bobLogin, true)]).manifest.lastProfileId = "bob" := by
  decide +kernel

theorem startup_exact_bobFirst :
    (finishAll none "10:00" ⟨annLast, [], none⟩
      [(bobLogin, true), (annLogin, true)]).manifest.lastProfileId = "ann" :=
  ((startup_exact annAndBob annLast none "10:00" [(bobLogin, true), (annLogin, true)]
    (by decide +kernel)).mpr (by decide +kernel)).2

end Example

end StartupState

end Paranoia
