/-
Which deletions account maintenance has announced.

An account that has not been reminded yet is one of two kinds.  Either the next run in
its warning band will remind it: it never logged in, its token is dead when the band
opens, and no run has come past the start of the band so far.  Or something shelters it
from being deleted at all.  `OnTrack` says so, and a run of the script, whose runs are
less than a token's lifetime apart, keeps it true; a request may only end what shelters
an account while its band has not opened.
-/
import Aurweb.Proofs.AccountMaint

namespace Aurweb.AccountMaint

/-- An earlier run, or the latest, has reminded the account. -/
def Reminded (s : Site) (uid : Nat) : Prop := uid ∈ s.earlier ∨ uid ∈ s.warned

/-- **The promise**: whoever is deleted while not suspended was reminded by an earlier run. -/
def NoSilentDeletion (s : Site) : Prop :=
  ∀ d ∈ s.deletions, d.user.suspended = false → d.user.id ∈ s.earlier

instance : DecidablePred NoSilentDeletion := fun s =>
  inferInstanceAs (Decidable (∀ d ∈ s.deletions, _))

/-- Time does not go back, and runs are less than a token's lifetime apart. -/
def Schedule (cfg : Config) (s : Site) : Event → Prop
  | .request now _ => s.clock ≤ now
  | .warn now issued _ => s.clock ≤ now ∧ now ≤ issued ∧
      ∀ last ∈ s.lastRun, now < last + cfg.emailVerificationTTL * 1000000
  | _ => True

instance (cfg : Config) (s : Site) : DecidablePred (Schedule cfg s)
  | .request _ _ => inferInstanceAs (Decidable (_ ≤ _))
  | .warn _ _ _ => inferInstanceAs (Decidable (_ ∧ _ ∧ _))
  | .select => inferInstanceAs (Decidable True)
  | .delete => inferInstanceAs (Decidable True)

/-- A token issued at `now` is dead when the warning band of the account opens. -/
def TokenGone (cfg : Config) (u : User) (now : Nat) : Prop :=
  now + cfg.emailVerificationTTL * 1000000 ≤ bandStart cfg u

/-- What may happen to an account before it is reminded. -/
def QuietRequest (cfg : Config) (db : Db) (u : User) (now : Nat) : Request → Prop
  | .register .. => True
  | .verify _ => True
  -- a login counts as activity for longer than the band lasts
  | .login uid => uid = u.id → u.suspended = true
  | .sshLogin uid _ => uid = u.id → u.suspended = true
  | .resend _ uid _ => uid = u.id →
      u.emailVerified = true ∨ inCooldown cfg u now = true ∨ TokenGone cfg u now
  | .edit editor uid form _ => uid = u.id → ∀ e ∈ db.user? editor, mayEdit cfg e u form now = true →
      (form.newPassword = true → editor ≠ uid) ∧
      (form.emailChanged u = true → TokenGone cfg u now) ∧
      (u.suspended = true → form.suspended = false → now ≤ bandStart cfg u) ∧
      (u.accountType ≠ .user → form.accountType = some .user → now ≤ bandStart cfg u)
  | .content after => ownsContent db u.id = true → ownsContent after u.id = false →
      now ≤ bandStart cfg u

instance (cfg : Config) (db : Db) (u : User) (now : Nat) :
    DecidablePred (QuietRequest cfg db u now)
  | .register .. => inferInstanceAs (Decidable True)
  | .verify _ => inferInstanceAs (Decidable True)
  | .login _ => inferInstanceAs (Decidable (_ → _))
  | .sshLogin _ _ => inferInstanceAs (Decidable (_ → _))
  | .resend _ _ _ => inferInstanceAs (Decidable (_ → _ ∨ _ ∨ (_ ≤ _)))
  | .edit _ _ _ _ => inferInstanceAs (Decidable (_ → ∀ e ∈ Db.user? _ _, _ → _ ∧ (_ → _ ≤ _) ∧ _))
  | .content _ => inferInstanceAs (Decidable (_ → _ → _))

/--
Until the account is reminded it is not logged in to, a token is issued to it no later
than a token's lifetime before its warning band opens, and what shelters it from being
warned (content, suspension, its type, a verified address) is not lost later than that
either.  The script's first run comes before the band is over.
-/
def Quiet (cfg : Config) (uid : Nat) (s : Site) : Event → Prop
  | .request now r => ∀ u ∈ s.db.users, u.id = uid → Reminded s uid ∨ QuietRequest cfg s.db u now r
  | .warn now _ _ => s.lastRun = none → ∀ u ∈ s.db.users, u.id = uid → now ≤ bandEnd cfg u
  | .select => True
  -- deleting somebody else may take content along
  | .delete => ∀ u ∈ s.db.users, u.id = uid → Reminded s uid ∨
      (ownsContent s.db uid = true →
        ownsContent (deleteUsers s.db (s.uids.take batchSize)) uid = false →
        s.clock ≤ bandStart cfg u)

instance (s : Site) : DecidablePred (Reminded s) := fun _ =>
  inferInstanceAs (Decidable (_ ∨ _))

instance (cfg : Config) (uid : Nat) (s : Site) : DecidablePred (Quiet cfg uid s)
  | .request _ _ => inferInstanceAs (Decidable (∀ u ∈ s.db.users, _))
  | .warn _ _ _ => inferInstanceAs (Decidable (_ → ∀ u ∈ s.db.users, _))
  | .select => inferInstanceAs (Decidable True)
  | .delete => inferInstanceAs (Decidable (∀ u ∈ s.db.users, _))

/-! ### The invariant -/

/-- `doomed` and the suspension filter pass the account over, whatever its logins. -/
def sheltered (db : Db) (u : User) : Bool :=
  u.emailVerified || u.accountType != .user || ownsContent db u.id || u.suspended

/-- An account nobody has reminded yet. -/
structure OnTrack (cfg : Config) (s : Site) (u : User) : Prop where
  lastLogin : u.lastLogin = 0
  lastSSHLogin : u.lastSSHLogin = 0
  token : ∀ expiry ∈ u.emailVerificationExpiry,
    expiry ≤ u.registrationTS + cfg.unverifiedAccountWarning
  ahead : sheltered s.db u = true ∨ ∀ last ∈ s.lastRun, last ≤ bandStart cfg u

/-- What holds of the row of the account. -/
structure RowOK (cfg : Config) (s : Site) (u : User) : Prop where
  epoch : cfg.unverifiedAccountLifetime ≤ u.registrationTS
  track : ¬Reminded s u.id → OnTrack cfg s u
  warned : u.id ∈ s.warned → ∀ last ∈ s.lastRun, last ≤ bandEnd cfg u
  selected : u.id ∈ s.uids → u.id ∉ s.earlier → u.suspended = true ∧ u.id ∉ s.warned ∧
    ∃ last, s.lastRun = some last ∧
      (u.registrationTS + cfg.unverifiedAccountLifetime) * 1000000 < last

structure Announced (cfg : Config) (uid : Nat) (s : Site) : Prop where
  keyed : Keyed s.db
  known : Reminded s uid ∨ uid ∈ s.uids → uid < s.db.nextID
  clock : ∀ last ∈ s.lastRun, last ≤ s.clock
  epoch : cfg.unverifiedAccountLifetime ≤ timestamp s.clock
  selecting : ∀ now ∈ s.selecting, s.lastRun = some now
  row : ∀ u ∈ s.db.users, u.id = uid → RowOK cfg s u
  log : ∀ d ∈ s.deletions, d.user.id = uid → d.user.suspended = false → uid ∈ s.earlier

/-- The configurations on which the two windows do not overlap. -/
structure Windows (cfg : Config) : Prop where
  check : checkConfig cfg = true
  band : cfg.unverifiedAccountWarning + cfg.emailVerificationTTL ≤ cfg.unverifiedAccountLifetime

theorem Windows.warning {cfg : Config} (h : Windows cfg) :
    cfg.unverifiedAccountWarning < cfg.unverifiedAccountLifetime ∧
      cfg.emailVerificationTTL < cfg.unverifiedAccountWarning := by
  simpa [checkConfig] using h.check

/-! ### Requests -/

/-- What a quiet request leaves of an account nobody has reminded. -/
structure Kept (cfg : Config) (now : Nat) (db db' : Db) (u u' : User) : Prop where
  lastLogin : u'.lastLogin = u.lastLogin
  lastSSHLogin : u'.lastSSHLogin = u.lastSSHLogin
  token : ∀ expiry ∈ u'.emailVerificationExpiry, expiry ∈ u.emailVerificationExpiry ∨
    expiry ≤ u.registrationTS + cfg.unverifiedAccountWarning
  suspended : u.suspended = true → u'.suspended = true ∨ now ≤ bandStart cfg u
  sheltered : sheltered db u = true → sheltered db' u' = true ∨ now ≤ bandStart cfg u

theorem TokenGone.expiry {cfg : Config} {u : User} {now : Nat} (h : TokenGone cfg u now) :
    timestamp now + cfg.emailVerificationTTL ≤ u.registrationTS + cfg.unverifiedAccountWarning := by
  unfold TokenGone bandStart at h
  unfold timestamp
  omega

theorem TokenGone.now {cfg : Config} {u : User} {now : Nat} (h : TokenGone cfg u now) :
    now ≤ bandStart cfg u := Nat.le_trans (Nat.le_add_right _ _) h

theorem Kept.refl {cfg : Config} {now : Nat} {db db' : Db} {u : User}
    (hcontent : ownsContent db u.id = true → ownsContent db' u.id = false → now ≤ bandStart cfg u) :
    Kept cfg now db db' u u := by
  refine ⟨rfl, rfl, fun _ h => Or.inl h, Or.inl, fun h => ?_⟩
  by_cases hlost : ownsContent db u.id = true ∧ ownsContent db' u.id = false
  · exact Or.inr (hcontent hlost.1 hlost.2)
  · refine Or.inl ?_
    simp only [AccountMaint.sheltered, Bool.or_eq_true] at h ⊢
    rcases h with (h | h) | h
    · exact Or.inl (Or.inl h)
    · exact Or.inl (Or.inr (by
        by_contra hc
        exact hlost ⟨h, by simpa using hc⟩))
    · exact Or.inr h

@[simp] theorem ownsContent_updateUser (db : Db) (uid : Nat) (f : User → User) (i : Nat) :
    ownsContent (updateUser db uid f) i = ownsContent db i := rfl

theorem sheltered_iff {db : Db} {u : User} :
    sheltered db u = true ↔ u.emailVerified = true ∨ u.accountType ≠ .user ∨
      ownsContent db u.id = true ∨ u.suspended = true := by
  simp [sheltered, or_assoc]

theorem kept_of_edit {cfg : Config} {now : Nat} {db : Db} {u : User} {form : AccountForm}
    {token : String} {db' : Db} (hcontent : ∀ i, ownsContent db' i = ownsContent db i)
    (hemail : form.emailChanged u = true → TokenGone cfg u now)
    (hsuspended : u.suspended = true → form.suspended = false → now ≤ bandStart cfg u)
    (htype : u.accountType ≠ .user → form.accountType = some .user → now ≤ bandStart cfg u) :
    Kept cfg now db db' u (u.edited cfg form token now) := by
  -- the columns of the row, one by one
  have hlogin : (u.edited cfg form token now).lastLogin = u.lastLogin := by
    unfold User.edited
    split <;> rfl
  have hssh : (u.edited cfg form token now).lastSSHLogin = u.lastSSHLogin := by
    unfold User.edited
    split <;> rfl
  have hsus : (u.edited cfg form token now).suspended = form.suspended := rfl
  have htyp : (u.edited cfg form token now).accountType = form.accountType.getD u.accountType := by
    unfold User.edited
    split <;> rfl
  have hver : (u.edited cfg form token now).emailVerified =
      if form.emailChanged u then false else u.emailVerified := by
    unfold User.edited
    split <;> rfl
  have hexp : (u.edited cfg form token now).emailVerificationExpiry =
      if form.emailChanged u then some (timestamp now + cfg.emailVerificationTTL)
      else u.emailVerificationExpiry := by
    unfold User.edited
    split <;> rfl
  have hkeepSus : u.suspended = true → (u.edited cfg form token now).suspended = true ∨
      now ≤ bandStart cfg u := by
    intro h
    cases hform : form.suspended with
    | true => exact Or.inl (hsus.trans hform)
    | false => exact Or.inr (hsuspended h hform)
  refine ⟨hlogin, hssh, fun expiry hexpiry => ?_, hkeepSus, fun h => ?_⟩
  · rw [hexp] at hexpiry
    split at hexpiry
    · rename_i hchanged
      obtain rfl := Option.mem_some_iff.mp hexpiry
      exact Or.inr (hemail hchanged).expiry
    · exact Or.inl hexpiry
  · rw [sheltered_iff] at h ⊢
    rw [edited_id, hcontent]
    rcases h with h | h | h | h
    · cases hchanged : form.emailChanged u with
      | true => exact Or.inr (hemail hchanged).now
      | false => exact Or.inl (Or.inl (by rw [hver, hchanged]; exact h))
    · by_cases huser : form.accountType = some .user
      · exact Or.inr (htype h huser)
      · refine Or.inl (Or.inr (Or.inl ?_))
        rw [htyp]
        cases hform : form.accountType with
        | none => exact h
        | some t => exact fun ht => huser (by rw [hform, show t = .user from ht])
    · exact Or.inl (Or.inr (Or.inr (Or.inl h)))
    · exact (hkeepSus h).imp (fun h => Or.inr (Or.inr (Or.inr h))) id

theorem kept_of_touch {cfg : Config} {db : Db} {now : Nat} {r : Request} {u : User}
    {f : User → User} (h : Touch cfg db now r u f) (hq : QuietRequest cfg db u now r) :
    Kept cfg now db (updateUser db u.id f) u (f u) := by
  cases h with
  | login hs => simp [hq rfl] at hs
  | sshLogin hs => simp [hq rfl] at hs
  | verify _ _ _ => exact ⟨rfl, rfl, by simp, Or.inl, fun _ => Or.inl (by simp [sheltered])⟩
  | resend hverified hcool =>
      rcases hq rfl with h | h | h
      · simp [hverified] at h
      · simp [hcool] at h
      · refine ⟨rfl, rfl, fun expiry hexpiry => ?_, Or.inl, Or.inl⟩
        obtain rfl := Option.mem_some_iff.mp hexpiry
        exact Or.inr h.expiry
  | edit heditor hmay =>
      obtain ⟨-, hemail, hsuspended, htype⟩ := hq rfl _ heditor hmay
      exact kept_of_edit (fun _ => rfl) hemail hsuspended htype
  | editLogin heditor hmay hpass hself => exact absurd hself ((hq rfl _ heditor hmay).1 hpass)

/-- A quiet request keeps the row, or is the registration of the account. -/
theorem kept_of_request {cfg : Config} {db : Db} {now : Nat} {r : Request} (hkeyed : Keyed db)
    {u' : User} (hu' : u' ∈ (r.handle cfg db now).users) :
    (∃ u ∈ db.users, u'.id = u.id ∧ u'.registrationTS = u.registrationTS ∧
      (QuietRequest cfg db u now r → Kept cfg now db (r.handle cfg db now) u u')) ∨
    (u'.id = db.nextID ∧ u'.registrationTS = timestamp now ∧ u'.lastLogin = 0 ∧
      u'.lastSSHLogin = 0 ∧ u'.emailVerificationExpiry =
        some (timestamp now + cfg.emailVerificationTTL)) := by
  rcases request_cases cfg db now r with hsame | ⟨username, email, token, rfl⟩ |
    ⟨u, f, hu, htouch, heq⟩ | ⟨after, rfl⟩
  · rw [hsame] at hu' ⊢
    refine Or.inl ⟨u', hu', rfl, rfl, fun _ => Kept.refl fun h h' => ?_⟩
    simp [h] at h'
  · rcases List.mem_append.mp hu' with hu' | hu'
    · refine Or.inl ⟨u', hu', rfl, rfl, fun _ => Kept.refl fun h h' => ?_⟩
      have hown : ownsContent (Request.handle cfg db now (.register username email token)) u'.id =
          ownsContent db u'.id := rfl
      simp [hown, h] at h'
    · rw [List.mem_singleton] at hu'
      exact Or.inr (by rw [hu']; exact ⟨rfl, rfl, rfl, rfl, rfl⟩)
  · rw [heq] at hu' ⊢
    obtain ⟨w, hw, hrow⟩ := mem_updateUser.mp hu'
    by_cases hid : w.id = u.id
    · rw [if_pos hid] at hrow
      obtain rfl : w = u := hkeyed.eq_of_id hw hu hid
      rw [← hrow]
      exact Or.inl ⟨w, hw, htouch.id w, htouch.registrationTS w, kept_of_touch htouch⟩
    · rw [if_neg hid] at hrow
      rw [← hrow]
      refine Or.inl ⟨w, hw, rfl, rfl, fun _ => Kept.refl fun h h' => ?_⟩
      simp [h] at h'
  · exact Or.inl ⟨u', hu', rfl, rfl, fun hq => Kept.refl hq⟩

theorem Kept.rowOK {cfg : Config} {s : Site} {now : Nat} {db' : Db} {u u' : User}
    (hw : Windows cfg) (hclock : ∀ last ∈ s.lastRun, last ≤ s.clock) (hnow : s.clock ≤ now)
    (h : RowOK cfg s u) (hid : u'.id = u.id) (hreg : u'.registrationTS = u.registrationTS)
    (hkept : Reminded s u.id ∨ Kept cfg now s.db db' u u') :
    RowOK cfg { s with db := db', clock := now } u' := by
  have hstart : bandStart cfg u' = bandStart cfg u := by rw [bandStart, bandStart, hreg]
  have hend : bandEnd cfg u' = bandEnd cfg u := by rw [bandEnd, bandEnd, hreg]
  have hwarning := hw.warning.1
  refine ⟨hreg ▸ h.epoch, fun hnot => ?_, fun hwarned => ?_, fun hsel hearly => ?_⟩
  · have hnot' : ¬Reminded s u.id := by rwa [hid] at hnot
    have hkept := hkept.resolve_left hnot'
    have htrack := h.track hnot'
    refine ⟨hkept.lastLogin.trans htrack.lastLogin, hkept.lastSSHLogin.trans htrack.lastSSHLogin,
      fun expiry hexpiry => ?_, ?_⟩
    · rw [hreg]
      exact (hkept.token expiry hexpiry).elim (htrack.token expiry) id
    · rw [hstart]
      rcases htrack.ahead with hsh | hahead
      · refine (hkept.sheltered hsh).imp id fun hlate last hlast => ?_
        exact Nat.le_trans (hclock last hlast) (Nat.le_trans hnow hlate)
      · exact Or.inr hahead
  · rw [hend]
    exact h.warned (hid ▸ hwarned)
  · obtain ⟨hsus, hwarned, last, hlast, hold⟩ := h.selected (hid ▸ hsel) (hid ▸ hearly)
    have hnot : ¬Reminded s u.id := fun hr => hr.elim (hid ▸ hearly) hwarned
    refine ⟨?_, hid ▸ hwarned, last, hlast, hreg ▸ hold⟩
    refine ((hkept.resolve_left hnot).suspended hsus).resolve_right fun hlate => ?_
    have := hclock last hlast
    unfold bandStart at hlate
    omega

theorem timestamp_mono {a b : Nat} (h : a ≤ b) : timestamp a ≤ timestamp b :=
  Nat.div_le_div_right h

theorem Announced.request {cfg : Config} {uid : Nat} {s : Site} (hw : Windows cfg)
    (h : Announced cfg uid s) {now : Nat} {r : Request} (hsched : Schedule cfg s (.request now r))
    (hquiet : Quiet cfg uid s (.request now r)) :
    Announced cfg uid (step cfg s (.request now r)) := by
  have hnow : s.clock ≤ now := hsched
  refine ⟨h.keyed.request now r, fun hk => ?_, fun last hlast => ?_, ?_, h.selecting, ?_, h.log⟩
  · exact Nat.lt_of_lt_of_le (h.known hk) (nextID_request cfg s.db now r)
  · exact Nat.le_trans (h.clock last hlast) hnow
  · exact Nat.le_trans h.epoch (timestamp_mono hnow)
  · intro u' hu' hid'
    rcases kept_of_request h.keyed hu' with ⟨u, hu, hid, hreg, hkept⟩ |
      ⟨hid, hreg, hlogin, hssh, htoken⟩
    · have hrow := h.row u hu (hid ▸ hid')
      refine Kept.rowOK hw h.clock hnow hrow hid hreg ?_
      have hq := hquiet u hu (hid ▸ hid')
      rw [← hid', hid] at hq
      exact hq.imp id hkept
    · -- the account has just been registered, so nothing is known of its id yet
      have hnew : ¬(Reminded s uid ∨ uid ∈ s.uids) := by
        intro hk
        have := h.known hk
        omega
      have hnow' : now ≤ bandStart cfg u' := by
        have := hw.warning.2
        unfold bandStart
        rw [hreg]
        unfold timestamp
        omega
      refine ⟨?_, fun _ => ⟨hlogin, hssh, ?_, Or.inr ?_⟩, fun hwarned => ?_, fun hsel => ?_⟩
      · rw [hreg]
        exact Nat.le_trans h.epoch (timestamp_mono hnow)
      · intro expiry hexpiry
        rw [htoken] at hexpiry
        obtain rfl := Option.mem_some_iff.mp hexpiry
        have := hw.warning.2
        omega
      · intro last hlast
        exact Nat.le_trans (h.clock last hlast) (Nat.le_trans hnow hnow')
      · exact absurd (Or.inl (Or.inr (hid' ▸ hwarned))) hnew
      · exact absurd (Or.inr (hid' ▸ hsel)) hnew

/-! ### The script -/

theorem mem_expiring {cfg : Config} {db : Db} {now : Nat} {u : User} :
    u ∈ expiring cfg db now ↔ u ∈ db.users ∧ doomed cfg db now u = true ∧ u.suspended = false ∧
      bandStart cfg u < now ∧ now ≤ bandEnd cfg u ∧ noLiveToken u now = true := by
  simp [expiring, and_assoc]

/-- **No account on track slips through its band**: a run that comes after the band has
opened reminds it, unless something shelters it. -/
theorem OnTrack.expiring {cfg : Config} {s : Site} {u : User} {now : Nat} (h : OnTrack cfg s u)
    (hw : Windows cfg) (hepoch : cfg.unverifiedAccountLifetime ≤ u.registrationTS)
    (hu : u ∈ s.db.users) (hsh : sheltered s.db u = false) (hstart : bandStart cfg u < now)
    (hgap : ∀ last ∈ s.lastRun, now < last + cfg.emailVerificationTTL * 1000000)
    (hfirst : s.lastRun = none → now ≤ bandEnd cfg u) : u ∈ expiring cfg s.db now := by
  have hnot : ¬sheltered s.db u = true := by simp [hsh]
  rw [sheltered_iff] at hnot
  have hwarning := hw.warning
  have hend : now ≤ bandEnd cfg u := by
    cases hlast : s.lastRun with
    | none => exact hfirst hlast
    | some last =>
        have hbefore := (h.ahead.resolve_left (by simp [hsh])) last hlast
        have hclose := hgap last hlast
        unfold bandStart at hbefore
        unfold bandEnd
        omega
  have hstamp : u.registrationTS + cfg.unverifiedAccountWarning ≤ timestamp now := by
    unfold bandStart at hstart
    unfold timestamp
    omega
  refine mem_expiring.mpr ⟨hu, doomed_iff.mpr ⟨?_, ?_, ?_, ?_, ?_⟩, ?_, hstart, hend, ?_⟩
  · simpa using fun hc => hnot (Or.inl hc)
  · by_contra hc
    exact hnot (Or.inr (Or.inl hc))
  · rw [h.lastLogin]
    omega
  · rw [h.lastSSHLogin]
    omega
  · simpa using fun hc => hnot (Or.inr (Or.inr (Or.inl hc)))
  · simpa using fun hc => hnot (Or.inr (Or.inr (Or.inr hc)))
  · unfold noLiveToken
    cases hexp : u.emailVerificationExpiry with
    | none => rfl
    | some expiry =>
        have := h.token expiry hexp
        simp only [decide_eq_true_eq]
        omega

theorem Announced.warn {cfg : Config} {uid : Nat} {s : Site} (hw : Windows cfg)
    (h : Announced cfg uid s) {now issued : Nat} {tokens : Nat → String}
    (hsched : Schedule cfg s (.warn now issued tokens))
    (hquiet : Quiet cfg uid s (.warn now issued tokens)) :
    Announced cfg uid (step cfg s (.warn now issued tokens)) := by
  obtain ⟨hnow, hissued, hgap⟩ := hsched
  have hkeyed := h.keyed.step cfg (.warn now issued tokens)
  simp only [AccountMaint.step, if_pos hw.check] at hkeyed ⊢
  refine ⟨hkeyed, fun hk => ?_, ?_, ?_, by simp, fun u' hu' hid' => ?_, fun d hd hid hsus => ?_⟩
  · rcases hk with (hk | hk) | hk
    · exact h.known (Or.inl (List.mem_append.mp hk))
    · obtain ⟨u, hu, rfl⟩ := List.mem_map.mp hk
      exact h.keyed.fresh u (mem_expiring.mp hu).1
    · simp at hk
  · rintro last hlast
    obtain rfl := Option.mem_some_iff.mp hlast
    exact hissued
  · exact Nat.le_trans h.epoch (timestamp_mono (Nat.le_trans hnow hissued))
  · obtain ⟨u, hu, hrow⟩ := Table.mem_update.mp hu'
    by_cases hmailed : u.id ∈ (expiring cfg s.db now).map (·.id)
    · -- the run reminds the account
      obtain ⟨w, hw', hid⟩ := List.mem_map.mp hmailed
      obtain ⟨hmem, -, -, -, hend, -⟩ := mem_expiring.mp hw'
      obtain rfl : w = u := h.keyed.eq_of_id hmem hu hid
      rw [if_pos (by simpa using hmailed)] at hrow
      subst hrow
      have hok := h.row w hu hid'
      refine ⟨hok.epoch, fun hnot => absurd (Or.inr hmailed) hnot, fun _ last hlast => ?_, by simp⟩
      obtain rfl := Option.mem_some_iff.mp hlast
      exact hend
    · rw [if_neg (by simpa using hmailed)] at hrow
      subst hrow
      have hok := h.row u hu hid'
      refine ⟨hok.epoch, fun hnot => ?_, fun hc => absurd hc hmailed, by simp⟩
      have htrack := hok.track fun hr => hnot (Or.inl (List.mem_append.mpr hr))
      refine ⟨htrack.lastLogin, htrack.lastSSHLogin, htrack.token, ?_⟩
      cases hsh : sheltered s.db u with
      | true => exact Or.inl hsh
      | false =>
          refine Or.inr fun last hlast => ?_
          obtain rfl := Option.mem_some_iff.mp hlast
          by_contra hlate
          refine hmailed (List.mem_map_of_mem ?_)
          exact htrack.expiring hw hok.epoch hu hsh (Nat.not_le.mp hlate) hgap
            fun hnone => hquiet hnone u hu hid'
  · exact List.mem_append_left _ (h.log d hd hid hsus)

theorem Announced.select {cfg : Config} {uid : Nat} {s : Site} (hw : Windows cfg)
    (h : Announced cfg uid s) : Announced cfg uid (step cfg s .select) := by
  cases hsel : s.selecting with
  | none => simpa [AccountMaint.step, hsel] using h
  | some now =>
      simp only [AccountMaint.step, hsel]
      have hlast : s.lastRun = some now := h.selecting now hsel
      refine ⟨h.keyed, fun hk => ?_, h.clock, h.epoch, by simp, fun u hu hid => ?_, h.log⟩
      · rcases hk with hk | hk
        · exact h.known (Or.inl hk)
        · obtain ⟨u, hu, rfl, -⟩ := mem_expired.mp hk
          exact h.keyed.fresh u hu
      · have hok := h.row u hu hid
        refine ⟨hok.epoch, fun hnot => ?_, hok.warned, fun hexp hearly => ?_⟩
        · have htrack := hok.track hnot
          exact ⟨htrack.lastLogin, htrack.lastSSHLogin, htrack.token, htrack.ahead⟩
        · obtain ⟨w, hw', hidw, hdoomed, hold⟩ := mem_expired.mp hexp
          obtain rfl : w = u := h.keyed.eq_of_id hw' hu hidw
          obtain ⟨hverified, htype, -, -, hown⟩ := doomed_iff.mp hdoomed
          have hband := hw.band
          have hwarned : w.id ∉ s.warned := by
            intro hc
            have hend := hok.warned hc now hlast
            unfold bandEnd at hend
            omega
          refine ⟨?_, hwarned, now, hlast, hold⟩
          -- nothing but a suspension can have kept the account from being reminded
          rcases (hok.track fun hr => hr.elim hearly hwarned).ahead with hsh | hahead
          · rcases sheltered_iff.mp hsh with hc | hc | hc | hc
            · simp [hverified] at hc
            · exact absurd htype hc
            · simp [hown] at hc
            · exact hc
          · have hstart := hahead now hlast
            have hwarning := hw.warning.1
            unfold bandStart at hstart
            omega

theorem Announced.delete {cfg : Config} {uid : Nat} {s : Site} (h : Announced cfg uid s)
    (hquiet : Quiet cfg uid s .delete) : Announced cfg uid (step cfg s .delete) := by
  have hkeyed := h.keyed.step cfg .delete
  simp only [AccountMaint.step] at hkeyed ⊢
  refine ⟨hkeyed, fun hk => ?_, h.clock, h.epoch, h.selecting, fun u hu hid => ?_,
    fun d hd hid hsus => ?_⟩
  · show uid < (deleteUsers s.db _).nextID
    rw [(users_deleteUsers _ _).2]
    exact h.known (hk.imp id List.mem_of_mem_drop)
  · have hmem := (mem_deleteUsers.mp hu).1
    have hok := h.row u hmem hid
    refine ⟨hok.epoch, fun hnot => ?_, hok.warned, fun hsel hearly => ?_⟩
    · have htrack := hok.track hnot
      refine ⟨htrack.lastLogin, htrack.lastSSHLogin, htrack.token, ?_⟩
      rcases htrack.ahead with hsh | hahead
      · have hkept := (hquiet u hmem hid).resolve_left (hid ▸ hnot)
        rw [← hid] at hkept
        exact ((Kept.refl hkept).sheltered hsh).imp id fun hlate last hlast =>
          Nat.le_trans (h.clock last hlast) hlate
      · exact Or.inr hahead
    · exact hok.selected (List.mem_of_mem_drop hsel) hearly
  · rcases List.mem_append.mp hd with hd | hd
    · exact h.log d hd hid hsus
    · obtain ⟨u, hu, rfl⟩ := List.mem_map.mp hd
      obtain ⟨hmem, hbatch⟩ := List.mem_filter.mp hu
      by_contra hearly
      have hsel := (h.row u hmem hid).selected (List.mem_of_mem_take (by simpa using hbatch))
        (hid ▸ hearly)
      simp [hsel.1] at hsus

/-- **One step** of the schedule that is quiet for the account keeps it announced. -/
theorem Announced.step {cfg : Config} {uid : Nat} {s : Site} (hw : Windows cfg)
    (h : Announced cfg uid s) {e : Event} (hsched : Schedule cfg s e)
    (hquiet : Quiet cfg uid s e) : Announced cfg uid (step cfg s e) := by
  cases e with
  | request now r => exact h.request hw hsched hquiet
  | warn now issued tokens => exact h.warn hw hsched hquiet
  | select => exact h.select hw
  | delete => exact h.delete hquiet

theorem announced_start {cfg : Config} {clock : Nat}
    (hclock : cfg.unverifiedAccountLifetime ≤ timestamp clock) (uid : Nat) :
    Announced cfg uid (Site.start clock) where
  keyed := ⟨List.nodup_nil, fun _ hu => absurd hu List.not_mem_nil⟩
  known hk := by simp [Reminded, Site.start] at hk
  clock _ hlast := by simp [Site.start] at hlast
  epoch := hclock
  selecting _ hnow := by simp [Site.start] at hnow
  row _ hu := absurd hu List.not_mem_nil
  log _ hd := absurd hd List.not_mem_nil

/-! ### Runs -/

theorem deletions_step (cfg : Config) (s : Site) (e : Event) :
    s.deletions ⊆ (step cfg s e).deletions := by
  cases e with
  | request now r => exact fun _ h => h
  | warn now issued tokens =>
      simp only [step]
      split <;> exact fun _ h => h
  | select =>
      simp only [step]
      split <;> exact fun _ h => h
  | delete => exact fun _ h => List.mem_append_left _ h

theorem deletions_exec (cfg : Config) (s : Site) (es : List Event) :
    s.deletions ⊆ (Run.exec (step cfg) s es).deletions := by
  induction es generalizing s with
  | nil => exact fun _ h => h
  | cons e es ih => exact fun _ h => ih _ (deletions_step cfg s e h)

/-- An account that never logs in is reminded by the run at 14.6 s and deleted at 16.4 s. -/
def quietRun : List Event :=
  [.request 10000000 (.register "a" "a@b" "t"), .warn 11000000 11000000 (fun _ => "w"),
    .select, .delete, .warn 12900000 12900000 (fun _ => "w"), .select, .delete,
    .warn 14600000 14600000 (fun _ => "w"), .select, .delete,
    .warn 16400000 16400000 (fun _ => "w"), .select, .delete]

/-- The same runs, with a login one second after the registration. -/
def loginRun : List Event :=
  [.request 10000000 (.register "a" "a@b" "t"), .warn 11000000 11000000 (fun _ => "w"),
    .select, .delete, .request 11000000 (.login 1), .warn 12900000 12900000 (fun _ => "w"),
    .select, .delete, .warn 14600000 14600000 (fun _ => "w"), .select, .delete,
    .warn 16400000 16400000 (fun _ => "w"), .select, .delete,
    .warn 18200000 18200000 (fun _ => "w"), .select, .delete]

end Aurweb.AccountMaint
