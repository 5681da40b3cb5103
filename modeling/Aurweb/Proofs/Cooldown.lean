/-
How often a verification link is mailed.

The cooldown is read off the expiry of the token, and following a link clears it.  An account
that is verified asks for no mail, unless it changes its address: then the page finds nothing
to wait for.  `Paced` is what the expiry still tells in every run; `Waits` excludes that case.
-/
import Aurweb.Proofs.Verification

namespace Aurweb.Verification

variable {cfg : Config} {s : Office} {now : Nat}

/-- When links were mailed on behalf of an account, latest first. -/
def mailTimes (uid : Nat) : List Entry → List Nat
  | [] => []
  | .mailed m ts :: log => if m.uid = uid then ts :: mailTimes uid log else mailTimes uid log
  | _ :: log => mailTimes uid log

/-- No two mails of an account are closer than the cooldown. -/
def Spaced (cfg : Config) (s : Office) : Prop :=
  ∀ uid, (mailTimes uid s.log).Pairwise fun later earlier =>
    earlier + cfg.emailVerificationCooldown ≤ later

/-- A request that comes after the ones before it. -/
def InOrder (s : Office) : Event → Prop
  | .request now _ => s.clock ≤ timestamp now
  | .accountmaint _ _ => False

/-- An account that has used its link, and is not suspended by the same form, changes its
address no sooner than the cooldown after it was last mailed a link. -/
def Waits (cfg : Config) (s : Office) : Event → Prop
  | .request now (.edit editorID uid form _ _) =>
      ∀ user ∈ editing cfg s.db editorID uid form now, form.emailChanged user = true →
        user.emailVerificationExpiry = none → form.suspended = false →
        ∀ ts ∈ mailTimes uid s.log, ts + cfg.emailVerificationCooldown ≤ timestamp now
  | _ => True

instance (s : Office) : DecidablePred (InOrder s)
  | .request _ _ => inferInstanceAs (Decidable (_ ≤ _))
  | .accountmaint _ _ => inferInstanceAs (Decidable False)

instance (cfg : Config) (s : Office) : DecidablePred (Waits cfg s) := fun e => by
  unfold Waits
  split <;> infer_instance

/-- The expiry of a token tells when it was mailed; without one, nothing was, or the account
has used its link. -/
structure Paced (cfg : Config) (s : Office) : Prop where
  keyed : Keyed s.db
  known : ∀ uid, s.db.nextID ≤ uid → mailTimes uid s.log = []
  past : ∀ uid, ∀ ts ∈ mailTimes uid s.log, ts ≤ s.clock
  expiry : ∀ c ∈ accounts s.db, ∀ expiry, c.expiry = some expiry →
    ∀ ts ∈ mailTimes c.id s.log, ts + cfg.emailVerificationTTL ≤ expiry
  unused : ∀ c ∈ accounts s.db, c.expiry = none → c.verified = false → mailTimes c.id s.log = []

theorem mailTimes_append (uid : Nat) {entries : List Entry}
    (h : ∀ m ts, .mailed m ts ∉ entries) (log : List Entry) :
    mailTimes uid (entries ++ log) = mailTimes uid log := by
  induction entries with
  | nil => rfl
  | cons e entries ih =>
      have hrest := ih fun m ts hm => h m ts (List.mem_cons_of_mem _ hm)
      cases e with
      | mailed m ts => exact absurd (List.mem_cons_self ..) (h m ts)
      | _ => exact hrest

theorem mailTimes_notify (s : Office) (uid uid' now : Nat) :
    mailTimes uid' (s.notify uid now).log =
      if uid' = uid ∧ (verificationNotification s.db uid).isSome then
        timestamp now :: mailTimes uid' s.log
      else mailTimes uid' s.log := by
  unfold Office.notify
  split
  · rename_i hnone
    simp [hnone]
  · rename_i m hmail
    obtain ⟨u, -, -, -, hm⟩ := mem_of_verificationNotification hmail
    have huid : m.uid = uid := by rw [hm]
    by_cases heq : uid = uid'
    · subst heq
      simp [mailTimes, hmail, huid]
    · simp [mailTimes, hmail, huid, heq, Ne.symm heq]

theorem Spaced.of_times {s s' : Office} (h : Spaced cfg s)
    (htimes : ∀ uid, mailTimes uid s'.log = mailTimes uid s.log) : Spaced cfg s' := by
  intro uid
  rw [htimes]
  exact h uid

/-- A request that sends no mail. -/
theorem Paced.quiet (h : Paced cfg s) (hclock : s.clock ≤ timestamp now) {db : Db}
    (entries : List Entry) (hmailed : ∀ m ts, .mailed m ts ∉ entries) (hkeyed : Keyed db)
    (hnext : s.db.nextID ≤ db.nextID)
    (hrows : ∀ c ∈ accounts db, ∃ c₀ ∈ accounts s.db, c.id = c₀.id ∧
      (c.expiry = c₀.expiry ∧ c.verified = c₀.verified ∨ c.expiry = none ∧ c.verified = true)) :
    Paced cfg { s.commit db entries with clock := timestamp now } ∧
      (Spaced cfg s → Spaced cfg { s.commit db entries with clock := timestamp now }) := by
  have htimes : ∀ uid, mailTimes uid (s.commit db entries).log = mailTimes uid s.log :=
    fun uid => mailTimes_append _ hmailed s.log
  refine ⟨⟨hkeyed, fun uid huid => ?_, fun uid ts hts => ?_, fun c hc expiry hexpiry => ?_,
    fun c hc hexpiry hverified => ?_⟩, fun hs => hs.of_times htimes⟩
  · rw [htimes]
    exact h.known uid (Nat.le_trans hnext huid)
  · rw [htimes] at hts
    exact Nat.le_trans (h.past uid ts hts) hclock
  · obtain ⟨c₀, hc₀, hid, ⟨heq, -⟩ | ⟨hnone, -⟩⟩ := hrows c hc
    · rw [htimes, hid]
      exact h.expiry c₀ hc₀ expiry (heq.symm.trans hexpiry)
    · rw [hnone] at hexpiry
      cases hexpiry
  · obtain ⟨c₀, hc₀, hid, ⟨heq, hsame⟩ | ⟨-, htrue⟩⟩ := hrows c hc
    · rw [htimes, hid]
      exact h.unused c₀ hc₀ (heq.symm.trans hexpiry) (hsame.symm.trans hverified)
    · rw [hverified] at htrue
      cases htrue

/-- A request that issues a token to an account and mails it. -/
theorem Paced.mail (h : Paced cfg s) (hclock : s.clock ≤ timestamp now) (db : Db) (uid : Nat)
    (entries : List Entry) (hmailed : ∀ m ts, .mailed m ts ∉ entries) (hkeyed : Keyed db)
    (hnext : s.db.nextID ≤ db.nextID) (huid : uid < db.nextID)
    (hrows : ∀ c ∈ accounts db, c.id = uid ∧
        c.expiry = some (timestamp now + cfg.emailVerificationTTL) ∨
      c.id ≠ uid ∧ c ∈ accounts s.db) :
    let s' := { (s.commit db entries).notify uid now with clock := timestamp now }
    Paced cfg s' ∧ (Spaced cfg s → (Spaced cfg s' ↔
      ((verificationNotification db uid).isSome → ∀ ts ∈ mailTimes uid s.log,
        ts + cfg.emailVerificationCooldown ≤ timestamp now))) := by
  intro s'
  have htimes : ∀ uid', mailTimes uid' s'.log =
      if uid' = uid ∧ (verificationNotification db uid).isSome then
        timestamp now :: mailTimes uid' s.log
      else mailTimes uid' s.log := by
    intro uid'
    rw [← mailTimes_append _ hmailed s.log]
    exact mailTimes_notify (s.commit db entries) uid uid' now
  have hother : ∀ uid', uid' ≠ uid → mailTimes uid' s'.log = mailTimes uid' s.log := by
    intro uid' hne
    rw [htimes, if_neg fun hc => hne hc.1]
  have hdb : s'.db = db := by
    show ((s.commit db entries).notify uid now).db = db
    unfold Office.notify
    split <;> rfl
  have hpast : ∀ uid', ∀ ts ∈ mailTimes uid' s'.log, ts ≤ timestamp now := by
    intro uid' ts hts
    rw [htimes] at hts
    split at hts
    · rcases List.mem_cons.mp hts with rfl | hts
      · exact Nat.le_refl _
      · exact Nat.le_trans (h.past uid' ts hts) hclock
    · exact Nat.le_trans (h.past uid' ts hts) hclock
  refine ⟨⟨?_, fun uid' huid' => ?_, hpast, fun c hc expiry hexpiry ts hts => ?_,
    fun c hc hexpiry hverified => ?_⟩, fun hs => ⟨fun hs' hmail => ?_, fun hwait uid' => ?_⟩⟩
  · rw [hdb]
    exact hkeyed
  · rw [hdb] at huid'
    rw [hother uid' (by omega)]
    exact h.known uid' (Nat.le_trans hnext huid')
  · rw [hdb] at hc
    rcases hrows c hc with ⟨hid, hnew⟩ | ⟨hid, hc₀⟩
    · rw [hnew, Option.some.injEq] at hexpiry
      have := hpast c.id ts hts
      omega
    · rw [hother c.id hid] at hts
      exact h.expiry c hc₀ expiry hexpiry ts hts
  · rw [hdb] at hc
    rcases hrows c hc with ⟨hid, hnew⟩ | ⟨hid, hc₀⟩
    · rw [hnew] at hexpiry
      cases hexpiry
    · rw [hother c.id hid]
      exact h.unused c hc₀ hexpiry hverified
  · have hboth := hs' uid
    rw [htimes, if_pos ⟨rfl, hmail⟩] at hboth
    exact (List.pairwise_cons.mp hboth).1
  · rw [htimes]
    split
    · rename_i hsent
      obtain ⟨rfl, hmail⟩ := hsent
      exact List.pairwise_cons.mpr ⟨hwait hmail, hs uid'⟩
    · exact hs uid'

/-- A token that is not in its cooldown was mailed long enough ago. -/
theorem Paced.wait (h : Paced cfg s) {u : User} (hu : u ∈ s.db.users)
    (hcool : inCooldown cfg u now = false) {expiry : Nat}
    (hexpiry : u.emailVerificationExpiry = some expiry) :
    ∀ ts ∈ mailTimes u.id s.log, ts + cfg.emailVerificationCooldown ≤ timestamp now := by
  intro ts hts
  have hbound := h.expiry (credentials u) (List.mem_map_of_mem hu) expiry hexpiry ts hts
  simp only [inCooldown, hexpiry, decide_eq_false_iff_not, Nat.not_lt] at hcool
  omega

/-- An update that issues a token to one account. -/
theorem rows_issued {db : Db} {uid : Nat} {f : Credentials → Credentials}
    (haccounts : accounts db = Table.update (·.id == uid) f (accounts s.db))
    (hf : ∀ c, (f c).id = c.id ∧
      (f c).expiry = some (timestamp now + cfg.emailVerificationTTL)) :
    ∀ c ∈ accounts db, c.id = uid ∧
        c.expiry = some (timestamp now + cfg.emailVerificationTTL) ∨
      c.id ≠ uid ∧ c ∈ accounts s.db := by
  rw [haccounts]
  intro c hc
  obtain ⟨c₀, hc₀, rfl⟩ := Table.mem_update.mp hc
  by_cases hid : c₀.id = uid
  · rw [if_pos (by simpa using hid)]
    exact Or.inl ⟨(hf c₀).1.trans hid, (hf c₀).2⟩
  · rw [if_neg (by simpa using hid)]
    exact Or.inr ⟨hid, hc₀⟩

theorem rows_registered (hk : Keyed s.db) (username email : String) (backup : Option String)
    (token : String) :
    ∀ c ∈ accounts (updateUser (accountRegisterPost cfg s.db username email token now)
        s.db.nextID fun u => { u with backupEmail := backup }),
      c.id = s.db.nextID ∧ c.expiry = some (timestamp now + cfg.emailVerificationTTL) ∨
        c.id ≠ s.db.nextID ∧ c ∈ accounts s.db := by
  rw [accounts_register hk]
  intro c hc
  rcases List.mem_append.mp hc with hc | hc
  · exact Or.inr ⟨Nat.ne_of_lt ((keyed_iff.mp hk).lt c hc), hc⟩
  · obtain rfl := List.mem_singleton.mp hc
    exact Or.inl ⟨rfl, rfl⟩

/-- An update that leaves expiry and verification alone, or clears the one with the other. -/
theorem rows_kept {db : Db} {p : Credentials → Bool} {f : Credentials → Credentials}
    (haccounts : accounts db = Table.update p f (accounts s.db))
    (hf : ∀ c, (f c).id = c.id ∧ ((f c).expiry = c.expiry ∧ (f c).verified = c.verified ∨
      (f c).expiry = none ∧ (f c).verified = true)) :
    ∀ c ∈ accounts db, ∃ c₀ ∈ accounts s.db, c.id = c₀.id ∧
      (c.expiry = c₀.expiry ∧ c.verified = c₀.verified ∨
        c.expiry = none ∧ c.verified = true) := by
  rw [haccounts]
  intro c hc
  obtain ⟨c₀, hc₀, rfl⟩ := Table.mem_update.mp hc
  refine ⟨c₀, hc₀, ?_⟩
  split
  · exact hf c₀
  · exact ⟨rfl, Or.inl ⟨rfl, rfl⟩⟩

theorem Paced.register (h : Paced cfg s) (hclock : s.clock ≤ timestamp now)
    (username email : String) (backup : Option String) (token : String) :
    let s' := { Verification.register cfg s username email backup token now with
      clock := timestamp now }
    Paced cfg s' ∧ (Spaced cfg s → Spaced cfg s') := by
  obtain ⟨hpaced, hspaced⟩ := h.mail hclock _ s.db.nextID [.backedUp s.db.nextID backup,
    .issued s.db.nextID token (timestamp now), .addressed s.db.nextID email] (by simp)
    (keyed_register h.keyed username email backup token) (Nat.le_succ _)
    (Nat.lt_succ_self s.db.nextID) (rows_registered h.keyed username email backup token)
  refine ⟨hpaced, fun hs => (hspaced hs).mpr fun _ => ?_⟩
  rw [h.known _ (Nat.le_refl _)]
  simp

/-- Whether a mail can be put together is up to the one row of the account. -/
theorem verificationNotification_isSome {db : Db} (hk : Keyed db) {u : User} (hu : u ∈ db.users) :
    (verificationNotification db u.id).isSome =
      (!u.suspended && u.emailVerificationToken.isSome) := by
  unfold verificationNotification
  split
  · rename_i hnone
    have hsuspended := List.find?_eq_none.mp hnone u hu
    simp only [beq_self_eq_true, Bool.true_and, Bool.not_eq_true', Bool.not_eq_false] at hsuspended
    simp [hsuspended]
  · rename_i w hfind
    have hfound := List.find?_some hfind
    simp only [Bool.and_eq_true, beq_iff_eq, Bool.not_eq_true'] at hfound
    obtain rfl := hk.eq_of_key (List.mem_of_find?_eq_some hfind) hu hfound.1
    simp [hfound.2]

/-- A change of address is mailed unless the form suspends the account. -/
theorem notified_edit {editorID uid : Nat} {form : AccountForm} {user : User} {token : String}
    {backup : Option String} (hedit : editing cfg s.db editorID uid form now = some user)
    (hchanged : form.emailChanged user = true) {db : Db}
    (hdb : db = updateUser (accountEditPost cfg s.db editorID uid form token now) uid
      fun u => { u with backupEmail := backup }) (hk : Keyed db) :
    (verificationNotification db uid).isSome = !form.suspended := by
  obtain ⟨⟨hmem, rfl⟩, -, hpost⟩ := editing_eq_some hedit
  have hedited : User.edited cfg form token now user ∈
      (updateUser s.db user.id (User.edited cfg form token now)).users :=
    mem_updateUser.mpr ⟨user, hmem, if_pos rfl⟩
  have hid : (User.edited cfg form token now user).id = user.id := edited_id ..
  have hrow : ∃ w ∈ (accountEditPost cfg s.db editorID user.id form token now).users,
      w.id = user.id ∧ w.suspended = form.suspended ∧ w.emailVerificationToken = some token := by
    have hsame : (User.edited cfg form token now user).suspended = form.suspended ∧
        (User.edited cfg form token now user).emailVerificationToken = some token := by
      simp [User.edited, hchanged, User.issue]
    rcases hpost token with heq | heq
    · rw [heq]
      exact ⟨_, hedited, hid, hsame⟩
    · rw [heq]
      rcases AccountMaint.login_cases (updateUser s.db user.id (User.edited cfg form token now))
        user.id now with hlogin | hlogin
      · rw [hlogin]
        exact ⟨_, hedited, hid, hsame⟩
      · rw [hlogin]
        exact ⟨_, mem_updateUser.mpr ⟨_, hedited, if_pos hid⟩, hid, hsame⟩
  obtain ⟨w, hw, hwid, hsuspended, htoken⟩ := hrow
  have hmem' : { w with backupEmail := backup } ∈ db.users := by
    rw [hdb]
    exact mem_updateUser.mpr ⟨w, hw, if_pos hwid⟩
  have hsome := verificationNotification_isSome hk hmem'
  simpa [hwid, hsuspended, htoken] using hsome

theorem Paced.edit (h : Paced cfg s) (hclock : s.clock ≤ timestamp now) (editorID uid : Nat)
    (form : AccountForm) (backup : Option String) (token : String) :
    let s' := { Verification.edit cfg s editorID uid form backup token now with
      clock := timestamp now }
    Paced cfg s' ∧ (Spaced cfg s → (Spaced cfg s' ↔
      Waits cfg s (.request now (.edit editorID uid form backup token)))) := by
  simp only [Verification.edit, Waits]
  split
  · rename_i hnone
    obtain ⟨hpaced, hspaced⟩ := h.quiet hclock [] (by simp) h.keyed (Nat.le_refl _)
      fun c hc => ⟨c, hc, rfl, Or.inl ⟨rfl, rfl⟩⟩
    exact ⟨hpaced, fun hs => ⟨fun _ => by simp [hnone], fun _ => hspaced hs⟩⟩
  · rename_i user hedit
    obtain ⟨⟨hmem, rfl⟩, hcool, -⟩ := editing_eq_some hedit
    obtain ⟨hnext, haccounts⟩ := accounts_edit h.keyed hedit token (backup.or user.backupEmail)
    split
    · rename_i hchanged
      simp only [hchanged, if_true] at haccounts
      have hkeyed := keyed_update h.keyed hnext haccounts fun _ => rfl
      obtain ⟨hpaced, hspaced⟩ := h.mail hclock _ user.id [.backedUp user.id
        (backup.or user.backupEmail), .issued user.id token (timestamp now),
        .addressed user.id form.email] (by simp) hkeyed (Nat.le_of_eq hnext.symm)
        (by rw [hnext]; exact h.keyed.lt user hmem) (rows_issued haccounts fun _ => ⟨rfl, rfl⟩)
      refine ⟨hpaced, fun hs => (hspaced hs).trans ?_⟩
      rw [notified_edit hedit hchanged rfl hkeyed]
      constructor
      · intro hwait user' huser' _ _ hsuspended
        exact hwait (by simp [hsuspended])
      · intro hwait hsent
        cases hexpiry : user.emailVerificationExpiry with
        | none => exact hwait user hedit hchanged hexpiry (by simpa using hsent)
        | some expiry => exact h.wait hmem (hcool hchanged) hexpiry
    · rename_i hchanged
      simp only [hchanged, Bool.false_eq_true, if_false] at haccounts
      obtain ⟨hpaced, hspaced⟩ := h.quiet hclock
        [.backedUp user.id (backup.or user.backupEmail)] (by simp)
        (keyed_update h.keyed hnext haccounts fun _ => rfl) (Nat.le_of_eq hnext.symm)
        (rows_kept haccounts fun _ => ⟨rfl, Or.inl ⟨rfl, rfl⟩⟩)
      refine ⟨hpaced, fun hs => ⟨fun _ user' huser' hchanged' => ?_, fun _ => hspaced hs⟩⟩
      obtain rfl : user = user' := Option.some.inj (hedit.symm.trans huser')
      exact absurd hchanged' hchanged

theorem Paced.resend (h : Paced cfg s) (hclock : s.clock ≤ timestamp now) (editorID uid : Nat)
    (token : String) :
    let s' := { Verification.resend cfg s editorID uid token now with clock := timestamp now }
    Paced cfg s' ∧ (Spaced cfg s → Spaced cfg s') := by
  simp only [Verification.resend]
  split
  · exact h.quiet hclock [] (by simp) h.keyed (Nat.le_refl _)
      fun c hc => ⟨c, hc, rfl, Or.inl ⟨rfl, rfl⟩⟩
  · rename_i user hresend
    obtain ⟨⟨hmem, rfl⟩, hverified, hcool, hpost⟩ := resending_eq_some hresend
    have haccounts : accounts (accountVerifyResend cfg s.db editorID user.id token now) =
        Table.update (·.id == user.id) (Credentials.issue cfg token now) (accounts s.db) := by
      rw [hpost]
      exact accounts_updateUser fun _ _ _ => rfl
    have hnext : (accountVerifyResend cfg s.db editorID user.id token now).nextID =
        s.db.nextID := by
      rw [hpost]
      rfl
    obtain ⟨hpaced, hspaced⟩ := h.mail hclock _ user.id
      [.issued user.id token (timestamp now)] (by simp)
      (keyed_update h.keyed hnext haccounts fun _ => rfl) (Nat.le_of_eq hnext.symm)
      (by rw [hnext]; exact h.keyed.lt user hmem) (rows_issued haccounts fun _ => ⟨rfl, rfl⟩)
    refine ⟨hpaced, fun hs => (hspaced hs).mpr fun _ => ?_⟩
    cases hexpiry : user.emailVerificationExpiry with
    | none =>
        have hnone : mailTimes user.id s.log = [] :=
          h.unused (credentials user) (List.mem_map_of_mem hmem) hexpiry hverified
        rw [hnone]
        simp
    | some expiry => exact h.wait hmem hcool hexpiry

theorem Paced.visit (h : Paced cfg s) (hclock : s.clock ≤ timestamp now) (token : String) :
    let s' := { Verification.visit s token now with clock := timestamp now }
    Paced cfg s' ∧ (Spaced cfg s → Spaced cfg s') := by
  simp only [Verification.visit]
  split
  · exact h.quiet hclock [] (by simp) h.keyed (Nat.le_refl _)
      fun c hc => ⟨c, hc, rfl, Or.inl ⟨rfl, rfl⟩⟩
  · rename_i user hverify
    obtain ⟨hmem, -, -, -, hpost⟩ := verifying_eq_some hverify
    have haccounts : accounts (accountVerify s.db token now) = Table.update (·.id == user.id)
        (fun c => { c with verified := true, token := none, expiry := none }) (accounts s.db) := by
      rw [hpost]
      exact accounts_updateUser fun _ _ _ => rfl
    have hnext : (accountVerify s.db token now).nextID = s.db.nextID := by
      rw [hpost]
      rfl
    exact h.quiet hclock _ (by simp) (keyed_update h.keyed hnext haccounts fun _ => rfl)
      (Nat.le_of_eq hnext.symm) (rows_kept haccounts fun _ => ⟨rfl, Or.inr ⟨rfl, rfl⟩⟩)

/-- A request that writes other columns only. -/
theorem Paced.other (h : Paced cfg s) (hclock : s.clock ≤ timestamp now) {db : Db}
    (hnext : s.db.nextID ≤ db.nextID) (haccounts : accounts db = accounts s.db) :
    Paced cfg { s.commit db [] with clock := timestamp now } ∧
      (Spaced cfg s → Spaced cfg { s.commit db [] with clock := timestamp now }) := by
  refine h.quiet hclock _ (by simp) (keyed_iff.mpr ?_) hnext ?_
  · rw [haccounts]
    exact (keyed_iff.mp h.keyed).mono hnext
  · rw [haccounts]
    exact fun c hc => ⟨c, hc, rfl, Or.inl ⟨rfl, rfl⟩⟩

/-- **One request.**  Whatever it is, the expiry still tells; and the mails stay apart exactly
when it waits. -/
theorem step_paced (h : Paced cfg s) {e : Event} (horder : InOrder s e) :
    Paced cfg (step cfg s e) ∧ (Spaced cfg s → (Spaced cfg (step cfg s e) ↔ Waits cfg s e)) := by
  -- all requests but the edit wait of themselves
  have hquiet : ∀ {s' : Office}, (∀ now editorID uid form backup token,
      e ≠ .request now (.edit editorID uid form backup token)) →
      Paced cfg s' ∧ (Spaced cfg s → Spaced cfg s') →
      Paced cfg s' ∧ (Spaced cfg s → (Spaced cfg s' ↔ Waits cfg s e)) := by
    intro s' hedit hboth
    refine ⟨hboth.1, fun hs => ⟨fun _ => ?_, fun _ => hboth.2 hs⟩⟩
    unfold Waits
    split
    · exact absurd rfl (hedit _ _ _ _ _ _)
    · trivial
  cases e with
  | accountmaint now tokens => exact horder.elim
  | request now r =>
      cases r with
      | register username email backup token =>
          exact hquiet (by simp) (h.register horder username email backup token)
      | edit editorID uid form backup token => exact h.edit horder editorID uid form backup token
      | resend editorID uid token => exact hquiet (by simp) (h.resend horder editorID uid token)
      | visit token => exact hquiet (by simp) (h.visit horder token)
      | login uid =>
          obtain ⟨haccounts, hnext⟩ := accounts_login s.db uid now
          exact hquiet (by simp) (h.other horder (Nat.le_of_eq hnext.symm) haccounts)
      | sshLogin uid remoteAddr =>
          obtain ⟨haccounts, hnext⟩ := accounts_logSSHLogin s.db uid remoteAddr now
          exact hquiet (by simp) (h.other horder (Nat.le_of_eq hnext.symm) haccounts)
      | content after => exact hquiet (by simp) (h.other horder (Nat.le_max_left _ _) rfl)

theorem mailTimes_start (db : Db) (clock uid : Nat) :
    mailTimes uid (Office.start db clock).log = [] := by
  have hnone : ∀ m ts, .mailed m ts ∉ (Office.start db clock).log := by
    simp [Office.start]
  simpa [mailTimes] using mailTimes_append uid hnone []

theorem Paced.start {db : Db} (h : Unissued db) (clock : Nat) :
    Paced cfg (Office.start db clock) where
  keyed := h.keyed
  known uid _ := mailTimes_start db clock uid
  past uid ts hts := by simp [mailTimes_start] at hts
  expiry c hc expiry hexpiry := by simp [mailTimes_start]
  unused c hc _ _ := mailTimes_start db clock c.id

/-- **The cooldown.**  In a run of requests all mails of an account are the cooldown apart
exactly when no account that has used its link changes its address again too soon. -/
theorem spaced_iff_waits {db : Db} (hstart : Unissued db) (clock : Nat) {es : List Event}
    (horder : Run.Guarded (step cfg) InOrder (Office.start db clock) es) :
    Run.Along (step cfg) (Spaced cfg) (Office.start db clock) es ↔
      Run.Guarded (step cfg) (Waits cfg) (Office.start db clock) es := by
  have hspaced : Spaced cfg (Office.start db clock) := by
    intro uid
    rw [mailTimes_start]
    exact List.Pairwise.nil
  refine Run.along_iff_guarded_of_inv (I := fun s => Paced cfg s ∧ Spaced cfg s)
    (fun _ hs => hs.2) ?_ ?_ ⟨Paced.start hstart clock, hspaced⟩ horder
  · intro s e hs hin hwaits
    obtain ⟨hpaced, hiff⟩ := step_paced hs.1 hin
    exact ⟨hpaced, (hiff hs.2).mpr hwaits⟩
  · intro s e hs hin hnext
    exact ((step_paced hs.1 hin).2 hs.2).mp hnext

/-- Ada registers, follows her link and changes her address. -/
def changeAt (now : Nat) : List Event :=
  [.request 1000000 (.register "ada" "ada@old" none "t1"),
    .request 1000000 (.visit "t1"),
    .request now (.edit 1 1
      { email := "ada@new", suspended := false, accountType := none, newPassword := false } none
      "t2")]

/-- She takes her time. -/
theorem spaced_iff_waits_changeAt :
    Run.Along (step AccountMaint.shortConfig) (Spaced AccountMaint.shortConfig)
      (Office.start { nextID := 1 } 0) (changeAt 2000000) :=
  (spaced_iff_waits ⟨⟨by decide, by decide⟩, by decide⟩ 0 (by decide +kernel)).mpr
    (by decide +kernel)

/-- She does not, and is mailed twice within the second. -/
theorem not_spaced_changeAt :
    Run.Guarded (step AccountMaint.shortConfig) InOrder (Office.start { nextID := 1 } 0)
        (changeAt 1000000) ∧
      ¬Run.Along (step AccountMaint.shortConfig) (Spaced AccountMaint.shortConfig)
        (Office.start { nextID := 1 } 0) (changeAt 1000000) := by
  refine ⟨by decide +kernel, fun h => ?_⟩
  have hspaced := h.last 1
  revert hspaced
  decide +kernel

end Aurweb.Verification
