/-
How often account maintenance reminds an account.

A reminder leaves a token behind that lasts, in whole seconds, until the second in which the
warning band of the account is over, and whatever is issued later lasts longer; so does a run
find it dead inside the band, then at the very end of the band: the band includes that instant,
and a token that was issued in the first second of the band has expired by then.
-/
import Aurweb.Proofs.Reminders

namespace Aurweb.AccountMaint

variable {cfg : Config} {s : Site}

/-- **The promise**: nobody has been mailed twice. -/
def RemindedOnce (s : Site) : Prop := (s.earlier ++ s.warned).Nodup

instance : DecidablePred RemindedOnce := fun s =>
  inferInstanceAs (Decidable (s.earlier ++ s.warned).Nodup)

/-- Time does not go back, and tokens are issued after the run has begun. -/
def Timely (s : Site) : Event → Prop
  | .request now _ => s.clock ≤ now
  | .warn now issued _ => s.clock ≤ issued ∧ now ≤ issued
  | _ => True

instance (s : Site) : DecidablePred (Timely s)
  | .request _ _ => inferInstanceAs (Decidable (_ ≤ _))
  | .warn _ _ _ => inferInstanceAs (Decidable (_ ∧ _))
  | .select => inferInstanceAs (Decidable True)
  | .delete => inferInstanceAs (Decidable True)

/-- A run begins at the instant at which the band of a reminded account ends and its token
expires, with the account still to be deleted. -/
def Repeats (cfg : Config) (s : Site) : Event → Prop
  | .warn now _ _ => ∃ u ∈ s.db.users, Reminded s u.id ∧ bandEnd cfg u = now ∧
      u.emailVerificationExpiry = some (timestamp now) ∧ u.suspended = false ∧
      doomed cfg s.db now u = true
  | _ => False

instance (cfg : Config) (s : Site) : DecidablePred (Repeats cfg s)
  | .request _ _ => inferInstanceAs (Decidable False)
  | .warn _ _ _ => inferInstanceAs (Decidable (∃ u ∈ s.db.users, _))
  | .select => inferInstanceAs (Decidable False)
  | .delete => inferInstanceAs (Decidable False)

/-! ### The token of a reminded account -/

/-- The band of the account has opened by this time, and its token outlives the band. -/
structure Leased (cfg : Config) (clock : Nat) (u : User) : Prop where
  ttl : 0 < cfg.emailVerificationTTL
  entered : u.registrationTS + cfg.unverifiedAccountWarning ≤ timestamp clock
  token : u.emailVerified = false → ∃ expiry, u.emailVerificationExpiry = some expiry ∧
    u.registrationTS + cfg.unverifiedAccountWarning + cfg.emailVerificationTTL ≤ expiry

theorem Leased.later {clock now : Nat} {u : User} (h : Leased cfg clock u) (hnow : clock ≤ now) :
    Leased cfg now u :=
  ⟨h.ttl, Nat.le_trans h.entered (timestamp_mono hnow), h.token⟩

/-- A row that has just been issued a token, or is verified, or has kept its token. -/
theorem Leased.move {now : Nat} {u u' : User} (h : Leased cfg now u)
    (hreg : u'.registrationTS = u.registrationTS)
    (hrow : u'.emailVerificationExpiry = some (timestamp now + cfg.emailVerificationTTL) ∨
      u'.emailVerified = true ∨
      u'.emailVerified = u.emailVerified ∧
        u'.emailVerificationExpiry = u.emailVerificationExpiry) : Leased cfg now u' := by
  refine ⟨h.ttl, by rw [hreg]; exact h.entered, ?_⟩
  intro hverified
  rw [hreg]
  rcases hrow with hissued | htrue | ⟨hsame, hexpiry⟩
  · exact ⟨_, hissued, Nat.add_le_add_right h.entered _⟩
  · rw [htrue] at hverified
    cases hverified
  · rw [hsame] at hverified
    rw [hexpiry]
    exact h.token hverified

/-- A request that writes the row of the account renews its token, ends its being unverified or
leaves both as they are. -/
theorem Leased.touch {db : Db} {now : Nat} {r : Request} {u : User} {f : User → User}
    (h : Leased cfg now u) (htouch : Touch cfg db now r u f) : Leased cfg now (f u) := by
  apply h.move (htouch.registrationTS u)
  have hedited : ∀ form token,
      (u.edited cfg form token now).emailVerificationExpiry =
          some (timestamp now + cfg.emailVerificationTTL) ∨
        (u.edited cfg form token now).emailVerified = u.emailVerified ∧
        (u.edited cfg form token now).emailVerificationExpiry = u.emailVerificationExpiry := by
    intro form token
    unfold User.edited
    by_cases hchanged : form.emailChanged u = true
    · rw [if_pos hchanged]
      exact Or.inl rfl
    · rw [if_neg hchanged]
      exact Or.inr ⟨rfl, rfl⟩
  cases htouch with
  | login hs => exact Or.inr (Or.inr ⟨rfl, rfl⟩)
  | sshLogin hs => exact Or.inr (Or.inr ⟨rfl, rfl⟩)
  | verify hfind hverified hlive => exact Or.inr (Or.inl rfl)
  | resend hverified hcool => exact Or.inl rfl
  | edit heditor hmay => exact (hedited _ _).imp_right Or.inr
  | editLogin heditor hmay hpass hself => exact (hedited _ _).imp_right Or.inr

/-- **When a run finds the token dead**: at the end of the band, to the instant. -/
theorem Leased.end_of_expiring {clock now : Nat} {db : Db} {u : User} (h : Leased cfg clock u)
    (hu : u ∈ expiring cfg db now) :
    bandEnd cfg u = now ∧ u.emailVerificationExpiry = some (timestamp now) := by
  obtain ⟨-, hdoomed, -, -, hend, hdead⟩ := mem_expiring.mp hu
  obtain ⟨expiry, hexpiry, hlate⟩ := h.token (doomed_iff.mp hdoomed).1
  unfold noLiveToken at hdead
  rw [hexpiry] at hdead
  have hgone : expiry ≤ timestamp now := of_decide_eq_true hdead
  rw [hexpiry, Option.some.injEq]
  unfold bandEnd at hend ⊢
  unfold timestamp at hgone ⊢
  omega

/-! ### The invariant -/

structure Mailed (cfg : Config) (s : Site) : Prop where
  keyed : Keyed s.db
  known : ∀ uid, Reminded s uid → uid < s.db.nextID
  leased : ∀ u ∈ s.db.users, Reminded s u.id → Leased cfg s.clock u
  once : RemindedOnce s

theorem Mailed.request (h : Mailed cfg s) {now : Nat} {r : Request} (hnow : s.clock ≤ now) :
    Mailed cfg (step cfg s (.request now r)) := by
  refine ⟨h.keyed.step cfg (.request now r), ?_, ?_, h.once⟩
  · intro uid huid
    exact Nat.lt_of_lt_of_le (h.known uid huid) (nextID_request cfg s.db now r)
  · intro u' hu' hreminded
    have hkept : ∀ u ∈ s.db.users, u.id = u'.id → Leased cfg now u := by
      intro u hu hid
      apply (h.leased u hu _).later hnow
      rw [hid]
      exact hreminded
    replace hu' : u' ∈ (r.handle cfg s.db now).users := hu'
    rcases request_cases cfg s.db now r with hsame | ⟨username, email, token, rfl⟩ |
      ⟨u, f, hu, htouch, heq⟩ | ⟨after, rfl⟩
    · rw [hsame] at hu'
      exact hkept u' hu' rfl
    · rcases List.mem_append.mp hu' with hu' | hu'
      · exact hkept u' hu' rfl
      · -- nobody has been mailed at an id that was not handed out
        rw [List.mem_singleton] at hu'
        have hlt := h.known u'.id hreminded
        rw [hu'] at hlt
        exact absurd hlt (Nat.lt_irrefl _)
    · rw [heq] at hu'
      obtain ⟨w, hw, rfl⟩ := mem_updateUser.mp hu'
      by_cases hid : w.id = u.id
      · obtain rfl : w = u := h.keyed.eq_of_id hw hu hid
        rw [if_pos rfl] at hkept ⊢
        exact (hkept w hw (htouch.id w).symm).touch htouch
      · rw [if_neg hid] at hkept ⊢
        exact hkept w hw rfl
    · exact hkept u' hu' rfl

theorem Mailed.warn (h : Mailed cfg s) {now issued : Nat} {tokens : Nat → String}
    (htime : Timely s (.warn now issued tokens))
    (hfree : ¬Repeats cfg s (.warn now issued tokens)) :
    Mailed cfg (step cfg s (.warn now issued tokens)) := by
  have hkeyed := h.keyed.step cfg (.warn now issued tokens)
  by_cases hcheck : checkConfig cfg = true
  · simp only [step, if_pos hcheck] at hkeyed ⊢
    refine ⟨hkeyed, ?_, ?_, ?_⟩
    · intro uid huid
      rcases huid with huid | huid
      · exact h.known uid (List.mem_append.mp huid)
      · obtain ⟨u, hu, rfl⟩ := List.mem_map.mp huid
        exact h.keyed.fresh u (mem_expiring.mp hu).1
    · intro u' hu' hreminded
      obtain ⟨u, hu, rfl⟩ := Table.mem_update.mp hu'
      by_cases hmailed : u.id ∈ (expiring cfg s.db now).map (·.id)
      · obtain ⟨w, hw, hid⟩ := List.mem_map.mp hmailed
        obtain ⟨hmem, -, -, hstart, hend, -⟩ := mem_expiring.mp hw
        obtain rfl : w = u := h.keyed.eq_of_id hmem hu hid
        rw [if_pos (by simpa using hmailed)]
        unfold bandStart at hstart
        unfold bandEnd at hend
        have hopen : w.registrationTS + cfg.unverifiedAccountWarning ≤ timestamp issued := by
          have hissued := htime.2
          unfold timestamp
          omega
        refine ⟨by omega, hopen, fun _ => ⟨_, rfl, Nat.add_le_add_right hopen _⟩⟩
      · rw [if_neg (by simpa using hmailed)] at hreminded ⊢
        refine (h.leased u hu ?_).later htime.1
        rcases hreminded with hold | hnew
        · exact List.mem_append.mp hold
        · exact absurd hnew hmailed
    · have hids : ((expiring cfg s.db now).map (·.id)).Nodup :=
        h.keyed.nodup.sublist ((List.filter_sublist ..).map _)
      refine List.nodup_append.mpr ⟨h.once, hids, ?_⟩
      intro i hi j hj hij
      obtain ⟨u, hu, rfl⟩ := List.mem_map.mp hj
      rw [hij] at hi
      have hreminded : Reminded s u.id := List.mem_append.mp hi
      obtain ⟨hmem, hdoomed, hsuspended, -⟩ := mem_expiring.mp hu
      obtain ⟨hend, hexpiry⟩ := (h.leased u hmem hreminded).end_of_expiring hu
      exact hfree ⟨u, hmem, hreminded, hend, hexpiry, hsuspended, hdoomed⟩
  · simp only [step, if_neg hcheck]
    exact h

/-- **One step** that is no repetition mails nobody twice. -/
theorem Mailed.step (h : Mailed cfg s) {e : Event} (htime : Timely s e)
    (hfree : ¬Repeats cfg s e) : Mailed cfg (step cfg s e) := by
  cases e with
  | request now r => exact h.request htime
  | warn now issued tokens => exact h.warn htime hfree
  | select =>
      cases hsel : s.selecting with
      | none => simpa [AccountMaint.step, hsel] using h
      | some now =>
          simp only [AccountMaint.step, hsel]
          exact ⟨h.keyed, h.known, h.leased, h.once⟩
  | delete =>
      refine ⟨h.keyed.step cfg .delete, ?_, ?_, h.once⟩
      · intro uid huid
        show uid < (deleteUsers s.db _).nextID
        rw [(users_deleteUsers _ _).2]
        exact h.known uid huid
      · intro u hu hreminded
        exact h.leased u (mem_deleteUsers.mp hu).1 hreminded

/-- A repetition mails its account again. -/
theorem Mailed.not_repeats (h : Mailed cfg s) (hcheck : checkConfig cfg = true) {e : Event}
    (honce : RemindedOnce (AccountMaint.step cfg s e)) : ¬Repeats cfg s e := by
  cases e with
  | warn now issued tokens =>
      rintro ⟨u, hu, hreminded, hend, hexpiry, hsuspended, hdoomed⟩
      have httl := (h.leased u hu hreminded).ttl
      have hmailed : u ∈ expiring cfg s.db now := by
        refine mem_expiring.mpr ⟨hu, hdoomed, hsuspended, ?_, Nat.le_of_eq hend.symm, ?_⟩
        · rw [← hend]
          unfold bandStart bandEnd
          omega
        · unfold noLiveToken
          rw [hexpiry]
          exact decide_eq_true (Nat.le_refl _)
      simp only [AccountMaint.step, if_pos hcheck] at honce
      exact (List.nodup_append.mp honce).2.2 u.id (List.mem_append.mpr hreminded) u.id
        (List.mem_map_of_mem hmailed) rfl
  | request | select | delete => exact id

/--
**One reminder for an account**, through any runs of the script and any requests between them,
exactly until a run begins at the last instant of the band of an account that was reminded in the
first second of the band and has been issued nothing since.
-/
theorem remindedOnce_iff (cfg : Config) (s : Site) (es : List Event)
    (hcheck : checkConfig cfg = true) (hkeyed : Keyed s.db) (hearlier : s.earlier = [])
    (hwarned : s.warned = []) (htime : Run.Guarded (step cfg) Timely s es) :
    Run.Along (step cfg) RemindedOnce s es ↔
      Run.Guarded (step cfg) (fun s e => ¬Repeats cfg s e) s es := by
  have hnobody : ∀ uid, ¬Reminded s uid := by
    intro uid
    rw [Reminded, hearlier, hwarned]
    simp
  refine Run.along_iff_guarded_of_inv (I := Mailed cfg) (H := Timely) (fun s h => h.once) ?_ ?_
    ⟨hkeyed, ?_, ?_, ?_⟩ htime
  · intro s e h htime hfree
    exact h.step htime hfree
  · intro s e h _ honce
    exact h.not_repeats hcheck honce
  · intro uid huid
    exact absurd huid (hnobody uid)
  · intro u _ huid
    exact absurd huid (hnobody u.id)
  · rw [RemindedOnce, hearlier, hwarned]
    exact List.nodup_nil

/-- A registration and runs at these instants. -/
def runsAt (instants : List Nat) : List Event :=
  .request 10000000 (.register "a" "a@b" "t") ::
    instants.map fun now => .warn now now fun _ => "w"

/-- Half a second into the band, and half a second before its end. -/
theorem remindedOnce_iff_halfSeconds :
    Run.Along (step shortConfig) RemindedOnce (Site.start 9000000) (runsAt [13500000, 14500000]) :=
  (remindedOnce_iff shortConfig (Site.start 9000000) _ (by decide) ⟨by decide, by decide⟩ rfl rfl
    (by decide)).mpr (by decide)

/-- Half a second into the band, and at its end. -/
theorem not_remindedOnce :
    checkConfig shortConfig = true ∧
      Run.Guarded (step shortConfig) Timely (Site.start 9000000) (runsAt [13500000, 15000000]) ∧
      ¬Run.Along (step shortConfig) RemindedOnce (Site.start 9000000)
        (runsAt [13500000, 15000000]) := by
  decide

end Aurweb.AccountMaint
