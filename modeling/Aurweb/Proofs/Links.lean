/-
What a verification link proves, and who can have read it.

`Kept` says how columns and history belong together: the address of an account is the last
one set, and the token on its row is the last one issued, since that address was set.  As
no token is handed out twice, a link that verifies an account can only hold this one, and
every mail that carried it went to the address the account still has.
-/
import Aurweb.Proofs.Verification

namespace Aurweb.Verification

variable {cfg : Config} {s : Office} {now : Nat}

/-! ### Columns and history -/

/-- What the columns of an account say is what happened last. -/
structure Credentials.Kept (cfg : Config) (log : List Entry) (c : Credentials) : Prop where
  address : addressOf c.id log = some c.email
  backup : backupOf c.id log = c.backup
  live : ∀ token, c.token = some token → c.verified = false ∧
    ∃ ts, liveIssue c.id log = some (token, ts) ∧
      c.expiry = some (ts + cfg.emailVerificationTTL)

/-- A mail carries the live token of an account, to its addresses. -/
def MailsKept : List Entry → Prop
  | [] => True
  | .mailed m _ :: log =>
      (addressOf m.uid log = some m.primary ∧ backupOf m.uid log = m.backup ∧
        ∃ ts, liveIssue m.uid log = some (m.token, ts)) ∧ MailsKept log
  | _ :: log => MailsKept log

structure Kept (cfg : Config) (s : Office) : Prop where
  keyed : Keyed s.db
  rows : ∀ c ∈ accounts s.db, c.Kept cfg s.log
  mails : MailsKept s.log
  used : ∀ token, .used token ∈ s.log →
    token ∈ issuedTokens s.log ∧ ∀ c ∈ accounts s.db, c.token ≠ some token
  distinct : (issuedTokens s.log).Nodup

theorem Credentials.Kept.cons {log : List Entry} {c : Credentials} (h : c.Kept cfg log) {e : Entry}
    (he : e.Foreign c.id) : c.Kept cfg (e :: log) where
  address := by rw [addressOf_cons he.1, h.address]
  backup := by rw [backupOf_cons he.2, h.backup]
  live token htoken := by rw [liveIssue_cons he.1]; exact h.live token htoken

theorem Credentials.Kept.append {log entries : List Entry} {c : Credentials} (h : c.Kept cfg log)
    (hentries : ∀ e ∈ entries, e.Foreign c.id) : c.Kept cfg (entries ++ log) := by
  induction entries with
  | nil => exact h
  | cons e entries ih =>
      obtain ⟨he, hrest⟩ := List.forall_mem_cons.mp hentries
      exact (ih hrest).cons he

theorem MailsKept.append {entries : List Entry} (log : List Entry) (h : MailsKept log)
    (hentries : ∀ m ts, .mailed m ts ∉ entries) : MailsKept (entries ++ log) := by
  induction entries with
  | nil => exact h
  | cons e entries ih =>
      have hrest := ih fun m ts hm => hentries m ts (List.mem_cons_of_mem _ hm)
      cases e with
      | mailed m ts => exact absurd (List.mem_cons_self ..) (hentries m ts)
      | _ => exact hrest

theorem MailsKept.mailed {newer older : List Entry} {m : Mail} {ts : Nat}
    (h : MailsKept (newer ++ .mailed m ts :: older)) :
    addressOf m.uid older = some m.primary ∧ backupOf m.uid older = m.backup ∧
      ∃ ts, liveIssue m.uid older = some (m.token, ts) := by
  induction newer with
  | nil => exact h.1
  | cons e newer ih =>
      cases e with
      | mailed m' ts' => exact ih h.2
      | _ => exact ih h

/-- A transaction that mails nothing and uses no link. -/
theorem Kept.commit (h : Kept cfg s) {db : Db} {entries : List Entry}
    (hdistinct : (issuedTokens (entries ++ s.log)).Nodup)
    (hmailed : ∀ m ts, .mailed m ts ∉ entries) (hused : ∀ token, .used token ∉ entries)
    (hkeyed : Table.Numbered (·.id) db.nextID (accounts db))
    (haccounts : ∀ c ∈ accounts db, c.Kept cfg (entries ++ s.log) ∧
      ∀ token, c.token = some token →
        token ∈ issuedTokens entries ∨ ∃ c₀ ∈ accounts s.db, c₀.token = some token) :
    Kept cfg (s.commit db entries) where
  keyed := keyed_iff.mpr hkeyed
  rows c hc := (haccounts c hc).1
  mails := h.mails.append _ hmailed
  used token htoken := by
    obtain ⟨hissued, hgone⟩ := h.used token ((List.mem_append.mp htoken).resolve_left (hused token))
    refine ⟨by simp [Office.commit, hissued], fun c hc hctoken => ?_⟩
    rcases (haccounts c hc).2 token hctoken with hnew | ⟨c₀, hc₀, hc₀token⟩
    · rw [issuedTokens_append] at hdistinct
      exact (List.nodup_append.mp hdistinct).2.2 token hnew token hissued rfl
    · exact hgone c₀ hc₀ hc₀token
  distinct := hdistinct

theorem liveIssue_issued {uid : Nat} {uids : List Nat} {tokens : Nat → String} {ts : Nat}
    (h : uid ∈ uids) (log : List Entry) :
    liveIssue uid (uids.map (fun uid => .issued uid (tokens uid) ts) ++ log) =
      some (tokens uid, ts) := by
  induction uids with
  | nil => simp at h
  | cons uid' uids ih =>
      by_cases huid : uid' = uid
      · simp [liveIssue, huid]
      · have hrest : uid ∈ uids := (List.mem_cons.mp h).resolve_left fun hc => huid hc.symm
        simp [liveIssue, huid, ih hrest]

theorem addresses_issued (uid : Nat) (uids : List Nat) (tokens : Nat → String) (ts : Nat)
    (log : List Entry) :
    addressOf uid (uids.map (fun uid => .issued uid (tokens uid) ts) ++ log) =
        addressOf uid log ∧
      backupOf uid (uids.map (fun uid => .issued uid (tokens uid) ts) ++ log) =
        backupOf uid log := by
  induction uids with
  | nil => simp
  | cons uid' uids ih => simpa [addressOf, backupOf] using ih

theorem Kept.update (h : Kept cfg s) {p : Credentials → Bool} {f : Credentials → Credentials}
    (hf : ∀ c, (f c).id = c.id) :
    Table.Numbered (·.id) s.db.nextID (Table.update p f (accounts s.db)) :=
  (keyed_iff.mp h.keyed).of_map_eq (Table.map_update hf _)

/-- An account a transaction says nothing about. -/
theorem Kept.foreign (h : Kept cfg s) {c : Credentials} (hc : c ∈ accounts s.db)
    (entries : List Entry) (hentries : ∀ e ∈ entries, e.Foreign c.id) :
    c.Kept cfg (entries ++ s.log) ∧ ∀ token, c.token = some token →
      token ∈ issuedTokens entries ∨ ∃ c₀ ∈ accounts s.db, c₀.token = some token :=
  ⟨(h.rows c hc).append hentries, fun _ htoken => Or.inr ⟨c, hc, htoken⟩⟩

/-- An account whose address is set, for the first time or anew, with its first token. -/
theorem kept_addressed {uid : Nat} {email token : String} {backup : Option String}
    {c : Credentials} (hid : c.id = uid) (log : List Entry) :
    let c' := Credentials.issue cfg token now { c with email, backup, verified := false }
    let entries : List Entry :=
      [.backedUp uid backup, .issued uid token (timestamp now), .addressed uid email]
    c'.Kept cfg (entries ++ log) ∧ ∀ token, c'.token = some token →
      token ∈ issuedTokens entries := by
  refine ⟨⟨by simp [addressOf, Credentials.issue, hid],
    by simp [backupOf, Credentials.issue, hid], ?_⟩, ?_⟩
  · intro token' htoken
    simpa [liveIssue, Credentials.issue, hid] using htoken
  · intro token' htoken
    simp only [Credentials.issue, Option.some.injEq] at htoken
    simp [issuedTokens, htoken]

/-- A statement that writes some accounts and says nothing about the others. -/
theorem Kept.commit_update (h : Kept cfg s) {db : Db} {entries : List Entry}
    {p : Credentials → Bool} {f : Credentials → Credentials}
    (hdistinct : (issuedTokens (entries ++ s.log)).Nodup)
    (hmailed : ∀ m ts, .mailed m ts ∉ entries) (hused : ∀ token, .used token ∉ entries)
    (hnext : db.nextID = s.db.nextID) (haccounts : accounts db = Table.update p f (accounts s.db))
    (hf : ∀ c, (f c).id = c.id)
    (hwritten : ∀ c ∈ accounts s.db, p c = true → (f c).Kept cfg (entries ++ s.log) ∧
      ∀ token, (f c).token = some token →
        token ∈ issuedTokens entries ∨ ∃ c₀ ∈ accounts s.db, c₀.token = some token)
    (hforeign : ∀ c ∈ accounts s.db, ¬ p c = true → ∀ e ∈ entries, e.Foreign c.id) :
    Kept cfg (s.commit db entries) := by
  refine h.commit hdistinct hmailed hused ?_ ?_
  · rw [haccounts, hnext]
    exact h.update hf
  · rw [haccounts]
    intro c hc
    obtain ⟨c₀, hc₀, rfl⟩ := Table.mem_update.mp hc
    by_cases hp : p c₀ = true
    · rw [if_pos hp]
      exact hwritten c₀ hc₀ hp
    · rw [if_neg hp]
      exact h.foreign hc₀ _ (hforeign c₀ hc₀ hp)

theorem Kept.issue (h : Kept cfg s) {db : Db} {uids : List Nat} {tokens : Nat → String}
    (hverified : ∀ c ∈ accounts s.db, c.id ∈ uids → c.verified = false)
    (hnext : db.nextID = s.db.nextID)
    (haccounts : accounts db = Table.update (fun c => uids.contains c.id)
      (fun c => c.issue cfg (tokens c.id) now) (accounts s.db))
    (hdistinct : (issuedTokens (uids.map (fun uid =>
      .issued uid (tokens uid) (timestamp now)) ++ s.log)).Nodup) :
    Kept cfg (s.commit db (uids.map fun uid => .issued uid (tokens uid) (timestamp now))) := by
  refine h.commit_update hdistinct (by simp) (by simp) hnext haccounts (fun _ => rfl) ?_ ?_
  · intro c hc hp
    have hid : c.id ∈ uids := by simpa using hp
    have hkept := h.rows c hc
    obtain ⟨haddress, hbackup⟩ := addresses_issued c.id uids tokens (timestamp now) s.log
    refine ⟨⟨haddress.trans hkept.address, hbackup.trans hkept.backup, ?_⟩, ?_⟩
    · intro token htoken
      simp only [Credentials.issue, Option.some.injEq] at htoken
      refine ⟨hverified c hc hid, timestamp now, ?_, rfl⟩
      rw [← htoken]
      exact liveIssue_issued hid s.log
    · intro token htoken
      simp only [Credentials.issue, Option.some.injEq] at htoken
      refine Or.inl (mem_issuedTokens.mpr ⟨c.id, timestamp now, ?_⟩)
      exact List.mem_map.mpr ⟨c.id, hid, by rw [htoken]⟩
  · intro c hc hp e he
    have hid : c.id ∉ uids := by simpa using hp
    obtain ⟨uid, huid, rfl⟩ := List.mem_map.mp he
    have hne : uid ≠ c.id := fun heq => hid (heq ▸ huid)
    simp [Entry.Foreign, Entry.Concerns, hne]

theorem Kept.issued (h : Kept cfg s) {c : Credentials} {token : String}
    (hc : c ∈ accounts s.db) (htoken : c.token = some token) :
    ∃ ts, .issued c.id token ts ∈ s.log := by
  obtain ⟨-, ts, hlive, -⟩ := (h.rows c hc).live token htoken
  obtain ⟨newer, older, hlog, -⟩ := exists_of_liveIssue hlive
  exact ⟨ts, by simp [hlog]⟩

/-- A token is on one row at most. -/
theorem Kept.holder (h : Kept cfg s) {c c' : Credentials} {token : String}
    (hc : c ∈ accounts s.db) (htoken : c.token = some token) (hc' : c' ∈ accounts s.db)
    (htoken' : c'.token = some token) : c.id = c'.id := by
  obtain ⟨ts, hissued⟩ := h.issued hc htoken
  obtain ⟨ts', hissued'⟩ := h.issued hc' htoken'
  exact (issued_unique h.distinct hissued hissued').1

theorem Kept.use (h : Kept cfg s) {db : Db} {c : Credentials} {token : String}
    (hc : c ∈ accounts s.db) (htoken : c.token = some token) (hnext : db.nextID = s.db.nextID)
    (haccounts : accounts db = Table.update (·.id == c.id)
      (fun c => { c with verified := true, token := none, expiry := none }) (accounts s.db)) :
    Kept cfg (s.commit db [.used token]) := by
  -- every other row keeps its own token, which is another one
  have hrow : ∀ c' ∈ accounts db, c'.Kept cfg (.used token :: s.log) ∧
      ∀ token', c'.token = some token' →
        token' ≠ token ∧ ∃ c₀ ∈ accounts s.db, c₀.token = some token' := by
    rw [haccounts]
    intro c' hc'
    obtain ⟨c₀, hc₀, rfl⟩ := Table.mem_update.mp hc'
    have hkept : c₀.Kept cfg (.used token :: s.log) :=
      (h.rows c₀ hc₀).cons (by simp [Entry.Foreign, Entry.Concerns])
    by_cases hid : c₀.id = c.id
    · rw [if_pos (by simpa using hid)]
      exact ⟨⟨hkept.address, hkept.backup, by simp⟩, by simp⟩
    · rw [if_neg (by simpa using hid)]
      refine ⟨hkept, fun token' htoken' => ⟨?_, c₀, hc₀, htoken'⟩⟩
      rintro rfl
      exact hid (h.holder hc₀ htoken' hc htoken)
  refine ⟨keyed_iff.mpr ?_, fun c' hc' => (hrow c' hc').1, h.mails, ?_, h.distinct⟩
  · rw [show (s.commit db [.used token]).db = db from rfl, haccounts, hnext]
    exact h.update fun _ => rfl
  · intro token' hused
    rcases List.mem_cons.mp hused with heq | hused
    · obtain rfl : token' = token := by simpa using heq
      obtain ⟨ts, hissued⟩ := h.issued hc htoken
      refine ⟨mem_issuedTokens.mpr ⟨_, ts, List.mem_cons_of_mem _ hissued⟩, ?_⟩
      exact fun c' hc' hctoken => ((hrow c' hc').2 _ hctoken).1 rfl
    · obtain ⟨hmem, hgone⟩ := h.used token' hused
      refine ⟨hmem, fun c' hc' hctoken => ?_⟩
      obtain ⟨-, c₀, hc₀, hc₀token⟩ := (hrow c' hc').2 token' hctoken
      exact hgone c₀ hc₀ hc₀token

theorem Kept.notify (h : Kept cfg s) (uid : Nat) : Kept cfg (s.notify uid now) := by
  unfold Office.notify
  split
  · exact h
  · rename_i m hmail
    obtain ⟨u, hu, rfl, htoken, hm⟩ := mem_of_verificationNotification hmail
    have hkept := h.rows (credentials u) (List.mem_map_of_mem hu)
    obtain ⟨-, ts, hlive, -⟩ := hkept.live m.token htoken
    refine ⟨h.keyed, fun c hc => (h.rows c hc).cons (by simp [Entry.Foreign, Entry.Concerns]),
      ⟨?_, h.mails⟩, ?_, h.distinct⟩
    · rw [hm]
      exact ⟨hkept.address, hkept.backup, ts, hlive⟩
    · intro token' hused
      have hold : .used token' ∈ s.log := by simpa using hused
      exact h.used token' hold

/-- **One move.**  Columns and history stay together. -/
theorem Kept.move (h : Kept cfg s) {s' : Office} (hm : Move cfg now s s')
    (hdistinct : (issuedTokens s'.log).Nodup) : Kept cfg s' := by
  have hkeyed := keyed_iff.mp h.keyed
  cases hm with
  | other hnext haccounts =>
      refine h.commit hdistinct (by simp) (by simp) ?_ ?_
      · rw [haccounts]
        exact hkeyed.mono hnext
      · rw [haccounts]
        exact fun c hc => h.foreign hc [] (by simp)
  | @register db email token backup hnext haccounts =>
      refine h.commit hdistinct (by simp) (by simp) ?_ ?_
      · rw [haccounts, hnext]
        exact hkeyed.insert rfl
      · rw [haccounts]
        intro c hc
        rcases List.mem_append.mp hc with hc | hc
        · have hid : s.db.nextID ≠ c.id := Nat.ne_of_gt (hkeyed.lt c hc)
          exact h.foreign hc _ (by simp [Entry.Foreign, Entry.Concerns, hid])
        · obtain rfl := List.mem_singleton.mp hc
          obtain ⟨hkept, htokens⟩ :=
            kept_addressed (c := ⟨s.db.nextID, email, backup, false, none, none⟩) rfl s.log
          exact ⟨hkept, fun token htoken => Or.inl (htokens token htoken)⟩
  | @readdress db c₁ email token backup hc₁ hnext haccounts =>
      refine h.commit_update hdistinct (by simp) (by simp) hnext haccounts (fun _ => rfl) ?_ ?_
      · intro c hc hid
        obtain ⟨hkept, htokens⟩ := kept_addressed (eq_of_beq hid) s.log
        exact ⟨hkept, fun token htoken => Or.inl (htokens token htoken)⟩
      · intro c hc hid
        have hne : c₁.id ≠ c.id := fun heq => hid (beq_iff_eq.mpr heq.symm)
        simp [Entry.Foreign, Entry.Concerns, hne]
  | @backUp db c₁ backup hc₁ hnext haccounts =>
      refine h.commit_update hdistinct (by simp) (by simp) hnext haccounts (fun _ => rfl) ?_ ?_
      · intro c hc hid
        have hkept := h.rows c hc
        refine ⟨⟨hkept.address, by simp [backupOf, eq_of_beq hid], hkept.live⟩, ?_⟩
        exact fun token htoken => Or.inr ⟨c, hc, htoken⟩
      · intro c hc hid
        have hne : c₁.id ≠ c.id := fun heq => hid (beq_iff_eq.mpr heq.symm)
        simp [Entry.Foreign, Entry.Concerns, hne]
  | issue hverified hnext haccounts => exact h.issue hverified hnext haccounts hdistinct
  | use hc htoken hnext haccounts => exact h.use hc htoken hnext haccounts
  | delete hnext haccounts =>
      refine h.commit hdistinct (by simp) (by simp) ?_ ?_
      · rw [haccounts, hnext]
        exact hkeyed.sublist (Table.delete_sublist _ _)
      · rw [haccounts]
        exact fun c hc => h.foreign (Table.mem_delete.mp hc).1 [] (by simp)
  | notify uid => exact h.notify uid

/-! ### Every run -/

/-- The history only grows. -/
theorem Move.log_suffix {s' : Office} (h : Move cfg now s s') : s.log <:+ s'.log := by
  cases h with
  | notify uid =>
      unfold Office.notify
      split
      · exact List.suffix_rfl
      · exact List.suffix_cons _ _
  | _ => exact List.suffix_append _ _

theorem nodup_of_suffix {log log' : List Entry} (h : log <:+ log')
    (hdistinct : (issuedTokens log').Nodup) : (issuedTokens log).Nodup := by
  obtain ⟨newer, rfl⟩ := h
  rw [issuedTokens_append] at hdistinct
  exact (List.nodup_append.mp hdistinct).2.1

theorem Kept.moves (h : Kept cfg s) {s' : Office}
    (hm : Relation.ReflTransGen (Move cfg now) s s') (hdistinct : (issuedTokens s'.log).Nodup) :
    Kept cfg s' := by
  induction hm with
  | refl => exact h
  | tail _ hmove ih => exact (ih (nodup_of_suffix hmove.log_suffix hdistinct)).move hmove hdistinct

/-- `generate_resetkey()` returns no token twice. -/
def Fresh (cfg : Config) (s : Office) (e : Event) : Prop := (issuedTokens (step cfg s e).log).Nodup

instance (cfg : Config) (s : Office) (e : Event) : Decidable (Fresh cfg s e) :=
  inferInstanceAs (Decidable (List.Nodup _))

theorem Kept.step (h : Kept cfg s) {e : Event} (hfresh : Fresh cfg s e) :
    Kept cfg (step cfg s e) := by
  have hkept := h.moves (handle_moves h.keyed e) hfresh
  exact ⟨hkept.keyed, hkept.rows, hkept.mails, hkept.used, hkept.distinct⟩

theorem addresses_start {users : List User} (h : (users.map (·.id)).Nodup) {u : User}
    (hu : u ∈ users) :
    let log := users.flatMap fun u =>
      [Entry.backedUp u.id u.backupEmail, .addressed u.id u.email]
    addressOf u.id log = some u.email ∧ backupOf u.id log = u.backupEmail := by
  induction users with
  | nil => simp at hu
  | cons w users ih =>
      rw [List.map_cons, List.nodup_cons] at h
      by_cases hid : w.id = u.id
      · have heq : u = w := by
          rcases List.mem_cons.mp hu with heq | hu
          · exact heq
          · exact absurd (hid ▸ List.mem_map_of_mem hu) h.1
        simp [heq, addressOf, backupOf]
      · have hrest : u ∈ users := by
          rcases List.mem_cons.mp hu with heq | hu
          · exact absurd (congrArg User.id heq).symm hid
          · exact hu
        simpa [addressOf, backupOf, hid] using ih h.2 hrest

theorem Kept.start {db : Db} (h : Unissued db) (clock : Nat) : Kept cfg (Office.start db clock) where
  keyed := h.keyed
  rows c hc := by
    obtain ⟨u, hu, rfl⟩ := List.mem_map.mp hc
    obtain ⟨haddress, hbackup⟩ := addresses_start h.keyed.nodup hu
    refine ⟨haddress, hbackup, fun token htoken => ?_⟩
    rw [show (credentials u).token = none from (h.tokens u hu).1] at htoken
    cases htoken
  mails := by
    have hnone : ∀ m ts, .mailed m ts ∉ (Office.start db clock).log := by
      simp [Office.start]
    simpa using MailsKept.append [] trivial hnone
  used token htoken := by simp [Office.start] at htoken
  distinct := by
    have hnone : issuedTokens (Office.start db clock).log = [] := by
      refine List.eq_nil_iff_forall_not_mem.mpr fun token htoken => ?_
      obtain ⟨uid, ts, hissued⟩ := mem_issuedTokens.mp htoken
      simp [Office.start] at hissued
    rw [hnone]
    exact List.nodup_nil

/-! ### What a link proves -/

/-- Following the link makes the account a verified one. -/
def Verifies (s : Office) (token : String) (now uid : Nat) : Prop :=
  (∃ u ∈ s.db.users, u.id = uid ∧ u.emailVerified = false) ∧
    ∃ u ∈ (visit s token now).db.users, u.id = uid ∧ u.emailVerified = true

/-- The token went out in a mail. -/
def Mailed (s : Office) (token : String) : Prop := ∃ m ts, .mailed m ts ∈ s.log ∧ m.token = token

/-- The token was issued when the account had the address it has, and mailed there. -/
def Earned (s : Office) (token : String) (uid : Nat) : Prop :=
  ∃ newer ts older, s.log = newer ++ .issued uid token ts :: older ∧
    (∀ email, .addressed uid email ∉ newer) ∧
    ∃ m ts', .mailed m ts' ∈ s.log ∧ m.uid = uid ∧ m.token = token ∧
      ∃ u ∈ s.db.users, u.id = uid ∧ u.email = m.primary

/-- The token is past its time. -/
def Expired (cfg : Config) (s : Office) (token : String) (now : Nat) : Prop :=
  ∃ uid ts, .issued uid token ts ∈ s.log ∧ ts + cfg.emailVerificationTTL ≤ timestamp now

/-- Another token has been issued to the account since. -/
def Superseded (s : Office) (token : String) : Prop :=
  ∃ newer uid ts older, s.log = newer ++ .issued uid token ts :: older ∧
    ∃ token' ts', .issued uid token' ts' ∈ newer

/-- A link verifies an account only as long as it should. -/
structure LinksSound (cfg : Config) (s : Office) : Prop where
  earned : ∀ token now uid, Mailed s token → Verifies s token now uid → Earned s token uid
  live : ∀ token now uid, Expired cfg s token now ∨ Superseded s token ∨ .used token ∈ s.log →
    ¬Verifies s token now uid

theorem exists_of_verifies (hk : Keyed s.db) {token : String} {uid : Nat}
    (h : Verifies s token now uid) :
    ∃ u ∈ s.db.users, u.id = uid ∧ u.emailVerificationToken = some token ∧
      isExpired u now = false := by
  obtain ⟨⟨u, hu, hid, hbefore⟩, w, hw, hwid, hafter⟩ := h
  have hsame : ∀ w' ∈ s.db.users, w'.id = uid → w'.emailVerified = false := by
    intro w' hw' hid'
    rw [hk.eq_of_key hw' hu (hid'.trans hid.symm)]
    exact hbefore
  unfold visit at hw
  split at hw
  · rw [hsame w hw hwid] at hafter
    cases hafter
  · rename_i user hverify
    obtain ⟨hmem, htoken, -, hlive, hpost⟩ := verifying_eq_some hverify
    rw [Office.commit, hpost] at hw
    obtain ⟨w₀, hw₀, rfl⟩ := mem_updateUser.mp hw
    by_cases hid' : w₀.id = user.id
    · rw [if_pos hid'] at hwid
      exact ⟨user, hmem, hid'.symm.trans hwid, htoken, hlive⟩
    · rw [if_neg hid'] at hwid hafter
      rw [hsame w₀ hw₀ hwid] at hafter
      cases hafter

/-- A link that verifies an account holds the token that is live. -/
theorem Kept.verifies (h : Kept cfg s) {token : String} {uid : Nat}
    (hv : Verifies s token now uid) :
    ∃ u ∈ s.db.users, u.id = uid ∧ u.emailVerificationToken = some token ∧
      addressOf uid s.log = some u.email ∧
      ∃ ts, liveIssue uid s.log = some (token, ts) ∧
        timestamp now < ts + cfg.emailVerificationTTL := by
  obtain ⟨u, hu, rfl, htoken, hlive⟩ := exists_of_verifies h.keyed hv
  have hkept := h.rows _ (List.mem_map_of_mem hu)
  obtain ⟨-, ts, hissue, hexpiry⟩ := hkept.live token htoken
  refine ⟨u, hu, rfl, htoken, hkept.address, ts, hissue, ?_⟩
  have hexp : u.emailVerificationExpiry = some (ts + cfg.emailVerificationTTL) := hexpiry
  simp only [isExpired, hexp, decide_eq_false_iff_not, Nat.not_le] at hlive
  exact hlive

/-- Who a live token has been mailed to. -/
theorem Kept.mailed_live (h : Kept cfg s) {uid ts ts' : Nat} {token : String}
    (hlive : liveIssue uid s.log = some (token, ts)) {newer older : List Entry} {m : Mail}
    (hlog : s.log = newer ++ .mailed m ts' :: older) (htoken : m.token = token) :
    m.uid = uid ∧ addressOf uid s.log = some m.primary := by
  have hmails := h.mails
  have hdistinct := h.distinct
  rw [hlog] at hmails hlive hdistinct ⊢
  obtain ⟨haddress, -, ts₀, hthen⟩ := hmails.mailed
  rw [htoken] at hthen
  obtain ⟨newer₀, older₀, hissued₀, -⟩ := exists_of_liveIssue hthen
  obtain ⟨newer₁, older₁, hissued₁, -⟩ := exists_of_liveIssue hlive
  have huid : m.uid = uid := by
    have hmem₀ : .issued m.uid token ts₀ ∈ newer ++ .mailed m ts' :: older := by simp [hissued₀]
    have hmem₁ : .issued uid token ts ∈ newer ++ .mailed m ts' :: older := by simp [hissued₁]
    exact (issued_unique hdistinct hmem₀ hmem₁).1
  have hold : token ∉ issuedTokens (newer ++ [.mailed m ts']) := by
    intro hmem
    rw [List.append_cons, issuedTokens_append] at hdistinct
    refine (List.nodup_append.mp hdistinct).2.2 token hmem token ?_ rfl
    exact mem_issuedTokens.mpr ⟨m.uid, ts₀, by simp [hissued₀]⟩
  refine ⟨huid, ?_⟩
  rw [List.append_cons] at hlive ⊢
  obtain ⟨-, huntouched⟩ := liveIssue_append hlive hold
  rw [addressOf_append huntouched, ← huid, haddress]

theorem Kept.linksSound (h : Kept cfg s) : LinksSound cfg s := by
  constructor
  · rintro token now uid ⟨m, ts', hmailed, htoken⟩ hv
    obtain ⟨u, hu, hid, -, haddress, ts, hlive, -⟩ := h.verifies hv
    obtain ⟨newer, older, hlog, huntouched⟩ := exists_of_liveIssue hlive
    obtain ⟨newer', older', hmail⟩ := List.append_of_mem hmailed
    obtain ⟨huid, hprimary⟩ := h.mailed_live hlive hmail htoken
    rw [haddress] at hprimary
    refine ⟨newer, ts, older, hlog, fun email hmem => huntouched _ hmem rfl, m, ts', hmailed,
      huid, htoken, u, hu, hid, Option.some.inj hprimary⟩
  · intro token now uid hdead hv
    obtain ⟨u, hu, hid, htoken, -, ts, hlive, htime⟩ := h.verifies hv
    obtain ⟨newer, older, hlog, huntouched⟩ := exists_of_liveIssue hlive
    have hissued : .issued uid token ts ∈ s.log := by simp [hlog]
    rcases hdead with ⟨uid', ts', hissued', hexpired⟩ | ⟨newer', uid', ts', older', hlog', hsuper⟩ |
      hused
    · obtain ⟨-, rfl⟩ := issued_unique h.distinct hissued hissued'
      omega
    · obtain ⟨token', ts'', hlater⟩ := hsuper
      have hissued' : .issued uid' token ts' ∈ s.log := by simp [hlog']
      obtain ⟨rfl, -⟩ := issued_unique h.distinct hissued hissued'
      have hdistinct := h.distinct
      rw [hlog', issuedTokens_append] at hdistinct
      have hold : token ∉ issuedTokens newer' := by
        intro hmem
        exact (List.nodup_append.mp hdistinct).2.2 token hmem token (List.mem_cons_self ..) rfl
      rw [hlog'] at hlive
      exact (liveIssue_append hlive hold).2 _ hlater rfl
    · exact (h.used token hused).2 (credentials u) (List.mem_map_of_mem hu) htoken

/-- **Links.**  In every run in which no token is handed out twice: a link that verifies an
account was issued after its address was last changed, and mailed to that address; and a link
that has expired, been superseded or been used verifies none. -/
theorem linksSound_of_fresh {db : Db} (hstart : Unissued db) (clock : Nat) {es : List Event}
    (hfresh : Run.Guarded (step cfg) (Fresh cfg) (Office.start db clock) es) :
    Run.Along (step cfg) (LinksSound cfg) (Office.start db clock) es :=
  (Run.along_of_guarded (fun _ _ h hfresh => h.step hfresh) (Kept.start hstart clock) hfresh).imp
    fun _ h => h.linksSound

/-- An account registers, follows its link, changes its address and tries both links. -/
def moveHouse : List Event :=
  [.request 1000000 (.register "ada" "ada@old" none "t1"),
    .request 2000000 (.visit "t1"),
    .request 9000000 (.edit 1 1
      { email := "ada@new", suspended := false, accountType := none, newPassword := false } none
      "t2"),
    .request 9500000 (.visit "t1"),
    .request 10000000 (.visit "t2")]

theorem linksSound_of_fresh_moveHouse :
    Run.Along (step AccountMaint.shortConfig) (LinksSound AccountMaint.shortConfig)
      (Office.start { nextID := 1 } 0) moveHouse :=
  linksSound_of_fresh ⟨⟨by decide, by decide⟩, by decide⟩ 0 (by decide +kernel)

/-! ### Who can have read a link -/

/-- Somebody who reads the mail at these addresses has been sent the token. -/
def Read (reads : String → Prop) (s : Office) (token : String) : Prop :=
  ∃ m ts, .mailed m ts ∈ s.log ∧ m.token = token ∧ ∃ r ∈ m.recipients, reads r

/-- Tokens go to the address they verify, so whoever has an account verified reads its mail. -/
structure OnlyPrimary (s : Office) : Prop where
  recipients : ∀ newer m ts older, s.log = newer ++ .mailed m ts :: older →
    ∀ r ∈ m.recipients, addressOf m.uid older = some r ∧
      ∀ now uid, Verifies s m.token now uid → ∃ u ∈ s.db.users, u.id = uid ∧ u.email = r
  unread : ∀ reads token now uid, Read reads s token → Verifies s token now uid →
    ∃ u ∈ s.db.users, u.id = uid ∧ reads u.email

/-- Tokens also go to the backup address of the moment. -/
structure OnlyOwnAddresses (s : Office) : Prop where
  recipients : ∀ newer m ts older, s.log = newer ++ .mailed m ts :: older →
    ∀ r ∈ m.recipients,
      (addressOf m.uid older = some r ∧
        ∀ now uid, Verifies s m.token now uid → ∃ u ∈ s.db.users, u.id = uid ∧ u.email = r) ∨
      backupOf m.uid older = some r
  unread : ∀ reads token now uid, Read reads s token → Verifies s token now uid →
    (∃ u ∈ s.db.users, u.id = uid ∧ reads u.email) ∨
      ∃ newer m ts older backup, s.log = newer ++ .mailed m ts :: older ∧ m.uid = uid ∧
        m.token = token ∧ backupOf uid older = some backup ∧ reads backup

theorem mem_recipients {m : Mail} {r : String} (h : r ∈ m.recipients) :
    r = m.primary ∨ m.backup = some r := by
  unfold Mail.recipients at h
  split at h
  · exact Or.inl (List.mem_singleton.mp h)
  · rename_i backup hbackup
    split at h
    · exact Or.inl (List.mem_singleton.mp h)
    · rcases List.mem_cons.mp h with hprimary | hr
      · exact Or.inl hprimary
      · exact Or.inr (by rw [hbackup, List.mem_singleton.mp hr])

theorem Kept.primary (h : Kept cfg s) {newer older : List Entry} {m : Mail} {ts uid : Nat}
    (hlog : s.log = newer ++ .mailed m ts :: older) (hv : Verifies s m.token now uid) :
    m.uid = uid ∧ ∃ u ∈ s.db.users, u.id = uid ∧ u.email = m.primary := by
  obtain ⟨u, hu, hid, -, haddress, ts', hlive, -⟩ := h.verifies hv
  obtain ⟨huid, hprimary⟩ := h.mailed_live hlive hlog rfl
  rw [haddress] at hprimary
  exact ⟨huid, u, hu, hid, Option.some.inj hprimary⟩

theorem Kept.onlyOwnAddresses (h : Kept cfg s) : OnlyOwnAddresses s := by
  constructor
  · intro newer m ts older hlog r hr
    have hmails := h.mails
    rw [hlog] at hmails
    obtain ⟨haddress, hbackup, -⟩ := hmails.mailed
    rcases mem_recipients hr with rfl | hr
    · exact Or.inl ⟨haddress, fun now uid hv => (h.primary hlog hv).2⟩
    · exact Or.inr (hbackup.trans hr)
  · rintro reads token now uid ⟨m, ts, hmailed, rfl, r, hr, hreads⟩ hv
    obtain ⟨newer, older, hlog⟩ := List.append_of_mem hmailed
    obtain ⟨huid, u, hu, hid, hprimary⟩ := h.primary hlog hv
    have hmails := h.mails
    rw [hlog] at hmails
    obtain ⟨-, hbackup, -⟩ := hmails.mailed
    rcases mem_recipients hr with rfl | hr
    · exact Or.inl ⟨u, hu, hid, by rw [hprimary]; exact hreads⟩
    · refine Or.inr ⟨newer, m, ts, older, r, hlog, huid, rfl, ?_, hreads⟩
      rw [← huid, hbackup, hr]

/-- **Disclosure.**  In every run in which no token is handed out twice, a token is mailed to
the address it verifies and to the backup address, and nowhere else. -/
theorem onlyOwnAddresses_of_fresh {db : Db} (hstart : Unissued db) (clock : Nat)
    {es : List Event} (hfresh : Run.Guarded (step cfg) (Fresh cfg) (Office.start db clock) es) :
    Run.Along (step cfg) OnlyOwnAddresses (Office.start db clock) es :=
  (Run.along_of_guarded (fun _ _ h hfresh => h.step hfresh) (Kept.start hstart clock) hfresh).imp
    fun _ h => h.onlyOwnAddresses

/-- Eve registers with the address of somebody else, and her own for a backup. -/
def evesBackup : List Event :=
  [.request 1000000 (.register "eve" "ada@old" (some "eve@old") "t1")]

theorem onlyOwnAddresses_of_fresh_evesBackup :
    Run.Along (step AccountMaint.shortConfig) OnlyOwnAddresses (Office.start { nextID := 1 } 0)
      evesBackup :=
  onlyOwnAddresses_of_fresh ⟨⟨by decide, by decide⟩, by decide⟩ 0 (by decide +kernel)

/-- She need not read the mail of the address to have it verified. -/
theorem not_onlyPrimary_evesBackup :
    Run.Guarded (step AccountMaint.shortConfig) (Fresh AccountMaint.shortConfig)
        (Office.start { nextID := 1 } 0) evesBackup ∧
      ¬Run.Along (step AccountMaint.shortConfig) OnlyPrimary (Office.start { nextID := 1 } 0)
        evesBackup := by
  refine ⟨by decide +kernel, fun h => ?_⟩
  have hread : Read (· = "eve@old")
      (Run.exec (step AccountMaint.shortConfig) (Office.start { nextID := 1 } 0) evesBackup)
      "t1" := by
    refine ⟨{ uid := 1, primary := "ada@old", backup := some "eve@old", token := "t1" }, 1, ?_⟩
    decide +kernel
  have hverifies : Verifies
      (Run.exec (step AccountMaint.shortConfig) (Office.start { nextID := 1 } 0) evesBackup)
      "t1" 2000000 1 := by
    unfold Verifies
    decide +kernel
  have hreads := h.last.unread _ _ _ _ hread hverifies
  revert hreads
  decide +kernel

end Aurweb.Verification
