/-
What is left to a session that is turned away.

`serve` has three gates.  Maintenance and bans close before the login goes on record; the
one for accounts without a verified address closes after that, and lets the commands
through that only read.  What `readonly` takes for one is decided on the words as they
came in, `parseAction` sees them normalized, and `reads_of_readonly` says that the two
agree.  The rest of a database is the same on every branch, whatever the words are.
-/
import Aurweb.Proofs.GitServeWrites

namespace Aurweb.GitServe

/-- The gates of `serve`: maintenance, a ban, and an address that is not verified. -/
inductive TurnedAway (cfg : Config) (db : Db) (s : Session) : Prop
  | maintenance (h : cfg.enableMaintenance = true)
      (hexempt : s.remoteAddr ∉ cfg.maintenanceExceptions)
  | banned (h : s.remoteAddr ∈ db.bans)
  | unverified (h : ∀ u ∈ db.users, cfg.sameName u.username s.user = true →
      u.emailVerified = false)

/-- The same account, up to the `LastSSHLogin` fields. -/
def SameButLogin (u u' : User) : Prop :=
  u' = { u with
    lastSSHLogin := u'.lastSSHLogin, lastSSHLoginIPAddress := u'.lastSSHLoginIPAddress }

/-- Two databases that differ in the `LastSSHLogin` fields of their users and in nothing
else. -/
structure LoginsOnly (db db' : Db) : Prop where
  frame : db' = { db with users := db'.users }
  users : List.Forall₂ SameButLogin db.users db'.users

/-- Nothing is handed over, or a repository is read. -/
def Handover.Reads : Handover → Prop
  | .nothing => True
  | .uploadPack _ => True
  | .receivePack _ => False
  | .restore _ => False

/-- A command that came to nothing but a login, and did not start a `receive-pack`. -/
structure Harmless (db : Db) (result : Result) : Prop where
  logins : LoginsOnly db result.2
  reads : ∀ handover, result.1 = .ok handover → handover.Reads

/-- The commands for which `readonly` stands. -/
def Command.Reads : Command → Prop
  | .uploadPack _ => True
  | .listRepos => True
  | .help => True
  | _ => False

variable {cfg : Config} {db : Db} {s : Session}

/-! ### Logins -/

theorem LoginsOnly.refl (db : Db) : LoginsOnly db db where
  frame := rfl
  users := Table.forall₂_refl (R := SameButLogin) (fun _ => rfl) db.users

theorem logSSHLogin_loginsOnly (cfg : Config) (db : Db) (s : Session) :
    LoginsOnly db (logSSHLogin cfg db s) where
  frame := rfl
  users := Table.forall₂_update (R := SameButLogin) (fun _ => rfl) (fun _ _ _ => rfl)

/-- Logging in verifies no address. -/
theorem not_verified_logSSHLogin
    (h : ∀ u ∈ db.users, cfg.sameName u.username s.user = true → u.emailVerified = false) :
    userEmailVerified cfg (logSSHLogin cfg db s) s.user = false := by
  unfold userEmailVerified
  split
  · rfl
  rename_i u' hu'
  obtain ⟨hmem, hname⟩ := userNamed_mem hu'
  obtain ⟨u, hu, rfl⟩ := Table.mem_update.mp hmem
  split at hname
  · rename_i hsame
    rw [if_pos hsame]
    exact h u hu hsame
  · rename_i hsame
    exact absurd hname hsame

/-! ### Reading -/

theorem oneArg_ok {desc : String} {make : String → Command} {args : List String}
    {command : Command} (h : oneArg desc make args = .ok command) : ∃ a, command = make a := by
  match args, h with
  | [a], h => exact ⟨a, (Except.ok.inj h).symm⟩

/-- An action that is `readonly` is `git-upload-pack`, `list-repos` or `help` once it is
normalized. -/
theorem normalizeAction_readonly {action action' : String} {args args' : List String}
    (hread : readonly action args = true)
    (hnormal : normalizeAction action args = .ok (action', args')) :
    action' ∈ ["git-upload-pack", "list-repos", "help"] := by
  unfold normalizeAction at hnormal
  unfold readonly at hread
  split at hnormal
  · rename_i hgit
    subst hgit
    have hfirst : args.head? = some "upload-pack" := by
      simpa using hread
    match args, hfirst, hnormal with
    | a :: as, hfirst, hnormal =>
        obtain rfl : a = "upload-pack" := Option.some.inj hfirst
        have heq := Except.ok.inj hnormal
        rw [← (Prod.mk.inj heq).1]
        decide
  · rename_i hgit
    have heq := Except.ok.inj hnormal
    rw [← (Prod.mk.inj heq).1]
    simpa [hgit] using hread

/-- What is `readonly` reads. -/
theorem reads_of_readonly {action action' : String} {args args' : List String}
    {command : Command} (hread : readonly action args = true)
    (hnormal : normalizeAction action args = .ok (action', args'))
    (hparse : parseAction action' args' = .ok command) : command.Reads := by
  have hmem := normalizeAction_readonly hread hnormal
  simp only [List.mem_cons, List.not_mem_nil, or_false] at hmem
  rcases hmem with rfl | rfl | rfl
  · obtain ⟨path, rfl⟩ := oneArg_ok hparse
    trivial
  · have hlist : (if args'.isEmpty then .ok .listRepos
        else Except.error (AurwebException.invalidArguments "too many arguments")) =
          .ok command := hparse
    split at hlist
    · rw [← Except.ok.inj hlist]
      trivial
    · exact absurd hlist (by simp)
  · have hhelp : Except.ok Command.help = Except.ok command := hparse
    rw [← Except.ok.inj hhelp]
    trivial

theorem withUser_snd {name : String} {command : User → Result}
    (h : ∀ u, (command u).2 = db) : (withUser cfg db name command).2 = db :=
  withUser_of (P := (· = db)) rfl fun u _ _ => h u

theorem Command.Reads.cases {command : Command} (h : command.Reads) :
    (∃ path, command = .uploadPack path) ∨ command = .listRepos ∨ command = .help := by
  cases command <;> simp_all [Command.Reads]

/-- What fails hands over to nothing. -/
theorem reads_of_error {e : Failure} {handover : Handover}
    (h : (Except.error e : Except Failure Handover) = .ok handover) : handover.Reads :=
  absurd h (by simp)

theorem reads_of_ok {handover handover' : Handover} (hreads : handover.Reads)
    (h : (Except.ok handover : Except Failure Handover) = .ok handover') : handover'.Reads := by
  rw [← Except.ok.inj h]
  exact hreads

/-- A command that reads changes nothing, and hands over to nothing that writes. -/
theorem dispatch_reads (cfg : Config) (db : Db) (s : Session) {command : Command}
    (h : command.Reads) :
    (dispatch cfg db s command).2 = db ∧
      ∀ handover, (dispatch cfg db s command).1 = .ok handover → handover.Reads := by
  rcases h.cases with ⟨path, rfl⟩ | rfl | rfl
  · simp only [dispatch]
    split
    · exact ⟨rfl, fun _ => reads_of_error⟩
    split
    · exact ⟨rfl, fun _ => reads_of_error⟩
    · exact ⟨rfl, fun _ => reads_of_ok trivial⟩
  · refine ⟨withUser_snd fun _ => rfl, fun handover hok => ?_⟩
    simp only [dispatch, withUser] at hok
    split at hok
    · exact reads_of_error hok
    · have hnothing : Handover.nothing.Reads := trivial
      exact reads_of_ok hnothing hok
  · exact ⟨rfl, fun _ => reads_of_ok trivial⟩

/-! ### The gates -/

theorem TurnedAway.reads (h : TurnedAway cfg db s) {action : String}
    {args : List String} {command : Command} (had : Admitted cfg db s action args command) :
    command.Reads := by
  obtain ⟨hopen, hban, hgate, action', args', hnormal, hparse⟩ := had
  rcases h with ⟨hmaint, hexempt⟩ | hbanned | hunverified
  · simp [hmaint, hexempt] at hopen
  · rw [bansMatch, Bool.eq_false_iff] at hban
    exact absurd (List.contains_iff_mem.mpr hbanned) hban
  · rw [not_verified_logSSHLogin hunverified, Bool.or_false] at hgate
    exact reads_of_readonly hgate hnormal hparse

theorem Harmless.error {db db' : Db} (h : LoginsOnly db db') (e : Failure) :
    Harmless db (.error e, db') :=
  ⟨h, fun _ => reads_of_error⟩

theorem TurnedAway.serve (h : TurnedAway cfg db s) (action : String) (args : List String) :
    Harmless db (serve cfg db s action args) := by
  rcases serve_cases cfg db s action args with ⟨e, he⟩ | ⟨e, he⟩ | ⟨command, had, he⟩
  · rw [he]
    exact .error (.refl db) e
  · rw [he]
    exact .error (logSSHLogin_loginsOnly cfg db s) e
  · rw [he]
    obtain ⟨hsame, hreads⟩ :=
      dispatch_reads cfg (logSSHLogin cfg db s) s (h.reads had)
    refine ⟨?_, hreads⟩
    rw [hsame]
    exact logSSHLogin_loginsOnly cfg db s

/-- What `serve` raises is reported, and that is all `main` adds. -/
theorem Harmless.main {c : CommandLine} (h : ∀ action args,
    Harmless db (GitServe.serve cfg db s action args)) (sshCmd : Option String) :
    Harmless db (main cfg c db s sshCmd) := by
  unfold GitServe.main
  split
  · exact .error (.refl db) _
  split
  · exact .error (.refl db) _
  · exact .error (.refl db) _
  rename_i action args _
  have hserve := h action args
  split
  · rename_i e db' heq
    rw [heq] at hserve
    exact .error hserve.logins _
  · exact hserve

/--
**A session that is turned away leaves a login behind and nothing else**: whatever the words
of its command are, and also when they do not come to a command, the database is what it
was up to the `LastSSHLogin` fields, and no `receive-pack` and no restore is started.
-/
theorem harmless_of_turnedAway (cfg : Config) (c : CommandLine) (db : Db) (s : Session)
    (h : TurnedAway cfg db s) :
    (∀ action args, Harmless db (serve cfg db s action args)) ∧
      ∀ sshCmd, Harmless db (main cfg c db s sshCmd) :=
  ⟨h.serve, Harmless.main h.serve⟩

/-- `carol` maintains `foo` and has not followed the link in her mail. -/
def unverifiedSite : Db :=
  { smallSite with users := [{ account 3 .user "carol" with emailVerified := false }] }

theorem harmless_of_turnedAway_carol :
    Harmless unverifiedSite (main siteConfig ⟨"ssh aur@localhost", "aurweb-git-update"⟩
      unverifiedSite ⟨"carol", false, "127.0.0.1", 200, true⟩
      (some "git-receive-pack '/foo.git'")) :=
  (harmless_of_turnedAway siteConfig _ unverifiedSite _ (.unverified (by decide))).2 _

end Aurweb.GitServe
