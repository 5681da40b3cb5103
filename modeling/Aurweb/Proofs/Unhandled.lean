/-
Which command lines end the SSH program with a traceback.

`main` has handlers around `serve`, and none around the words it is given: they are split
and the first of them is looked at before.  Behind the handlers a row that is not there is
subscripted, and a statement that the database refuses raises what nobody expects.  `Sound`
lists what the commands take for granted, `handled_dispatch_iff` says that it is all they do,
and the gates and the lexer are put in front of it.
-/
import Aurweb.Proofs.ServeFrame

namespace Aurweb.GitServe

/-- Nothing has been raised but the program's own exceptions. -/
def Handled (r : Result) : Prop := ∀ e, r.1 ≠ .error (.raised e)

/-- Success, or a message. -/
def EndsWell (r : Result) : Prop :=
  (∃ handover, r.1 = .ok handover) ∨ ∃ message, r.1 = .error (.die message)

/-- Every keyword fits its column, and none is given twice. -/
def Insertable (cfg : Config) (keywords : List String) : Prop :=
  repeats cfg keywords = false ∧ ∀ w ∈ keywords, overflows 255 w = false

/-- What a command does not check. -/
def Sound (cfg : Config) (db : Db) (s : Session) : Command → Prop
  | .setKeywords pkgbase keywords =>
      (baseNamed cfg db pkgbase).isSome → Insertable cfg keywords
  | .flag pkgbase comment =>
      ∀ b, baseNamed cfg db pkgbase = some b → 3 ≤ comment.length → b.outOfDateTS = none →
        overflowsText comment = false
  | .unvote pkgbase =>
      ∀ b, baseNamed cfg db pkgbase = some b → ∀ u, userNamed cfg db s.user = some u →
        hasPackageVote db b.id u.id = true → underflows db b.id = false
  | .setComaintainers pkgbase users =>
      (baseNamed cfg db pkgbase).isSome →
        s.privileged = true ∨ hasFullAccess cfg db pkgbase s.user = true →
          ∀ name ∈ users, (userNamed cfg db name).isSome
  | _ => True

section

variable {cfg : Config} {db : Db} {s : Session} {user : User}

/-! ### Results -/

theorem handled_ok (handover : Handover) (db : Db) : Handled (.ok handover, db) := by
  intro e h
  cases h

theorem handled_finished (db : Db) : Handled (finished db) := handled_ok _ db

theorem handled_failed (db : Db) (e : AurwebException) : Handled (failed db e) := by
  intro e' h
  cases h

theorem handled_die (db : Db) (message : String) : Handled (.error (.die message), db) := by
  intro e' h
  cases h

theorem not_handled_raised (db : Db) (e : String) : ¬Handled (.error (.raised e), db) :=
  fun h => h e rfl

/-- An error in one case, and a command that ends in the other. -/
theorem handled_ite_raised {p : Bool} {db db' : Db} {e : String} :
    Handled (if p then (.error (.raised e), db') else finished db) ↔ p = false := by
  cases p with
  | false => simp [handled_finished]
  | true => simp [not_handled_raised]

theorem handled_withPkgbase {pkgbase : String} {command : PackageBase → Result} :
    Handled (withPkgbase cfg db pkgbase command) ↔
      ∀ b, baseNamed cfg db pkgbase = some b → Handled (command b) := by
  unfold withPkgbase
  cases baseNamed cfg db pkgbase with
  | none => simp [handled_failed]
  | some b => simp

/-- An existing user is found. -/
theorem withUser_eq {name : String} (huser : userNamed cfg db name = some user)
    (command : User → Result) : withUser cfg db name command = command user := by
  unfold withUser
  rw [huser]

/-! ### Keywords -/

theorem sameName_comm (a b : String) : cfg.sameName a b = cfg.sameName b a := by
  unfold Config.sameName
  exact BEq.comm

theorem refuses_eq_none {inserted keywords : List String} :
    refuses cfg inserted keywords = none ↔
      (∀ w ∈ keywords, overflows 255 w = false) ∧ repeats cfg keywords = false ∧
        ∀ w ∈ keywords, inserted.any (cfg.sameName w) = false := by
  induction keywords generalizing inserted with
  | nil => simp [refuses, repeats]
  | cons w keywords ih =>
      unfold refuses
      by_cases hlong : overflows 255 w = true
      · simp [hlong]
      rw [if_neg hlong]
      by_cases hold : inserted.any (cfg.sameName w) = true
      · rw [if_pos hold]
        refine iff_of_false (by simp) ?_
        rintro ⟨-, -, hnew⟩
        have hfalse := hnew w List.mem_cons_self
        rw [hold] at hfalse
        cases hfalse
      rw [if_neg hold, ih]
      rw [Bool.not_eq_true] at hlong hold
      have hany : keywords.any (cfg.sameName w) = false ↔
          ∀ w' ∈ keywords, cfg.sameName w' w = false := by
        rw [List.any_eq_false]
        refine forall₂_congr fun w' _ => ?_
        rw [Bool.not_eq_true, sameName_comm]
      simp only [List.any_cons, Bool.or_eq_false_iff, repeats, List.forall_mem_cons, hlong, hold,
        true_and, hany]
      constructor
      · rintro ⟨hlongs, hrepeats, hnew⟩
        exact ⟨hlongs, ⟨fun w' hw' => (hnew w' hw').1, hrepeats⟩, fun w' hw' => (hnew w' hw').2⟩
      · rintro ⟨hlongs, ⟨hfirst, hrepeats⟩, hnew⟩
        exact ⟨hlongs, hrepeats, fun w' hw' => ⟨hfirst w' hw', hnew w' hw'⟩⟩

theorem handled_setKeywords (pkgbase : String) (keywords : List String) :
    Handled (pkgbaseSetKeywords cfg db pkgbase keywords) ↔
      ((baseNamed cfg db pkgbase).isSome → Insertable cfg keywords) := by
  have hinsertable : refuses cfg [] keywords = none ↔ Insertable cfg keywords := by
    rw [refuses_eq_none]
    unfold Insertable
    constructor
    · rintro ⟨hlongs, hrepeats, -⟩
      exact ⟨hrepeats, hlongs⟩
    · rintro ⟨hrepeats, hlongs⟩
      exact ⟨hlongs, hrepeats, fun w _ => rfl⟩
  unfold pkgbaseSetKeywords
  rw [handled_withPkgbase, ← hinsertable]
  cases hbase : baseNamed cfg db pkgbase with
  | none => simp
  | some b =>
      cases hrefuses : refuses cfg [] keywords with
      | none => simp [handled_finished]
      | some e => simp [not_handled_raised]

/-! ### The other commands -/

theorem handled_adopt (huser : userNamed cfg db s.user = some user) (pkgbase : String)
    (now : Nat) : Handled (pkgbaseAdopt cfg db pkgbase s.user now) := by
  refine handled_withPkgbase.mpr fun b _ => ?_
  rw [withUser_eq huser]
  split
  · exact handled_failed _ _
  split
  · exact handled_die _ _
  · exact handled_finished _

theorem handled_flag (huser : userNamed cfg db s.user = some user) (pkgbase comment : String)
    (now : Nat) :
    Handled (pkgbaseFlag cfg db pkgbase s.user comment now) ↔
      ∀ b, baseNamed cfg db pkgbase = some b → 3 ≤ comment.length → b.outOfDateTS = none →
        overflowsText comment = false := by
  unfold pkgbaseFlag
  rw [handled_withPkgbase]
  refine forall₂_congr fun b _ => ?_
  rw [withUser_eq huser]
  by_cases hshort : comment.length < 3
  · rw [if_pos hshort]
    refine iff_of_true (handled_failed _ _) fun hlong => ?_
    omega
  rw [if_neg hshort, handled_ite_raised, Bool.and_eq_false_imp, Option.isNone_iff_eq_none]
  constructor
  · intro h _ hflag
    exact h hflag
  · intro h hflag
    exact h (by omega) hflag

theorem handled_unflag (huser : userNamed cfg db s.user = some user) (pkgbase : String) :
    Handled (pkgbaseUnflag cfg db pkgbase s.user) := by
  refine handled_withPkgbase.mpr fun b _ => ?_
  rw [withUser_eq huser]
  split
  · exact handled_finished _
  · exact handled_finished _

theorem handled_vote (huser : userNamed cfg db s.user = some user) (pkgbase : String)
    (now : Nat) : Handled (pkgbaseVote cfg db pkgbase s.user now) := by
  refine handled_withPkgbase.mpr fun b _ => ?_
  rw [withUser_eq huser]
  split
  · exact handled_failed _ _
  · rename_i hnew
    unfold commitVote
    rw [if_neg hnew]
    exact handled_finished _

theorem handled_unvote (huser : userNamed cfg db s.user = some user) (pkgbase : String) :
    Handled (pkgbaseUnvote cfg db pkgbase s.user) ↔
      ∀ b, baseNamed cfg db pkgbase = some b → ∀ u, userNamed cfg db s.user = some u →
        hasPackageVote db b.id u.id = true → underflows db b.id = false := by
  unfold pkgbaseUnvote
  rw [handled_withPkgbase]
  constructor
  · intro h b hb u hu hvoted
    have hcommand := h b hb
    rw [withUser_eq hu, if_neg (by simp [hvoted])] at hcommand
    exact handled_ite_raised.mp hcommand
  · intro h b hb
    rw [withUser_eq huser]
    split
    · exact handled_failed _ _
    · rename_i hvoted
      exact handled_ite_raised.mpr (h b hb user huser (by simpa using hvoted))

theorem handled_restore (huser : userNamed cfg db s.user = some user) (pkgbase : String) :
    Handled (validatePkgbase cfg db pkgbase s.user) := by
  unfold validatePkgbase
  split
  · exact handled_failed _ _
  split
  · exact handled_failed _ _
  · rw [withUser_eq huser]
    exact handled_ok _ _

/-! ### Comaintainers -/

/-- A row of an account is found by its name. -/
theorem userNamed_isSome_of_mem {u : User} (hu : u ∈ db.users) :
    (userNamed cfg db u.username).isSome := by
  unfold userNamed
  rw [List.find?_isSome]
  exact ⟨u, hu, cfg.sameName_refl _⟩

theorem idsOf_isSome {usernames : List String} :
    (idsOf cfg db usernames).isSome ↔ ∀ name ∈ usernames, (userNamed cfg db name).isSome := by
  constructor
  · intro h
    obtain ⟨ids, hids⟩ := Option.isSome_iff_exists.mp h
    exact idsOf_known hids
  · intro h
    induction usernames with
    | nil => rfl
    | cons name usernames ih =>
        obtain ⟨u, hu⟩ := Option.isSome_iff_exists.mp (h name List.mem_cons_self)
        have hrest := ih fun name' hname' => h name' (List.mem_cons_of_mem _ hname')
        obtain ⟨ids, hids⟩ := Option.isSome_iff_exists.mp hrest
        unfold idsOf at hids ⊢
        rw [List.mapM_cons, hu, hids]
        rfl

theorem getComaintainers_known {pkgbase name : String}
    (hname : name ∈ getComaintainers cfg db pkgbase) : (userNamed cfg db name).isSome := by
  cases hbase : baseNamed cfg db pkgbase with
  | none =>
      unfold getComaintainers at hname
      rw [hbase] at hname
      cases hname
  | some b =>
      obtain ⟨u, hu, rfl, -⟩ := mem_getComaintainers hbase hname
      exact userNamed_isSome_of_mem hu

theorem handled_setComaintainers (pkgbase : String) (users : List String) (name : String)
    (privileged : Bool) :
    Handled (pkgbaseSetComaintainers cfg db pkgbase users name privileged) ↔
      ((baseNamed cfg db pkgbase).isSome →
        privileged = true ∨ hasFullAccess cfg db pkgbase name = true →
          ∀ name ∈ users, (userNamed cfg db name).isSome) := by
  unfold pkgbaseSetComaintainers
  rw [handled_withPkgbase]
  have hold : (idsOf cfg db (getComaintainers cfg db pkgbase).dedup).isSome :=
    idsOf_isSome.mpr fun name' hname' => getComaintainers_known (List.mem_dedup.mp hname')
  obtain ⟨uidsOld, huids⟩ := Option.isSome_iff_exists.mp hold
  rw [← idsOf_isSome, huids]
  cases baseNamed cfg db pkgbase with
  | none => simp
  | some b =>
      by_cases hdenied : (!privileged && !hasFullAccess cfg db pkgbase name) = true
      · simp only [hdenied, if_true]
        refine iff_of_true (fun _ _ => handled_failed _ _) fun _ hallowed => ?_
        simp only [Bool.and_eq_true, Bool.not_eq_true'] at hdenied
        simp [hdenied.1, hdenied.2] at hallowed
      · have hallowed : privileged = true ∨ hasFullAccess cfg db pkgbase name = true := by
          by_contra hnot
          rw [not_or, Bool.not_eq_true, Bool.not_eq_true] at hnot
          exact hdenied (by rw [hnot.1, hnot.2]; rfl)
        simp only [hdenied]
        cases idsOf cfg db users with
        | none => simp [hallowed, not_handled_raised]
        | some uidsNew => simp [handled_finished]

theorem handled_disown (huser : userNamed cfg db s.user = some user) (pkgbase : String)
    (privileged : Bool) (now : Nat) :
    Handled (pkgbaseDisown cfg db pkgbase s.user privileged now) := by
  refine handled_withPkgbase.mpr fun b hbase => ?_
  obtain ⟨rows, hrows⟩ := closeEach_frame .accepted
    s!"The user {s.user} disowned the package." now (pkgreqByPkgbase db b .orphan) db
  simp only
  split
  · exact handled_failed _ _
  rw [hrows]
  generalize hclosed : { db with packageRequests := rows } = closed
  have hknown : ∀ name ∈ (if hasFullAccess cfg db pkgbase s.user = true then
      getComaintainers cfg closed pkgbase else []), (userNamed cfg closed name).isSome := by
    intro name hname
    split at hname
    · exact getComaintainers_known hname
    · cases hname
  generalize (if hasFullAccess cfg db pkgbase s.user = true then
    getComaintainers cfg closed pkgbase else []) = names at hknown
  split
  · rename_i hnext
    obtain ⟨name, hname, hnone⟩ := Option.map_eq_some_iff.mp hnext
    have hsome := hknown name (List.mem_of_mem_head? hname)
    rw [Option.map_eq_none_iff.mp hnone] at hsome
    cases hsome
  have hset : Handled (pkgbaseSetComaintainers cfg closed pkgbase names.tail s.user privileged) :=
    (handled_setComaintainers _ _ _ _).mpr fun _ _ name hname =>
      hknown name (List.mem_of_mem_tail hname)
  obtain ⟨rows', hrows'⟩ := setComaintainers_frame cfg closed pkgbase names.tail s.user privileged
  generalize pkgbaseSetComaintainers cfg closed pkgbase names.tail s.user privileged = result
    at hset hrows'
  obtain ⟨outcome, db'⟩ := result
  cases outcome with
  | error e =>
      intro e' h
      exact hset e' h
  | ok handover =>
      have huser' : userNamed cfg (setMaintainer db' b.id
          (names.head?.map fun name => (userNamed cfg closed name).map (·.id)).join) s.user =
            some user := by
        rw [← huser, show db' = _ from hrows', ← hclosed]
        rfl
      simp only
      rw [withUser_eq huser']
      exact handled_finished _

/-! ### The session -/

/-- Every command ends well exactly where it is sound. -/
theorem handled_dispatch_iff (huser : userNamed cfg db s.user = some user) (command : Command) :
    Handled (dispatch cfg db s command) ↔ Sound cfg db s command := by
  cases command with
  | uploadPack path =>
      refine iff_of_true ?_ trivial
      simp only [dispatch]
      split
      · exact handled_failed _ _
      split
      · exact handled_failed _ _
      · exact handled_ok _ _
  | receivePack path =>
      refine iff_of_true ?_ trivial
      simp only [dispatch]
      split
      · exact handled_failed _ _
      split
      · exact handled_failed _ _
      split
      · exact handled_failed _ _
      · exact handled_ok _ _
  | setKeywords pkgbase keywords => exact handled_setKeywords pkgbase keywords
  | listRepos =>
      refine iff_of_true ?_ trivial
      simp only [dispatch]
      rw [withUser_eq huser]
      exact handled_finished _
  | restore pkgbase => exact iff_of_true (handled_restore huser pkgbase) trivial
  | adopt pkgbase => exact iff_of_true (handled_adopt huser pkgbase s.now) trivial
  | disown pkgbase => exact iff_of_true (handled_disown huser pkgbase s.privileged s.now) trivial
  | flag pkgbase comment => exact handled_flag huser pkgbase comment s.now
  | unflag pkgbase => exact iff_of_true (handled_unflag huser pkgbase) trivial
  | vote pkgbase => exact iff_of_true (handled_vote huser pkgbase s.now) trivial
  | unvote pkgbase => exact handled_unvote huser pkgbase
  | setComaintainers pkgbase users => exact handled_setComaintainers pkgbase users _ _
  | help => exact iff_of_true (handled_finished _) trivial

/-- The row of a user after the login. -/
def loggedIn (cfg : Config) (s : Session) (u : User) : User :=
  if cfg.sameName u.username s.user then
    { u with lastSSHLogin := s.now, lastSSHLoginIPAddress := some s.remoteAddr }
  else u

theorem loggedIn_frame (u : User) :
    loggedIn cfg s u = { u with
      lastSSHLogin := (loggedIn cfg s u).lastSSHLogin
      lastSSHLoginIPAddress := (loggedIn cfg s u).lastSSHLoginIPAddress } := by
  unfold loggedIn
  split
  · rfl
  · rfl

@[simp] theorem loggedIn_id (u : User) : (loggedIn cfg s u).id = u.id := by rw [loggedIn_frame]

@[simp] theorem loggedIn_username (u : User) : (loggedIn cfg s u).username = u.username := by
  rw [loggedIn_frame]

@[simp] theorem loggedIn_emailVerified (u : User) :
    (loggedIn cfg s u).emailVerified = u.emailVerified := by
  rw [loggedIn_frame]

theorem logSSHLogin_users : (logSSHLogin cfg db s).users = db.users.map (loggedIn cfg s) := rfl

theorem userNamed_logSSHLogin (name : String) :
    userNamed cfg (logSSHLogin cfg db s) name = (userNamed cfg db name).map (loggedIn cfg s) := by
  unfold userNamed
  rw [logSSHLogin_users, List.find?_map]
  congr 2
  funext u
  rw [Function.comp_apply, loggedIn_username]

theorem userEmailVerified_logSSHLogin (name : String) :
    userEmailVerified cfg (logSSHLogin cfg db s) name = userEmailVerified cfg db name := by
  unfold userEmailVerified
  rw [userNamed_logSSHLogin]
  cases userNamed cfg db name with
  | none => rfl
  | some u => exact loggedIn_emailVerified u

theorem hasFullAccess_logSSHLogin (pkgbase name : String) :
    hasFullAccess cfg (logSSHLogin cfg db s) pkgbase name = hasFullAccess cfg db pkgbase name := by
  unfold hasFullAccess
  rw [logSSHLogin_users]
  simp only [List.any_map, Function.comp_def, loggedIn_username, loggedIn_id]
  rfl

/-- Nothing that a command takes for granted depends on a login. -/
theorem sound_logSSHLogin (huser : userNamed cfg db s.user = some user) (command : Command) :
    Sound cfg (logSSHLogin cfg db s) s command ↔ Sound cfg db s command := by
  cases command with
  | unvote pkgbase =>
      have huser' : userNamed cfg (logSSHLogin cfg db s) s.user = some (loggedIn cfg s user) := by
        rw [userNamed_logSSHLogin, huser]
        rfl
      unfold Sound
      simp only [huser, huser', Option.some.injEq, forall_eq', loggedIn_id]
      rfl
  | setComaintainers pkgbase users =>
      unfold Sound
      simp only [hasFullAccess_logSSHLogin, userNamed_logSSHLogin, Option.isSome_map]
      rfl
  | _ => exact Iff.rfl

/-- The gates are open: no maintenance, no ban, and an address that is verified or not asked
for. -/
def Admits (cfg : Config) (db : Db) (s : Session) (action : String) (args : List String) : Prop :=
  (cfg.enableMaintenance && !cfg.maintenanceExceptions.contains s.remoteAddr) = false ∧
    bansMatch db s.remoteAddr = false ∧
    (readonly action args || userEmailVerified cfg db s.user) = true

/-- What the words of a command line take for granted. -/
def SoundWords (cfg : Config) (db : Db) (s : Session) (action : String) (args : List String) :
    Prop :=
  (action = "git" → args ≠ []) ∧
    ∀ action' args' command, normalizeAction action args = .ok (action', args') →
      parseAction action' args' = .ok command → Sound cfg db s command

theorem normalizeAction_error_iff {action : String} {args : List String} {e : Failure} :
    normalizeAction action args = .error e ↔
      (action = "git" ∧ args = []) ∧ e = .raised "IndexError" := by
  unfold normalizeAction
  by_cases hgit : action = "git"
  · rw [if_pos hgit]
    cases args with
    | nil => simp [hgit, eq_comm]
    | cons a as =>
        refine iff_of_false ?_ (by simp)
        simp only
        split
        · simp
        · simp
  · rw [if_neg hgit]
    simp [hgit]

theorem handled_serve_iff (huser : userNamed cfg db s.user = some user) (action : String)
    (args : List String) :
    Handled (serve cfg db s action args) ↔
      (Admits cfg db s action args → SoundWords cfg db s action args) := by
  have huser' : userNamed cfg (logSSHLogin cfg db s) s.user = some (loggedIn cfg s user) := by
    rw [userNamed_logSSHLogin, huser]
    rfl
  unfold serve
  by_cases hmaintenance :
      (cfg.enableMaintenance && !cfg.maintenanceExceptions.contains s.remoteAddr) = true
  · rw [if_pos hmaintenance]
    refine iff_of_true (handled_failed _ _) fun h => ?_
    exact absurd (hmaintenance.symm.trans h.1) (by simp)
  rw [if_neg hmaintenance]
  by_cases hbanned : bansMatch db s.remoteAddr = true
  · rw [if_pos hbanned]
    refine iff_of_true (handled_failed _ _) fun h => ?_
    exact absurd (hbanned.symm.trans h.2.1) (by simp)
  rw [if_neg hbanned]
  simp only
  rw [userEmailVerified_logSSHLogin]
  by_cases hverified : (!readonly action args && !userEmailVerified cfg db s.user) = true
  · rw [if_pos hverified]
    refine iff_of_true (handled_failed _ _) fun h => ?_
    have hopen := h.2.2
    simp only [Bool.and_eq_true, Bool.not_eq_true'] at hverified
    rw [hverified.1, hverified.2] at hopen
    cases hopen
  rw [if_neg hverified]
  have hadmits : Admits cfg db s action args := by
    refine ⟨by simpa using hmaintenance, by simpa using hbanned, ?_⟩
    simpa [Bool.or_eq_true, imp_iff_not_or] using hverified
  rw [forall_prop_of_true hadmits]
  unfold SoundWords
  cases hnormal : normalizeAction action args with
  | error e =>
      obtain ⟨⟨hgit, hargs⟩, rfl⟩ := normalizeAction_error_iff.mp hnormal
      refine iff_of_false (not_handled_raised _ _) fun h => h.1 hgit hargs
  | ok words =>
      obtain ⟨action', args'⟩ := words
      have hgit : action = "git" → args ≠ [] := by
        intro hgit hargs
        have herror := normalizeAction_error_iff.mpr ⟨⟨hgit, hargs⟩, rfl⟩
        rw [hnormal] at herror
        cases herror
      simp only
      cases hparse : parseAction action' args' with
      | error e =>
          refine iff_of_true (handled_failed _ _) ⟨hgit, ?_⟩
          intro _ _ command hwords hcommand
          cases hwords
          rw [hparse] at hcommand
          cases hcommand
      | ok command =>
          simp only
          rw [handled_dispatch_iff huser', sound_logSSHLogin huser]
          constructor
          · intro h
            refine ⟨hgit, ?_⟩
            intro _ _ command' hwords hcommand
            cases hwords
            rw [hparse] at hcommand
            cases hcommand
            exact h
          · intro h
            exact h.2 _ _ command rfl hparse

/-! ### `main` -/

theorem endsWell_die (db : Db) (message : String) : EndsWell (.error (.die message), db) :=
  Or.inr ⟨message, rfl⟩

theorem not_endsWell_raised (db : Db) (e : String) : ¬EndsWell (.error (.raised e), db) := by
  intro h
  rcases h with ⟨handover, hok⟩ | ⟨message, hdie⟩
  · cases hok
  · cases hdie

/-- The handlers of `main`, with what they are for. -/
theorem endsWell_main_iff {c : CommandLine} {line action : String} {args : List String}
    (hline : line ≠ "") (hwords : shlexSplit line = some (action :: args)) :
    EndsWell (main cfg c db s (some line)) ↔ Handled (serve cfg db s action args) := by
  have hfilter : (some line).filter (· != "") = some line := by
    simp [hline]
  unfold main
  rw [hfilter]
  simp only [hwords]
  generalize serve cfg db s action args = result
  obtain ⟨outcome, db'⟩ := result
  cases outcome with
  | ok handover => exact iff_of_true (Or.inl ⟨handover, rfl⟩) (handled_ok _ _)
  | error e =>
      cases e with
      | exception e => exact iff_of_true (endsWell_die _ _) (handled_failed db' e)
      | die message => exact iff_of_true (endsWell_die _ _) (handled_die _ _)
      | raised e => exact iff_of_false (not_endsWell_raised _ _) (not_handled_raised _ _)

end

/-- `alice`, over SSH. -/
def sessionAlice : Session where
  user := "alice"
  privileged := false
  remoteAddr := "192.0.2.1"
  now := 9000000
  hookInstalled := true

def commandLine : CommandLine where
  sshCmdline := "ssh aur@aur.archlinux.org"
  gitUpdateCmd := "/usr/local/bin/aurweb-git-update"

end Aurweb.GitServe
