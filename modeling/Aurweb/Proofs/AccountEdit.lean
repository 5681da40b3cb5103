/-
What an account edit that does not go through leaves of the account.

A transaction of the edit leaves every account as it was when the form says what is stored
already; the case analysis of `AsItWas.of_idle` is over the updates.  The rest is that a run is made
of steps.  A password that is hashed again is still the same password: the columns are compared
but for `Passwd`, and that may only have gone from one hash to another of a password that
checks.
-/
import Aurweb.AccountEdit
import Aurweb.Proofs.Users

namespace Aurweb.Users

/-! ### An account as it was -/

/-- A password that checks, hashed again. -/
def Rehashes (env : Env) (salt passwd passwd' : String) : Prop :=
  ∃ password newSalt, (env.checkpw password passwd = true ∨
    salt ≠ "" ∧ env.md5 (salt ++ password) = passwd) ∧ passwd' = env.hashpw password newSalt

/-- The row is as it was, and so is the password. -/
structure SameRow (env : Env) (u u' : Account) : Prop where
  columns : u' = u.setPasswd u'.passwd
  passwd : Relation.ReflTransGen (Rehashes env u.salt) u.passwd u'.passwd

/-- The account, its keys and its session are as they were. -/
structure AsItWas (env : Env) (uid : Nat) (st st' : Store) : Prop where
  row : ∀ u, st.account? uid = some u → ∃ u', st'.account? uid = some u' ∧ SameRow env u u'
  keys : st'.sshPubKeys.filter (·.userID == uid) = st.sshPubKeys.filter (·.userID == uid)
  sessions : st'.sessions.filter (·.usersID == uid) = st.sessions.filter (·.usersID == uid)

section

variable {env : Env} {t : Tick} {st st' st'' : Store} {uid : Nat} {e e' : Edit} {task : Task}

namespace SameRow

theorem refl (env : Env) (u : Account) : SameRow env u u := ⟨rfl, .refl⟩

theorem trans {u u' u'' : Account} (h : SameRow env u u') (h' : SameRow env u' u'') :
    SameRow env u u'' := by
  have hsalt : u'.salt = u.salt := by
    rw [h.columns]
    rfl
  refine ⟨?_, h.passwd.trans (hsalt ▸ h'.passwd)⟩
  rw [h'.columns, h.columns]
  rfl

/-- `valid_password` hashes a password again, if anything. -/
theorem checked (env : Env) (t : Tick) (u : Account) (password : String) :
    SameRow env u (u.setPasswd (validPassword env t u password).2.passwd) := by
  unfold validPassword
  by_cases hchecks : env.checkpw password u.passwd = true
  · rw [if_pos hchecks]
    exact refl env u
  rw [if_neg hchecks]
  by_cases hlegacy : (u.salt != "" && env.md5 (u.salt ++ password) == u.passwd) = true
  · rw [if_pos hlegacy]
    rw [Bool.and_eq_true, bne_iff_ne, beq_iff_eq] at hlegacy
    exact ⟨rfl, .single ⟨password, t.salt, Or.inr hlegacy, rfl⟩⟩
  · rw [if_neg hlegacy]
    exact refl env u

end SameRow

namespace AsItWas

theorem refl (env : Env) (uid : Nat) (st : Store) : AsItWas env uid st st :=
  ⟨fun u hu => ⟨u, hu, .refl env u⟩, rfl, rfl⟩

theorem trans (h : AsItWas env uid st st') (h' : AsItWas env uid st' st'') :
    AsItWas env uid st st'' where
  row u hu := by
    obtain ⟨u', hu', hrow⟩ := h.row u hu
    obtain ⟨u'', hu'', hrow'⟩ := h'.row u' hu'
    exact ⟨u'', hu'', hrow.trans hrow'⟩
  keys := h'.keys.trans h.keys
  sessions := h'.sessions.trans h.sessions

/-- Whatever has to do with another account. -/
theorem of_confined {v : Nat} (h : Confined uid st st') (hv : v ≠ uid) : AsItWas env v st st' where
  row u hu := ⟨u, (h.account v hv).trans hu, .refl env u⟩
  keys := h.keys v hv
  sessions := h.sessions v hv

/-- An update of the row that leaves it as it is. -/
theorem update {u : Account} {f : Account → Account} (hf : ∀ u, u.id = uid → (f u).id = uid)
    (hu : st.account? uid = some u) (hrow : SameRow env u (f u)) :
    AsItWas env uid st (st.updateAccount uid f) where
  row u₀ hu₀ := by
    rw [hu] at hu₀
    obtain rfl := Option.some.inj hu₀
    exact ⟨f u, Store.account?_updateAccount_self hf hu, hrow⟩
  keys := rfl
  sessions := rfl

/-- A password that is checked. -/
theorem checkPassword (t : Tick) {u : Account} (hu : st.account? u.id = some u)
    (password : String) (v : Nat) : AsItWas env v st (st.checkPassword env t u password).2 := by
  by_cases hv : v = u.id
  · rw [hv]
    exact .update (fun _ hid => hid) hu (.checked env t u password)
  · exact .of_confined (.checkPassword st u password) hv

end AsItWas

/-! ### A form that says what is stored -/

/-- The value of a column is the one that was loaded, or the one that is stored by now. -/
def Says {α : Type} (value loaded stored : α) : Prop := value = loaded ∨ value = stored

/-- The fields of the profile, on the account as it was loaded and as it is stored by now. -/
structure SaysProfile (env : Env) (t : Tick) (args : Args) (loaded stored : Account) : Prop where
  username : args.U.getD "" = "" ∨ Says (args.U.getD "") loaded.username stored.username
  email : args.E.getD "" = "" ∨ args.E.getD "" = loaded.email
  hideEmail : Says (strtobool env args.H) loaded.hideEmail stored.hideEmail
  backupEmail : Says (some (args.BE.getD "")) loaded.backupEmail stored.backupEmail
  realName : Says (args.R.getD "") loaded.realName stored.realName
  homepage : Says (some (args.HP.getD "")) loaded.homepage stored.homepage
  ircNick : Says (args.I.getD "") loaded.ircNick stored.ircNick
  pgpKey : Says (some (args.K.getD "")) loaded.pgpKey stored.pgpKey
  suspended : Says (strtobool env args.S) loaded.suspended stored.suspended
  inactivityTS : Says (if strtobool env args.J then timestamp t.now else 0)
    loaded.inactivityTS stored.inactivityTS
  commentNotify : Says (strtobool env args.CN) loaded.commentNotify stored.commentNotify
  updateNotify : Says (strtobool env args.UN) loaded.updateNotify stored.updateNotify
  ownershipNotify : Says (strtobool env args.ON) loaded.ownershipNotify stored.ownershipNotify
  hideDeletedComments : Says (strtobool env args.HDC) loaded.hideDeletedComments
    stored.hideDeletedComments

/-- The keys of the form are those of the account. -/
def SaysKeys (env : Env) (st : Store) (uid : Nat) (PK : String) : Prop :=
  if PK = "" then ∀ k ∈ st.sshPubKeys, k.userID ≠ uid
  else ∀ keys, env.parseSSHKeys PK = some keys →
    (∀ k ∈ st.sshPubKeys, k.userID = uid → ∃ key ∈ keys, k.fingerprint = fingerprintOf env key) ∧
      ∀ key ∈ keys, ∃ k ∈ st.sshPubKeys, k.userID = uid ∧ k.fingerprint = fingerprintOf env key

/-- The update finds nothing to change. -/
def Task.Idle (env : Env) (t : Tick) (e : Edit) (st : Store) (stored : Account) : Task → Prop
  | .simple => SaysProfile env t e.args e.loaded stored
  | .language => e.args.L.getD "" = "" ∨ e.args.L.getD "" = stored.langPreference
  | .timezone => e.args.TZ.getD "" = "" ∨ e.args.TZ.getD "" = stored.timezone
  | .sshPubkey => SaysKeys env st e.uid (e.args.PK.getD "")
  | .accountType => ∀ type, e.args.Names env type → type = stored.accountType
  | .password => e.args.P.getD "" = "" ∨
      (validPassword env t stored (e.args.P.getD "")).1 = true
  | .approve | .suspend => True
  | .login => e.approved = false
  | .deleteSessions => e.found = false ∨ ∀ s ∈ st.sessions, s.usersID ≠ e.uid

open NormalizedEmail (written) in
theorem written_of_said {α : Type} [DecidableEq α] {value loaded stored : α}
    (h : Says value loaded stored) : written loaded value stored = stored := by
  unfold NormalizedEmail.written
  by_cases hsame : value = loaded
  · rw [if_pos hsame]
  · rw [if_neg hsame]
    exact h.resolve_left hsame

open NormalizedEmail (written) in
theorem written_self {α : Type} [DecidableEq α] (loaded stored : α) :
    written loaded loaded stored = stored :=
  if_pos rfl

/-- The `UPDATE` of `simple` changes no column. -/
theorem flush_of_said {args : Args} {loaded stored : Account}
    (h : SaysProfile env t args loaded stored) :
    flush loaded (simpleObject env t args loaded) stored = stored := by
  have hsame : emailChanged loaded args = false := by
    unfold emailChanged
    rcases h.email with hempty | heq
    · simp [hempty]
    · simp [heq]
  have hemail : (if args.E.getD "" = "" then loaded.email else args.E.getD "") = loaded.email := by
    rcases h.email with hempty | heq
    · rw [if_pos hempty]
    · rw [heq, ite_self]
  have hname : Says (if args.U.getD "" = "" then loaded.username else args.U.getD "")
      loaded.username stored.username := by
    by_cases hempty : args.U.getD "" = ""
    · rw [if_pos hempty]
      exact Or.inl rfl
    · rw [if_neg hempty]
      exact h.username.resolve_left hempty
  unfold flush simpleObject
  simp only [hsame, hemail, NormalizedEmail.syncNormalizedEmail, bne_self_eq_false,
    Bool.false_eq_true, if_false, written_self, written_of_said hname,
    written_of_said h.hideEmail, written_of_said h.backupEmail, written_of_said h.realName,
    written_of_said h.homepage, written_of_said h.ircNick, written_of_said h.pgpKey,
    written_of_said h.suspended, written_of_said h.inactivityTS, written_of_said h.commentNotify,
    written_of_said h.updateNotify, written_of_said h.ownershipNotify,
    written_of_said h.hideDeletedComments]

theorem updateSSHPubkey_of_said {PK : String} (hsaid : SaysKeys env st uid PK)
    (h : updateSSHPubkey env uid PK st = .ok st') : st' = st := by
  unfold SaysKeys at hsaid
  unfold updateSSHPubkey at h
  by_cases hempty : PK = ""
  · rw [if_pos hempty] at hsaid h
    rw [← Except.ok.inj h, Table.delete_eq_self fun k hk => by simpa using hsaid k hk]
  rw [if_neg hempty] at hsaid h
  cases hkeys : env.parseSSHKeys PK with
  | none => simp [hkeys] at h
  | some keys =>
      obtain ⟨hthere, hgiven⟩ := hsaid keys hkeys
      have hkept : Table.delete (fun k => k.userID == uid &&
          !keys.any fun key => k.fingerprint == fingerprintOf env key) st.sshPubKeys =
          st.sshPubKeys := by
        refine Table.delete_eq_self fun k hk => ?_
        by_cases hmine : k.userID = uid
        · obtain ⟨key, hkey, heq⟩ := hthere k hk hmine
          have hany : (keys.any fun key => k.fingerprint == fingerprintOf env key) = true :=
            List.any_eq_true.mpr ⟨key, hkey, beq_iff_eq.mpr heq⟩
          rw [hany, Bool.not_true, Bool.and_false]
        · simp [hmine]
      have hmissing : missingKeys env st uid keys = [] := by
        unfold missingKeys
        rw [List.map_eq_nil_iff, List.filter_eq_nil_iff]
        intro key hkey
        obtain ⟨k, hk, hmine, heq⟩ := hgiven key hkey
        have hany : (st.sshPubKeys.any fun k =>
            k.userID == uid && k.fingerprint == fingerprintOf env key) = true :=
          List.any_eq_true.mpr ⟨k, hk, by simp [hmine, heq]⟩
        simp [hany]
      simp only [hkeys, hkept, hmissing, List.append_nil] at h
      split at h
      · exact (Except.ok.inj h).symm
      · cases h

/-- A transaction that finds nothing to change. -/
theorem AsItWas.of_idle {u : Account} (hu : st.account? e.uid = some u)
    (hidle : task.Idle env t e st u) (h : task.run env t e st = .ok (e', st')) (v : Nat) :
    AsItWas env v st st' := by
  by_cases hv : v ≠ e.uid
  · exact .of_confined (Task.run_ok h).confined hv
  obtain rfl : v = e.uid := not_not.mp hv
  have hid : u.id = e.uid := (Store.account?_mem hu).2
  have hu' : st.account? u.id = some u := by
    rw [hid]
    exact hu
  have hsame : ∀ {f : Account → Account}, f u = u → (∀ u, u.id = e.uid → (f u).id = e.uid) →
      AsItWas env e.uid st (st.updateAccount e.uid f) := by
    intro f hf hids
    refine .update hids hu ?_
    rw [hf]
    exact .refl env u
  unfold Task.run at h
  rw [hu] at h
  cases task with
  | simple =>
      dsimp only at h
      split at h
      · cases h
      obtain ⟨rfl, rfl⟩ := Prod.mk.inj (Except.ok.inj h)
      exact hsame (flush_of_said hidle) fun _ _ => hid
  | language | timezone =>
      dsimp only at h
      split at h
      · obtain ⟨rfl, rfl⟩ := Prod.mk.inj (Except.ok.inj h)
        exact .refl env _ st
      · rename_i hgiven
        obtain ⟨rfl, rfl⟩ := Prod.mk.inj (Except.ok.inj h)
        refine hsame ?_ fun _ hid => hid
        rw [hidle.resolve_left hgiven]
  | sshPubkey =>
      obtain ⟨st₁, hkeys, heq⟩ := Except.of_map_ok h
      obtain ⟨rfl, rfl⟩ := Prod.mk.inj heq
      rw [updateSSHPubkey_of_said hidle hkeys]
      exact .refl env _ st
  | accountType =>
      dsimp only at h
      split at h
      · obtain ⟨rfl, rfl⟩ := Prod.mk.inj (Except.ok.inj h)
        exact .refl env _ st
      rename_i raw hraw
      split at h
      · cases h
      rename_i T hT
      split at h
      · cases h
      rename_i type htype
      obtain ⟨rfl, rfl⟩ := Prod.mk.inj (Except.ok.inj h)
      refine hsame ?_ fun _ hid => hid
      rw [hidle type ⟨raw, T, hraw, hT, htype⟩]
  | password =>
      dsimp only at h
      split at h
      · obtain ⟨rfl, rfl⟩ := Prod.mk.inj (Except.ok.inj h)
        exact .refl env _ st
      rename_i hgiven
      have hchecks : (st.checkPassword env t u (e.args.P.getD "")).1 = true :=
        hidle.resolve_left hgiven
      split at h
      · rename_i st₁ hcheck
        obtain ⟨rfl, rfl⟩ := Prod.mk.inj (Except.ok.inj h)
        obtain rfl := (Prod.mk.inj hcheck).2
        exact .checkPassword t hu' _ _
      · rename_i st₁ hcheck
        rw [hcheck] at hchecks
        cases hchecks
  | approve =>
      dsimp only at h
      split at h
      · obtain ⟨rfl, rfl⟩ := Prod.mk.inj (Except.ok.inj h)
        unfold loginApproved
        split
        · exact .refl env _ st
        · exact .checkPassword t hu' _ _
      · obtain ⟨rfl, rfl⟩ := Prod.mk.inj (Except.ok.inj h)
        exact .refl env _ st
  | login =>
      dsimp only at h
      rw [if_neg (by rw [show e.approved = false from hidle]; decide)] at h
      obtain ⟨rfl, rfl⟩ := Prod.mk.inj (Except.ok.inj h)
      exact .refl env _ st
  | suspend =>
      obtain ⟨rfl, rfl⟩ := Prod.mk.inj (Except.ok.inj h)
      exact .refl env _ st
  | deleteSessions =>
      obtain ⟨rfl, rfl⟩ := Prod.mk.inj (Except.ok.inj h)
      by_cases hfound : e.found = true
      · rw [if_pos hfound]
        have hnone := hidle.resolve_left (by simp [hfound])
        have hstay : st.deleteSessions e.uid = st := by
          unfold Store.deleteSessions
          rw [Table.delete_eq_self fun s hs => by simpa using hnone s hs]
        rw [hstay]
        exact .refl env _ st
      · rw [if_neg hfound]
        exact .refl env _ st

/-! ### Runs -/

def Moment.Own : Moment → Prop
  | .other _ => False
  | .next _ | .raise _ => True

/-- Each step of the request leaves every account as it was. -/
def OwnStepsKeep (env : Env) (c : Counter) (ms : List Moment) : Prop :=
  Run.Guarded (Counter.step env)
    (fun c m => m.Own → ∀ uid, AsItWas env uid c.store (c.step env m).store) c ms

/-- The others leave the account alone. -/
def OthersKeep (env : Env) (uid : Nat) (c : Counter) (ms : List Moment) : Prop :=
  Run.Guarded (Counter.step env)
    (fun c m => ¬m.Own → AsItWas env uid c.store (c.step env m).store) c ms

/-- The request has changed no account: not with the checks, not with a transaction of its own,
and an account that nobody else has changed is what it was before the request. -/
structure LeftAlone (env : Env) (st : Store) (c : Counter) (ms : List Moment) : Prop where
  checks : ∀ uid, AsItWas env uid st c.store
  own : OwnStepsKeep env c ms
  account : ∀ uid, OthersKeep env uid c ms →
    AsItWas env uid st (Run.exec (Counter.step env) c ms).store

/-- An edit that is not reported as done has changed nothing. -/
def AllOrNone (env : Env) (o : Office) (editorID : Nat) (username : String) (args : Args)
    (t : Tick) (ms : List Moment) : Prop :=
  ∀ r, (Run.exec (Counter.step env) (o.post env editorID username args t) ms).course = .ended r →
    LeftAlone env o.store (o.post env editorID username args t) ms

/-- If it is a transaction of the request that goes through, it finds nothing to change. -/
def FindsNothing (env : Env) (c : Counter) : Moment → Prop
  | .next t => ∀ e task rest u e' st', c.course = .running e → e.todo = task :: rest →
      c.store.account? e.uid = some u → task.run env t e c.store = .ok (e', st') →
      task.Idle env t e c.store u
  | _ => True

theorem step_store_of_ended {c : Counter} {r : Response} (h : c.course = .ended r) (m : Moment)
    (hown : m.Own) : (c.step env m).store = c.store := by
  cases m with
  | other ev => exact absurd hown not_false
  | next t =>
      unfold Counter.step
      rw [h]
  | raise exception =>
      unfold Counter.step
      rw [h]

/-- One step of the request. -/
theorem step_asItWas {c : Counter} {m : Moment} (hidle : FindsNothing env c m) (hown : m.Own)
    (v : Nat) : AsItWas env v c.store (c.step env m).store := by
  cases m with
  | other ev => exact absurd hown not_false
  | raise exception =>
      unfold Counter.step
      dsimp only
      split
      · exact .refl env v c.store
      · exact .refl env v c.store
  | next t =>
      cases hcourse : c.course with
      | updated =>
          unfold Counter.step
          rw [hcourse]
          exact .refl env v c.store
      | ended r =>
          rw [step_store_of_ended hcourse _ hown]
          exact .refl env v c.store
      | running e =>
          have hstore : (c.step env (.next t)).store = (e.next env t c.store).2 := by
            unfold Counter.step
            rw [hcourse]
            rfl
          rw [hstore]
          unfold Edit.next
          cases htodo : e.todo with
          | nil => exact .refl env v c.store
          | cons task rest =>
              dsimp only
              cases hrun : task.run env t e c.store with
              | error exception => exact .refl env v c.store
              | ok left =>
                  obtain ⟨e', st'⟩ := left
                  obtain ⟨u, -, hu, -, -⟩ := (Task.run_ok hrun).account
                  exact .of_idle hu (hidle e task rest u e' st' hcourse htodo hu hrun) hrun v

/-- The checks of the route. -/
theorem post_asItWas (env : Env) (o : Office) (editorID : Nat) (username : String) (args : Args)
    (t : Tick) (v : Nat) :
    AsItWas env v o.store (o.post env editorID username args t).store := by
  have hbegin : (o.post env editorID username args t).store =
      (beginEdit env o.store editorID username args t).2 := by
    unfold Office.post Counter.store
    split
    · rename_i hpost
      rw [hpost]
    · rename_i hpost
      rw [hpost]
  rw [hbegin]
  unfold beginEdit
  by_cases htyped : args.wellTyped env = true
  swap
  · rw [if_pos (by simp [htyped])]
    exact .refl env v o.store
  rw [if_neg (by simp [htyped])]
  cases heditor : o.store.account? editorID with
  | none => exact .refl env v o.store
  | some editor =>
      have hchecked : AsItWas env v o.store (if o.store.bans.contains t.clientIP then o.store
          else (o.store.checkPassword env t editor (args.withoutBlanks.passwd.getD "")).2) := by
        split
        · exact .refl env v o.store
        · refine .checkPassword t ?_ _ v
          rw [(Store.account?_mem heditor).2]
          exact heditor
      dsimp only
      split
      · exact .refl env v o.store
      split
      · exact .refl env v o.store
      split
      · exact hchecked
      · exact hchecked
      · split
        · exact hchecked
        · exact hchecked

/-- An account that no step of a run has changed. -/
theorem exec_asItWas {uid : Nat} {c : Counter} {ms : List Moment} (hown : OwnStepsKeep env c ms)
    (hothers : OthersKeep env uid c ms) :
    AsItWas env uid c.store (Run.exec (Counter.step env) c ms).store := by
  induction ms generalizing c with
  | nil => exact .refl env uid c.store
  | cons m ms ih =>
      have hrest := ih hown.2 hothers.2
      refine AsItWas.trans ?_ hrest
      by_cases hm : m.Own
      · exact hown.1 hm uid
      · exact hothers.1 hm

/--
**An edit that fails changes nothing as long as it finds nothing to change.**  For every edit
request and whatever the others do between its transactions: if the request does not end with
the account reported as modified, and each transaction it has committed before came with a form
that says what was stored, then it has changed no account, and an account that nobody else has
changed has the profile, address, verification, keys, type, password and session it had before
the request.
-/
theorem allOrNone_of_findsNothing (env : Env) (o : Office) (editorID : Nat) (username : String)
    (args : Args) (t : Tick) (ms : List Moment)
    (h : ∀ r, (Run.exec (Counter.step env) (o.post env editorID username args t) ms).course =
        .ended r →
      Run.Guarded (Counter.step env) (FindsNothing env) (o.post env editorID username args t) ms) :
    AllOrNone env o editorID username args t ms := by
  intro r hended
  have hchecks := post_asItWas env o editorID username args t
  have hown : OwnStepsKeep env (o.post env editorID username args t) ms :=
    Run.Guarded.of_inv (I := fun _ => True)
      (fun c m _ hidle => ⟨fun hm => step_asItWas hidle hm, trivial⟩) trivial (h r hended)
  refine ⟨hchecks, hown, fun uid hothers => ?_⟩
  exact (hchecks uid).trans (exec_asItWas hown hothers)

end

/-! ### A key that somebody else takes first -/

/-- A site where any line is an SSH key, and its own fingerprint. -/
def Env.keyed : Env := { Env.plain with parseSSHKeys := fun line => some [("ssh-ed25519", line)] }

/-- An account that has been edited before: what was left out is empty. -/
def edited (id : Nat) (username : String) : Account :=
  { member id .user username with
    backupEmail := some "", homepage := some "", pgpKey := some "", commentNotify := false
    ownershipNotify := false }

def desk : Office where
  store := { accounts := [edited 1 "alice", edited 2 "bob"] }

/-- Alice adds a key, and says nothing new besides. -/
def addKey : Args := { filledIn "alice" "alice" with PK := some "AAAA" }

/-- Bob adds the same key to his account. -/
def addSameKey : Args := { filledIn "bob" "bob" with PK := some "AAAA" }

/-- Both forms have been checked before Alice's first update; then Bob's updates commit up to
the keys, and hers go on. -/
def lostRace : List Moment :=
  [.other (.edit 2 "bob" addSameKey { now := 1000000 }), .next { now := 2000000 },
    .other (.advance 0 { now := 3000000 }), .other (.advance 0 { now := 3000000 }),
    .other (.advance 0 { now := 3000000 }), .other (.advance 0 { now := 3000000 }),
    .next { now := 4000000 }, .next { now := 4000000 }, .next { now := 4000000 }]

/-- What the first update of Alice's says is stored. -/
theorem addKey_saysProfile (t : Tick) :
    SaysProfile .keyed t addKey.withoutBlanks (edited 1 "alice") (edited 1 "alice") where
  username := Or.inr (Or.inl rfl)
  email := Or.inr rfl
  hideEmail := Or.inl rfl
  backupEmail := Or.inl rfl
  realName := Or.inl rfl
  homepage := Or.inl rfl
  ircNick := Or.inl rfl
  pgpKey := Or.inl rfl
  suspended := Or.inl rfl
  inactivityTS := Or.inl rfl
  commentNotify := Or.inl rfl
  updateNotify := Or.inl rfl
  ownershipNotify := Or.inl rfl
  hideDeletedComments := Or.inl rfl

/-- Her request, with these updates still to come. -/
def addingKey (todo : List Task) : Edit where
  editorID := 1
  uid := 1
  args := addKey.withoutBlanks
  loaded := edited 1 "alice"
  todo := todo

theorem findsNothing_of_running {env : Env} {t : Tick} {c : Counter} {task : Task}
    {rest : List Task} (todo : List Task) (hcourse : c.course = .running (addingKey todo))
    (htodo : todo = task :: rest)
    (hidle : ∀ u, c.store.account? 1 = some u →
      (task.run env t (addingKey todo) c.store).isOk = true →
      task.Idle env t (addingKey todo) c.store u) : FindsNothing env c (.next t) := by
  intro e task' rest' u e' st' hcourse' htodo' hu hrun
  obtain rfl := Course.running.inj (hcourse.symm.trans hcourse')
  obtain ⟨rfl, -⟩ := List.cons.inj (htodo.symm.trans htodo')
  exact hidle u hu (by rw [hrun]; rfl)

theorem allOrNone_of_findsNothing_addKey :
    AllOrNone .keyed desk 1 "alice" addKey { now := 1000000 } lostRace := by
  refine allOrNone_of_findsNothing .keyed desk 1 "alice" addKey { now := 1000000 } lostRace
    fun r _ => ⟨trivial, ?_, trivial, trivial, trivial, trivial, ?_, ?_, ?_, trivial⟩
  · refine findsNothing_of_running tasks (by decide +kernel) rfl fun u hu _ => ?_
    have hstored : some u = some (edited 1 "alice") := by
      rw [← hu]
      decide +kernel
    rw [Option.some.inj hstored]
    exact addKey_saysProfile _
  · refine findsNothing_of_running tasks.tail (by decide +kernel) rfl fun u _ _ => ?_
    exact Or.inl rfl
  · refine findsNothing_of_running tasks.tail.tail (by decide +kernel) rfl
      fun u _ _ => ?_
    exact Or.inl rfl
  · refine findsNothing_of_running tasks.tail.tail.tail (by decide +kernel) rfl
      fun u _ hok => ?_
    exact absurd hok (by decide +kernel)

/-- Alice fills in her name as well. -/
def addNameAndKey : Args := { addKey with R := some "Alice" }

/-- She is told that something has gone wrong, and her name has been changed. -/
theorem not_allOrNone_lostRace :
    ¬AllOrNone .keyed desk 1 "alice" addNameAndKey { now := 1000000 } lostRace := by
  intro h
  have hended : (Run.exec (Counter.step .keyed)
      (desk.post .keyed 1 "alice" addNameAndKey { now := 1000000 }) lostRace).course =
        .ended (.serverError "IntegrityError") := by
    decide +kernel
  obtain ⟨u', hu', hrow⟩ := ((h _ hended).own.2.1 trivial 1).row (edited 1 "alice")
    (by decide +kernel)
  have hname : some u'.realName = some "Alice" := by
    rw [show some u'.realName = (some u').map (·.realName) from rfl, ← hu']
    decide +kernel
  rw [hrow.columns] at hname
  have hempty : some "" = some "Alice" := hname
  exact absurd hempty (by decide)

end Aurweb.Users
