/-
Nobody gets in with what somebody else has brought.

A session and a key are rows of a table, and a row that is there at the end of a run has been put
there by an event of the run, or was there before (`Run.since_of_step`).  What puts it there is a
transaction of a request that is under way; the same rule leads from the request back to the form
it began with, which is where the password is asked for.
-/
import Aurweb.Lib.Query
import Aurweb.Proofs.ResetKeys
import Aurweb.WaysIn

namespace Aurweb.Users

variable {env : Env} {t : Tick} {st st' st'' : Store} {o : Office} {g : Gate} {uid : Nat}

/-! ### The keys -/

/-- The keys of a form, as they are stored. -/
def formKeys (env : Env) (args : Args) : List String :=
  if args.PK.getD "" = "" then []
  else ((env.parseSSHKeys (args.PK.getD "")).getD []).map fun key => s!"{key.1} {key.2}"

/-- A key of the form, as a row of the account. -/
def Row (env : Env) (uid : Nat) (args : Args) (k : SSHPubKey) : Prop :=
  k.userID = uid ∧ k.pubKey ∈ formKeys env args ∧ k.fingerprint = env.getFingerprint k.pubKey

theorem updateSSHPubkey_rows {args : Args}
    (h : updateSSHPubkey env uid (args.PK.getD "") st = .ok st') :
    (∀ k ∈ st'.sshPubKeys, k ∈ st.sshPubKeys ∨ Row env uid args k) ∧
      ((st.sshPubKeys.map (·.fingerprint)).Nodup → (st'.sshPubKeys.map (·.fingerprint)).Nodup) := by
  unfold updateSSHPubkey at h
  by_cases hempty : args.PK.getD "" = ""
  · rw [if_pos hempty] at h
    obtain rfl := Except.ok.inj h
    exact ⟨fun k hk => .inl (Table.mem_delete.mp hk).1,
      fun hnodup => hnodup.sublist ((Table.delete_sublist _ _).map _)⟩
  rw [if_neg hempty] at h
  cases hkeys : env.parseSSHKeys (args.PK.getD "") with
  | none => simp [hkeys] at h
  | some keys =>
      simp only [hkeys] at h
      split at h
      · rename_i hnodup
        obtain rfl := Except.ok.inj h
        refine ⟨fun k hk => ?_, fun _ => hnodup⟩
        rcases List.mem_append.mp hk with hk | hk
        · exact .inl (Table.mem_delete.mp hk).1
        · obtain ⟨key, hkey, rfl⟩ := List.mem_map.mp hk
          refine .inr ⟨rfl, ?_, rfl⟩
          unfold formKeys
          rw [if_neg hempty, hkeys]
          exact List.mem_map_of_mem (List.mem_of_mem_filter hkey)
      · cases h

/-- The two ways to log in. -/
inductive Way
  | web
  | ssh
  deriving DecidableEq, Repr

/-- `LastLoginIPAddress` and `LastSSHLoginIPAddress`. -/
def Way.address : Way → Account → Option String
  | .web, u => u.lastLoginIPAddress
  | .ssh, u => u.lastSSHLoginIPAddress

/-- `LastLogin` and `LastSSHLogin`. -/
def Way.stamp : Way → Account → Nat
  | .web, u => u.lastLogin
  | .ssh, u => u.lastSSHLogin

/-! ### What the tasks of an edit write -/

/-- The same account, as far as its logins go. -/
structure SameLogins (u u' : Account) : Prop where
  id : u'.id = u.id
  address : ∀ w : Way, w.address u' = w.address u
  stamp : ∀ w : Way, w.stamp u' = w.stamp u

theorem SameLogins.refl (u : Account) : SameLogins u u := ⟨rfl, fun _ => rfl, fun _ => rfl⟩

theorem SameLogins.of_columns {u u' : Account} (hid : u'.id = u.id)
    (hweb : u'.lastLoginIPAddress = u.lastLoginIPAddress)
    (hssh : u'.lastSSHLoginIPAddress = u.lastSSHLoginIPAddress)
    (hwebTime : u'.lastLogin = u.lastLogin) (hsshTime : u'.lastSSHLogin = u.lastSSHLogin) :
    SameLogins u u' where
  id := hid
  address w := by cases w with
    | web => exact hweb
    | ssh => exact hssh
  stamp w := by cases w with
    | web => exact hwebTime
    | ssh => exact hsshTime

/-- No row has an address that it had not before. -/
def Keeps (st st' : Store) : Prop := ∀ u' ∈ st'.accounts, ∃ u ∈ st.accounts, SameLogins u u'

theorem keeps_of_accounts (h : st'.accounts = st.accounts) : Keeps st st' :=
  fun u hu => ⟨u, h ▸ hu, .refl u⟩

theorem Keeps.trans (h : Keeps st st') (h' : Keeps st' st'') : Keeps st st'' := by
  intro u'' hu''
  obtain ⟨u', hu', hsame'⟩ := h' u'' hu''
  obtain ⟨u, hu, hsame⟩ := h u' hu'
  exact ⟨u, hu, hsame'.id.trans hsame.id, fun w => (hsame'.address w).trans (hsame.address w),
    fun w => (hsame'.stamp w).trans (hsame.stamp w)⟩

theorem mem_updateAccount {f : Account → Account} {u' : Account}
    (h : u' ∈ (st.updateAccount uid f).accounts) :
    u' ∈ st.accounts ∨ ∃ u ∈ st.accounts, u.id = uid ∧ u' = f u := by
  obtain ⟨u, hu, heq⟩ := List.mem_map.mp h
  split at heq
  · rename_i hid
    exact .inr ⟨u, hu, eq_of_beq hid, heq.symm⟩
  · exact .inl (heq ▸ hu)

theorem keeps_updateAccount {f : Account → Account}
    (hf : ∀ u ∈ st.accounts, u.id = uid → ∃ u₀ ∈ st.accounts, SameLogins u₀ (f u)) :
    Keeps st (st.updateAccount uid f) := by
  intro u' hu'
  rcases mem_updateAccount hu' with hold | ⟨u, hu, hid, rfl⟩
  · exact ⟨u', hold, .refl u'⟩
  · exact hf u hu hid

theorem keeps_setPasswd (st : Store) (uid : Nat) (passwd : String) :
    Keeps st (st.updateAccount uid (Account.setPasswd passwd)) :=
  keeps_updateAccount fun u hu _ => ⟨u, hu, .of_columns rfl rfl rfl rfl rfl⟩

theorem keeps_loginApproved (st : Store) (user : Account) (password : String) :
    Keeps st (loginApproved env t user password st).2 := by
  unfold loginApproved
  split
  · exact keeps_of_accounts rfl
  · exact keeps_setPasswd st _ _

theorem loginApproved_keys (st : Store) (user : Account) (password : String) :
    (loginApproved env t user password st).2.sshPubKeys = st.sshPubKeys := by
  unfold loginApproved
  split_ifs <;> rfl

/-- The keys are replaced as the form has them, the last task of an edit that logs in writes to the
row of a login, and nothing else has to do with either. -/
theorem Task.run_writes {e e' : Edit} {task : Task} (h : task.run env t e st = .ok (e', st')) :
    (task = .sshPubkey ∧ updateSSHPubkey env e.uid (e.args.PK.getD "") st = .ok st') ∨
    (task = .login ∧ e.approved = true ∧ openSession t e.uid st = .ok st') ∨
    (st'.sshPubKeys = st.sshPubKeys ∧ Keeps st st') := by
  unfold Task.run at h
  cases hu : st.account? e.uid with
  | none => simp [hu] at h
  | some u =>
      rw [hu] at h
      have hmem := (Store.account?_mem hu).1
      cases task with
      | simple =>
          dsimp only at h
          split at h
          · cases h
          obtain ⟨-, rfl⟩ := Prod.mk.inj (Except.ok.inj h)
          exact .inr (.inr ⟨rfl, keeps_updateAccount fun _ _ _ =>
            ⟨u, hmem, .of_columns rfl rfl rfl rfl rfl⟩⟩)
      | language | timezone =>
          dsimp only at h
          split at h
          · obtain ⟨-, rfl⟩ := Prod.mk.inj (Except.ok.inj h)
            exact .inr (.inr ⟨rfl, keeps_of_accounts rfl⟩)
          · obtain ⟨-, rfl⟩ := Prod.mk.inj (Except.ok.inj h)
            exact .inr (.inr ⟨rfl, keeps_updateAccount fun v hv _ =>
            ⟨v, hv, .of_columns rfl rfl rfl rfl rfl⟩⟩)
      | sshPubkey =>
          obtain ⟨st₁, hkeys, heq⟩ := Except.of_map_ok h
          obtain ⟨-, rfl⟩ := Prod.mk.inj heq
          exact .inl ⟨rfl, hkeys⟩
      | accountType =>
          dsimp only at h
          split at h
          · obtain ⟨-, rfl⟩ := Prod.mk.inj (Except.ok.inj h)
            exact .inr (.inr ⟨rfl, keeps_of_accounts rfl⟩)
          split at h
          · cases h
          split at h
          · cases h
          obtain ⟨-, rfl⟩ := Prod.mk.inj (Except.ok.inj h)
          exact .inr (.inr ⟨rfl, keeps_updateAccount fun v hv _ =>
            ⟨v, hv, .of_columns rfl rfl rfl rfl rfl⟩⟩)
      | password =>
          dsimp only at h
          split at h
          · obtain ⟨-, rfl⟩ := Prod.mk.inj (Except.ok.inj h)
            exact .inr (.inr ⟨rfl, keeps_of_accounts rfl⟩)
          split at h
          · rename_i st₁ hchecked
            obtain ⟨-, rfl⟩ := Prod.mk.inj (Except.ok.inj h)
            obtain rfl := (Prod.mk.inj hchecked).2
            exact .inr (.inr ⟨rfl, keeps_setPasswd st _ _⟩)
          · rename_i st₁ hchecked
            obtain ⟨-, rfl⟩ := Prod.mk.inj (Except.ok.inj h)
            obtain rfl := (Prod.mk.inj hchecked).2
            exact .inr (.inr ⟨rfl, (keeps_setPasswd st _ _).trans (keeps_setPasswd _ _ _)⟩)
      | approve =>
          dsimp only at h
          split at h
          · obtain ⟨-, rfl⟩ := Prod.mk.inj (Except.ok.inj h)
            exact .inr (.inr ⟨loginApproved_keys st u _, keeps_loginApproved st u _⟩)
          · obtain ⟨-, rfl⟩ := Prod.mk.inj (Except.ok.inj h)
            exact .inr (.inr ⟨rfl, keeps_of_accounts rfl⟩)
      | login =>
          dsimp only at h
          split at h
          · rename_i happroved
            obtain ⟨st₁, hopen, heq⟩ := Except.of_map_ok h
            obtain ⟨-, rfl⟩ := Prod.mk.inj heq
            exact .inr (.inl ⟨rfl, happroved, hopen⟩)
          · obtain ⟨-, rfl⟩ := Prod.mk.inj (Except.ok.inj h)
            exact .inr (.inr ⟨rfl, keeps_of_accounts rfl⟩)
      | suspend =>
          obtain ⟨-, rfl⟩ := Prod.mk.inj (Except.ok.inj h)
          exact .inr (.inr ⟨rfl, keeps_of_accounts rfl⟩)
      | deleteSessions =>
          dsimp only at h
          obtain ⟨-, rfl⟩ := Prod.mk.inj (Except.ok.inj h)
          split
          · exact .inr (.inr ⟨rfl, keeps_of_accounts rfl⟩)
          · exact .inr (.inr ⟨rfl, keeps_of_accounts rfl⟩)

theorem Task.run_keys {e e' : Edit} {task : Task} (h : task.run env t e st = .ok (e', st')) :
    st'.sshPubKeys = st.sshPubKeys ∨
      task = .sshPubkey ∧ updateSSHPubkey env e.uid (e.args.PK.getD "") st = .ok st' := by
  rcases Task.run_writes h with hkeys | ⟨-, -, hopen⟩ | ⟨hsame, -⟩
  · exact .inr hkeys
  · obtain ⟨-, -, rfl⟩ := openSession_ok hopen
    exact .inl rfl
  · exact .inl hsame

theorem Task.run_keeps {e e' : Edit} {task : Task} (h : task.run env t e st = .ok (e', st')) :
    Keeps st st' ∨ task = .login ∧ e.approved = true ∧ openSession t e.uid st = .ok st' := by
  rcases Task.run_writes h with ⟨-, hkeys⟩ | hlogin | ⟨-, hkeeps⟩
  · exact .inl (keeps_of_accounts (updateSSHPubkey_frame hkeys).1)
  · exact .inr hlogin
  · exact .inl hkeeps

/-! ### The sessions -/

/-- The account has a session with this identifier. -/
def HasSession (st : Store) (uid : Nat) (sid : String) : Prop :=
  ∃ s ∈ st.sessions, s.usersID = uid ∧ s.sessionID = sid

/-- A row is renewed with the identifier that is drawn, or keeps its own. -/
theorem hasSession_sessionRows {v : Nat} {sid : String} {s : Session} (hs : s ∈ sessionRows t v st)
    (huid : s.usersID = uid) (hsid : s.sessionID = sid) :
    HasSession st uid sid ∨ v = uid ∧ t.sid = sid := by
  unfold sessionRows at hs
  split at hs
  · rcases List.mem_append.mp hs with hs | hs
    · exact .inl ⟨s, hs, huid, hsid⟩
    · obtain rfl := List.mem_singleton.mp hs
      exact .inr ⟨huid, hsid⟩
  · obtain ⟨s₀, hs₀, heq⟩ := List.mem_map.mp hs
    split at heq
    · rename_i hv
      subst heq
      rw [beq_iff_eq] at hv
      have hof : s₀.usersID = uid := huid
      unfold Session.renew at hsid
      dsimp only at hsid
      split at hsid
      · exact .inr ⟨hv.symm.trans hof, hsid⟩
      · exact .inl ⟨s₀, hs₀, hof, hsid⟩
    · subst heq
      exact .inl ⟨s₀, hs₀, huid, hsid⟩

theorem hasSession_openSession {v : Nat} {sid : String} (h : openSession t v st = .ok st')
    (hhas : HasSession st' uid sid) : HasSession st uid sid ∨ v = uid ∧ t.sid = sid := by
  obtain ⟨-, -, rfl⟩ := openSession_ok h
  obtain ⟨s, hs, huid, hsid⟩ := hhas
  exact hasSession_sessionRows hs huid hsid

theorem hasSession_insertSession {v : Nat} {sid : String} (h : insertSession t v st = .ok st')
    (hhas : HasSession st' uid sid) : HasSession st uid sid ∨ v = uid ∧ t.sid = sid := by
  unfold insertSession at h
  split at h
  · cases h
  obtain rfl := Except.ok.inj h
  obtain ⟨s, hs, huid, hsid⟩ := hhas
  rcases List.mem_append.mp hs with hs | hs
  · exact .inl ⟨s, hs, huid, hsid⟩
  · obtain rfl := List.mem_singleton.mp hs
    exact .inr ⟨huid, hsid⟩

theorem hasSession_run {e e' : Edit} {task : Task} {sid : String}
    (h : task.run env t e st = .ok (e', st')) (hhas : HasSession st' uid sid) :
    HasSession st uid sid ∨ (task = .login ∧ e.approved = true) ∧ e.uid = uid ∧ t.sid = sid := by
  obtain ⟨s, hs, huid, hsid⟩ := hhas
  rw [(Task.run_ok h).sessions, sessionsAfter] at hs
  split_ifs at hs with hlogin hdeleted
  · exact (hasSession_sessionRows hs huid hsid).imp id fun hopened => ⟨hlogin, hopened⟩
  · exact .inl ⟨s, (Table.mem_delete.mp hs).1, huid, hsid⟩
  · exact .inl ⟨s, hs, huid, hsid⟩

theorem hasSession_delete {p : Session → Bool} {sid : String}
    (hhas : HasSession { st with sessions := Table.delete p st.sessions } uid sid) :
    HasSession st uid sid := by
  obtain ⟨s, hs, hof⟩ := hhas
  exact ⟨s, (Table.mem_delete.mp hs).1, hof⟩

theorem Rehashed.hasSession {sid : String} (h : Rehashed st st') (hhas : HasSession st' uid sid) :
    HasSession st uid sid := by
  unfold HasSession at hhas
  rwa [h.sessions] at hhas

theorem Rehashed.sshPubKeys (h : Rehashed st st') : st'.sshPubKeys = st.sshPubKeys := by
  rcases h with rfl | ⟨v, passwd, rfl⟩ <;> rfl

/-- A form that is posted writes nothing before its first transaction. -/
theorem rehashed_edit (env : Env) (o : Office) (editorID : Nat) (username : String) (args : Args)
    (t : Tick) : Rehashed o.store (o.step env (.edit editorID username args t)).store := by
  have hbegun : Rehashed o.store (beginEdit env o.store editorID username args t).2 :=
    (beginEdit_cases env o.store editorID username args t).1.imp id
      fun ⟨passwd, heq⟩ => ⟨editorID, passwd, heq⟩
  simp only [Office.step]
  split
  · rename_i st' heq
    rw [heq] at hbegun
    exact hbegun
  · rename_i e st' heq
    rw [heq] at hbegun
    exact hbegun

/-! ### A transaction of a request -/

/-- What the next transaction of a request may put into the tables. -/
structure Moved (env : Env) (t : Tick) (st : Store) (r : Request) (st' : Store) : Prop where
  ids : st'.accounts.map (·.id) = st.accounts.map (·.id)
  sessions : ∀ uid sid, HasSession st' uid sid →
    HasSession st uid sid ∨ r.opens = some uid ∧ t.sid = sid
  keys : ∀ k ∈ st'.sshPubKeys, k ∈ st.sshPubKeys ∨
    ∃ e rest, r = .edit e ∧ e.todo = .sshPubkey :: rest ∧ Row env e.uid e.args k
  fingerprints : (st.sshPubKeys.map (·.fingerprint)).Nodup →
    (st'.sshPubKeys.map (·.fingerprint)).Nodup

theorem Moved.refl (t : Tick) (st : Store) (r : Request) : Moved env t st r st where
  ids := rfl
  sessions _ _ h := .inl h
  keys _ hk := .inl hk
  fingerprints := id

theorem moved_advance (env : Env) (t : Tick) (st : Store) (r : Request) :
    Moved env t st r (r.advance env t st).2 := by
  cases r with
  | login v =>
      simp only [Request.advance]
      split
      · rename_i st' hopen
        have hkeys : st'.sshPubKeys = st.sshPubKeys := by
          obtain ⟨-, -, rfl⟩ := openSession_ok hopen
          rfl
        exact {
          ids := (openSession_confined hopen).ids
          sessions := by
            intro uid sid hhas
            rcases hasSession_openSession hopen hhas with hold | ⟨huid, hsid⟩
            · exact .inl hold
            · exact .inr ⟨congrArg some huid, hsid⟩
          keys := fun k hk => .inl (hkeys ▸ hk)
          fingerprints := fun hnodup => hkeys ▸ hnodup }
      · exact .refl t st _
  | sso v =>
      simp only [Request.advance]
      split
      · rename_i st' hopen
        have hframe : st'.sshPubKeys = st.sshPubKeys ∧
            st'.accounts.map (·.id) = st.accounts.map (·.id) := by
          unfold insertSession at hopen
          split at hopen
          · cases hopen
          obtain rfl := Except.ok.inj hopen
          have hconfined : Confined v st (st.updateAccount v fun u => { u with
              lastLogin := timestamp t.now, lastLoginIPAddress := some t.clientIP }) :=
            Confined.updateAccount st fun _ hid => hid
          exact ⟨rfl, hconfined.ids⟩
        exact {
          ids := hframe.2
          sessions := by
            intro uid sid hhas
            rcases hasSession_insertSession hopen hhas with hold | ⟨huid, hsid⟩
            · exact .inl hold
            · exact .inr ⟨congrArg some huid, hsid⟩
          keys := fun k hk => .inl (hframe.1 ▸ hk)
          fingerprints := fun hnodup => hframe.1 ▸ hnodup }
      · exact .refl t st _
  | edit e =>
      simp only [Request.advance]
      split
      · exact .refl t st _
      rename_i task rest htodo
      split
      · exact .refl t st _
      rename_i e' st' hok
      exact {
        ids := (Task.run_ok hok).confined.ids
        sessions := by
          intro uid sid hhas
          rcases hasSession_run hok hhas with hold | ⟨⟨hlogin, happroved⟩, huid, hsid⟩
          · exact .inl hold
          · refine .inr ⟨?_, hsid⟩
            simp [Request.opens, htodo, hlogin, happroved, huid]
        keys := by
          intro k hk
          rcases Task.run_keys hok with hsame | ⟨rfl, hupdated⟩
          · exact .inl (hsame ▸ hk)
          · rcases (updateSSHPubkey_rows hupdated).1 k hk with hold | hrow
            · exact .inl hold
            · exact .inr ⟨e, rest, rfl, htodo, hrow⟩
        fingerprints := by
          intro hnodup
          rcases Task.run_keys hok with hsame | ⟨-, hupdated⟩
          · exact hsame ▸ hnodup
          · exact (updateSSHPubkey_rows hupdated).2 hnodup }

/-! ### Where a request comes from -/

/-- The request as it was when it began. -/
def Request.origin : Request → Request
  | .edit e => .edit { editorID := e.editorID, uid := e.uid, args := e.args, loaded := e.loaded }
  | r => r

/-- The event begins the request. -/
def Begins (env : Env) (st : Store) (r : Request) : Event → Prop
  | .login user passwd t => ∃ uid, (checkLogin env st user passwd t).1 = some uid ∧ r = .login uid
  | .sso sub t => ∃ uid, checkSSO st sub t = some uid ∧ r = .sso uid
  | .edit editorID _ args t => ∃ e, Admitted env st editorID args t e ∧ r = .edit e
  | _ => False

/-- What goes on after a transaction is an edit, of which a task has been done. -/
theorem edit_of_advance {r r' : Request} (h : (r.advance env t st).1 = some r') :
    ∃ (e e' : Edit) (task : Task) (rest : List Task) (st' : Store), r = .edit e ∧
      task.run env t e st = .ok (e', st') ∧ r' = .edit { e' with todo := rest } := by
  cases r with
  | login v =>
      simp only [Request.advance] at h
      split at h <;> cases h
  | sso v =>
      simp only [Request.advance] at h
      split at h <;> cases h
  | edit e =>
      simp only [Request.advance] at h
      split at h
      · cases h
      rename_i task rest htodo
      split at h
      · cases h
      rename_i e' st' hok
      split at h
      · cases h
      exact ⟨e, e', task, rest, st', rfl, hok, (Option.some.inj h).symm⟩

theorem origin_advance {r r' : Request} (h : (r.advance env t st).1 = some r') :
    r'.origin = r.origin := by
  obtain ⟨e, e', task, rest, st', rfl, hok, rfl⟩ := edit_of_advance h
  have hsame := (Task.run_ok hok).request
  show Request.edit _ = Request.edit _
  rw [hsame.editorID, hsame.uid, hsame.args, hsame.loaded]

/-- A request is under way that began as this one. -/
def UnderWay (o : Office) (r : Request) : Prop := ∃ r' ∈ o.inFlight, r'.origin = r

theorem underWay_welcome {r : Request} {new : Option Request} (h : UnderWay (o.welcome st new) r) :
    UnderWay o r ∨ ∃ r', new = some r' ∧ r'.origin = r := by
  obtain ⟨r', hr', horigin⟩ := h
  rcases List.mem_append.mp hr' with hold | hnew
  · exact .inl ⟨r', hold, horigin⟩
  · exact .inr ⟨r', Option.mem_toList.mp hnew, horigin⟩

theorem underWay_step {r : Request} {ev : Event} (h : UnderWay (o.step env ev) r) :
    UnderWay o r ∨ Begins env o.store r ev := by
  cases ev with
  | login user passwd t =>
      rcases underWay_welcome h with hold | ⟨r', hr', horigin⟩
      · exact .inl hold
      · obtain ⟨uid, huid, rfl⟩ := Option.map_eq_some_iff.mp hr'
        exact .inr ⟨uid, huid, horigin.symm⟩
  | sso sub t =>
      rcases underWay_welcome h with hold | ⟨r', hr', horigin⟩
      · exact .inl hold
      · obtain ⟨uid, huid, rfl⟩ := Option.map_eq_some_iff.mp hr'
        exact .inr ⟨uid, huid, horigin.symm⟩
  | edit editorID username args t =>
      have hadmitted := (beginEdit_cases env o.store editorID username args t).2
      simp only [Office.step] at h
      split at h
      · rcases underWay_welcome h with hold | ⟨r', hr', -⟩
        · exact .inl hold
        · cases hr'
      · rename_i e st' heq
        rcases underWay_welcome h with hold | ⟨r', hr', horigin⟩
        · exact .inl hold
        obtain rfl := Option.some.inj hr'
        have hbegun := hadmitted e (congrArg Prod.fst heq)
        have hnew : (Request.edit e).origin = .edit e := by
          obtain ⟨_, _, -, -, -, -, rfl⟩ := hbegun
          rfl
        exact .inr ⟨e, hbegun, horigin.symm.trans hnew⟩
  | advance i t =>
      simp only [Office.step] at h
      split at h
      · exact .inl h
      · rename_i r₁ hr₁
        obtain ⟨r', hr', horigin⟩ := h
        rcases mem_advanced hr' with hold | hleft
        · exact .inl ⟨r', hold, horigin⟩
        · exact .inl ⟨r₁, List.mem_of_getElem? hr₁, (origin_advance hleft).symm.trans horigin⟩
  | fail i =>
      obtain ⟨r', hr', horigin⟩ := h
      exact .inl ⟨r', List.mem_of_mem_eraseIdx hr', horigin⟩
  | authenticate sid remembered now => exact .inl h

/-- Whoever is under way has begun. -/
theorem begins_of_run {es : List Arrival} (hidle : g.office.inFlight = []) {r : Request}
    (hr : r ∈ (Run.exec (Gate.step env) g es).office.inFlight) :
    ∃ pre ev post, es = pre ++ .event ev :: post ∧
      Begins env (Run.exec (Gate.step env) g pre).store r.origin ev := by
  have hsince : Run.Since (Gate.step env) (fun g => UnderWay g.office r.origin)
      (fun g a => ∃ ev, a = .event ev ∧ Begins env g.store r.origin ev) g es := by
    refine Run.since_of_step (I := fun _ => True) (fun _ _ _ => trivial) ?_ trivial ⟨r, hr, rfl⟩
    intro g a _ h
    cases a with
    | register args t token =>
        simp only [Gate.step] at h
        split at h
        · exact .inl h
        · exact .inl h
    | event ev => exact (underWay_step h).imp id fun hbegins => ⟨ev, rfl, hbegins⟩
    | logout uid => exact .inl h
    | passreset user resetkey password confirm t => exact .inl h
    | delete uid => exact .inl h
    | ssh user remoteAddr now => exact .inl h
    | usermaint now => exact .inl h
  rcases hsince with hall | ⟨pre, a, post, rfl, ⟨ev, rfl, hbegins⟩, -⟩
  · obtain ⟨r', hr', -⟩ := hall.head
    rw [hidle] at hr'
    cases hr'
  · exact ⟨pre, ev, post, rfl, hbegins⟩

/-! ### The invariant -/

/-- Rows are told apart by their keys, and whoever is logged in by an edit has edited their own
account. -/
structure Orderly (env : Env) (g : Gate) : Prop where
  ids : Table.Numbered (·.id) g.nextID g.store.accounts
  fingerprints : (g.store.sshPubKeys.map (·.fingerprint)).Nodup
  computed : ∀ k ∈ g.store.sshPubKeys, k.fingerprint = env.getFingerprint k.pubKey
  own : ∀ e, Request.edit e ∈ g.office.inFlight → e.approved = true → e.uid = e.editorID

theorem Task.run_approved {e e' : Edit} {task : Task} (h : task.run env t e st = .ok (e', st'))
    (happroved : e'.approved = true) : e.approved = true ∨ e.uid = e.editorID := by
  rcases (Task.run_ok h).approved with hsame | rfl
  · exact .inl (hsame ▸ happroved)
  · unfold Task.run at h
    cases hu : st.account? e.uid with
    | none => simp [hu] at h
    | some u =>
        rw [hu] at h
        dsimp only at h
        split at h
        · rename_i hcond
          rw [Bool.and_eq_true, beq_iff_eq] at hcond
          exact .inr hcond.2
        · obtain ⟨rfl, -⟩ := Prod.mk.inj (Except.ok.inj h)
          exact .inl happroved

/-- A registration has written a row that nobody has logged in to, and the keys of its form. -/
structure Registered (env : Env) (id : Nat) (args : Args) (st st' : Store) : Prop where
  accounts : ∃ row, st'.accounts = st.accounts ++ [row] ∧ ∀ w : Way, w.address row = none
  sessions : st'.sessions = st.sessions
  fingerprints : (st'.sshPubKeys.map (·.fingerprint)).Nodup
  keys : ∀ k ∈ st'.sshPubKeys, k ∈ st.sshPubKeys ∨ Row env id args k

theorem accountRegisterPost_registered {id : Nat} {args : Args} {token : String}
    (h : accountRegisterPost env st id args t token = .ok st') :
    Registered env id args st st' := by
  unfold accountRegisterPost at h
  simp only at h
  split at h
  · cases h
  split at h
  · cases h
  · cases h
  split at h
  · cases h
  split at h
  · cases h
  split at h
  · cases h
  split at h
  · cases h
  rename_i keys hkeys
  split at h
  · rename_i hnodup
    obtain rfl := Except.ok.inj h
    refine ⟨⟨_, rfl, fun w => by cases w <;> rfl⟩, rfl, hnodup, fun k hk => ?_⟩
    rcases List.mem_append.mp hk with hk | hk
    · exact .inl hk
    have hPK : args.withoutBlanks.PK = args.PK := rfl
    unfold registeredKeys at hkeys
    rw [hPK] at hkeys
    split at hkeys
    · obtain rfl := Option.some.inj hkeys
      cases hk
    · rename_i hfilled
      obtain ⟨parsed, hparsed, rfl⟩ := Option.map_eq_some_iff.mp hkeys
      obtain ⟨key, hkey, rfl⟩ := List.mem_map.mp hk
      refine .inr ⟨rfl, ?_, rfl⟩
      unfold formKeys
      rw [if_neg hfilled, hparsed]
      exact List.mem_map_of_mem hkey
  · cases h

theorem passresetPost_frame (env : Env) (st : Store) (user resetkey password confirm : String)
    (t : Tick) :
    let st' := (passresetPost env st user resetkey password confirm t).2
    st'.accounts.map (·.id) = st.accounts.map (·.id) ∧ st'.sshPubKeys = st.sshPubKeys ∧
      ∀ uid sid, HasSession st' uid sid → HasSession st uid sid := by
  have hids : ∀ (st : Store) (uid : Nat) (f : Account → Account),
      (∀ u, u.id = uid → (f u).id = uid) →
      (st.updateAccount uid f).accounts.map (·.id) = st.accounts.map (·.id) :=
    fun st uid f hf => (Confined.updateAccount st hf).ids
  rcases passreset_records env st user resetkey password confirm t with ⟨-, hsame⟩ |
    ⟨dbUser, -, ⟨-, hissued⟩ | ⟨-, -, hused⟩⟩
  · have hst : (passresetPost env st user resetkey password confirm t).2 = st := hsame
    rw [hst]
    exact ⟨rfl, rfl, fun _ _ h => h⟩
  · have hst : (passresetPost env st user resetkey password confirm t).2 = _ := hissued
    rw [hst]
    exact ⟨hids _ _ _ fun _ hid => hid, rfl, fun _ _ h => h⟩
  · have hst : (passresetPost env st user resetkey password confirm t).2 = _ := hused
    rw [hst]
    exact ⟨hids _ _ _ fun _ hid => hid, rfl, fun _ _ h => hasSession_delete h⟩

theorem usermaint_ids (st : Store) (now : Nat) :
    (st.usermaint now).accounts.map (·.id) = st.accounts.map (·.id) := by
  unfold Store.usermaint
  rw [Table.map_update, Table.map_update]
  · intro u
    rfl
  · intro u
    rfl

theorem mem_welcome {r : Option Request} {e : Edit}
    (h : Request.edit e ∈ (o.welcome st r).inFlight) :
    Request.edit e ∈ o.inFlight ∨ r = some (.edit e) :=
  (List.mem_append.mp h).imp id Option.mem_toList.mp

/-- The tables after an event, as far as the invariant asks. -/
structure Steps (env : Env) (o o' : Office) : Prop where
  ids : o'.store.accounts.map (·.id) = o.store.accounts.map (·.id)
  fingerprints : (o.store.sshPubKeys.map (·.fingerprint)).Nodup →
    (o'.store.sshPubKeys.map (·.fingerprint)).Nodup
  computed : (∀ k ∈ o.store.sshPubKeys, k.fingerprint = env.getFingerprint k.pubKey) →
    ∀ k ∈ o'.store.sshPubKeys, k.fingerprint = env.getFingerprint k.pubKey
  own : (∀ e, Request.edit e ∈ o.inFlight → e.approved = true → e.uid = e.editorID) →
    ∀ e, Request.edit e ∈ o'.inFlight → e.approved = true → e.uid = e.editorID

theorem Steps.of_rehashed (h : Rehashed o.store st') {r : Option Request}
    (hr : ∀ e, r = some (.edit e) → e.approved = false) : Steps env o (o.welcome st' r) where
  ids := by
    rcases h with rfl | ⟨v, passwd, rfl⟩
    · rfl
    · exact (setPasswd_confined o.store v passwd).ids
  fingerprints hnodup := by
    show (st'.sshPubKeys.map _).Nodup
    rwa [h.sshPubKeys]
  computed hall k hk := hall k (h.sshPubKeys ▸ hk)
  own hall e he happroved := by
    rcases mem_welcome he with hold | hnew
    · exact hall e hold happroved
    · rw [hr e hnew] at happroved
      cases happroved

theorem approved_advance {r : Request} {e' : Edit} (h : (r.advance env t st).1 = some (.edit e'))
    (happroved : e'.approved = true) :
    ∃ e, r = .edit e ∧ e'.uid = e.uid ∧ e'.editorID = e.editorID ∧
      (e.approved = true ∨ e.uid = e.editorID) := by
  obtain ⟨e, e₁, task, rest, st', rfl, hok, heq⟩ := edit_of_advance h
  obtain rfl := Request.edit.inj heq
  have hsame := (Task.run_ok hok).request
  exact ⟨e, rfl, hsame.uid, hsame.editorID, Task.run_approved hok happroved⟩

theorem Steps.refl (env : Env) (o : Office) : Steps env o o := ⟨rfl, id, id, id⟩

theorem steps_step (env : Env) (o : Office) (ev : Event) : Steps env o (o.step env ev) := by
  cases ev with
  | login user passwd t =>
      refine .of_rehashed (checkLogin_rehashed env o.store user passwd t) fun e he => ?_
      obtain ⟨uid, -, huid⟩ := Option.map_eq_some_iff.mp he
      cases huid
  | sso sub t =>
      refine .of_rehashed (.inl rfl) fun e he => ?_
      obtain ⟨uid, -, huid⟩ := Option.map_eq_some_iff.mp he
      cases huid
  | edit editorID username args t =>
      obtain ⟨hstore, hadmitted⟩ := beginEdit_cases env o.store editorID username args t
      have hrehashed : Rehashed o.store (beginEdit env o.store editorID username args t).2 :=
        hstore.imp id fun ⟨passwd, heq⟩ => ⟨editorID, passwd, heq⟩
      simp only [Office.step]
      split
      · rename_i st' heq
        rw [heq] at hrehashed
        exact .of_rehashed hrehashed fun e he => by cases he
      · rename_i e st' heq
        rw [heq] at hrehashed hadmitted
        refine .of_rehashed hrehashed fun e' he => ?_
        obtain rfl := Request.edit.inj (Option.some.inj he)
        obtain ⟨_, _, -, -, -, -, rfl⟩ := hadmitted e rfl
        rfl
  | advance i t =>
      simp only [Office.step]
      split
      · exact .refl env o
      rename_i r hr
      have hmoved := moved_advance env t o.store r
      exact {
        ids := hmoved.ids
        fingerprints := hmoved.fingerprints
        computed := by
          intro hall k hk
          rcases hmoved.keys k hk with hold | ⟨e, rest, -, -, -, -, hcomputed⟩
          · exact hall k hold
          · exact hcomputed
        own := by
          intro hall e' he' happroved
          rcases mem_advanced he' with hold | hleft
          · exact hall e' hold happroved
          · obtain ⟨e, rfl, huid, heditor, hbefore⟩ := approved_advance hleft happroved
            rw [huid, heditor]
            exact hbefore.elim (hall e (List.mem_of_getElem? hr)) id }
  | fail i =>
      exact ⟨rfl, id, id, fun hall e he => hall e (List.mem_of_mem_eraseIdx he)⟩
  | authenticate sid remembered now =>
      obtain ⟨p, hstore⟩ := authenticate_frame env o.store sid remembered now
      simp only [Office.step, hstore]
      exact ⟨rfl, id, id, id⟩

theorem orderly_step (h : Orderly env g) (a : Arrival) : Orderly env (g.step env a) := by
  cases a with
  | register args t token =>
      simp only [Gate.step]
      split
      · exact h
      rename_i store hok
      obtain ⟨row, haccounts, hid, -, -⟩ := accountRegisterPost_ok hok
      have hregistered := accountRegisterPost_registered hok
      exact {
        ids := by
          show Table.Numbered _ (g.nextID + 1) store.accounts
          rw [haccounts]
          exact h.ids.insert hid
        fingerprints := hregistered.fingerprints
        computed := fun k hk => (hregistered.keys k hk).elim (h.computed k) fun hrow => hrow.2.2
        own := h.own }
  | event ev =>
      have hsteps := steps_step env g.office ev
      exact ⟨h.ids.of_map_eq hsteps.ids, hsteps.fingerprints h.fingerprints,
        hsteps.computed h.computed, hsteps.own h.own⟩
  | logout uid => exact ⟨h.ids, h.fingerprints, h.computed, h.own⟩
  | passreset user resetkey password confirm t =>
      obtain ⟨hids, hkeys, -⟩ := passresetPost_frame env g.store user resetkey password confirm t
      exact {
        ids := h.ids.of_map_eq hids
        fingerprints := by
          show ((passresetPost env g.store user resetkey password confirm t).2.sshPubKeys.map
            (·.fingerprint)).Nodup
          rw [hkeys]
          exact h.fingerprints
        computed := fun k hk => h.computed k (hkeys ▸ hk)
        own := h.own }
  | delete uid =>
      exact {
        ids := h.ids.sublist (Table.delete_sublist _ _)
        fingerprints := h.fingerprints.sublist ((Table.delete_sublist _ _).map _)
        computed := fun k hk => h.computed k (Table.mem_delete.mp hk).1
        own := h.own }
  | ssh user remoteAddr now =>
      have hids : (g.store.logSSHLogin env.cfg user remoteAddr now).accounts.map (·.id) =
          g.store.accounts.map (·.id) := by
        apply Table.map_update
        intro u
        rfl
      exact ⟨h.ids.of_map_eq hids, h.fingerprints, h.computed, h.own⟩
  | usermaint now =>
      have hids : (g.store.usermaint now).accounts.map (·.id) = g.store.accounts.map (·.id) :=
        usermaint_ids g.store now
      exact ⟨h.ids.of_map_eq hids, h.fingerprints, h.computed, h.own⟩

theorem orderly_exec (h : Orderly env g) (es : List Arrival) :
    Orderly env (Run.exec (Gate.step env) g es) := by
  induction es generalizing g with
  | nil => exact h
  | cons a es ih => exact ih (orderly_step h a)

/-! ### Who is logged in -/

/-- The account's password is given, or the identity it has with the SSO server. -/
def LogsIn (env : Env) (st : Store) (uid : Nat) : Event → Prop
  | .login user passwd t => ∃ u, accountByNameOrEmail env st user = some u ∧ u.id = uid ∧
      t.clientIP ∉ st.bans ∧ u.suspended = false ∧ (validPassword env t u passwd).1 = true
  | .sso sub t => ∃ u ∈ st.accounts, u.id = uid ∧ u.ssoAccountID = some sub ∧
      t.clientIP ∉ st.bans ∧ u.suspended = false
  | .edit editorID _ args t => ∃ u, st.account? uid = some u ∧ editorID = uid ∧
      (validPassword env t u (args.passwd.getD "")).1 = true
  | _ => False

/-- The next transaction of a request draws the identifier and opens a session of the account. -/
def Opens (uid : Nat) (sid : String) (g : Gate) (a : Arrival) : Prop :=
  ∃ i t r, a = .event (.advance i t) ∧ g.office.inFlight[i]? = some r ∧ r.opens = some uid ∧
    t.sid = sid

theorem logsIn_of_checkLogin {user passwd : String}
    (h : (checkLogin env st user passwd t).1 = some uid) :
    LogsIn env st uid (.login user passwd t) := by
  unfold checkLogin at h
  split at h
  · cases h
  rename_i u hu
  split at h
  · rename_i st' happroved
    obtain rfl := Option.some.inj h
    unfold loginApproved at happroved
    split at happroved
    · cases happroved
    · rename_i hopen
      rw [Bool.or_eq_true, not_or, Bool.not_eq_true, Bool.not_eq_true] at hopen
      refine ⟨u, hu, rfl, fun hbanned => ?_, hopen.2, congrArg Prod.fst happroved⟩
      rw [List.contains_iff_mem.mpr hbanned] at hopen
      cases hopen.1
  · cases h

theorem logsIn_of_checkSSO {sub : String} (h : checkSSO st sub t = some uid) :
    LogsIn env st uid (.sso sub t) := by
  unfold checkSSO at h
  split at h
  · cases h
  rename_i hbanned
  split at h
  · cases h
  rename_i u hu
  split at h
  · cases h
  rename_i hsuspended
  obtain rfl := Option.some.inj h
  have hsub : (u.ssoAccountID == some sub) = true := by
    simpa using List.find?_some hu
  exact ⟨u, List.mem_of_find?_eq_some hu, rfl, eq_of_beq hsub,
    fun hmem => hbanned (List.contains_iff_mem.mpr hmem), Bool.eq_false_iff.mpr hsuspended⟩

/-- The checks of the form have asked for the password of whoever sent it. -/
theorem Admitted.password {editorID : Nat} {args : Args} {e : Edit}
    (h : Admitted env st editorID args t e) : ∃ u, st.account? editorID = some u ∧
      (validPassword env t u (args.passwd.getD "")).1 = true := by
  obtain ⟨editor, user, heditor, -, -, hform, -⟩ := h
  refine ⟨editor, heditor, ?_⟩
  have hcheck : invalidUserPassword env editor args.withoutBlanks t = .ok () :=
    firstProblem_ok hform _ (by simp [checks])
  unfold invalidUserPassword Check.require at hcheck
  split at hcheck
  · assumption
  · cases hcheck

/-- A request that opens a session has begun with the password, or without one on the other
server. -/
theorem logsIn_of_begins {r : Request} {ev : Event} (hbegins : Begins env st r.origin ev)
    (hopens : r.opens = some uid)
    (hown : ∀ e, r = .edit e → e.approved = true → e.uid = e.editorID) : LogsIn env st uid ev := by
  cases r with
  | login v =>
      obtain rfl := Option.some.inj hopens
      cases ev with
      | login user passwd t =>
          obtain ⟨v', hchecked, heq⟩ := hbegins
          obtain rfl := Request.login.inj heq
          exact logsIn_of_checkLogin hchecked
      | sso sub t =>
          obtain ⟨v', -, heq⟩ := hbegins
          cases heq
      | edit editorID username args t =>
          obtain ⟨e, -, heq⟩ := hbegins
          cases heq
      | advance | fail | authenticate => cases hbegins
  | sso v =>
      obtain rfl := Option.some.inj hopens
      cases ev with
      | sso sub t =>
          obtain ⟨v', hchecked, heq⟩ := hbegins
          obtain rfl := Request.sso.inj heq
          exact logsIn_of_checkSSO hchecked
      | login user passwd t =>
          obtain ⟨v', -, heq⟩ := hbegins
          cases heq
      | edit editorID username args t =>
          obtain ⟨e, -, heq⟩ := hbegins
          cases heq
      | advance | fail | authenticate => cases hbegins
  | edit e =>
      simp only [Request.opens] at hopens
      split at hopens
      · rename_i hready
        obtain rfl := Option.some.inj hopens
        have hself := hown e rfl hready.2
        cases ev with
        | edit editorID username args t =>
            obtain ⟨e₀, hadmitted, heq⟩ := hbegins
            obtain ⟨u, hu, hpassword⟩ := hadmitted.password
            obtain ⟨_, _, -, -, -, -, rfl⟩ := hadmitted
            have heditor : e.editorID = editorID := congrArg Edit.editorID (Request.edit.inj heq)
            rw [hself, heditor]
            exact ⟨u, hu, rfl, hpassword⟩
        | login user passwd t =>
            obtain ⟨v', -, heq'⟩ := hbegins
            cases heq'
        | sso sub t =>
            obtain ⟨v', -, heq'⟩ := hbegins
            cases heq'
        | advance | fail | authenticate => cases hbegins
      · cases hopens

theorem hasSession_step {sid : String} (a : Arrival)
    (h : HasSession (g.step env a).store uid sid) :
    HasSession g.store uid sid ∨ Opens uid sid g a := by
  cases a with
  | register args t token =>
      simp only [Gate.step] at h
      split at h
      · exact .inl h
      · rename_i store hok
        obtain ⟨s, hs, hof⟩ := h
        have hs' : s ∈ store.sessions := hs
        rw [(accountRegisterPost_registered hok).sessions] at hs'
        exact .inl ⟨s, hs', hof⟩
  | event ev =>
      cases ev with
      | login user passwd t =>
          exact .inl ((checkLogin_rehashed env g.store user passwd t).hasSession h)
      | sso sub t => exact .inl h
      | edit editorID username args t =>
          exact .inl ((rehashed_edit env g.office editorID username args t).hasSession h)
      | advance i t =>
          simp only [Gate.step, Office.step, Gate.store] at h
          split at h
          · exact .inl h
          · rename_i r hr
            rcases (moved_advance env t g.office.store r).sessions uid sid h with
              hold | ⟨hopens, hsid⟩
            · exact .inl hold
            · exact .inr ⟨i, t, r, rfl, hr, hopens, hsid⟩
      | fail i => exact .inl h
      | authenticate sid remembered now =>
          obtain ⟨p, hstore⟩ := authenticate_frame env g.office.store sid remembered now
          simp only [Gate.step, Office.step, Gate.store, hstore] at h
          exact .inl (hasSession_delete h)
  | logout v => exact .inl (hasSession_delete h)
  | passreset user resetkey password confirm t =>
      exact .inl ((passresetPost_frame env g.store user resetkey password confirm t).2.2 uid sid h)
  | delete v =>
      obtain ⟨s, hs, hof⟩ := h
      exact .inl ⟨s, (Table.mem_delete.mp hs).1, hof⟩
  | ssh user remoteAddr now => exact .inl h
  | usermaint now => exact .inl h

theorem hasSession_of_authenticate {sid : String} {remembered : Bool} {now : Nat}
    (h : (authenticate env st sid remembered now).1 = some uid) : HasSession st uid sid := by
  unfold authenticate at h
  split at h
  · cases h
  split at h
  · cases h
  rename_i record hrecord
  split at h
  · cases h
  · have hsid : (record.sessionID == sid) = true := by
      simpa using List.find?_some hrecord
    exact ⟨record, List.mem_of_find?_eq_some hrecord, Option.some.inj h, eq_of_beq hsid⟩

/-- The account has this key. -/
def HasKey (st : Store) (uid : Nat) (pubKey : String) : Prop :=
  ∃ k ∈ st.sshPubKeys, k.userID = uid ∧ k.pubKey = pubKey

/-- A key is in the table once: its fingerprint is the primary key. -/
theorem Orderly.key_eq (h : Orderly env g) {k k' : SSHPubKey} (hk : k ∈ g.store.sshPubKeys)
    (hk' : k' ∈ g.store.sshPubKeys) (hsame : k.pubKey = k'.pubKey) : k = k' := by
  refine List.inj_on_of_nodup_map h.fingerprints hk hk' ?_
  rw [h.computed k hk, h.computed k' hk', hsame]

/-- The account is not suspended, and has a password. -/
def Account.mayEnter (u : Account) : Bool := !u.suspended && u.passwd != ""

/-- The rows of the `SELECT` before any column is chosen. -/
def entries (st : Store) (pubKey : String) : List (Account × SSHPubKey) :=
  st.accounts.flatMap fun u =>
    (st.sshPubKeys.filter fun k =>
      k.userID == u.id && k.pubKey == pubKey && !u.suspended && u.passwd != "").map (Prod.mk u)

theorem rows_eq (st : Store) (pubKey : String) :
    GitAuth.rows st pubKey =
      (entries st pubKey).map fun x => (x.1.username, x.1.accountType) := by
  unfold GitAuth.rows entries
  rw [List.map_flatMap]
  refine List.flatMap_congr fun u _ => ?_
  rw [List.map_map]
  rfl

theorem mem_entries {pubKey : String} {x : Account × SSHPubKey} : x ∈ entries st pubKey ↔
    x.1 ∈ st.accounts ∧ x.2 ∈ st.sshPubKeys ∧ x.2.userID = x.1.id ∧ x.2.pubKey = pubKey ∧
      x.1.mayEnter = true := by
  unfold entries Account.mayEnter
  rw [List.mem_flatMap]
  constructor
  · intro ⟨u, hu, hx⟩
    obtain ⟨k, hk, rfl⟩ := List.mem_map.mp hx
    obtain ⟨hk, hcond⟩ := List.mem_filter.mp hk
    simp only [Bool.and_eq_true, beq_iff_eq] at hcond ⊢
    exact ⟨hu, hk, hcond.1.1.1, hcond.1.1.2, hcond.1.2, hcond.2⟩
  · intro ⟨hu, hk, huid, hpub, henter⟩
    refine ⟨x.1, hu, List.mem_map.mpr ⟨x.2, List.mem_filter.mpr ⟨hk, ?_⟩, rfl⟩⟩
    rw [Bool.and_eq_true] at henter
    simp [huid, hpub, henter.1, henter.2]

/-- Nobody shares a key: the look-up does not find two rows. -/
theorem Orderly.entries_eq (h : Orderly env g) {pubKey : String} {x : Account × SSHPubKey}
    (hx : x ∈ entries g.store pubKey) : entries g.store pubKey = [x] := by
  have hnodup : (entries g.store pubKey).Nodup := by
    refine Query.nodup_flatMap_map h.ids.nodup.of_map (fun u _ => ?_) ?_
    · exact h.fingerprints.of_map.filter _
    · intro u _ k _ u' _ k' _ heq
      exact Prod.mk.inj heq
  refine Query.eq_singleton_of_nodup hnodup (fun y hy => ?_) hx
  obtain ⟨hu, hk, huid, hpub, -⟩ := mem_entries.mp hx
  obtain ⟨hu', hk', huid', hpub', -⟩ := mem_entries.mp hy
  have hkey : y.2 = x.2 := h.key_eq hk' hk (hpub'.trans hpub.symm)
  refine Prod.ext (h.ids.eq_of_key hu' hu ?_) hkey
  rw [← huid', ← huid, hkey]

/-- The line for the account. -/
def lineOf (conf : GitAuth.Conf) (u : Account) (pubKey : String) : String :=
  GitAuth.formatCommand
    [("AUR_USER", u.username), ("AUR_PRIVILEGED", if 1 < u.accountType.id then "1" else "0")]
    conf.gitServeCmd conf.sshOptions pubKey

/-- The look-up answers with a line just if some account that may enter has the key; it is the
line of that account. -/
theorem Orderly.main_eq_some_iff (h : Orderly env g) (conf : GitAuth.Conf)
    (keytype keytext line : String) :
    GitAuth.main conf g.store keytype keytext = some line ↔
      ∃ u ∈ g.store.accounts, HasKey g.store u.id (keytype ++ " " ++ keytext) ∧
        u.mayEnter = true ∧ keytype ∈ conf.validKeytypes ∧
        Regex.isMatch conf.usernameRegex u.username.toList = true ∧
        line = lineOf conf u (keytype ++ " " ++ keytext) := by
  unfold GitAuth.main
  rw [rows_eq]
  constructor
  · intro hmain
    split at hmain
    · cases hmain
    rename_i htype
    rw [Bool.not_eq_true', Bool.not_eq_false, List.contains_iff_mem] at htype
    split at hmain
    · rename_i user accountType hrows
      obtain ⟨x, hx, heq⟩ : ∃ x ∈ entries g.store (keytype ++ " " ++ keytext),
          (x.1.username, x.1.accountType) = (user, accountType) := by
        rw [← List.mem_map, hrows]
        exact List.mem_singleton_self _
      obtain ⟨rfl, rfl⟩ := Prod.mk.inj heq
      obtain ⟨hu, hk, huid, hpub, henter⟩ := mem_entries.mp hx
      split at hmain
      · cases hmain
      rename_i hregex
      rw [Bool.not_eq_true', Bool.not_eq_false] at hregex
      exact ⟨x.1, hu, ⟨x.2, hk, huid, hpub⟩, henter, htype, hregex, (Option.some.inj hmain).symm⟩
    · cases hmain
  · intro ⟨u, hu, ⟨k, hk, huid, hpub⟩, henter, htype, hregex, hline⟩
    have hentries : entries g.store (keytype ++ " " ++ keytext) = [(u, k)] :=
      h.entries_eq (mem_entries.mpr ⟨hu, hk, huid, hpub, henter⟩)
    rw [hentries, List.contains_iff_mem.mpr htype]
    simp [hregex, hline, lineOf]

/-- The editor may edit the account, and gives their own password. -/
def MayEdit (env : Env) (st : Store) (editorID uid : Nat) (args : Args) (t : Tick) : Prop :=
  ∃ editor user, st.account? editorID = some editor ∧ user ∈ st.accounts ∧ user.id = uid ∧
    canEditUser editor.toUser user.toUser = true ∧
    (validPassword env t editor (args.passwd.getD "")).1 = true

/-- The run ends with the key brought to the account by a form: by the one it was registered with,
or by one that somebody who may edit it has sent, at the transaction for the keys. -/
inductive Brought (env : Env) (g : Gate) (uid : Nat) (pubKey : String) : List Arrival → Prop
  | registered {pre : List Arrival} {args : Args} {t : Tick} {token : String}
      (hid : (Run.exec (Gate.step env) g pre).nextID = uid)
      (hkey : pubKey ∈ formKeys env args) : Brought env g uid pubKey (pre ++ [.register args t token])
  | edited {pre mid : List Arrival} {editorID : Nat} {username : String} {args : Args}
      {t t' : Tick} {i : Nat}
      (hmay : MayEdit env (Run.exec (Gate.step env) g pre).store editorID uid args t)
      (hkey : pubKey ∈ formKeys env args) :
      Brought env g uid pubKey
        (pre ++ .event (.edit editorID username args t) :: mid ++ [.event (.advance i t')])

/-- The event puts the key into the table. -/
def Puts (env : Env) (uid : Nat) (pubKey : String) (g : Gate) (a : Arrival) : Prop :=
  (∃ args t token, a = .register args t token ∧ g.nextID = uid ∧ pubKey ∈ formKeys env args) ∨
    ∃ i t e, a = .event (.advance i t) ∧ Request.edit e ∈ g.office.inFlight ∧ e.uid = uid ∧
      pubKey ∈ formKeys env e.args

theorem hasKey_step {pubKey : String} (a : Arrival)
    (h : HasKey (g.step env a).store uid pubKey) :
    HasKey g.store uid pubKey ∨ Puts env uid pubKey g a := by
  obtain ⟨k, hk, huid, hpub⟩ := h
  have hsame : ∀ {st : Store}, st.sshPubKeys = g.store.sshPubKeys → k ∈ st.sshPubKeys →
      HasKey g.store uid pubKey := fun heq hk => ⟨k, heq ▸ hk, huid, hpub⟩
  cases a with
  | register args t token =>
      simp only [Gate.step] at hk
      split at hk
      · exact .inl ⟨k, hk, huid, hpub⟩
      · rename_i store hok
        rcases (accountRegisterPost_registered hok).keys k hk with hold | ⟨hof, hkey, -⟩
        · exact .inl ⟨k, hold, huid, hpub⟩
        · exact .inr (.inl ⟨args, t, token, rfl, hof.symm.trans huid, hpub ▸ hkey⟩)
  | event ev =>
      cases ev with
      | login user passwd t =>
          exact .inl (hsame (checkLogin_rehashed env g.store user passwd t).sshPubKeys hk)
      | sso sub t => exact .inl ⟨k, hk, huid, hpub⟩
      | edit editorID username args t =>
          exact .inl (hsame (rehashed_edit env g.office editorID username args t).sshPubKeys hk)
      | advance i t =>
          simp only [Gate.step, Office.step, Gate.store] at hk
          split at hk
          · exact .inl ⟨k, hk, huid, hpub⟩
          · rename_i r hr
            rcases (moved_advance env t g.office.store r).keys k hk with hold | ⟨e, rest, rfl, -,
              hof, hkey, -⟩
            · exact .inl ⟨k, hold, huid, hpub⟩
            · exact .inr (.inr ⟨i, t, e, rfl, List.mem_of_getElem? hr, hof.symm.trans huid,
                hpub ▸ hkey⟩)
      | fail i => exact .inl ⟨k, hk, huid, hpub⟩
      | authenticate sid remembered now =>
          obtain ⟨p, hstore⟩ := authenticate_frame env g.office.store sid remembered now
          simp only [Gate.step, Office.step, Gate.store, hstore] at hk
          exact .inl ⟨k, hk, huid, hpub⟩
  | logout v => exact .inl ⟨k, hk, huid, hpub⟩
  | passreset user resetkey password confirm t =>
      exact .inl (hsame
        (passresetPost_frame env g.store user resetkey password confirm t).2.1 hk)
  | delete v => exact .inl ⟨k, (Table.mem_delete.mp hk).1, huid, hpub⟩
  | ssh user remoteAddr now => exact .inl ⟨k, hk, huid, hpub⟩
  | usermaint now => exact .inl ⟨k, hk, huid, hpub⟩

theorem Admitted.mayEdit {editorID : Nat} {args : Args} {e : Edit}
    (h : Admitted env st editorID args t e) :
    MayEdit env st editorID e.uid args t ∧ formKeys env e.args = formKeys env args := by
  obtain ⟨editor', heditor', hpassword⟩ := h.password
  obtain ⟨editor, user, heditor, huser, hcan, -, rfl⟩ := h
  obtain rfl := Option.some.inj (heditor'.symm.trans heditor)
  exact ⟨⟨editor', user, heditor', huser, rfl, hcan, hpassword⟩, rfl⟩

/-- **A key is the account's own.**  In every state that a run reaches, the SSH daemon is given a
line for a key just if an account that may enter has it, and the line is that of the account; no
other account has the key; and the account has had it since a form brought it, the one it was
registered with or one sent, with their password, by somebody who may edit the account, or since
the run began. -/
theorem letIn_of_run (h : Orderly env g) (hidle : g.office.inFlight = []) (es : List Arrival)
    (conf : GitAuth.Conf) (keytype keytext : String) :
    (∀ line, GitAuth.main conf (Run.exec (Gate.step env) g es).store keytype keytext = some line ↔
      ∃ u ∈ (Run.exec (Gate.step env) g es).store.accounts,
        HasKey (Run.exec (Gate.step env) g es).store u.id (keytype ++ " " ++ keytext) ∧
        u.mayEnter = true ∧ keytype ∈ conf.validKeytypes ∧
        Regex.isMatch conf.usernameRegex u.username.toList = true ∧
        line = lineOf conf u (keytype ++ " " ++ keytext)) ∧
    ∀ uid, HasKey (Run.exec (Gate.step env) g es).store uid (keytype ++ " " ++ keytext) →
      (∀ v, HasKey (Run.exec (Gate.step env) g es).store v (keytype ++ " " ++ keytext) → v = uid) ∧
      (Run.Along (Gate.step env) (fun g => HasKey g.store uid (keytype ++ " " ++ keytext)) g es ∨
        ∃ past post, es = past ++ post ∧ Brought env g uid (keytype ++ " " ++ keytext) past ∧
          Run.Along (Gate.step env) (fun g => HasKey g.store uid (keytype ++ " " ++ keytext))
            (Run.exec (Gate.step env) g past) post) := by
  have horderly := orderly_exec h es
  refine ⟨horderly.main_eq_some_iff conf keytype keytext, fun uid hhas => ⟨?_, ?_⟩⟩
  · intro v ⟨k', hk', hv, hpub'⟩
    obtain ⟨k, hk, huid, hpub⟩ := hhas
    rw [← huid, ← hv, horderly.key_eq hk' hk (hpub'.trans hpub.symm)]
  · have hsince : Run.Since (Gate.step env)
        (fun g => HasKey g.store uid (keytype ++ " " ++ keytext))
        (Puts env uid (keytype ++ " " ++ keytext)) g es :=
      Run.since_of_step (I := fun _ => True) (fun _ _ _ => trivial)
        (fun _ a _ h => hasKey_step a h) trivial hhas
    refine hsince.imp id ?_
    intro ⟨pre, a, post, hes, hputs, hheld⟩
    subst hes
    have hstep : ∀ pre, Gate.step env (Run.exec (Gate.step env) g pre) a =
        Run.exec (Gate.step env) g (pre ++ [a]) := fun pre => by
      rw [Run.exec_append]
      rfl
    rcases hputs with ⟨args, t, token, rfl, hid, hkey⟩ | ⟨i, t, e, rfl, hmem, huid, hkey⟩
    · exact ⟨pre ++ [.register args t token], post, by simp, .registered hid hkey,
        hstep pre ▸ hheld⟩
    · obtain ⟨before, ev, mid, rfl, hbegins⟩ := begins_of_run hidle hmem
      cases ev with
      | edit editorID username args t₀ =>
          obtain ⟨e₀, hadmitted, heq⟩ := hbegins
          obtain ⟨hmay, hkeys⟩ := hadmitted.mayEdit
          have hsame := Request.edit.inj heq
          have huid₀ : e₀.uid = uid := (congrArg Edit.uid hsame).symm.trans huid
          have hargs : e.args = e₀.args := by rw [← hsame]
          refine ⟨_, post, ?_, .edited (huid₀ ▸ hmay) (hkeys ▸ hargs ▸ hkey), hstep _ ▸ hheld⟩
          simp
      | login user passwd t₀ =>
          obtain ⟨v, -, heq⟩ := hbegins
          cases heq
      | sso sub t₀ =>
          obtain ⟨v, -, heq⟩ := hbegins
          cases heq
      | advance | fail | authenticate => cases hbegins

/-! ### Dave's key -/

/-- `Env.open`, where the keys of a form are one key: its type, a blank, and the rest. -/
def Env.oneKey : Env :=
  { Env.open with
    parseSSHKeys := fun text =>
      some [(String.ofList (text.toList.takeWhile (· != ' ')),
        String.ofList ((text.toList.dropWhile (· != ' ')).drop 1))] }

def smallGate : Gate := { office := { store := smallStore }, nextID := 4 }

/-- Dave registers, sets his password and logs in, and then replaces his key. -/
def daveArrives : List Arrival :=
  [.register
      { U := some "dave", E := some "dave@example.org", PK := some "ssh-ed25519 AAAA"
        captcha := some "14", captchaSalt := some "7" } { now := 1000000, token := "d1" } "v1",
    .passreset "dave" "d1" "s3cret" "s3cret" { now := 2000000, token := "d2" },
    .event (.login "dave" "s3cret" { now := 3000000 }),
    .event (.advance 0 { now := 3000000, sid := "s1" }),
    .event (.edit 4 "dave" { filledIn "dave" "s3cret" with PK := some "ssh-ed25519 BBBB" }
      { now := 4000000 })] ++
    List.replicate 4 (.event (.advance 0 { now := 4000000 }))

theorem smallGate_orderly : Orderly .oneKey smallGate where
  ids := ⟨by decide, by decide⟩
  fingerprints := by decide
  computed := by decide
  own := by simp [smallGate]

/-- `conf/config.defaults`, in short. -/
def shortConf : GitAuth.Conf where
  validKeytypes := ["ssh-ed25519"]
  usernameRegex := GitAuth.usernameRegex
  gitServeCmd := "/usr/bin/aurweb-git-serve"
  sshOptions := "restrict"

theorem letIn_of_run_dave :
    (GitAuth.main shortConf (Run.exec (Gate.step .oneKey) smallGate daveArrives).store "ssh-ed25519"
      "BBBB").isSome = true ∧
    GitAuth.main shortConf (Run.exec (Gate.step .oneKey) smallGate daveArrives).store "ssh-ed25519"
      "AAAA" = none ∧
    (∀ v, HasKey (Run.exec (Gate.step .oneKey) smallGate daveArrives).store v "ssh-ed25519 BBBB" →
      v = 4) ∧
    (Run.Along (Gate.step .oneKey) (fun g => HasKey g.store 4 "ssh-ed25519 BBBB") smallGate
        daveArrives ∨
      ∃ past post, daveArrives = past ++ post ∧
        Brought .oneKey smallGate 4 "ssh-ed25519 BBBB" past ∧
        Run.Along (Gate.step .oneKey) (fun g => HasKey g.store 4 "ssh-ed25519 BBBB")
          (Run.exec (Gate.step .oneKey) smallGate past) post) := by
  have hkeys : (Run.exec (Gate.step .oneKey) smallGate daveArrives).store.sshPubKeys =
      [⟨4, "ssh-ed25519 BBBB", "ssh-ed25519 BBBB"⟩] := by
    decide +kernel
  have hhas : HasKey (Run.exec (Gate.step .oneKey) smallGate daveArrives).store 4
      ("ssh-ed25519" ++ " " ++ "BBBB") := by
    unfold HasKey
    rw [hkeys]
    decide
  obtain ⟨-, hown⟩ := letIn_of_run smallGate_orderly rfl daveArrives shortConf "ssh-ed25519" "BBBB"
  exact ⟨by decide +kernel, by decide +kernel, hown 4 hhas⟩

end Aurweb.Users
