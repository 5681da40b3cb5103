/-
What an account edit can do.

An edit is confined to the account that is edited: no task reads or writes the rows of another
one, but for the indices.  What the validators have let through decides which type the account
can end up with.  Together that makes the account types a ladder nobody climbs past the rung of
whoever edits, over any number of edits.
-/
import Aurweb.Lib.Run
import Aurweb.Proofs.NormalizedEmail
import Aurweb.Proofs.WellFormed
import Aurweb.Users

namespace Aurweb.Users

section

variable {env : Env} {t : Tick} {st st' st'' : Store} {uid : Nat}

/-! ### Looking accounts up -/

theorem Store.account?_mem {u : Account} (h : st.account? uid = some u) :
    u ∈ st.accounts ∧ u.id = uid :=
  ⟨List.mem_of_find?_eq_some h, by simpa using List.find?_some h⟩

theorem Store.account?_updateAccount {f : Account → Account} (hf : ∀ u, u.id = uid → (f u).id = uid)
    (st : Store) (v : Nat) :
    (st.updateAccount uid f).account? v =
      if v = uid then (st.account? v).map f else st.account? v :=
  @Table.find?_update _ _ _ (fun u : Account => u.id) uid f hf st.accounts v

theorem Store.account?_updateAccount_self {f : Account → Account}
    (hf : ∀ u, u.id = uid → (f u).id = uid) {u : Account} (h : st.account? uid = some u) :
    (st.updateAccount uid f).account? uid = some (f u) := by
  rw [Store.account?_updateAccount hf, if_pos rfl, h]
  rfl

/-- A password that is written twice was written once. -/
theorem Store.setPasswd_setPasswd (st : Store) (p q : String) :
    (st.updateAccount uid (Account.setPasswd p)).updateAccount uid (Account.setPasswd q) =
      st.updateAccount uid (Account.setPasswd q) := by
  unfold Store.updateAccount
  rw [Table.update_update (f := Account.setPasswd p) fun _ => rfl]
  rfl

/-! ### Confined to one account -/

/-- Nothing that belongs to another account has changed. -/
structure Confined (uid : Nat) (st st' : Store) : Prop where
  ids : st'.accounts.map (·.id) = st.accounts.map (·.id)
  bans : st'.bans = st.bans
  account : ∀ v, v ≠ uid → st'.account? v = st.account? v
  keys : ∀ v, v ≠ uid →
    st'.sshPubKeys.filter (·.userID == v) = st.sshPubKeys.filter (·.userID == v)
  sessions : ∀ v, v ≠ uid →
    st'.sessions.filter (·.usersID == v) = st.sessions.filter (·.usersID == v)

namespace Confined

theorem refl (uid : Nat) (st : Store) : Confined uid st st :=
  ⟨rfl, rfl, fun _ _ => rfl, fun _ _ => rfl, fun _ _ => rfl⟩

theorem trans (h : Confined uid st st') (h' : Confined uid st' st'') : Confined uid st st'' where
  ids := h'.ids.trans h.ids
  bans := h'.bans.trans h.bans
  account v hv := (h'.account v hv).trans (h.account v hv)
  keys v hv := (h'.keys v hv).trans (h.keys v hv)
  sessions v hv := (h'.sessions v hv).trans (h.sessions v hv)

theorem updateAccount (st : Store) {f : Account → Account} (hf : ∀ u, u.id = uid → (f u).id = uid) :
    Confined uid st (st.updateAccount uid f) where
  ids := by
    unfold Store.updateAccount Table.update
    rw [List.map_map]
    refine List.map_congr_left fun u _ => ?_
    by_cases hid : u.id = uid
    · simp [hid, hf u hid]
    · simp [hid]
  bans := rfl
  account v hv := by rw [Store.account?_updateAccount hf, if_neg hv]
  keys _ _ := rfl
  sessions _ _ := rfl

theorem checkPassword (st : Store) (user : Account) (password : String) :
    Confined user.id st (st.checkPassword env t user password).2 :=
  updateAccount st fun _ hid => hid

theorem deleteSessions (uid : Nat) (st : Store) : Confined uid st (st.deleteSessions uid) where
  ids := rfl
  bans := rfl
  account _ _ := rfl
  keys _ _ := rfl
  sessions v hv := by
    refine Table.filter_delete_of_disjoint (fun s hs hs' => ?_) st.sessions
    rw [beq_iff_eq] at hs hs'
    exact hv (hs'.symm.trans hs)

/-- Rows of the account may come after what is left of the table. -/
theorem sshPubKeys {rows : List SSHPubKey}
    (h : ∀ v, v ≠ uid → rows.filter (·.userID == v) = st.sshPubKeys.filter (·.userID == v)) :
    Confined uid st { st with sshPubKeys := rows } :=
  ⟨rfl, rfl, fun _ _ => rfl, h, fun _ _ => rfl⟩

theorem withSessions {rows : List Session}
    (h : ∀ v, v ≠ uid → rows.filter (·.usersID == v) = st.sessions.filter (·.usersID == v)) :
    Confined uid st { st with sessions := rows } :=
  ⟨rfl, rfl, fun _ _ => rfl, fun _ _ => rfl, h⟩

end Confined

theorem Except.of_map_ok {ε α β : Type} {x : Except ε α} {f : α → β} {b : β}
    (h : x.map f = .ok b) : ∃ a, x = .ok a ∧ f a = b := by
  cases x with
  | error e => cases h
  | ok a => exact ⟨a, rfl, Except.ok.inj h⟩

theorem updateSSHPubkey_frame {PK : String} (h : updateSSHPubkey env uid PK st = .ok st') :
    st'.accounts = st.accounts ∧ st'.sessions = st.sessions := by
  unfold updateSSHPubkey at h
  split at h
  · obtain rfl := Except.ok.inj h
    exact ⟨rfl, rfl⟩
  split at h
  · cases h
  dsimp only at h
  split at h
  · obtain rfl := Except.ok.inj h
    exact ⟨rfl, rfl⟩
  · cases h

theorem updateSSHPubkey_confined {PK : String} (h : updateSSHPubkey env uid PK st = .ok st') :
    Confined uid st st' := by
  have hdelete : ∀ (p : SSHPubKey → Bool) (v : Nat), v ≠ uid →
      (Table.delete (fun k => k.userID == uid && p k) st.sshPubKeys).filter (·.userID == v) =
        st.sshPubKeys.filter (·.userID == v) := by
    intro p v hv
    refine Table.filter_delete_of_disjoint (fun k hk hk' => ?_) st.sshPubKeys
    simp only [Bool.and_eq_true, beq_iff_eq] at hk hk'
    exact hv (hk'.symm.trans hk.1)
  unfold updateSSHPubkey at h
  split at h
  · obtain rfl := Except.ok.inj h
    refine .sshPubKeys fun v hv => ?_
    simpa using hdelete (fun _ => true) v hv
  split at h
  · cases h
  rename_i keys _
  dsimp only at h
  split at h
  · obtain rfl := Except.ok.inj h
    refine .sshPubKeys fun v hv => ?_
    have hmissing : (missingKeys env st uid keys).filter (·.userID == v) = [] := by
      refine List.filter_eq_nil_iff.mpr fun k hk => ?_
      obtain ⟨key, -, rfl⟩ := List.mem_map.mp hk
      simpa using Ne.symm hv
    rw [List.filter_append, hdelete _ v hv, hmissing, List.append_nil]
  · cases h

/-- What `User.login` has written once its transaction is through. -/
theorem openSession_ok (h : openSession t uid st = .ok st') :
    (st.account? uid).isSome ∧ ((sessionRows t uid st).map (·.sessionID)).Nodup ∧
      st' = { st.updateAccount uid (Account.loggedIn t) with sessions := sessionRows t uid st } := by
  unfold openSession at h
  split at h
  · cases h
  rename_i hthere
  split at h
  · rename_i hnodup
    exact ⟨by simpa [Option.isSome_iff_ne_none] using hthere, hnodup, (Except.ok.inj h).symm⟩
  · cases h

theorem sessionRows_other (t : Tick) (st : Store) {v : Nat} (hv : v ≠ uid) :
    (sessionRows t uid st).filter (·.usersID == v) = st.sessions.filter (·.usersID == v) := by
  unfold sessionRows
  split
  · have hnew : [Session.mk uid t.sid (timestamp t.now)].filter (·.usersID == v) = [] := by
      simpa using Ne.symm hv
    rw [List.filter_append, hnew, List.append_nil]
  · refine Table.filter_update_of_disjoint (f := Session.renew t) (fun s => rfl) ?_ st.sessions
    intro s hs hs'
    rw [beq_iff_eq] at hs hs'
    exact hv (hs'.symm.trans hs)

theorem openSession_confined (h : openSession t uid st = .ok st') : Confined uid st st' := by
  obtain ⟨-, -, rfl⟩ := openSession_ok h
  have hlogged : Confined uid st (st.updateAccount uid (Account.loggedIn t)) :=
    Confined.updateAccount st fun _ hid => hid
  exact hlogged.trans (Confined.withSessions fun v hv => sessionRows_other t st hv)

/-! ### One task -/

/-- The same request, with another idea of what it has found out. -/
structure Edit.Continues (e e' : Edit) : Prop where
  editorID : e'.editorID = e.editorID
  uid : e'.uid = e.uid
  args : e'.args = e.args
  loaded : e'.loaded = e.loaded
  todo : e'.todo = e.todo

theorem Edit.Continues.refl (e : Edit) : e.Continues e := ⟨rfl, rfl, rfl, rfl, rfl⟩

theorem Edit.Continues.trans {e e' e'' : Edit} (h : e.Continues e') (h' : e'.Continues e'') :
    e.Continues e'' :=
  ⟨h'.editorID.trans h.editorID, h'.uid.trans h.uid, h'.args.trans h.args,
    h'.loaded.trans h.loaded, h'.todo.trans h.todo⟩

/-- The form names this account type. -/
def Args.Names (env : Env) (args : Args) (type : AccountType) : Prop :=
  ∃ raw T, args.T = some raw ∧ env.int raw = some T ∧ accountTypeOf T = some type

/-- What a task may have done to the row of the account. -/
structure Moves (env : Env) (e : Edit) (task : Task) (u u' : Account) : Prop where
  type : u'.accountType = u.accountType ∨
    task = .accountType ∧ e.args.Names env u'.accountType
  suspended : u'.suspended = u.suspended ∨
    task = .simple ∧ u'.suspended = strtobool env e.args.S

theorem Moves.same {e : Edit} {task : Task} {u u' : Account}
    (htype : u'.accountType = u.accountType) (hsuspended : u'.suspended = u.suspended) :
    Moves env e task u u' :=
  ⟨Or.inl htype, Or.inl hsuspended⟩

/-- `Sessions` after a task. -/
def sessionsAfter (t : Tick) (e : Edit) (st : Store) (task : Task) : List Session :=
  if task = .login ∧ e.approved = true then sessionRows t e.uid st
  else if task = .deleteSessions ∧ e.found = true then (st.deleteSessions e.uid).sessions
  else st.sessions

/-- A task that has gone through. -/
structure Ran (env : Env) (t : Tick) (e : Edit) (task : Task) (st : Store) (e' : Edit)
    (st' : Store) : Prop where
  request : e.Continues e'
  confined : Confined e.uid st st'
  account : ∃ u u', st.account? e.uid = some u ∧ st'.account? e.uid = some u' ∧
    Moves env e task u u'
  sessions : st'.sessions = sessionsAfter t e st task
  changed : e'.changed = e.changed ∨ task = .password
  approved : e'.approved = e.approved ∨ task = .approve
  found : e'.found = if task = .suspend then
    e.args.S.getD "" != "" && (st.session? e.uid).isSome else e.found

namespace Ran

variable {e e' : Edit} {task : Task} {u : Account}

/-- Only the request has found something out. -/
theorem look (hrequest : e.Continues e') (hchanged : e'.changed = e.changed ∨ task = .password)
    (happroved : e'.approved = e.approved ∨ task = .approve)
    (hfound : e'.found = if task = .suspend then
      e.args.S.getD "" != "" && (st.session? e.uid).isSome else e.found)
    (hsessions : sessionsAfter t e st task = st.sessions) (hu : st.account? e.uid = some u) :
    Ran env t e task st e' st :=
  ⟨hrequest, .refl _ st, ⟨u, u, hu, hu, .same rfl rfl⟩, hsessions.symm, hchanged, happroved,
    hfound⟩

theorem stay (hu : st.account? e.uid = some u) (htask : task ≠ .suspend)
    (hsessions : sessionsAfter t e st task = st.sessions) : Ran env t e task st e st :=
  look (.refl e) (Or.inl rfl) (Or.inl rfl) (if_neg htask).symm hsessions hu

/-- Then it has written to the row of the account. -/
theorem thenUpdate {f : Account → Account} (h : Ran env t e task st e' st)
    (hu : st.account? e.uid = some u) (hf : ∀ u, u.id = e.uid → (f u).id = e.uid)
    (hmoves : Moves env e task u (f u)) :
    Ran env t e task st e' (st.updateAccount e.uid f) :=
  ⟨h.request, .updateAccount st hf,
    ⟨u, f u, hu, Store.account?_updateAccount_self hf hu, hmoves⟩, h.sessions,
    h.changed, h.approved, h.found⟩

theorem update {f : Account → Account} (hu : st.account? e.uid = some u)
    (hf : ∀ u, u.id = e.uid → (f u).id = e.uid) (hmoves : Moves env e task u (f u))
    (htask : task ≠ .suspend) (hsessions : sessionsAfter t e st task = st.sessions) :
    Ran env t e task st e (st.updateAccount e.uid f) :=
  (stay hu htask hsessions).thenUpdate hu hf hmoves

end Ran

theorem Task.run_ok {e e' : Edit} {task : Task}
    (h : task.run env t e st = .ok (e', st')) : Ran env t e task st e' st' := by
  unfold Task.run at h
  cases hu : st.account? e.uid with
  | none => simp [hu] at h
  | some u =>
      rw [hu] at h
      have hid : u.id = e.uid := (Store.account?_mem hu).2
      cases task with
      | simple =>
          dsimp only at h
          split at h
          · cases h
          obtain ⟨rfl, rfl⟩ := Prod.mk.inj (Except.ok.inj h)
          refine .update hu (fun _ _ => hid) ⟨Or.inl rfl, ?_⟩ (by decide) rfl
          by_cases hsame : strtobool env e.args.S = e.loaded.suspended
          · exact Or.inl (if_pos hsame)
          · exact Or.inr ⟨rfl, if_neg hsame⟩
      | language | timezone =>
          dsimp only at h
          split at h
          · obtain ⟨rfl, rfl⟩ := Prod.mk.inj (Except.ok.inj h)
            exact .stay hu (by decide) rfl
          · obtain ⟨rfl, rfl⟩ := Prod.mk.inj (Except.ok.inj h)
            exact .update hu (fun _ hid => hid) (.same rfl rfl) (by decide) rfl
      | sshPubkey =>
          obtain ⟨st₁, hkeys, heq⟩ := Except.of_map_ok h
          obtain ⟨rfl, rfl⟩ := Prod.mk.inj heq
          obtain ⟨haccounts, hsessions⟩ := updateSSHPubkey_frame hkeys
          have hu' : st₁.account? e.uid = some u := by
            unfold Store.account?
            rw [haccounts]
            exact hu
          exact ⟨.refl e, updateSSHPubkey_confined hkeys, ⟨u, u, hu, hu', .same rfl rfl⟩,
            hsessions, Or.inl rfl, Or.inl rfl, rfl⟩
      | accountType =>
          dsimp only at h
          split at h
          · obtain ⟨rfl, rfl⟩ := Prod.mk.inj (Except.ok.inj h)
            exact .stay hu (by decide) rfl
          rename_i raw hraw
          split at h
          · cases h
          rename_i T hT
          split at h
          · cases h
          rename_i type htype
          obtain ⟨rfl, rfl⟩ := Prod.mk.inj (Except.ok.inj h)
          exact .update hu (fun _ hid => hid) ⟨Or.inr ⟨rfl, raw, T, hraw, hT, htype⟩, Or.inl rfl⟩
            (by decide) rfl
      | password =>
          dsimp only at h
          split at h
          · obtain ⟨rfl, rfl⟩ := Prod.mk.inj (Except.ok.inj h)
            exact .stay hu (by decide) rfl
          split at h
          · rename_i st₁ hcheck
            obtain ⟨rfl, rfl⟩ := Prod.mk.inj (Except.ok.inj h)
            obtain rfl := (Prod.mk.inj hcheck).2
            rw [hid]
            exact .update hu (fun _ hid => hid) (.same rfl rfl) (by decide) rfl
          · rename_i st₁ hcheck
            obtain ⟨rfl, rfl⟩ := Prod.mk.inj (Except.ok.inj h)
            obtain rfl := (Prod.mk.inj hcheck).2
            rw [hid, Store.setPasswd_setPasswd]
            have hlook : Ran env t e .password st { e with changed := true } st :=
              .look ⟨rfl, rfl, rfl, rfl, rfl⟩ (Or.inr rfl) (Or.inl rfl) rfl rfl hu
            exact hlook.thenUpdate hu (fun _ hid => hid) (.same rfl rfl)
      | approve =>
          dsimp only at h
          split at h
          · obtain ⟨rfl, rfl⟩ := Prod.mk.inj (Except.ok.inj h)
            have hlook : Ran env t e .approve st
                { e with approved := (loginApproved env t u (e.args.P.getD "") st).1 } st :=
              .look ⟨rfl, rfl, rfl, rfl, rfl⟩ (Or.inl rfl) (Or.inr rfl) rfl rfl hu
            unfold loginApproved at hlook ⊢
            split at hlook
            · rename_i hrefused
              rw [if_pos hrefused]
              exact hlook
            · rename_i hadmitted
              rw [if_neg hadmitted]
              unfold Store.checkPassword
              rw [hid]
              exact hlook.thenUpdate hu (fun _ hid => hid) (.same rfl rfl)
          · obtain ⟨rfl, rfl⟩ := Prod.mk.inj (Except.ok.inj h)
            exact .stay hu (by decide) rfl
      | login =>
          dsimp only at h
          split at h
          · rename_i happroved
            obtain ⟨st₁, hopen, heq⟩ := Except.of_map_ok h
            obtain ⟨rfl, rfl⟩ := Prod.mk.inj heq
            have hconfined := openSession_confined hopen
            obtain ⟨-, -, rfl⟩ := openSession_ok hopen
            have hu' : (st.updateAccount e.uid (Account.loggedIn t)).account? e.uid =
                some (u.loggedIn t) :=
              Store.account?_updateAccount_self (f := Account.loggedIn t) (fun _ hid => hid) hu
            exact ⟨.refl e, hconfined, ⟨u, u.loggedIn t, hu, hu', .same rfl rfl⟩,
              (if_pos ⟨rfl, happroved⟩).symm, Or.inl rfl, Or.inl rfl, rfl⟩
          · rename_i happroved
            obtain ⟨rfl, rfl⟩ := Prod.mk.inj (Except.ok.inj h)
            exact .stay hu (by decide) (by simp [sessionsAfter, happroved])
      | suspend =>
          obtain ⟨rfl, rfl⟩ := Prod.mk.inj (Except.ok.inj h)
          exact ⟨⟨rfl, rfl, rfl, rfl, rfl⟩, .refl _ _, ⟨u, u, hu, hu, .same rfl rfl⟩, rfl,
            Or.inl rfl, Or.inl rfl, rfl⟩
      | deleteSessions =>
          obtain ⟨rfl, rfl⟩ := Prod.mk.inj (Except.ok.inj h)
          by_cases hfound : e.found = true
          · rw [if_pos hfound]
            exact ⟨.refl e, .deleteSessions _ st, ⟨u, u, hu, hu, .same rfl rfl⟩,
              by simp [sessionsAfter, hfound], Or.inl rfl, Or.inl rfl, rfl⟩
          · rw [if_neg hfound]
            exact .stay hu (by decide) (by simp [sessionsAfter, hfound])

/-! ### All tasks -/

theorem runTasks_confined (env : Env) (ticks : Task → Tick) :
    ∀ (todo : List Task) (e : Edit) (st : Store),
      Confined e.uid st (runTasks env ticks todo e st).2
  | [], e, st => .refl _ st
  | task :: rest, e, st => by
      unfold runTasks
      split
      · exact .refl _ st
      · rename_i e' st' hok
        have hran := Task.run_ok hok
        have hrest := runTasks_confined env ticks rest e' st'
        rw [hran.request.uid] at hrest
        exact hran.confined.trans hrest

/-- The type of the account is the one it had, or the one the form names. -/
theorem runTasks_type (env : Env) (ticks : Task → Tick) :
    ∀ (todo : List Task) (e : Edit) (st : Store) (u' : Account),
      (runTasks env ticks todo e st).2.account? e.uid = some u' →
      ∃ u, st.account? e.uid = some u ∧
        (u'.accountType = u.accountType ∨ e.args.Names env u'.accountType)
  | [], _, _, u', h => ⟨u', h, Or.inl rfl⟩
  | task :: rest, e, st, u', h => by
      unfold runTasks at h
      split at h
      · exact ⟨u', h, Or.inl rfl⟩
      · rename_i e' st' hok
        have hran := Task.run_ok hok
        obtain ⟨u, u₁, hu, hu₁, hmoves⟩ := hran.account
        rw [← hran.request.uid] at h
        obtain ⟨u₁', hu₁', htype⟩ := runTasks_type env ticks rest e' st' u' h
        rw [hran.request.uid, hu₁] at hu₁'
        obtain rfl := Option.some.inj hu₁'
        rw [hran.request.args] at htype
        refine ⟨u, hu, ?_⟩
        rcases htype with hsame | hnames
        · rw [hsame]
          exact hmoves.type.imp id fun hnamed => hnamed.2
        · exact Or.inr hnames

/-! ### The validators -/

theorem firstProblem_ok : ∀ {checks : List Check}, firstProblem checks = .ok () →
    ∀ check ∈ checks, check = .ok ()
  | .ok () :: checks, h, check, hmem => by
      rcases List.mem_cons.mp hmem with rfl | hmem
      · rfl
      · exact firstProblem_ok (show firstProblem checks = .ok () from h) check hmem

theorem accountTypeOf_id {T : Int} {type : AccountType} (h : accountTypeOf T = some type) :
    T = (type.id : Int) := by
  have hfound := List.find?_some h
  exact of_decide_eq_true hfound

theorem AccountType.id_injective {a b : AccountType} (h : a.id = b.id) : a = b := by
  cases a <;> cases b <;> first | rfl | cases h

/-- A type the validator lets through is the one the account has, or no higher than the
editor's. -/
theorem invalidAccountType_ok {editor user : Account} {args : Args}
    (h : invalidAccountType env editor user args = .ok ()) {type : AccountType}
    (hnames : args.Names env type) :
    type = user.accountType ∨ type.id ≤ editor.accountType.id := by
  obtain ⟨raw, T, hraw, hT, htype⟩ := hnames
  have hid := accountTypeOf_id htype
  simp only [invalidAccountType, hraw, hT, htype] at h
  split at h
  · rename_i hsame
    rw [hid] at hsame
    exact Or.inl (AccountType.id_injective (by exact_mod_cast hsame))
  split at h
  · cases h
  unfold Check.require at h
  split at h
  · rename_i hceiling
    right
    have hnot : ¬(editor.accountType.id : Int) < T := by simpa using hceiling
    omega
  · cases h

/-! ### The route -/

/-- An edit that has got past the checks. -/
structure Admitted (env : Env) (st : Store) (editorID : Nat) (args : Args) (t : Tick)
    (e : Edit) : Prop where
  checked : ∃ editor user, st.account? editorID = some editor ∧ user ∈ st.accounts ∧
    canEditUser editor.toUser user.toUser = true ∧
    processAccountForm env st editor user args.withoutBlanks t = .ok () ∧
    e = { editorID, uid := user.id, args := args.withoutBlanks, loaded := user }

/-- Until then only the editor's password may have been hashed again. -/
theorem beginEdit_cases (env : Env) (st : Store) (editorID : Nat) (username : String)
    (args : Args) (t : Tick) :
    ((beginEdit env st editorID username args t).2 = st ∨
      ∃ passwd, (beginEdit env st editorID username args t).2 =
        st.updateAccount editorID (Account.setPasswd passwd)) ∧
    ∀ e, (beginEdit env st editorID username args t).1 = .ok e →
      Admitted env st editorID args t e := by
  unfold beginEdit
  split
  · exact ⟨Or.inl rfl, fun e h => by cases h⟩
  split
  · exact ⟨Or.inl rfl, fun e h => by cases h⟩
  rename_i editor heditor
  split
  · exact ⟨Or.inl rfl, fun e h => by cases h⟩
  rename_i user huser
  split
  · exact ⟨Or.inl rfl, fun e h => by cases h⟩
  rename_i hedit
  have hid : editor.id = editorID := (Store.account?_mem heditor).2
  have hwrites : ∀ p : Prop, [Decidable p] → ∀ password,
      (if p then st else (st.checkPassword env t editor password).2) = st ∨
      ∃ passwd, (if p then st else (st.checkPassword env t editor password).2) =
        st.updateAccount editorID (Account.setPasswd passwd) := by
    intro p _ password
    split
    · exact Or.inl rfl
    · rw [← hid]
      exact Or.inr ⟨_, rfl⟩
  dsimp only
  split
  · exact ⟨hwrites _ _, fun e h => by cases h⟩
  · exact ⟨hwrites _ _, fun e h => by cases h⟩
  rename_i hform
  split
  · exact ⟨hwrites _ _, fun e h => by cases h⟩
  · refine ⟨hwrites _ _, fun e h => ?_⟩
    obtain rfl := Except.ok.inj h
    exact ⟨editor, user, heditor, List.mem_of_find?_eq_some huser, by simpa using hedit, hform,
      rfl⟩

/-! ### Every edit -/

/-- A form that is posted to `account_edit_post`. -/
structure EditRequest where
  editorID : Nat
  username : String
  args : Args
  t : Tick
  ticks : Task → Tick := fun _ => t

def EditRequest.post (env : Env) (st : Store) (r : EditRequest) : Store :=
  (accountEditPost env st r.editorID r.username r.args r.t r.ticks).2

/-- Nothing has changed about the account. -/
structure Untouched (uid : Nat) (st st' : Store) : Prop where
  account : st'.account? uid = st.account? uid
  keys : st'.sshPubKeys.filter (·.userID == uid) = st.sshPubKeys.filter (·.userID == uid)
  sessions : st'.sessions.filter (·.usersID == uid) = st.sessions.filter (·.usersID == uid)

theorem Confined.untouched {v : Nat} (h : Confined uid st st') (hv : v ≠ uid) :
    Untouched v st st' :=
  ⟨h.account v hv, h.keys v hv, h.sessions v hv⟩

theorem Untouched.trans (h : Untouched uid st st') (h' : Untouched uid st' st'') :
    Untouched uid st st'' :=
  ⟨h'.account.trans h.account, h'.keys.trans h.keys, h'.sessions.trans h.sessions⟩

/-- **What an edit does.**  It gets by with the editor's own row, or goes through for an account
the editor may edit. -/
theorem post_cases (env : Env) (st : Store) (r : EditRequest) :
    ∃ mid, (mid = st ∨ ∃ passwd, mid = st.updateAccount r.editorID (Account.setPasswd passwd)) ∧
      (r.post env st = mid ∨ ∃ e, Admitted env st r.editorID r.args r.t e ∧
        r.post env st = (runTasks env (ofClient r.t r.ticks) tasks e mid).2) := by
  obtain ⟨hmid, hadmitted⟩ := beginEdit_cases env st r.editorID r.username r.args r.t
  refine ⟨_, hmid, ?_⟩
  unfold EditRequest.post accountEditPost
  cases hbegin : beginEdit env st r.editorID r.username r.args r.t with
  | mk result mid =>
      rw [hbegin] at hadmitted
      cases result with
      | error response => exact Or.inl rfl
      | ok e =>
          refine Or.inr ⟨e, hadmitted e rfl, ?_⟩
          dsimp only
          cases hrun : runTasks env (ofClient r.t r.ticks) tasks e mid with
          | mk result st' => cases result <;> rfl

theorem setPasswd_confined (st : Store) (uid : Nat) (passwd : String) :
    Confined uid st (st.updateAccount uid (Account.setPasswd passwd)) :=
  .updateAccount st fun _ hid => hid

theorem post_ids (env : Env) (st : Store) (r : EditRequest) :
    (r.post env st).accounts.map (·.id) = st.accounts.map (·.id) := by
  obtain ⟨mid, hmid, hpost⟩ := post_cases env st r
  have hids : mid.accounts.map (·.id) = st.accounts.map (·.id) := by
    rcases hmid with rfl | ⟨passwd, rfl⟩
    · rfl
    · exact (setPasswd_confined st r.editorID passwd).ids
  rcases hpost with hpost | ⟨e, -, hpost⟩
  · rw [hpost, hids]
  · rw [hpost, (runTasks_confined env _ tasks e mid).ids, hids]

/-- With the primary key of `Users`, a row is the one a look-up by its id finds. -/
theorem Store.account?_of_mem {u : Account} (hids : (st.accounts.map (·.id)).Nodup)
    (hu : u ∈ st.accounts) : st.account? u.id = some u :=
  Table.find?_key hids hu

/-- Whoever is of a higher type than the editor is left alone. -/
theorem post_untouched (hids : (st.accounts.map (·.id)).Nodup) {r : EditRequest}
    {editor user : Account} (heditor : st.account? r.editorID = some editor)
    (huser : st.account? uid = some user)
    (habove : editor.accountType.id < user.accountType.id) :
    Untouched uid st (r.post env st) := by
  obtain ⟨mid, hmid, hpost⟩ := post_cases env st r
  have hne : uid ≠ r.editorID := by
    rintro rfl
    obtain rfl := Option.some.inj (heditor.symm.trans huser)
    omega
  have hfirst : Untouched uid st mid := by
    rcases hmid with rfl | ⟨passwd, rfl⟩
    · exact ⟨rfl, rfl, rfl⟩
    · exact (setPasswd_confined st r.editorID passwd).untouched hne
  rcases hpost with hpost | ⟨e, ⟨editor', target, heditor', htarget, hedit, -, rfl⟩, hpost⟩
  · rw [hpost]
    exact hfirst
  rw [hpost]
  refine hfirst.trans ((runTasks_confined env _ tasks _ mid).untouched ?_)
  rintro rfl
  have hfound := Store.account?_of_mem hids htarget
  obtain rfl := Option.some.inj (hfound.symm.trans huser)
  obtain rfl := Option.some.inj (heditor'.symm.trans heditor)
  simp only [canEditUser, Bool.and_eq_true, decide_eq_true_eq] at hedit
  omega

/-- Of type `k` or above after an edit from below `k` is only what was so before. -/
theorem post_below (hids : (st.accounts.map (·.id)).Nodup) {k : AccountType} {r : EditRequest}
    (hbelow : ∀ editor, st.account? r.editorID = some editor → editor.accountType.id < k.id)
    {u' : Account} (hu' : (r.post env st).account? uid = some u')
    (htype : k.id ≤ u'.accountType.id) : st.account? uid = some u' := by
  obtain ⟨mid, hmid, hpost⟩ := post_cases env st r
  -- the editor's own row keeps its type
  have hback : ∀ {v : Nat} {u : Account}, mid.account? v = some u →
      ∃ u₀, st.account? v = some u₀ ∧ u₀.accountType = u.accountType ∧
        (k.id ≤ u.accountType.id → u₀ = u) := by
    intro v u hu
    rcases hmid with rfl | ⟨passwd, rfl⟩
    · exact ⟨u, hu, rfl, fun _ => rfl⟩
    rw [Store.account?_updateAccount (f := Account.setPasswd passwd) fun _ hid => hid] at hu
    split at hu
    · rename_i heq
      subst heq
      obtain ⟨u₀, hu₀, rfl⟩ := Option.map_eq_some_iff.mp hu
      refine ⟨u₀, hu₀, rfl, fun hle => ?_⟩
      have hlt := hbelow u₀ hu₀
      have hsame : (u₀.setPasswd passwd).accountType = u₀.accountType := rfl
      rw [hsame] at hle
      omega
    · exact ⟨u, hu, rfl, fun _ => rfl⟩
  have hmid' : mid.account? uid = some u' → st.account? uid = some u' := by
    intro hu
    obtain ⟨u₀, hu₀, -, hsame⟩ := hback hu
    rw [hu₀, hsame htype]
  rcases hpost with hpost | ⟨e, hadmitted, hpost⟩
  · rw [hpost] at hu'
    exact hmid' hu'
  obtain ⟨editor, target, heditor, htarget, hedit, hform, rfl⟩ := hadmitted
  rw [hpost] at hu'
  by_cases hne : uid = target.id
  · subst hne
    have hfound := Store.account?_of_mem hids htarget
    have hlt := hbelow editor heditor
    simp only [canEditUser, Bool.and_eq_true, decide_eq_true_eq] at hedit
    have hvalid : invalidAccountType env editor target r.args.withoutBlanks = .ok () :=
      firstProblem_ok hform _ (by simp [checks])
    obtain ⟨u, hu, hold | hnames⟩ := runTasks_type env _ tasks _ mid u' hu'
    · obtain ⟨u₀, hu₀, htype₀, -⟩ := hback hu
      obtain rfl := Option.some.inj (hfound.symm.trans hu₀)
      rw [hold, ← htype₀] at htype
      omega
    · rcases invalidAccountType_ok hvalid hnames with hsame | hle
      · rw [hsame] at htype
        omega
      · omega
  · rw [(runTasks_confined env _ tasks _ mid).account uid hne] at hu'
    exact hmid' hu'

/--
**Nobody climbs.**  As long as every editor is below `k`, an account of type `k` or above is one
that was there from the start, with every column as it was; and no edit, whoever makes it,
changes anything about an account whose type is above the editor's.
-/
theorem edits_keep_below (env : Env) (k : AccountType) (st : Store)
    (requests : List EditRequest) (hids : (st.accounts.map (·.id)).Nodup) :
    (Run.Guarded (EditRequest.post env)
        (fun st r => ∀ editor, st.account? r.editorID = some editor →
          editor.accountType.id < k.id) st requests →
      Run.Along (EditRequest.post env)
        (fun st' => ∀ uid u, st'.account? uid = some u → k.id ≤ u.accountType.id →
          st.account? uid = some u) st requests) ∧
    Run.Guarded (EditRequest.post env)
      (fun st r => ∀ editor uid user, st.account? r.editorID = some editor →
        st.account? uid = some user → editor.accountType.id < user.accountType.id →
        Untouched uid st (r.post env st)) st requests := by
  constructor
  · intro hguard
    have hall := Run.along_of_guarded
      (I := fun st' : Store => (st'.accounts.map (·.id)).Nodup ∧
        ∀ uid u, st'.account? uid = some u → k.id ≤ u.accountType.id → st.account? uid = some u)
      (fun st' r h hbelow => ⟨(post_ids env st' r).symm ▸ h.1, fun uid u hu htype =>
        h.2 uid u (post_below h.1 hbelow hu htype) htype⟩)
      ⟨hids, fun _ _ hu _ => hu⟩ hguard
    exact hall.imp fun _ h => h.2
  · refine Run.Guarded.of_inv (I := fun st : Store => (st.accounts.map (·.id)).Nodup)
      (G := fun _ _ => True) ?_ hids (Run.guarded_of_forall fun _ _ => trivial)
    intro st r hids _
    exact ⟨fun editor uid user heditor huser habove =>
      post_untouched hids heditor huser habove, (post_ids env st r).symm ▸ hids⟩

end

/-- `int` on the decimal digits. -/
def digits (v : String) : Option Int :=
  if v = "" then none
  else v.toList.foldlM (fun (n : Int) c =>
    if c.isDigit then some (10 * n + (c.toNat - '0'.toNat : Nat)) else none) 0

/-- A site that hashes a password by putting a dollar sign in front of it. -/
def Env.plain : Env where
  cfg := AccountMaint.shortConfig
  lib := .plain
  int := digits
  bool v := ["True", "False", "on", "off", "1", "0"].contains v
  validUsername v := v != ""
  usernameMinLen := 1
  usernameMaxLen := 16
  passwdMinLen := 1
  isDisposableEmail _ := false
  validHomepage _ := true
  validPgpFingerprint v := v.length == 40
  parseSSHKeys _ := none
  getFingerprint := id
  supportedLanguages := ["en"]
  supportedTimezones := ["UTC"]
  captchaSalts := []
  captchaAnswer _ := ""
  checkpw password passwd := passwd == "$" ++ password
  hashpw password _ := "$" ++ password
  md5 := id
  loginTimeout := 14400
  persistentCookieTimeout := 2592000

/-- An account whose password is its name. -/
def member (id : Nat) (accountType : AccountType) (username : String) : Account where
  toUser := account id accountType username
  passwd := "$" ++ username

def smallStore : Store where
  accounts := [member 1 .user "alice", member 2 .packageMaintainer "bob", member 3 .developer "carol"]

/-- The form with the name and the address of the account, and the editor's password. -/
def filledIn (username passwd : String) : Args where
  U := some username
  E := some (username ++ "@example.org")
  passwd := some passwd

/-- Bob makes Alice a Package Maintainer. -/
def promoteAlice : EditRequest where
  editorID := 2
  username := "alice"
  args := { filledIn "alice" "bob" with T := some "2" }
  t := { now := 1000000 }

/-- Alice tries to make Carol a user. -/
def demoteCarol : EditRequest where
  editorID := 1
  username := "carol"
  args := { filledIn "carol" "alice" with T := some "1" }
  t := { now := 2000000 }

/-- Both are below a Developer when they post. -/
theorem climb_below : Run.Guarded (EditRequest.post .plain)
    (fun st r => ∀ editor, st.account? r.editorID = some editor →
      editor.accountType.id < AccountType.developer.id) smallStore [promoteAlice, demoteCarol] := by
  have hbob : (smallStore.account? 2).map (·.accountType) =
      some AccountType.packageMaintainer := by
    decide
  have halice : ((promoteAlice.post .plain smallStore).account? 1).map (·.accountType) =
      some AccountType.packageMaintainer := by
    decide +kernel
  refine ⟨fun editor h => ?_, fun editor h => ?_, trivial⟩
  · rw [show smallStore.account? promoteAlice.editorID = smallStore.account? 2 from rfl] at h
    rw [h] at hbob
    have htype : editor.accountType = .packageMaintainer := Option.some.inj hbob
    rw [htype]
    decide
  · rw [show demoteCarol.editorID = 1 from rfl] at h
    rw [h] at halice
    have htype : editor.accountType = .packageMaintainer := Option.some.inj halice
    rw [htype]
    decide

theorem edits_keep_below_climb :
    Run.Along (EditRequest.post .plain)
      (fun st' => ∀ uid u, st'.account? uid = some u →
        AccountType.developer.id ≤ u.accountType.id → smallStore.account? uid = some u)
      smallStore [promoteAlice, demoteCarol] :=
  (edits_keep_below .plain .developer smallStore [promoteAlice, demoteCarol] (by decide)).1
    climb_below

end Aurweb.Users
