/-
A suspended account has no session.

Whoever suspends an account closes its sessions a few transactions later, and both ways to log
in look at the suspension before they open one.  The invariant ties the three together: as long
as a suspended account has a session, some edit of it is still to close its sessions.  What the
invariant does not survive is a login that looked before the account was suspended and opens its
session after the sessions were closed, and an edit that ends between the two.
-/
import Aurweb.Proofs.Users
import Aurweb.Sessions

namespace Aurweb.Users

/-- The edit is past the point where it suspends, and is still to close the sessions. -/
structure Edit.Closing (e : Edit) : Prop where
  truthy : e.args.S.getD "" ≠ ""
  written : Task.simple ∉ e.todo
  left : Task.suspend ∈ e.todo ∨ Task.deleteSessions ∈ e.todo ∧ e.found = true

/-- An edit of the account that is still to close its sessions is under way. -/
def Office.Closes (o : Office) (uid : Nat) : Prop :=
  ∃ e, Request.edit e ∈ o.inFlight ∧ e.uid = uid ∧ e.Closing

def Suspended (st : Store) (uid : Nat) : Prop :=
  ∃ u, st.account? uid = some u ∧ u.suspended = true

/-- When nothing is under way, no session of a suspended account is accepted. -/
def Sealed (env : Env) (o : Office) : Prop :=
  o.inFlight = [] → ∀ uid, Suspended o.store uid → ∀ sid remembered now,
    (authenticate env o.store sid remembered now).1 ≠ some uid

/-- The account whose session the next transaction of the request opens. -/
def Request.opens : Request → Option Nat
  | .login uid => some uid
  | .sso uid => some uid
  | .edit e => if e.todo.head? = some .login ∧ e.approved = true then some e.uid else none

/-- The next transaction raises, and the sessions stay as they are. -/
def Request.CutShort (env : Env) (t : Tick) (st : Store) : Request → Prop
  | .edit e => e.Closing ∧ ∃ task rest exception, e.todo = task :: rest ∧
      task.run env t e st = .error exception
  | _ => False

/-- A session is not opened for a suspended account unless its sessions are about to be closed,
and no edit that is to close them ends before it has. -/
def InTime (env : Env) (o : Office) : Event → Prop
  | .advance i t => ∀ r, o.inFlight[i]? = some r →
      (∀ uid, r.opens = some uid → Suspended o.store uid → o.Closes uid) ∧
        ¬r.CutShort env t o.store
  | .fail i => ∀ e, o.inFlight[i]? = some (.edit e) → ¬e.Closing
  | _ => True

/-- The invariant. -/
structure Watched (o : Office) : Prop where
  tasks : ∀ e, Request.edit e ∈ o.inFlight → e.todo <:+ tasks
  closes : ∀ uid, Suspended o.store uid → ∀ s ∈ o.store.sessions, s.usersID = uid → o.Closes uid

section

variable {env : Env} {t : Tick} {o : Office} {st st' : Store}

/-! ### What is accepted -/

theorem authenticate_user {sid : String} {remembered : Bool} {now uid : Nat}
    (h : (authenticate env st sid remembered now).1 = some uid) :
    ∃ s ∈ st.sessions, s.usersID = uid := by
  unfold authenticate at h
  split at h
  · cases h
  split at h
  · cases h
  rename_i record hrecord
  split at h
  · cases h
  · exact ⟨record, List.mem_of_find?_eq_some hrecord, Option.some.inj h⟩

theorem authenticate_frame (env : Env) (st : Store) (sid : String) (remembered : Bool)
    (now : Nat) :
    ∃ p, (authenticate env st sid remembered now).2 =
      { st with sessions := Table.delete p st.sessions } := by
  have hnone : st = { st with sessions := Table.delete (fun _ => false) st.sessions } := by
    rw [Table.delete_eq_self fun _ _ => rfl]
  unfold authenticate
  split
  · exact ⟨_, hnone⟩
  split
  · exact ⟨_, hnone⟩
  split
  · exact ⟨_, rfl⟩
  · exact ⟨_, hnone⟩

theorem Watched.sealed (h : Watched o) : Sealed env o := by
  intro hempty uid hsuspended sid remembered now haccepted
  obtain ⟨s, hs, huid⟩ := authenticate_user haccepted
  obtain ⟨e, he, -⟩ := h.closes uid hsuspended s hs huid
  rw [hempty] at he
  cases he

/-! ### What is under way -/

/-- Requests other than the one that has ended are still there. -/
theorem mem_erased {l : List Request} {i : Nat} {r : Request} (hmem : r ∈ l)
    (hne : l[i]? ≠ some r) : r ∈ l.eraseIdx i := by
  obtain ⟨j, hj⟩ := List.getElem?_of_mem hmem
  refine List.mem_eraseIdx_iff_getElem?.mpr ⟨j, ?_, hj⟩
  rintro rfl
  exact hne hj

theorem mem_others {l : List Request} {i : Nat} {r : Request} {left : Option Request}
    (hmem : r ∈ l) (hne : l[i]? ≠ some r) :
    r ∈ l.take i ++ left.toList ++ l.drop (i + 1) := by
  have herased := mem_erased hmem hne
  rw [List.eraseIdx_eq_take_drop_succ, List.mem_append] at herased
  simp only [List.mem_append]
  rcases herased with htake | hdrop
  · exact Or.inl (Or.inl htake)
  · exact Or.inr hdrop

theorem mem_advanced {l : List Request} {i : Nat} {r : Request} {left : Option Request}
    (h : r ∈ l.take i ++ left.toList ++ l.drop (i + 1)) : r ∈ l ∨ left = some r := by
  simp only [List.mem_append, Option.mem_toList] at h
  rcases h with (htake | hleft) | hdrop
  · exact Or.inl (List.mem_of_mem_take htake)
  · exact Or.inr hleft
  · exact Or.inl (List.mem_of_mem_drop hdrop)

theorem strtobool_truthy {value : Option String} (h : strtobool env value = true) :
    value.getD "" ≠ "" := by
  cases value with
  | none => cases h
  | some v =>
      simp only [strtobool, Bool.and_eq_true, bne_iff_ne] at h
      exact h.1

/-- The tasks after one of them. -/
theorem rest_of_suffix {task : Task} {rest : List Task} (h : task :: rest <:+ tasks) :
    rest = (tasks.dropWhile (· != task)).tail := by
  simp only [tasks, List.suffix_cons_iff, List.suffix_nil, List.cons.injEq, reduceCtorEq,
    or_false] at h
  rcases h with ⟨rfl, rfl⟩ | ⟨rfl, rfl⟩ | ⟨rfl, rfl⟩ | ⟨rfl, rfl⟩ | ⟨rfl, rfl⟩ | ⟨rfl, rfl⟩ |
    ⟨rfl, rfl⟩ | ⟨rfl, rfl⟩ | ⟨rfl, rfl⟩ | ⟨rfl, rfl⟩ <;> rfl

/-- An edit ends with its sessions: the look at them, then the transaction. -/
theorem sessions_of_suffix {task : Task} {rest : List Task} (h : task :: rest <:+ tasks) :
    .simple ∉ rest ∧ (task ≠ .suspend → task ≠ .deleteSessions → .suspend ∈ rest) ∧
      (task = .suspend → .deleteSessions ∈ rest) ∧ (task = .deleteSessions → rest = []) := by
  rw [rest_of_suffix h]
  cases task <;> decide

theorem Suspended.congr {uid : Nat} (h : Suspended st' uid)
    (haccount : st'.account? uid = st.account? uid) : Suspended st uid := by
  unfold Suspended at *
  rwa [haccount] at h

/-- A write that keeps the column suspends nobody. -/
theorem Suspended.of_updateAccount {v uid : Nat} {f : Account → Account}
    (hid : ∀ u, (f u).id = u.id) (hflag : ∀ u, (f u).suspended = u.suspended)
    (h : Suspended (st.updateAccount v f) uid) : Suspended st uid := by
  obtain ⟨u, hu, hsuspended⟩ := h
  rw [Store.account?_updateAccount fun u hu => (hid u).trans hu] at hu
  split at hu
  · obtain ⟨u₀, hu₀, rfl⟩ := Option.map_eq_some_iff.mp hu
    exact ⟨u₀, hu₀, (hflag u₀).symm.trans hsuspended⟩
  · exact ⟨u, hu, hsuspended⟩

/-! ### Every transaction -/

/-- A session of the account was there before, or has just been opened. -/
theorem mem_sessionRows {t : Tick} {uid : Nat} {s : Session} (hs : s ∈ sessionRows t uid st) :
    s.usersID = uid ∨ s ∈ st.sessions := by
  by_cases huid : s.usersID = uid
  · exact Or.inl huid
  · have hmem : s ∈ (sessionRows t uid st).filter (·.usersID == s.usersID) :=
      List.mem_filter.mpr ⟨hs, by simp⟩
    rw [sessionRows_other t st huid] at hmem
    exact Or.inr (List.mem_filter.mp hmem).1

/-- Opening a session suspends nobody, and opens one for that account only. -/
theorem openSession_suspended {uid v : Nat} (h : openSession t uid st = .ok st')
    (hsuspended : Suspended st' v) : Suspended st v := by
  obtain ⟨-, -, rfl⟩ := openSession_ok h
  exact Suspended.of_updateAccount (f := Account.loggedIn t) (fun _ => rfl) (fun _ => rfl)
    hsuspended

theorem openSession_sessions {uid : Nat} (h : openSession t uid st = .ok st') {s : Session}
    (hs : s ∈ st'.sessions) : s.usersID = uid ∨ s ∈ st.sessions := by
  obtain ⟨-, -, rfl⟩ := openSession_ok h
  exact mem_sessionRows hs

theorem insertSession_suspended {uid v : Nat} (h : insertSession t uid st = .ok st')
    (hsuspended : Suspended st' v) : Suspended st v := by
  unfold insertSession at h
  split at h
  · cases h
  obtain rfl := Except.ok.inj h
  let f : Account → Account := fun u =>
    { u with lastLogin := timestamp t.now, lastLoginIPAddress := some t.clientIP }
  have hsuspended' : Suspended (st.updateAccount uid f) v := hsuspended
  exact Suspended.of_updateAccount (f := f) (fun _ => rfl) (fun _ => rfl) hsuspended'

theorem insertSession_sessions {uid : Nat} (h : insertSession t uid st = .ok st') {s : Session}
    (hs : s ∈ st'.sessions) : s.usersID = uid ∨ s ∈ st.sessions := by
  unfold insertSession at h
  split at h
  · cases h
  obtain rfl := Except.ok.inj h
  rcases List.mem_append.mp hs with hs | hs
  · exact Or.inr hs
  · rw [List.mem_singleton.mp hs]
    exact Or.inl rfl

/-- An edit that is to close the sessions is still to close them after its next task, unless
that is the one that does. -/
theorem Edit.Closing.goOn {e e' : Edit} {task : Task} {rest : List Task} (h : e.Closing)
    (htodo : e.todo = task :: rest) (hsuffix : e.todo <:+ tasks)
    (hran : Ran env t e task st e' st') (hopen : task = .suspend → (st.session? e.uid).isSome)
    (hleft : task ≠ .deleteSessions ∨ e.found = false) :
    rest ≠ [] ∧ Edit.Closing { e' with todo := rest } := by
  obtain ⟨hsimple, hlook, hdelete, hlast⟩ := sessions_of_suffix (htodo ▸ hsuffix)
  obtain ⟨htruthy, hwritten, hto⟩ := h
  have htruthy' : e'.args.S.getD "" ≠ "" := by
    rw [hran.request.args]
    exact htruthy
  by_cases hsuspend : task = .suspend
  · have hfound : e'.found = true := by
      rw [hran.found, if_pos hsuspend, hopen hsuspend]
      simpa using htruthy
    have hmem := hdelete hsuspend
    exact ⟨List.ne_nil_of_mem hmem, htruthy', hsimple, Or.inr ⟨hmem, hfound⟩⟩
  have hnotLast : task ≠ .deleteSessions := by
    intro htask
    have hnot : e.found = false := hleft.resolve_left fun hne => hne htask
    rw [htodo, hlast htask, htask, hnot] at hto
    simp at hto
  have hmem := hlook hsuspend hnotLast
  exact ⟨List.ne_nil_of_mem hmem, htruthy', hsimple, Or.inl hmem⟩

/-- The office after a request has moved on. -/
def Office.move (o : Office) (i : Nat) (left : Option Request) (store : Store) : Office :=
  { store, inFlight := o.inFlight.take i ++ left.toList ++ o.inFlight.drop (i + 1) }

/-- Another edit that is to close the sessions is not disturbed. -/
theorem Office.Closes.others {uid i : Nat} {r : Request} {left : Option Request} {store : Store}
    (hr : o.inFlight[i]? = some r) (h : o.Closes uid)
    (hother : ∀ e, r = .edit e → e.uid = uid → ¬e.Closing) : (o.move i left store).Closes uid := by
  obtain ⟨e, he, huid, hclosing⟩ := h
  refine ⟨e, mem_others he fun hsame => ?_, huid, hclosing⟩
  exact hother e (Option.some.inj (hr.symm.trans hsame)) huid hclosing

/-- A request that has opened a session for an account, or ended without one. -/
theorem Watched.opened {i uid : Nat} {r : Request} (h : Watched o)
    (hr : o.inFlight[i]? = some r) (hedit : ∀ e, r ≠ .edit e) (hopens : r.opens = some uid)
    (hguard : Suspended o.store uid → o.Closes uid)
    (hsuspended : ∀ v, Suspended st' v → Suspended o.store v)
    (hsessions : ∀ s ∈ st'.sessions, s.usersID = uid ∨ s ∈ o.store.sessions) :
    Watched (o.move i none st') where
  tasks e he := by
    rcases mem_advanced he with hold | hleft
    · exact h.tasks e hold
    · cases hleft
  closes v hv s hs hsv := by
    have hcloses : o.Closes v := by
      rcases hsessions s hs with huid | hold
      · obtain rfl := hsv.symm.trans huid
        exact hguard (hsuspended v hv)
      · exact h.closes v (hsuspended v hv) s hold hsv
    exact hcloses.others hr fun e he => absurd he (hedit e)

/-- An edit of which nothing is left, and which has written nothing. -/
theorem Watched.ended {i : Nat} {e : Edit} (h : Watched o)
    (hr : o.inFlight[i]? = some (.edit e)) (hclosing : ¬e.Closing) :
    Watched (o.move i none o.store) where
  tasks e' he := by
    rcases mem_advanced he with hold | hleft
    · exact h.tasks e' hold
    · cases hleft
  closes v hv s hs hsv := by
    refine (h.closes v hv s hs hsv).others hr fun e' he _ => ?_
    obtain rfl := Request.edit.inj he
    exact hclosing

theorem session?_isSome {uid : Nat} {s : Session} (hs : s ∈ st.sessions) (huid : s.usersID = uid) :
    (st.session? uid).isSome :=
  List.find?_isSome.mpr ⟨s, hs, by simpa using huid⟩

theorem mem_sessions_of_filter {uid : Nat} {s : Session}
    (h : st'.sessions.filter (·.usersID == uid) = st.sessions.filter (·.usersID == uid))
    (hs : s ∈ st'.sessions) (huid : s.usersID = uid) : s ∈ st.sessions := by
  have hmem : s ∈ st'.sessions.filter (·.usersID == uid) :=
    List.mem_filter.mpr ⟨hs, by simpa using huid⟩
  rw [h] at hmem
  exact (List.mem_filter.mp hmem).1

/-- The step of an edit: one task has gone through. -/
theorem Watched.edited {i : Nat} {e e' : Edit} {task : Task} {rest : List Task} (h : Watched o)
    (hr : o.inFlight[i]? = some (.edit e)) (htodo : e.todo = task :: rest)
    (hran : Ran env t e task o.store e' st')
    (hguard : task = .login → e.approved = true → Suspended o.store e.uid → o.Closes e.uid) :
    Watched (o.move i (if rest.isEmpty then none else some (.edit { e' with todo := rest }))
      st') where
  tasks e₁ he₁ := by
    rcases mem_advanced he₁ with hold | hleft
    · exact h.tasks e₁ hold
    · split at hleft
      · cases hleft
      obtain rfl := Request.edit.inj (Option.some.inj hleft)
      exact (List.suffix_cons task rest).trans
        (htodo ▸ h.tasks e (List.mem_of_getElem? hr))
  closes v hv s hs hsv := by
    by_cases hne : v = e.uid
    · subst hne
      have hsuffix := h.tasks e (List.mem_of_getElem? hr)
      have hnew : rest ≠ [] → Edit.Closing { e' with todo := rest } →
          (o.move i (if rest.isEmpty then none else some (.edit { e' with todo := rest }))
            st').Closes e.uid := by
        intro hrest hclosing
        refine ⟨{ e' with todo := rest }, ?_, hran.request.uid, hclosing⟩
        rw [if_neg (by simpa using hrest)]
        simp [Office.move]
      obtain ⟨u, u', hu, hu', hmoves⟩ := hran.account
      have hkept : ¬(task = .deleteSessions ∧ e.found = true) := by
        intro hdeleted
        have hs' : s ∈ sessionsAfter t e o.store task := hran.sessions ▸ hs
        rw [sessionsAfter, if_neg (by simp [hdeleted.1]), if_pos hdeleted] at hs'
        have hgone := (Table.mem_delete.mp hs').2
        simp [hsv] at hgone
      obtain ⟨u'', hu'', hflag⟩ := hv
      obtain rfl := Option.some.inj (hu''.symm.trans hu')
      rcases hmoves.suspended with hsame | ⟨htask, hform⟩
      · have hbefore : Suspended o.store e.uid := ⟨u, hu, hsame.symm.trans hflag⟩
        have hcloses : o.Closes e.uid ∧ (task = .suspend → s ∈ o.store.sessions) := by
          by_cases hlogin : task = .login ∧ e.approved = true
          · refine ⟨hguard hlogin.1 hlogin.2 hbefore, fun htask => ?_⟩
            rw [hlogin.1] at htask
            cases htask
          · have hold : s ∈ o.store.sessions := by
              have hs' : s ∈ sessionsAfter t e o.store task := hran.sessions ▸ hs
              rw [sessionsAfter, if_neg hlogin, if_neg hkept] at hs'
              exact hs'
            exact ⟨h.closes e.uid hbefore s hold hsv, fun _ => hold⟩
        by_cases hclosing : e.Closing
        · have hgoOn := hclosing.goOn htodo hsuffix hran
            (fun htask => session?_isSome (hcloses.2 htask) hsv) ?_
          · exact hnew hgoOn.1 hgoOn.2
          · by_cases htask : task = .deleteSessions
            · exact Or.inr (by simpa [htask] using hkept)
            · exact Or.inl htask
        · replace hcloses := hcloses.1
          refine hcloses.others hr fun e₁ he₁ _ => ?_
          obtain rfl := Request.edit.inj he₁
          exact hclosing
      · obtain ⟨hsimple, hlook, -⟩ := sessions_of_suffix (htodo ▸ hsuffix)
        have hmem := hlook (by rw [htask]; decide) (by rw [htask]; decide)
        refine hnew (List.ne_nil_of_mem hmem) ⟨?_, hsimple, Or.inl hmem⟩
        rw [show Edit.args { e' with todo := rest } = e.args from hran.request.args]
        exact strtobool_truthy (hform.symm.trans hflag)
    · -- another account: its rows are as they were
      have hold := mem_sessions_of_filter (hran.confined.sessions v hne) hs hsv
      have hcloses := h.closes v (hv.congr (hran.confined.account v hne)) s hold hsv
      refine hcloses.others hr fun e₁ he₁ huid => ?_
      obtain rfl := Request.edit.inj he₁
      exact absurd huid.symm hne

/-! ### Every event -/

/-- A password that has been hashed again suspends nobody and opens nothing. -/
def Rehashed (st st' : Store) : Prop :=
  st' = st ∨ ∃ uid passwd, st' = st.updateAccount uid (Account.setPasswd passwd)

theorem Rehashed.suspended {uid : Nat} (h : Rehashed st st') (hs : Suspended st' uid) :
    Suspended st uid := by
  rcases h with rfl | ⟨v, passwd, rfl⟩
  · exact hs
  · exact Suspended.of_updateAccount (f := Account.setPasswd passwd) (fun _ => rfl) (fun _ => rfl)
      hs

theorem Rehashed.sessions (h : Rehashed st st') : st'.sessions = st.sessions := by
  rcases h with rfl | ⟨v, passwd, rfl⟩ <;> rfl

theorem checkLogin_rehashed (env : Env) (st : Store) (user passwd : String) (t : Tick) :
    Rehashed st (checkLogin env st user passwd t).2 := by
  unfold checkLogin
  split
  · exact Or.inl rfl
  rename_i u _
  have happroved : Rehashed st (loginApproved env t u passwd st).2 := by
    unfold loginApproved
    split
    · exact Or.inl rfl
    · exact Or.inr ⟨u.id, _, rfl⟩
  split
  · rename_i st' heq
    rw [heq] at happroved
    exact happroved
  · rename_i st' heq
    rw [heq] at happroved
    exact happroved

/-- A request is admitted; before that nothing but a password may have been hashed again. -/
theorem Watched.welcome {r : Option Request} (h : Watched o) (hstore : Rehashed o.store st')
    (htodo : ∀ e, r = some (.edit e) → e.todo <:+ Users.tasks) : Watched (o.welcome st' r) where
  tasks e he := by
    rcases List.mem_append.mp he with hold | hnew
    · exact h.tasks e hold
    · exact htodo e (Option.mem_toList.mp hnew)
  closes v hv s hs hsv := by
    have hs' : s ∈ st'.sessions := hs
    rw [hstore.sessions] at hs'
    obtain ⟨e, he, hclosing⟩ := h.closes v (hstore.suspended hv) s hs' hsv
    exact ⟨e, List.mem_append_left _ he, hclosing⟩

theorem Watched.advance {i : Nat} {r : Request} (h : Watched o) (hr : o.inFlight[i]? = some r)
    (hguard : InTime env o (.advance i t)) :
    Watched (o.move i (r.advance env t o.store).1 (r.advance env t o.store).2) := by
  obtain ⟨hopens, hcut⟩ := hguard r hr
  have hnone : ∀ {r : Request} {uid : Nat}, o.inFlight[i]? = some r → (∀ e, r ≠ .edit e) →
      r.opens = some uid → (Suspended o.store uid → o.Closes uid) →
      Watched (o.move i none o.store) := fun hr hedit hopens hguard =>
    h.opened hr hedit hopens hguard (fun _ => id) fun _ hs => Or.inr hs
  cases r with
  | login uid =>
      simp only [Request.advance]
      split
      · rename_i st' hopen
        exact h.opened hr (fun _ => by simp) rfl (hopens uid rfl)
          (fun _ => openSession_suspended hopen) fun _ => openSession_sessions hopen
      · exact hnone hr (fun _ => by simp) rfl (hopens uid rfl)
  | sso uid =>
      simp only [Request.advance]
      split
      · rename_i st' hopen
        exact h.opened hr (fun _ => by simp) rfl (hopens uid rfl)
          (fun _ => insertSession_suspended hopen) fun _ => insertSession_sessions hopen
      · exact hnone hr (fun _ => by simp) rfl (hopens uid rfl)
  | edit e =>
      simp only [Request.advance]
      split
      · rename_i hdone
        refine h.ended hr fun hclosing => ?_
        simpa [hdone] using hclosing.left
      rename_i task rest htodo
      split
      · rename_i exception hraised
        exact h.ended hr fun hclosing => hcut ⟨hclosing, task, rest, exception, htodo, hraised⟩
      · rename_i e' st' hok
        refine h.edited hr htodo (Task.run_ok hok) fun htask happroved => hopens e.uid ?_
        simp [Request.opens, htodo, htask, happroved]

theorem watched_step (h : Watched o) {event : Event} (hguard : InTime env o event) :
    Watched (o.step env event) := by
  cases event with
  | login user passwd t =>
      refine h.welcome (checkLogin_rehashed env o.store user passwd t) fun e he => ?_
      obtain ⟨uid, -, huid⟩ := Option.map_eq_some_iff.mp he
      cases huid
  | sso sub t =>
      refine h.welcome (Or.inl rfl) fun e he => ?_
      obtain ⟨uid, -, huid⟩ := Option.map_eq_some_iff.mp he
      cases huid
  | edit editorID username args t =>
      obtain ⟨hstore, hadmitted⟩ := beginEdit_cases env o.store editorID username args t
      have hrehashed : Rehashed o.store (beginEdit env o.store editorID username args t).2 :=
        hstore.imp id fun ⟨passwd, heq⟩ => ⟨editorID, passwd, heq⟩
      simp only [Office.step]
      split
      · rename_i st' heq
        rw [heq] at hrehashed
        exact h.welcome hrehashed fun e he => by cases he
      · rename_i e st' heq
        rw [heq] at hrehashed hadmitted
        refine h.welcome hrehashed fun e' he => ?_
        obtain rfl := Request.edit.inj (Option.some.inj he)
        obtain ⟨_, _, -, -, -, -, rfl⟩ := hadmitted e rfl
        exact List.suffix_refl _
  | advance i t =>
      simp only [Office.step]
      split
      · exact h
      · rename_i r hr
        exact h.advance hr hguard
  | fail i =>
      refine ⟨fun e he => h.tasks e (List.mem_of_mem_eraseIdx he), fun v hv s hs hsv => ?_⟩
      obtain ⟨e, he, huid, hclosing⟩ := h.closes v hv s hs hsv
      exact ⟨e, mem_erased he fun hsame => hguard e hsame hclosing, huid, hclosing⟩
  | authenticate sid remembered now =>
      obtain ⟨p, hstore⟩ := authenticate_frame env o.store sid remembered now
      simp only [Office.step, hstore]
      exact ⟨h.tasks, fun v hv s hs hsv => h.closes v hv s (Table.mem_delete.mp hs).1 hsv⟩

end

/-- Alice logs in, from the look at her account to her session. -/
def aliceLogsIn : List Event :=
  [.login "alice" "alice" { now := 1000000 }, .advance 0 { now := 2000000, sid := "a1" }]

/-- Bob's form that suspends Alice. -/
def bobSuspendsAlice : Event :=
  .edit 2 "alice" { filledIn "alice" "bob" with S := some "True" } { now := 1000000 }

/-- Alice is found not to be suspended, Bob suspends her and closes her sessions, of which there
are none, and then hers is opened. -/
def lateLogin : List Event :=
  [.login "alice" "alice" { now := 1000000 }, bobSuspendsAlice] ++
    List.replicate 10 (.advance 1 { now := 2000000 }) ++
    [.advance 0 { now := 3000000, sid := "a1" }]

end Aurweb.Users
