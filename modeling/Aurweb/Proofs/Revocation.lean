/-
Which sessions outlive a password.

A history keeps every identifier that has been issued, and which of them the password of their
account has been set over.  The invariant follows the rows of `Sessions`: one whose identifier
is outdated has been idle for too long ever since.  A reset by mail deletes the row and an edit
with the suspension field filled in does too; an owner's edit gives it another identifier if it
is older than this second.  An edit that does none of these leaves the stolen session open.
-/
import Aurweb.Proofs.Suspension

namespace Aurweb.Users

/-- Idle for too long when the password was set, whichever cookie comes with it. -/
structure Session.Expired (env : Env) (s : Session) (since : Nat) : Prop where
  started : s.lastUpdateTS ≠ 0
  idle : ∀ remembered, s.lastUpdateTS + env.timeout remembered < since

/-- From the moment the password was set, no identifier that had been issued by then is
accepted for the account. -/
def Revoked (env : Env) (h : History) : Prop :=
  ∀ issue since, (issue, since) ∈ h.outdated → ∀ remembered now, since ≤ timestamp now →
    (authenticate env h.store issue.2 remembered now).1 ≠ some issue.1

/-- A new identifier is one nobody has been given before, and the clock is past 1970. -/
def Fresh (h : History) : Act → Prop
  | .login _ _ t | .sso _ t => (∀ uid, (uid, t.sid) ∉ h.issued) ∧ timestamp t.now ≠ 0
  | .edit _ _ _ _ ticks =>
      (∀ uid, (uid, (ticks .login).sid) ∉ h.issued) ∧ timestamp (ticks .login).now ≠ 0
  | _ => True

/-- An edit that sets a password comes with the suspension field filled in, or finds no session
of the account but such as have expired, or such as the owner, who is editing, opened in an
earlier second. -/
def Revokes (env : Env) (h : History) : Act → Prop
  | .edit editorID username args t ticks =>
      ∀ uid since, (Act.edit editorID username args t ticks).sets env h.store = some (uid, since) →
        args.S.getD "" ≠ "" ∨ ∀ s ∈ h.store.sessions, s.usersID = uid →
          s.Expired env since ∨ editorID = uid ∧ s.lastUpdateTS ≠ 0 ∧
            s.lastUpdateTS < timestamp (ticks .login).now
  | _ => True

/-- The keys of `Sessions`. -/
structure Keyed (rows : List Session) : Prop where
  users : (rows.map (·.usersID)).Nodup
  sids : (rows.map (·.sessionID)).Nodup

/-- The invariant. -/
structure Kept (env : Env) (h : History) : Prop where
  ids : (h.store.accounts.map (·.id)).Nodup
  keyed : Keyed h.store.sessions
  issued : ∀ s ∈ h.store.sessions, s.issue ∈ h.issued
  outdated : ∀ issue since, (issue, since) ∈ h.outdated → issue ∈ h.issued
  expired : ∀ issue since, (issue, since) ∈ h.outdated →
    ∀ s ∈ h.store.sessions, s.issue = issue → s.Expired env since

/-- An identifier that had been issued is on a row that had it, and that has not been used
since. -/
def Inherits (issued : List (Nat × String)) (rows rows' : List Session) : Prop :=
  ∀ s' ∈ rows', s'.issue ∈ issued → ∃ s ∈ rows, s.issue = s'.issue ∧
    (s.lastUpdateTS ≠ 0 → s'.lastUpdateTS ≠ 0 ∧ s'.lastUpdateTS ≤ s.lastUpdateTS)

section

variable {env : Env} {t : Tick} {h : History} {st st' : Store} {rows rows' rows'' : List Session}
  {issued : List (Nat × String)} {uid : Nat}

/-! ### Rows -/

theorem Inherits.of_subset (hsub : ∀ s ∈ rows', s ∈ rows) : Inherits issued rows rows' :=
  fun s hs _ => ⟨s, hsub s hs, rfl, fun hne => ⟨hne, Nat.le_refl _⟩⟩

theorem Inherits.trans (h₁ : Inherits issued rows rows') (h₂ : Inherits issued rows' rows'') :
    Inherits issued rows rows'' := by
  intro s'' hs'' hissued
  obtain ⟨s', hs', hsame', hts'⟩ := h₂ s'' hs'' hissued
  obtain ⟨s, hs, hsame, hts⟩ := h₁ s' hs' (hsame' ▸ hissued)
  refine ⟨s, hs, hsame.trans hsame', fun hne => ?_⟩
  obtain ⟨hne', hle⟩ := hts hne
  obtain ⟨hne'', hle'⟩ := hts' hne'
  exact ⟨hne'', hle'.trans hle⟩

theorem Inherits.expired (h : Inherits issued rows rows') {s' : Session} (hs' : s' ∈ rows')
    (hissued : s'.issue ∈ issued) {since : Nat}
    (hold : ∀ s ∈ rows, s.issue = s'.issue → s.Expired env since) : s'.Expired env since := by
  obtain ⟨s, hs, hsame, hts⟩ := h s' hs' hissued
  obtain ⟨hstarted, hidle⟩ := hold s hs hsame
  obtain ⟨hne, hle⟩ := hts hstarted
  refine ⟨hne, fun remembered => ?_⟩
  have := hidle remembered
  omega

theorem Keyed.sublist (h : Keyed rows) (hsub : rows'.Sublist rows) : Keyed rows' :=
  ⟨h.users.sublist (hsub.map _), h.sids.sublist (hsub.map _)⟩

/-- A new row for an account that has none. -/
theorem inherits_append (hfresh : ∀ uid, (uid, t.sid) ∉ issued) :
    Inherits issued rows (rows ++ [Session.mk uid t.sid (timestamp t.now)]) := by
  intro s' hs' hissued
  rcases List.mem_append.mp hs' with hold | hnew
  · exact ⟨s', hold, rfl, fun hne => ⟨hne, Nat.le_refl _⟩⟩
  · rw [List.mem_singleton.mp hnew] at hissued
    exact absurd hissued (hfresh uid)

/-- A row that is renewed keeps its identifier only where it does not get any younger. -/
theorem renew_inherits (hfresh : ∀ uid, (uid, t.sid) ∉ issued) {s : Session} (hissued : (s.renew t).issue ∈ issued) :
    (s.renew t).issue = s.issue ∧
      (s.lastUpdateTS ≠ 0 → timestamp t.now ≤ s.lastUpdateTS) := by
  by_cases hstale : s.lastUpdateTS ≠ 0 ∧ s.lastUpdateTS < timestamp t.now
  · have hsid : (s.renew t).issue = (s.usersID, t.sid) := by
      simp [Session.renew, Session.issue, hstale.1, hstale.2]
    rw [hsid] at hissued
    exact absurd hissued (hfresh _)
  · have hkept : (s.lastUpdateTS != 0 && decide (s.lastUpdateTS < timestamp t.now)) = false := by
      simpa using hstale
    refine ⟨by simp [Session.renew, Session.issue, hkept], fun hne => ?_⟩
    by_contra hlt
    exact hstale ⟨hne, by omega⟩

theorem sessionRows_inherits (hfresh : ∀ uid, (uid, t.sid) ∉ issued)
    (hclock : timestamp t.now ≠ 0) : Inherits issued st.sessions (sessionRows t uid st) := by
  unfold sessionRows
  split
  · exact inherits_append hfresh
  · intro s' hs' hissued
    obtain ⟨s, hs, rfl⟩ := Table.mem_update.mp hs'
    by_cases huid : (s.usersID == uid) = true
    · rw [if_pos huid] at hissued ⊢
      obtain ⟨hsame, hle⟩ := renew_inherits hfresh hissued
      exact ⟨s, hs, hsame.symm, fun hne => ⟨hclock, hle hne⟩⟩
    · rw [if_neg huid] at hissued ⊢
      exact ⟨s, hs, rfl, fun hne => ⟨hne, Nat.le_refl _⟩⟩

theorem not_mem_of_session?_none (hnone : st.session? uid = none) :
    ∀ s ∈ st.sessions, s.usersID ≠ uid := by
  intro s hs huid
  have hnot := List.find?_eq_none.mp hnone s hs
  simp [huid] at hnot

theorem keyed_append (hkeyed : Keyed rows) (hnone : ∀ s ∈ rows, s.usersID ≠ uid) {sid : String}
    (hfresh : ∀ s ∈ rows, s.sessionID ≠ sid) (ts : Nat) :
    Keyed (rows ++ [Session.mk uid sid ts]) := by
  constructor
  · rw [List.map_append, List.map_singleton]
    refine List.Nodup.append hkeyed.users (List.nodup_singleton _) fun v hv hv' => ?_
    obtain ⟨s, hs, rfl⟩ := List.mem_map.mp hv
    exact hnone s hs (List.mem_singleton.mp hv')
  · rw [List.map_append, List.map_singleton]
    refine List.Nodup.append hkeyed.sids (List.nodup_singleton _) fun v hv hv' => ?_
    obtain ⟨s, hs, rfl⟩ := List.mem_map.mp hv
    exact hfresh s hs (List.mem_singleton.mp hv')

theorem renew_sid (s : Session) :
    (s.renew t).sessionID = t.sid ∨ (s.renew t).sessionID = s.sessionID := by
  simp only [Session.renew]
  split
  · exact Or.inl rfl
  · exact Or.inr rfl

/-- An account has one row, so no two rows are given the new identifier. -/
theorem keyed_renew (hkeyed : Keyed rows) (hfresh : ∀ s ∈ rows, s.sessionID ≠ t.sid) (uid : Nat) :
    Keyed (Table.update (·.usersID == uid) (Session.renew t) rows) := by
  constructor
  · rw [Table.map_update (f := Session.renew t) fun _ => rfl]
    exact hkeyed.users
  have hother : ∀ s ∈ rows, ∀ s' ∈ rows, (s.renew t).sessionID = s'.sessionID → s = s' := by
    intro s hs s' hs' heq
    rcases renew_sid (t := t) s with hnew | hold
    · exact absurd (heq.symm.trans hnew) (hfresh s' hs')
    · exact List.inj_on_of_nodup_map hkeyed.sids hs hs' (hold.symm.trans heq)
  unfold Table.update
  rw [List.map_map]
  refine List.Nodup.map_on (fun s hs s' hs' heq => ?_) (List.Nodup.of_map _ hkeyed.users)
  simp only [Function.comp_apply, beq_iff_eq] at heq
  by_cases hu : s.usersID = uid
  · by_cases hu' : s'.usersID = uid
    · exact List.inj_on_of_nodup_map hkeyed.users hs hs' (hu.trans hu'.symm)
    · rw [if_pos hu, if_neg hu'] at heq
      exact hother s hs s' hs' heq
  · by_cases hu' : s'.usersID = uid
    · rw [if_neg hu, if_pos hu'] at heq
      exact (hother s' hs' s hs heq.symm).symm
    · rw [if_neg hu, if_neg hu'] at heq
      exact List.inj_on_of_nodup_map hkeyed.sids hs hs' heq

theorem keyed_sessionRows (hkeyed : Keyed st.sessions)
    (hfresh : ∀ s ∈ st.sessions, s.sessionID ≠ t.sid) : Keyed (sessionRows t uid st) := by
  unfold sessionRows
  split
  · rename_i hnone
    exact keyed_append hkeyed (not_mem_of_session?_none hnone) hfresh _
  · exact keyed_renew hkeyed hfresh uid

/-- With a new identifier the transaction of a login goes through. -/
theorem openSession_fresh (hkeyed : Keyed st.sessions)
    (hfresh : ∀ s ∈ st.sessions, s.sessionID ≠ t.sid) (hthere : (st.account? uid).isSome) :
    openSession t uid st =
      .ok { st.updateAccount uid (Account.loggedIn t) with sessions := sessionRows t uid st } := by
  unfold openSession
  rw [if_neg (by simpa [Option.isSome_iff_ne_none] using hthere),
    if_pos (keyed_sessionRows hkeyed hfresh).sids]

/-! ### What a history keeps -/

/-- What is accepted comes from a row with that identifier that is not too old. -/
theorem authenticate_row {sid : String} {remembered : Bool} {now : Nat}
    (haccepted : (authenticate env st sid remembered now).1 = some uid) :
    ∃ s ∈ st.sessions, s.issue = (uid, sid) ∧
      timestamp now ≤ s.lastUpdateTS + env.timeout remembered := by
  unfold authenticate at haccepted
  split at haccepted
  · cases haccepted
  split at haccepted
  · cases haccepted
  rename_i record hrecord
  split at haccepted
  · cases haccepted
  · rename_i hfresh
    have hsid : record.sessionID = sid := by simpa using List.find?_some hrecord
    have huid : record.usersID = uid := Option.some.inj haccepted
    exact ⟨record, List.mem_of_find?_eq_some hrecord, by rw [Session.issue, huid, hsid], by omega⟩

theorem Kept.revoked (hkept : Kept env h) : Revoked env h := by
  intro issue since hmem remembered now hnow haccepted
  obtain ⟨s, hs, hissue, hage⟩ := authenticate_row haccepted
  have hidle := (hkept.expired issue since hmem s hs hissue).idle remembered
  omega

/-- What a request has to see to. -/
theorem Kept.next {act : Act} (hkept : Kept env h)
    (hids : (act.answer env h.store).accounts.map (·.id) = h.store.accounts.map (·.id))
    (hkeyed : Keyed (act.answer env h.store).sessions)
    (hinherits : Inherits h.issued h.store.sessions (act.answer env h.store).sessions)
    (hset : ∀ uid since, act.sets env h.store = some (uid, since) →
      ∀ s ∈ (act.answer env h.store).sessions, s.usersID = uid → s.issue ∈ h.issued →
        s.Expired env since) : Kept env (h.step env act) where
  ids := hids.symm ▸ hkept.ids
  keyed := hkeyed
  issued s hs := by
    by_cases hold : s.issue ∈ h.store.sessions.map Session.issue
    · obtain ⟨s₀, hs₀, hsame⟩ := List.mem_map.mp hold
      exact List.mem_append_left _ (hsame ▸ hkept.issued s₀ hs₀)
    · refine List.mem_append_right _ (List.mem_filter.mpr ⟨List.mem_map_of_mem hs, ?_⟩)
      simpa using hold
  outdated issue since hmem := by
    refine List.mem_append_left _ ?_
    rcases List.mem_append.mp hmem with hold | hnew
    · exact hkept.outdated issue since hold
    · split at hnew
      · cases hnew
      · obtain ⟨issue', hissue', heq⟩ := List.mem_map.mp hnew
        rw [← (Prod.mk.inj heq).1]
        exact (List.mem_filter.mp hissue').1
  expired issue since hmem s hs hissue := by
    rcases List.mem_append.mp hmem with hold | hnew
    · refine hinherits.expired hs (hissue ▸ hkept.outdated issue since hold) fun s₀ hs₀ hsame => ?_
      exact hkept.expired issue since hold s₀ hs₀ (hsame.trans hissue)
    · split at hnew
      · cases hnew
      rename_i uid now hsets
      obtain ⟨issue', hissue', heq⟩ := List.mem_map.mp hnew
      obtain ⟨rfl, rfl⟩ := Prod.mk.inj heq
      obtain ⟨hissued, huid⟩ := List.mem_filter.mp hissue'
      refine hset uid now hsets s hs ?_ (hissue ▸ hissued)
      rw [← hissue] at huid
      simpa [Session.issue] using huid

/-! ### Edits -/

/-- What an edit does up to the password, and from there on. -/
theorem tasks_split : tasks = tasks.takeWhile (· != .approve) ++
    [.approve, .login, .suspend, .deleteSessions] := by
  decide

theorem runTasks_append (env : Env) (ticks : Task → Tick) (second : List Task) :
    ∀ (first : List Task) (e : Edit) (st : Store),
      runTasks env ticks (first ++ second) e st =
        match runTasks env ticks first e st with
        | (.error x, st) => (.error x, st)
        | (.ok e, st) => runTasks env ticks second e st
  | [], _, _ => rfl
  | task :: first, e, st => by
      simp only [List.cons_append, runTasks]
      split
      · rfl
      · exact runTasks_append env ticks second first _ _

/-- Tasks that leave `Sessions` alone. -/
theorem runTasks_quiet (env : Env) (ticks : Task → Tick) :
    ∀ (todo : List Task) (e : Edit) (st : Store),
      (∀ task ∈ todo, task ≠ .login ∧ task ≠ .deleteSessions ∧ task ≠ .approve) →
      (runTasks env ticks todo e st).2.sessions = st.sessions ∧
        ∀ e', (runTasks env ticks todo e st).1 = .ok e' →
          e.Continues e' ∧ e'.approved = e.approved
  | [], e, st, _ => ⟨rfl, fun e' h => by
      obtain rfl := Except.ok.inj h
      exact ⟨.refl e, rfl⟩⟩
  | task :: rest, e, st, hquiet => by
      simp only [runTasks]
      split
      · exact ⟨rfl, fun e' h => by cases h⟩
      · rename_i e₁ st₁ hok
        have hran := Task.run_ok hok
        obtain ⟨hlogin, hdelete, happrove⟩ := hquiet task (by simp)
        obtain ⟨hsessions, hrest⟩ := runTasks_quiet env ticks rest e₁ st₁
          fun task' hmem => hquiet task' (by simp [hmem])
        refine ⟨?_, fun e' h => ?_⟩
        · rw [hsessions, hran.sessions, sessionsAfter, if_neg (fun hc => hlogin hc.1),
            if_neg (fun hc => hdelete hc.1)]
        · obtain ⟨hcontinues, happroved⟩ := hrest e' h
          exact ⟨hran.request.trans hcontinues,
            happroved.trans (hran.approved.resolve_right happrove)⟩

theorem sessionRows_congr (t : Tick) (uid : Nat) (hsame : st'.sessions = st.sessions) :
    sessionRows t uid st' = sessionRows t uid st := by
  unfold sessionRows Store.session?
  rw [hsame]

/-- `Sessions` after an edit that has got past the password: a login, if there was one, and then
the deletion, if the field was filled in. -/
def rowsAfter (t : Tick) (uid : Nat) (login truthy : Bool) (st : Store) : List Session :=
  let rows := if login then sessionRows t uid st else st.sessions
  if truthy then Table.delete (·.usersID == uid) rows else rows

/-- Whether the edit gets to the transaction of `User.login`. -/
def logsIn (env : Env) (t : Tick) (e : Edit) (u : Account) (st : Store) : Bool :=
  e.changed && e.uid == e.editorID && (loginApproved env t u (e.args.P.getD "") st).1

theorem run_approve (env : Env) (t : Tick) {e : Edit} {u : Account}
    (hu : st.account? e.uid = some u)
    (happroved : e.approved = false) :
    ∃ st', Task.run env t e st .approve = .ok ({ e with approved := logsIn env t e u st }, st') ∧
      st'.sessions = st.sessions ∧ (st'.account? e.uid).isSome := by
  have hid : u.id = e.uid := (Store.account?_mem hu).2
  by_cases hown : (e.changed && e.uid == e.editorID) = true
  · refine ⟨(loginApproved env t u (e.args.P.getD "") st).2, ?_, ?_⟩
    · simp [Task.run, hu, logsIn, hown]
    · unfold loginApproved
      split
      · exact ⟨rfl, by rw [hu]; rfl⟩
      · refine ⟨rfl, ?_⟩
        unfold Store.checkPassword
        rw [hid, Store.account?_updateAccount_self (f := Account.setPasswd _) (fun _ hid => hid) hu]
        rfl
  · refine ⟨st, ?_, rfl, by rw [hu]; rfl⟩
    rw [Bool.not_eq_true] at hown
    have hsame : { e with approved := logsIn env t e u st } = e := by
      cases e
      simp only [logsIn, hown, Bool.false_and] at happroved ⊢
      rw [happroved]
    simp [Task.run, hu, hown, hsame]

theorem run_login (env : Env) (t : Tick) {e : Edit} (hthere : (st.account? e.uid).isSome)
    (hkeyed : Keyed st.sessions) (hnew : ∀ s ∈ st.sessions, s.sessionID ≠ t.sid) :
    ∃ st', Task.run env t e st .login = .ok (e, st') ∧ (st'.account? e.uid).isSome ∧
      st'.sessions = if e.approved then sessionRows t e.uid st else st.sessions := by
  obtain ⟨u, hu⟩ := Option.isSome_iff_exists.mp hthere
  by_cases happroved : e.approved = true
  · refine ⟨{ st.updateAccount e.uid (Account.loggedIn t) with
      sessions := sessionRows t e.uid st }, ?_, ?_, ?_⟩
    · simp only [Task.run, hu, happroved, if_true, openSession_fresh hkeyed hnew hthere]
      rfl
    · have hu' : (st.updateAccount e.uid (Account.loggedIn t)).account? e.uid =
          some (u.loggedIn t) :=
        Store.account?_updateAccount_self (f := Account.loggedIn t) (fun _ hid => hid) hu
      exact Option.isSome_iff_exists.mpr ⟨_, hu'⟩
    · rw [if_pos happroved]
  · exact ⟨st, by simp [Task.run, hu, happroved], hthere, by rw [if_neg happroved]⟩

/-- The look at the sessions and the transaction together. -/
theorem run_suspend (env : Env) {e : Edit} (hthere : (st.account? e.uid).isSome)
    (ticks : Task → Tick) :
    (runTasks env ticks [.suspend, .deleteSessions] e st).2.sessions =
      if e.args.S.getD "" != "" then Table.delete (·.usersID == e.uid) st.sessions
      else st.sessions := by
  obtain ⟨u, hu⟩ := Option.isSome_iff_exists.mp hthere
  simp only [runTasks, Task.run, hu]
  by_cases htruthy : e.args.S.getD "" = ""
  · simp [htruthy]
  · by_cases hopen : (st.session? e.uid).isSome
    · simp [htruthy, hopen, Store.deleteSessions]
    · have hnone : st.session? e.uid = none := by simpa using hopen
      have hkept : Table.delete (·.usersID == e.uid) st.sessions = st.sessions :=
        Table.delete_eq_self fun s hs => by
          simpa using not_mem_of_session?_none hnone s hs
      simp [htruthy, hopen, hkept]

/-- The second half of an edit, with an identifier nobody has. -/
theorem secondHalf (env : Env) (ticks : Task → Tick) {e : Edit} {u : Account}
    (hu : st.account? e.uid = some u) (hkeyed : Keyed st.sessions)
    (hnew : ∀ s ∈ st.sessions, s.sessionID ≠ (ticks .login).sid) (happroved : e.approved = false) :
    (runTasks env ticks [.approve, .login, .suspend, .deleteSessions] e st).2.sessions =
      rowsAfter (ticks .login) e.uid (logsIn env (ticks .approve) e u st)
        (e.args.S.getD "" != "") st := by
  obtain ⟨st₂, hrun₂, hsessions₂, hthere₂⟩ := run_approve env (ticks .approve) hu happroved
  obtain ⟨st₃, hrun₃, hthere₃, hsessions₃⟩ := run_login env (ticks .login)
    (e := { e with approved := logsIn env (ticks .approve) e u st }) hthere₂
    (hsessions₂ ▸ hkeyed) (hsessions₂ ▸ hnew)
  have hrun₄ := run_suspend env
    (e := { e with approved := logsIn env (ticks .approve) e u st }) hthere₃ ticks
  rw [runTasks, hrun₂]
  simp only
  rw [runTasks, hrun₃]
  simp only
  rw [hrun₄, hsessions₃, sessionRows_congr _ _ hsessions₂, hsessions₂]
  rfl

/-- What the updates before the password leave of the account. -/
theorem runTasks_suspended (env : Env) (ticks : Task → Tick) :
    ∀ (todo : List Task) (e : Edit) (st : Store) (u : Account),
      (∀ task ∈ todo, task ≠ .simple ∧ task ≠ .password) → st.account? e.uid = some u →
      ∀ e', (runTasks env ticks todo e st).1 = .ok e' →
        e.Continues e' ∧ e'.changed = e.changed ∧
        ∃ u', (runTasks env ticks todo e st).2.account? e.uid = some u' ∧
          u'.suspended = u.suspended
  | [], e, st, u, _, hu, e', h => by
      obtain rfl := Except.ok.inj h
      exact ⟨.refl e, rfl, u, hu, rfl⟩
  | task :: rest, e, st, u, hquiet, hu, e', h => by
      simp only [runTasks] at h ⊢
      split at h
      · cases h
      rename_i e₁ st₁ hok
      have hran := Task.run_ok hok
      obtain ⟨hsimple, hpassword⟩ := hquiet task (by simp)
      obtain ⟨u₀, u₁, hu₀, hu₁, hmoves⟩ := hran.account
      obtain rfl := Option.some.inj (hu₀.symm.trans hu)
      rw [← hran.request.uid] at hu₁
      obtain ⟨hcontinues, hchanged, u', hu', hflag⟩ := runTasks_suspended env ticks rest e₁ st₁ u₁
        (fun task' hmem => hquiet task' (by simp [hmem])) hu₁ e' h
      rw [hran.request.uid] at hu'
      have hsame : u₁.suspended = u₀.suspended :=
        hmoves.suspended.resolve_right fun hc => hsimple hc.1
      exact ⟨hran.request.trans hcontinues, hchanged.trans (hran.changed.resolve_right hpassword),
        u', hu', hflag.trans hsame⟩

theorem run_simple {e e' : Edit} {u : Account} (hu : st.account? e.uid = some u)
    (hloaded : u.suspended = e.loaded.suspended)
    (hok : Task.run env t e st .simple = .ok (e', st')) :
    e' = e ∧ ∃ u', st'.account? e.uid = some u' ∧ u'.suspended = strtobool env e.args.S := by
  simp only [Task.run, hu] at hok
  split at hok
  · cases hok
  obtain ⟨rfl, rfl⟩ := Prod.mk.inj (Except.ok.inj hok)
  have hrow := Store.account?_updateAccount_self
    (f := fun _ => flush e.loaded (simpleObject env t e.args e.loaded) u)
    (fun _ _ => (Store.account?_mem hu).2) hu
  refine ⟨rfl, _, hrow, ?_⟩
  by_cases hsame : strtobool env e.args.S = e.loaded.suspended
  · exact (if_pos hsame).trans (hloaded.trans hsame.symm)
  · exact if_neg hsame

theorem run_password {e e' : Edit} {u : Account} (hu : st.account? e.uid = some u)
    (hok : Task.run env t e st .password = .ok (e', st')) :
    e.Continues e' ∧ ∃ u', st'.account? e.uid = some u' ∧ u'.suspended = u.suspended ∧
      (e.changed = false → e'.changed = true →
        u'.passwd = env.hashpw (e.args.P.getD "") t.salt) := by
  have hran := Task.run_ok hok
  obtain ⟨u₀, u', hu₀, hu', hmoves⟩ := hran.account
  obtain rfl := Option.some.inj (hu₀.symm.trans hu)
  refine ⟨hran.request, u', hu', hmoves.suspended.resolve_right fun hc => by simp at hc, ?_⟩
  intro hchanged hchanged'
  have hid : u₀.id = e.uid := (Store.account?_mem hu).2
  simp only [Task.run, hu] at hok
  split at hok
  · obtain ⟨rfl, rfl⟩ := Prod.mk.inj (Except.ok.inj hok)
    rw [hchanged] at hchanged'
    cases hchanged'
  split at hok
  · obtain ⟨rfl, rfl⟩ := Prod.mk.inj (Except.ok.inj hok)
    rw [hchanged] at hchanged'
    cases hchanged'
  · rename_i st₁ hcheck
    obtain ⟨rfl, rfl⟩ := Prod.mk.inj (Except.ok.inj hok)
    obtain rfl := (Prod.mk.inj hcheck).2
    rw [hid, Store.setPasswd_setPasswd,
      Store.account?_updateAccount_self (f := Account.setPasswd _) (fun _ hid => hid) hu] at hu'
    exact congrArg Account.passwd (Option.some.inj hu').symm

/-- The account, once a new password has been set. -/
theorem firstHalf_ok {ticks : Task → Tick} {e e' : Edit} {u : Account}
    (hu : st.account? e.uid = some u) (hloaded : u.suspended = e.loaded.suspended)
    (hunchanged : e.changed = false)
    (hok : runTasks env ticks (tasks.takeWhile (· != .approve)) e st = (.ok e', st')) :
    e.Continues e' ∧ ∃ u', st'.account? e.uid = some u' ∧
      u'.suspended = strtobool env e.args.S ∧
      (e'.changed = true → u'.passwd = env.hashpw (e.args.P.getD "") (ticks .password).salt) := by
  have hsplit : tasks.takeWhile (· != .approve) =
      .simple :: ([.language, .timezone, .sshPubkey, .accountType] ++ [.password]) := by
    decide
  rw [hsplit, runTasks] at hok
  split at hok
  · cases (Prod.mk.inj hok).1
  rename_i e₁ st₁ hsimple
  obtain ⟨rfl, u₁, hu₁, hflag₁⟩ := run_simple hu hloaded hsimple
  rw [runTasks_append] at hok
  split at hok
  · cases (Prod.mk.inj hok).1
  rename_i e₂ st₂ hmiddle
  have hquiet := runTasks_suspended env ticks [.language, .timezone, .sshPubkey, .accountType] e₁
    st₁ u₁ (by decide) hu₁ e₂ (by rw [hmiddle])
  rw [hmiddle] at hquiet
  obtain ⟨hcontinues₂, hchanged₂, u₂, hu₂, hflag₂⟩ := hquiet
  rw [runTasks] at hok
  split at hok
  · cases (Prod.mk.inj hok).1
  rename_i e₃ st₃ hpassword
  rw [runTasks] at hok
  obtain ⟨h₁, rfl⟩ := Prod.mk.inj hok
  obtain rfl := Except.ok.inj h₁
  rw [← hcontinues₂.uid] at hu₂
  obtain ⟨hcontinues₃, u₃, hu₃, hflag₃, hpasswd⟩ := run_password hu₂ hpassword
  rw [hcontinues₂.uid] at hu₃
  rw [hcontinues₂.args] at hpasswd
  exact ⟨hcontinues₂.trans hcontinues₃, u₃, hu₃, hflag₃.trans (hflag₂.trans hflag₁),
    hpasswd (hchanged₂.trans hunchanged)⟩

/-- An edit that has been validated, and what is stored then. -/
structure Begun (env : Env) (st mid : Store) (editorID : Nat) (args : Args) (t : Tick) (e : Edit) :
    Prop where
  rehashed : Rehashed st mid
  editorID : e.editorID = editorID
  args : e.args = args.withoutBlanks
  changed : e.changed = false
  approved : e.approved = false
  notBanned : st.bans.contains t.clientIP = false
  account : ∃ u, mid.account? e.uid = some u ∧ u.suspended = e.loaded.suspended

theorem notBanned_of_ok (h : isBanned st t = .ok ()) : st.bans.contains t.clientIP = false := by
  unfold isBanned at h
  split at h
  · cases h
  · rename_i hnot
    simpa using hnot

theorem beginEdit_begun (hids : (st.accounts.map (·.id)).Nodup) {mid : Store} {editorID : Nat}
    {username : String} {args : Args} {e : Edit}
    (hbegin : beginEdit env st editorID username args t = (.ok e, mid)) :
    Begun env st mid editorID args t e := by
  obtain ⟨hmid, hadmitted⟩ := beginEdit_cases env st editorID username args t
  rw [hbegin] at hmid hadmitted
  obtain ⟨editor, user, -, huser, -, hform, rfl⟩ := hadmitted e rfl
  have hfound := Store.account?_of_mem hids huser
  refine ⟨?_, rfl, rfl, rfl, rfl, notBanned_of_ok (firstProblem_ok hform _ (by simp [checks])), ?_⟩
  · rcases hmid with rfl | ⟨passwd, rfl⟩
    · exact Or.inl rfl
    · exact Or.inr ⟨editorID, passwd, rfl⟩
  · rcases hmid with rfl | ⟨passwd, rfl⟩
    · exact ⟨user, hfound, rfl⟩
    · rw [Store.account?_updateAccount (f := Account.setPasswd passwd) fun _ hid => hid, hfound]
      split <;> exact ⟨_, rfl, rfl⟩

/-- What is stored after an edit that has got to its tasks. -/
theorem accountEditPost_begun {mid : Store} {editorID : Nat} {username : String} {args : Args}
    {ticks : Task → Tick} {e : Edit}
    (hbegin : beginEdit env st editorID username args t = (.ok e, mid)) :
    (accountEditPost env st editorID username args t ticks).2 =
      (runTasks env (ofClient t ticks) tasks e mid).2 := by
  rw [accountEditPost, hbegin]
  rcases hrun : runTasks env (ofClient t ticks) tasks e mid with ⟨_ | _, _⟩
  · simp only [hrun]
  · simp only [hrun]

/-- **`Sessions` after an edit.**  They are as they were, but for the login and the deletion of an
edit that has got as far as the password. -/
theorem edit_sessions (env : Env) (hids : (st.accounts.map (·.id)).Nodup)
    (hkeyed : Keyed st.sessions) (editorID : Nat) (username : String)
    (args : Args) (t : Tick) (ticks : Task → Tick)
    (hnew : ∀ s ∈ st.sessions, s.sessionID ≠ (ticks .login).sid) :
    let act := Act.edit editorID username args t ticks
    (act.sets env st = none ∧ (act.answer env st).sessions = st.sessions) ∨
    ∃ e u st₁, (act.answer env st).sessions =
        rowsAfter (ofClient t ticks .login) e.uid
          (logsIn env (ofClient t ticks .approve) e u st₁) (args.S.getD "" != "") st₁ ∧
      st₁.sessions = st.sessions ∧ st₁.bans = st.bans ∧ e.editorID = editorID ∧
      e.args.P = args.P ∧ st.bans.contains t.clientIP = false ∧
      u.suspended = strtobool env args.S ∧
      (e.changed = true → u.passwd = env.hashpw (args.P.getD "") (ticks .password).salt) ∧
      act.sets env st =
        if e.changed then some (e.uid, timestamp (ticks .password).now) else none := by
  intro act
  have hanswer : act.answer env st = (accountEditPost env st editorID username args t ticks).2 := rfl
  rcases hbegin : beginEdit env st editorID username args t with ⟨_ | e, mid⟩
  · have hmid := (beginEdit_cases env st editorID username args t).1
    rw [hbegin] at hmid
    refine Or.inl ⟨by simp only [act, Act.sets, hbegin], ?_⟩
    simp only [hanswer, accountEditPost, hbegin]
    rcases hmid with rfl | ⟨passwd, rfl⟩ <;> rfl
  have hbegun := beginEdit_begun hids hbegin
  have hquiet := runTasks_quiet env (ofClient t ticks) (tasks.takeWhile (· != .approve)) e
    mid (by decide)
  have hconfined := runTasks_confined env (ofClient t ticks) (tasks.takeWhile (· != .approve)) e mid
  rw [hanswer, accountEditPost_begun hbegin, tasks_split, runTasks_append]
  rcases hfirst : runTasks env (ofClient t ticks) (tasks.takeWhile (· != .approve)) e mid with
    ⟨_ | e₁, st₁⟩
  · rw [hfirst] at hquiet
    refine Or.inl ⟨?_, hquiet.1.trans hbegun.rehashed.sessions⟩
    simp only [act, Act.sets, hbegin, hfirst]
  rw [hfirst] at hquiet hconfined
  have hsessions : st₁.sessions = st.sessions := hquiet.1.trans hbegun.rehashed.sessions
  obtain ⟨u, hu, hflag⟩ := hbegun.account
  obtain ⟨hcontinues, u₁, hu₁, hflag₁, hpasswd⟩ := firstHalf_ok hu hflag hbegun.changed hfirst
  obtain ⟨-, happroved⟩ := hquiet.2 e₁ rfl
  have hargs : e₁.args = args.withoutBlanks := hcontinues.args.trans hbegun.args
  rw [← hcontinues.uid] at hu₁
  have hsecond := secondHalf env (ofClient t ticks) hu₁ (hsessions ▸ hkeyed)
    (hsessions ▸ hnew) (happroved.trans hbegun.approved)
  rw [hargs] at hsecond
  rw [hbegun.args] at hflag₁ hpasswd
  refine Or.inr ⟨e₁, u₁, st₁, hsecond, hsessions, ?_, hcontinues.editorID.trans hbegun.editorID,
    by rw [hargs]; rfl, hbegun.notBanned, hflag₁, hpasswd, ?_⟩
  · refine hconfined.bans.trans ?_
    rcases hbegun.rehashed with rfl | ⟨v, passwd, rfl⟩ <;> rfl
  · simp only [act, Act.sets, hbegin, hfirst]

/-- The owner's edit gets to the login: it is not banned, was not suspended just now, and comes
with the password that has just been set. -/
theorem logsIn_own (hlaw : ∀ password salt, env.checkpw password (env.hashpw password salt) = true)
    {e : Edit} {u : Account} (hchanged : e.changed = true) (hown : e.uid = e.editorID)
    (hbanned : st.bans.contains t.clientIP = false) (hflag : u.suspended = false)
    {salt : String} (hpasswd : u.passwd = env.hashpw (e.args.P.getD "") salt) :
    logsIn env t e u st = true := by
  have hvalid : (validPassword env t u (e.args.P.getD "")).1 = true := by
    unfold validPassword
    rw [hpasswd, if_pos (hlaw _ _)]
  have happroved : (loginApproved env t u (e.args.P.getD "") st).1 = true := by
    rw [loginApproved, hbanned, hflag]
    exact hvalid
  simp [logsIn, hchanged, hown, happroved]

/-- A row of an earlier second has another identifier once its account has logged in. -/
theorem not_issued_of_renewed (hkeyed : Keyed st.sessions) (hfresh : ∀ uid, (uid, t.sid) ∉ issued)
    {s₀ : Session} (hs₀ : s₀ ∈ st.sessions) (hstarted : s₀.lastUpdateTS ≠ 0)
    (hstale : s₀.lastUpdateTS < timestamp t.now) {s : Session}
    (hs : s ∈ sessionRows t s₀.usersID st) (huid : s.usersID = s₀.usersID) : s.issue ∉ issued := by
  obtain ⟨found, hfound⟩ := Option.isSome_iff_exists.mp (session?_isSome hs₀ rfl)
  simp only [sessionRows, hfound] at hs
  obtain ⟨s₁, hs₁, rfl⟩ := Table.mem_update.mp hs
  by_cases hu : s₁.usersID = s₀.usersID
  · obtain rfl := List.inj_on_of_nodup_map hkeyed.users hs₁ hs₀ hu
    have hsid : (s₁.renew t).issue = (s₁.usersID, t.sid) := by
      simp [Session.renew, Session.issue, hstarted, hstale]
    rw [if_pos (by simp), hsid]
    exact hfresh _
  · rw [if_neg (by simpa using hu)] at huid
    exact absurd huid hu

/-! ### Every request -/

theorem Rehashed.ids (hrehashed : Rehashed st st') :
    st'.accounts.map (·.id) = st.accounts.map (·.id) := by
  rcases hrehashed with rfl | ⟨v, passwd, rfl⟩
  · rfl
  · exact (setPasswd_confined st v passwd).ids

theorem updateAccount_ids {f : Account → Account} (hf : ∀ u, (f u).id = u.id) :
    (st.updateAccount uid f).accounts.map (·.id) = st.accounts.map (·.id) :=
  (Confined.updateAccount st fun u hid => (hf u).trans hid).ids

theorem insertSession_ok (hok : insertSession t uid st = .ok st') :
    (∀ s ∈ st.sessions, s.usersID ≠ uid) ∧ (∀ s ∈ st.sessions, s.sessionID ≠ t.sid) ∧
      st'.accounts.map (·.id) = st.accounts.map (·.id) ∧
      st'.sessions = st.sessions ++ [Session.mk uid t.sid (timestamp t.now)] := by
  unfold insertSession at hok
  split at hok
  · cases hok
  rename_i hcond
  simp only [Bool.or_eq_true, not_or, Bool.not_eq_true, Option.isSome_eq_false_iff,
    Option.isNone_iff_eq_none, List.any_eq_false, beq_iff_eq] at hcond
  obtain rfl := Except.ok.inj hok
  exact ⟨not_mem_of_session?_none hcond.1.2, hcond.2, updateAccount_ids fun _ => rfl, rfl⟩

theorem answer_ids (env : Env) (st : Store) (act : Act) :
    (act.answer env st).accounts.map (·.id) = st.accounts.map (·.id) := by
  cases act with
  | login user passwd t =>
      have hrehashed := checkLogin_rehashed env st user passwd t
      simp only [Act.answer]
      split
      · rename_i st₁ heq
        rw [heq] at hrehashed
        exact hrehashed.ids
      · rename_i uid st₁ heq
        rw [heq] at hrehashed
        split
        · rename_i st₂ hopen
          exact (openSession_confined hopen).ids.trans hrehashed.ids
        · exact hrehashed.ids
  | sso sub t =>
      simp only [Act.answer]
      split
      · rfl
      split
      · rename_i st₁ hopen
        exact (insertSession_ok hopen).2.2.1
      · rfl
  | logout uid => rfl
  | passreset user resetkey password confirm t =>
      simp only [Act.answer, passresetPost]
      repeat' split
      all_goals first | rfl | exact updateAccount_ids fun _ => rfl
  | edit editorID username args t ticks =>
      exact post_ids env st { editorID, username, args, t, ticks }
  | authenticate sid remembered now =>
      obtain ⟨p, hstore⟩ := authenticate_frame env st sid remembered now
      simp only [Act.answer, hstore]

/-- An identifier nobody has been given is on no row. -/
theorem Kept.fresh {sid : String} (hkept : Kept env h) (hfresh : ∀ uid, (uid, sid) ∉ h.issued) :
    ∀ s ∈ h.store.sessions, s.sessionID ≠ sid := by
  rintro s hs rfl
  exact hfresh _ (hkept.issued s hs)

/-- A request that sets no password, and deletes rows at most. -/
theorem Kept.shrink {act : Act} (hkept : Kept env h) (hsets : act.sets env h.store = none)
    (hsub : (act.answer env h.store).sessions.Sublist h.store.sessions) :
    Kept env (h.step env act) :=
  hkept.next (answer_ids env _ act) (hkept.keyed.sublist hsub) (.of_subset fun _ hs => hsub.subset hs)
    fun uid since hset => by rw [hsets] at hset; cases hset

theorem Kept.login {user passwd : String} (hkept : Kept env h)
    (hfresh : Fresh h (.login user passwd t)) : Kept env (h.step env (.login user passwd t)) := by
  obtain ⟨hnew, hclock⟩ := hfresh
  have hrehashed := checkLogin_rehashed env h.store user passwd t
  have hsame : ∀ {st}, Rehashed h.store st → st.sessions.Sublist h.store.sessions := fun hst =>
    hst.sessions ▸ List.Sublist.refl _
  cases hcheck : checkLogin env h.store user passwd t with
  | mk result st =>
      rw [hcheck] at hrehashed
      cases result with
      | none =>
          refine hkept.shrink rfl ?_
          simp only [Act.answer, hcheck]
          exact hsame hrehashed
      | some uid =>
          cases hopen : openSession t uid st with
          | error x =>
              refine hkept.shrink rfl ?_
              simp only [Act.answer, hcheck, hopen]
              exact hsame hrehashed
          | ok st' =>
              have hrows : (Act.answer env h.store (.login user passwd t)).sessions =
                  sessionRows t uid h.store := by
                simp only [Act.answer, hcheck, hopen]
                obtain ⟨-, -, rfl⟩ := openSession_ok hopen
                exact sessionRows_congr t uid hrehashed.sessions
              refine hkept.next (answer_ids env _ _) ?_ ?_ fun uid since hset => by cases hset
              · rw [hrows]
                exact keyed_sessionRows hkept.keyed (hkept.fresh hnew)
              · rw [hrows]
                exact sessionRows_inherits hnew hclock

theorem Kept.sso {sub : String} (hkept : Kept env h) (hfresh : Fresh h (.sso sub t)) :
    Kept env (h.step env (.sso sub t)) := by
  obtain ⟨hnew, -⟩ := hfresh
  cases hcheck : checkSSO h.store sub t with
  | none =>
      refine hkept.shrink rfl ?_
      simp [Act.answer, hcheck]
  | some uid =>
      cases hopen : insertSession t uid h.store with
      | error x =>
          refine hkept.shrink rfl ?_
          simp [Act.answer, hcheck, hopen]
      | ok st' =>
          obtain ⟨hnone, hsids, -, hrows⟩ := insertSession_ok hopen
          have hanswer : (Act.answer env h.store (.sso sub t)).sessions =
              h.store.sessions ++ [Session.mk uid t.sid (timestamp t.now)] := by
            simp only [Act.answer, hcheck, hopen, hrows]
          refine hkept.next (answer_ids env _ _) ?_ ?_ fun uid since hset => by cases hset
          · rw [hanswer]
            exact keyed_append hkept.keyed hnone hsids _
          · rw [hanswer]
            exact inherits_append hnew

theorem passresetPost_cases (t : Tick) (resetkey password confirm : String) {user : String}
    {dbUser : Account} (hfound : resetAccount env st user = some dbUser) :
    let result := passresetPost env st user resetkey password confirm t
    (result.1 ≠ .redirect "/passreset?step=complete" ∧ result.2.sessions = st.sessions) ∨
    (result.1 = .redirect "/passreset?step=complete" ∧
      result.2.sessions = (st.deleteSessions dbUser.id).sessions) := by
  intro result
  simp only [result, passresetPost, hfound]
  by_cases hkey : resetkey = ""
  · rw [if_pos hkey]
    exact Or.inl ⟨by simp, rfl⟩
  rw [if_neg hkey]
  by_cases hwrong : dbUser.resetKey = "" ∨ resetkey ≠ dbUser.resetKey
  · rw [if_pos hwrong]
    exact Or.inl ⟨by simp, rfl⟩
  rw [if_neg hwrong]
  by_cases hmissing : user = "" ∨ password = ""
  · rw [if_pos hmissing]
    exact Or.inl ⟨by simp, rfl⟩
  rw [if_neg hmissing]
  by_cases hdiffer : password ≠ confirm
  · rw [if_pos hdiffer]
    exact Or.inl ⟨by simp, rfl⟩
  rw [if_neg hdiffer]
  by_cases hshort : password.length < env.passwdMinLen
  · rw [if_pos hshort]
    exact Or.inl ⟨by simp, rfl⟩
  · rw [if_neg hshort]
    exact Or.inr ⟨rfl, rfl⟩

/-- A reset that sets the password deletes the session in the same transaction. -/
theorem passreset_sessions (env : Env) (st : Store) (user resetkey password confirm : String)
    (t : Tick) :
    let act := Act.passreset user resetkey password confirm t
    (act.sets env st = none ∧ (act.answer env st).sessions = st.sessions) ∨
    ∃ uid, act.sets env st = some (uid, timestamp t.now) ∧
      (act.answer env st).sessions = (st.deleteSessions uid).sessions := by
  intro act
  rcases hfound : resetAccount env st user with _ | dbUser
  · refine Or.inl ⟨?_, ?_⟩
    · simp only [act, Act.sets, hfound]
    · simp only [act, Act.answer, passresetPost, hfound]
  · rcases passresetPost_cases t resetkey password confirm hfound with
      ⟨hresponse, hsame⟩ | ⟨hresponse, hdeleted⟩
    · refine Or.inl ⟨?_, hsame⟩
      simp only [act, Act.sets, hfound]
      exact if_neg hresponse
    · refine Or.inr ⟨dbUser.id, ?_, hdeleted⟩
      simp only [act, Act.sets, hfound]
      exact if_pos hresponse

theorem Kept.passreset {user resetkey password confirm : String} (hkept : Kept env h) :
    Kept env (h.step env (.passreset user resetkey password confirm t)) := by
  rcases passreset_sessions env h.store user resetkey password confirm t with
    ⟨hsets, hsame⟩ | ⟨uid, hsets, hdeleted⟩
  · exact hkept.shrink hsets (hsame ▸ List.Sublist.refl _)
  refine hkept.next (answer_ids env _ _) ?_ ?_ fun uid' since hset s hs huid _ => ?_
  · rw [hdeleted]
    exact hkept.keyed.sublist (Table.delete_sublist _ _)
  · rw [hdeleted]
    exact .of_subset fun _ hs => (Table.mem_delete.mp hs).1
  · rw [hsets] at hset
    obtain ⟨rfl, rfl⟩ := Prod.mk.inj (Option.some.inj hset)
    rw [hdeleted] at hs
    have hgone := (Table.mem_delete.mp hs).2
    simp [huid] at hgone

theorem Kept.edit (hlaw : ∀ password salt, env.checkpw password (env.hashpw password salt) = true)
    {editorID : Nat} {username : String} {args : Args} {ticks : Task → Tick} (hkept : Kept env h)
    (hfresh : Fresh h (.edit editorID username args t ticks))
    (hrevokes : Revokes env h (.edit editorID username args t ticks)) :
    Kept env (h.step env (.edit editorID username args t ticks)) := by
  obtain ⟨hnew, hclock⟩ := hfresh
  have hids := answer_ids env h.store (.edit editorID username args t ticks)
  rcases edit_sessions env hkept.ids hkept.keyed editorID username args t ticks
    (hkept.fresh hnew) with ⟨hsets, hsame⟩ | ⟨e, u, st₁, hrows, hsame, hbans, hid, hP, hbanned,
      hflag, hpasswd, hsets⟩
  · exact hkept.shrink hsets (hsame ▸ List.Sublist.refl _)
  -- the rows after the login, if there was one
  have hlogin : Keyed (if logsIn env (ofClient t ticks .approve) e u st₁ then
        sessionRows (ofClient t ticks .login) e.uid st₁ else st₁.sessions) ∧
      Inherits h.issued h.store.sessions (if logsIn env (ofClient t ticks .approve) e u st₁ then
        sessionRows (ofClient t ticks .login) e.uid st₁ else st₁.sessions) := by
    split
    · exact ⟨keyed_sessionRows (hsame ▸ hkept.keyed) (hsame ▸ hkept.fresh hnew),
        hsame ▸ sessionRows_inherits hnew hclock⟩
    · exact ⟨hsame ▸ hkept.keyed, .of_subset fun _ hs => hsame ▸ hs⟩
  refine hkept.next hids ?_ ?_ fun uid since hset s hs huid hissued => ?_
  · rw [hrows, rowsAfter]
    split
    · exact hlogin.1.sublist (Table.delete_sublist _ _)
    · exact hlogin.1
  · rw [hrows, rowsAfter]
    split
    · exact hlogin.2.trans (.of_subset fun _ hs => (Table.mem_delete.mp hs).1)
    · exact hlogin.2
  · have hset' := hset
    rw [hsets] at hset'
    split at hset'
    swap
    · cases hset'
    rename_i hchanged
    obtain ⟨rfl, rfl⟩ := Prod.mk.inj (Option.some.inj hset')
    rw [hrows, rowsAfter] at hs
    by_cases htruthy : args.S.getD "" = ""
    · rw [if_neg (by simp [htruthy])] at hs
      have hfalse : u.suspended = false := by
        rw [hflag]
        cases hS : args.S with
        | none => rfl
        | some v => simp [strtobool, show v = "" by simpa [hS] using htruthy]
      have hfound := (hrevokes e.uid _ hset).resolve_left fun hne => hne htruthy
      refine hlogin.2.expired hs hissued fun s₀ hs₀ hsame₀ => ?_
      have huid₀ : s₀.usersID = s.usersID := (Prod.mk.inj hsame₀).1
      rcases hfound s₀ hs₀ (huid₀.trans huid) with hexpired | ⟨hown, hstarted, hstale⟩
      · exact hexpired
      · have hin : logsIn env (ofClient t ticks .approve) e u st₁ = true :=
          logsIn_own hlaw hchanged (hown.symm.trans hid.symm ▸ rfl) (hbans ▸ hbanned) hfalse
            (hP ▸ hpasswd hchanged)
        rw [if_pos hin] at hs
        refine absurd hissued (not_issued_of_renewed (t := ofClient t ticks .login)
          (hsame ▸ hkept.keyed) hnew (hsame ▸ hs₀) hstarted hstale ?_ huid₀.symm)
        rw [huid₀, huid]
        exact hs
    · rw [if_pos (by simpa using htruthy)] at hs
      have hgone := (Table.mem_delete.mp hs).2
      simp [huid] at hgone

theorem kept_step (hlaw : ∀ password salt, env.checkpw password (env.hashpw password salt) = true)
    {act : Act} (hkept : Kept env h) (hfresh : Fresh h act) (hrevokes : Revokes env h act) :
    Kept env (h.step env act) := by
  cases act with
  | login => exact hkept.login hfresh
  | sso => exact hkept.sso hfresh
  | logout => exact hkept.shrink rfl (Table.delete_sublist _ _)
  | passreset => exact hkept.passreset
  | edit => exact hkept.edit hlaw hfresh hrevokes
  | authenticate sid remembered now =>
      obtain ⟨p, hstore⟩ := authenticate_frame env h.store sid remembered now
      refine hkept.shrink rfl ?_
      simp only [Act.answer, hstore]
      exact Table.delete_sublist _ _

end

/-- An hour after `now`, with a new identifier and salt. -/
def laterTick (now : Nat) (sid : String) : Tick := { now := now + 3600000000, sid, salt := sid }

/-- Alice logs in. -/
def aliceComesIn : Act := .login "alice" "alice" { now := 1000000, sid := "a1" }

/-- Alice's form with a new password. -/
def aliceChanges : Act :=
  .edit 1 "alice" { filledIn "alice" "alice" with P := some "s3cret", C := some "s3cret" }
    { now := 2000000 } fun _ => laterTick 2000000 "a2"

/-- Bob's form with a new password for Alice. -/
def bobChanges : Act :=
  .edit 2 "alice" { filledIn "alice" "bob" with P := some "s3cret", C := some "s3cret" }
    { now := 2000000 } fun _ => laterTick 2000000 "a2"

end Aurweb.Users
