/-
Which reset keys still open an account.

The key of an account is written by a registration, a reset request and a completed reset and by
nothing else.  So as long as no edit changes the address or the password of an account that has
a key, the newest record about such an account says that this key has been issued for it; the
invariant says that of every account, and a reset only asks for the key.  An edit that does
change one of the two leaves the key where it is.
-/
import Aurweb.Proofs.Revocation
import Aurweb.ResetKeys

namespace Aurweb.Users

/-- Nothing has happened to the account since the key was issued for it, and the key has not
been used. -/
def Live (log : List Record) (uid : Nat) (key : String) : Prop :=
  log.find? (·.uid == uid) = some (.issued uid key) ∧ ∀ r ∈ log, r.uses key = false

instance (log : List Record) (uid : Nat) (key : String) : Decidable (Live log uid key) :=
  inferInstanceAs (Decidable (_ ∧ ∀ r ∈ log, _))

/-- A reset that goes through comes with a key that was issued for the account after the last
change of its address and its password, that is the latest one, and that has not been used. -/
def OnlyLiveKeys (env : Env) (h : KeyHistory) : Prop :=
  ∀ user resetkey password confirm t dbUser, resetAccount env h.store user = some dbUser →
    resetkey ≠ "" →
    (passresetPost env h.store user resetkey password confirm t).1 =
      .redirect "/passreset?step=complete" → Live h.log dbUser.id resetkey

/-- A key that is generated is one that has not been issued before. -/
def FreshKey (h : KeyHistory) : Visit → Prop
  | .register _ t _ | .act (.passreset _ _ _ _ t) => ∀ uid, .issued uid t.token ∉ h.log
  | _ => True

/-- An edit that changes the address or the password of an account finds no key there. -/
def Keyless (env : Env) (h : KeyHistory) : Visit → Prop
  | .act (.edit editorID username args t ticks) =>
      ∀ r ∈ (Act.edit editorID username args t ticks).records env h.store,
        ∀ u, h.store.account? r.uid = some u → u.resetKey = ""
  | _ => True

/-- The key of every account that has one is live. -/
def KeysLive (h : KeyHistory) : Prop :=
  ∀ uid u, h.store.account? uid = some u → u.resetKey ≠ "" → Live h.log uid u.resetKey

/-- The invariant. -/
structure KeysKept (h : KeyHistory) : Prop where
  ids : Table.Numbered (·.id) h.nextID h.store.accounts
  used : ∀ uid key, .used uid key ∈ h.log → .issued uid key ∈ h.log
  once : ∀ uid uid' key, .issued uid key ∈ h.log → .issued uid' key ∈ h.log → uid = uid'
  live : KeysLive h

section

variable {env : Env} {t : Tick} {h : KeyHistory} {st st' st'' : Store} {uid : Nat}
  {log rs : List Record} {key : String}

/-! ### The log -/

theorem Live.mem (hlive : Live log uid key) : .issued uid key ∈ log :=
  List.mem_of_find?_eq_some hlive.1

/-- Records about other accounts change nothing, unless they say that the key has been used. -/
theorem Live.append (hlive : Live log uid key) (hother : ∀ r ∈ rs, r.uid ≠ uid)
    (huses : ∀ r ∈ rs, r.uses key = false) : Live (rs ++ log) uid key := by
  refine ⟨?_, fun r hr => (List.mem_append.mp hr).elim (huses r) (hlive.2 r)⟩
  rw [List.find?_append, List.find?_eq_none.mpr, Option.none_or]
  · exact hlive.1
  · intro r hr
    simpa using hother r hr

theorem live_issued (hunused : ∀ r ∈ log, r.uses key = false) :
    Live (.issued uid key :: log) uid key := by
  refine ⟨by simp [Record.uid], fun r hr => ?_⟩
  rcases List.mem_cons.mp hr with rfl | hr
  · rfl
  · exact hunused r hr

/-- A key nobody has been issued has not been used. -/
theorem KeysKept.unused (hkept : KeysKept h) (hfresh : ∀ uid, .issued uid key ∉ h.log) :
    ∀ r ∈ h.log, r.uses key = false := by
  intro r hr
  cases r with
  | used uid key' =>
      by_contra hsame
      obtain rfl : key' = key := by simpa [Record.uses] using hsame
      exact hfresh uid (hkept.used uid key' hr)
  | _ => rfl

/-! ### What leaves the keys alone -/

/-- No account has got or lost a key. -/
def SameKeys (st st' : Store) : Prop :=
  ∀ uid, (st'.account? uid).map Account.resetKey = (st.account? uid).map Account.resetKey

theorem SameKeys.refl (st : Store) : SameKeys st st := fun _ => rfl

theorem SameKeys.trans (hsame : SameKeys st st') (hsame' : SameKeys st' st'') :
    SameKeys st st'' :=
  fun uid => (hsame' uid).trans (hsame uid)

theorem SameKeys.symm (hsame : SameKeys st st') : SameKeys st' st := fun uid => (hsame uid).symm

theorem sameKeys_of_accounts (heq : st'.accounts = st.accounts) : SameKeys st st' := by
  intro uid
  unfold Store.account?
  rw [heq]

theorem sameKeys_updateAccount {f : Account → Account} (hf : ∀ u, u.id = uid → (f u).id = uid)
    (hkey : ∀ u, st.account? uid = some u → (f u).resetKey = u.resetKey) :
    SameKeys st (st.updateAccount uid f) := by
  intro v
  rw [Store.account?_updateAccount hf]
  by_cases hv : v = uid
  · rw [if_pos hv, hv]
    cases hu : st.account? uid with
    | none => rfl
    | some u => simp [hkey u hu]
  · rw [if_neg hv]

theorem SameKeys.held (hsame : SameKeys st st') {u' : Account} (hu' : st'.account? uid = some u') :
    ∃ u, st.account? uid = some u ∧ u'.resetKey = u.resetKey := by
  have heq := hsame uid
  rw [hu'] at heq
  cases hu : st.account? uid with
  | none => simp [hu] at heq
  | some u => exact ⟨u, rfl, by simpa [hu] using heq⟩

theorem sameKeys_checkPassword (st : Store) (user : Account) (password : String) :
    SameKeys st (st.checkPassword env t user password).2 :=
  sameKeys_updateAccount (fun _ hid => hid) fun _ _ => rfl

theorem sameKeys_loginApproved (st : Store) (user : Account) (password : String) :
    SameKeys st (loginApproved env t user password st).2 := by
  unfold loginApproved
  split
  · exact .refl st
  · exact sameKeys_checkPassword st user password

theorem sameKeys_openSession (hok : openSession t uid st = .ok st') : SameKeys st st' := by
  obtain ⟨-, -, rfl⟩ := openSession_ok hok
  exact sameKeys_updateAccount (fun _ hid => hid) fun _ _ => rfl

theorem Rehashed.sameKeys (hrehashed : Rehashed st st') : SameKeys st st' := by
  rcases hrehashed with rfl | ⟨uid, passwd, rfl⟩
  · exact .refl _
  · exact sameKeys_updateAccount (fun _ hid => hid) fun _ _ => rfl

/-! ### Edits -/

theorem Task.run_sameKeys {e e' : Edit} {task : Task} (hok : task.run env t e st = .ok (e', st')) :
    SameKeys st st' := by
  unfold Task.run at hok
  cases hu : st.account? e.uid with
  | none => simp [hu] at hok
  | some u =>
      rw [hu] at hok
      have hid : u.id = e.uid := (Store.account?_mem hu).2
      cases task with
      | simple =>
          dsimp only at hok
          split at hok
          · cases hok
          obtain ⟨-, rfl⟩ := Prod.mk.inj (Except.ok.inj hok)
          refine sameKeys_updateAccount (fun _ _ => hid) fun u' hu' => ?_
          obtain rfl := Option.some.inj (hu.symm.trans hu')
          rfl
      | language | timezone =>
          dsimp only at hok
          split at hok
          · obtain ⟨-, rfl⟩ := Prod.mk.inj (Except.ok.inj hok)
            exact .refl st
          · obtain ⟨-, rfl⟩ := Prod.mk.inj (Except.ok.inj hok)
            exact sameKeys_updateAccount (fun _ hid => hid) fun _ _ => rfl
      | sshPubkey =>
          obtain ⟨st₁, hkeys, heq⟩ := Except.of_map_ok hok
          obtain ⟨-, rfl⟩ := Prod.mk.inj heq
          exact sameKeys_of_accounts (updateSSHPubkey_frame hkeys).1
      | accountType =>
          dsimp only at hok
          split at hok
          · obtain ⟨-, rfl⟩ := Prod.mk.inj (Except.ok.inj hok)
            exact .refl st
          split at hok
          · cases hok
          split at hok
          · cases hok
          obtain ⟨-, rfl⟩ := Prod.mk.inj (Except.ok.inj hok)
          exact sameKeys_updateAccount (fun _ hid => hid) fun _ _ => rfl
      | password =>
          dsimp only at hok
          split at hok
          · obtain ⟨-, rfl⟩ := Prod.mk.inj (Except.ok.inj hok)
            exact .refl st
          have hcheck : SameKeys st (st.checkPassword env t u (e.args.P.getD "")).2 :=
            sameKeys_checkPassword st u _
          split at hok
          · rename_i st₁ heq
            rw [heq] at hcheck
            obtain ⟨-, rfl⟩ := Prod.mk.inj (Except.ok.inj hok)
            exact hcheck
          · rename_i st₁ heq
            rw [heq] at hcheck
            obtain ⟨-, rfl⟩ := Prod.mk.inj (Except.ok.inj hok)
            exact hcheck.trans (sameKeys_updateAccount (fun _ hid => hid) fun _ _ => rfl)
      | approve =>
          dsimp only at hok
          split at hok
          · obtain ⟨-, rfl⟩ := Prod.mk.inj (Except.ok.inj hok)
            exact sameKeys_loginApproved st u _
          · obtain ⟨-, rfl⟩ := Prod.mk.inj (Except.ok.inj hok)
            exact .refl st
      | login =>
          dsimp only at hok
          split at hok
          · obtain ⟨st₁, hopen, heq⟩ := Except.of_map_ok hok
            obtain ⟨-, rfl⟩ := Prod.mk.inj heq
            exact sameKeys_openSession hopen
          · obtain ⟨-, rfl⟩ := Prod.mk.inj (Except.ok.inj hok)
            exact .refl st
      | suspend =>
          obtain ⟨-, rfl⟩ := Prod.mk.inj (Except.ok.inj hok)
          exact .refl st
      | deleteSessions =>
          obtain ⟨-, rfl⟩ := Prod.mk.inj (Except.ok.inj hok)
          split
          · exact sameKeys_of_accounts rfl
          · exact .refl st

theorem runTasks_sameKeys (env : Env) (ticks : Task → Tick) :
    ∀ (todo : List Task) (e : Edit) (st : Store), SameKeys st (runTasks env ticks todo e st).2
  | [], _, st => .refl st
  | task :: rest, e, st => by
      unfold runTasks
      split
      · exact .refl st
      · rename_i e' st' hok
        exact (Task.run_sameKeys hok).trans (runTasks_sameKeys env ticks rest e' st')

theorem post_sameKeys (env : Env) (st : Store) (r : EditRequest) :
    SameKeys st (r.post env st) := by
  obtain ⟨mid, hmid, hpost⟩ := post_cases env st r
  have hfirst : SameKeys st mid := by
    rcases hmid with rfl | ⟨passwd, rfl⟩
    · exact .refl _
    · exact sameKeys_updateAccount (fun _ hid => hid) fun _ _ => rfl
  rcases hpost with hpost | ⟨e, -, hpost⟩
  · rw [hpost]
    exact hfirst
  · rw [hpost]
    exact hfirst.trans (runTasks_sameKeys env _ tasks e mid)

/-! ### Every other request -/

theorem sameKeys_insertSession (hok : insertSession t uid st = .ok st') : SameKeys st st' := by
  unfold insertSession at hok
  split at hok
  · cases hok
  obtain rfl := Except.ok.inj hok
  exact sameKeys_updateAccount (fun _ hid => hid) fun _ _ => rfl

/-- The key is written by `passreset_post` alone. -/
theorem answer_sameKeys (env : Env) (st : Store) {act : Act}
    (hother : ∀ user resetkey password confirm t,
      act ≠ .passreset user resetkey password confirm t) :
    SameKeys st (act.answer env st) := by
  cases act with
  | login user passwd t =>
      have hrehashed := checkLogin_rehashed env st user passwd t
      simp only [Act.answer]
      split
      · rename_i st₁ heq
        rw [heq] at hrehashed
        exact hrehashed.sameKeys
      · rename_i uid st₁ heq
        rw [heq] at hrehashed
        split
        · rename_i st₂ hopen
          exact hrehashed.sameKeys.trans (sameKeys_openSession hopen)
        · exact hrehashed.sameKeys
  | sso sub t =>
      simp only [Act.answer]
      split
      · exact .refl st
      split
      · rename_i st₁ hopen
        exact sameKeys_insertSession hopen
      · exact .refl st
  | logout uid => exact sameKeys_of_accounts rfl
  | passreset user resetkey password confirm t => exact (hother user resetkey password confirm t rfl).elim
  | edit editorID username args t ticks =>
      exact post_sameKeys env st { editorID, username, args, t, ticks }
  | authenticate sid remembered now =>
      obtain ⟨p, hstore⟩ := authenticate_frame env st sid remembered now
      simp only [Act.answer, hstore]
      exact sameKeys_of_accounts rfl

/-! ### Resets -/

/-- A reset is refused, issues a key, or uses the one the account has. -/
theorem passreset_records (env : Env) (st : Store) (user resetkey password confirm : String)
    (t : Tick) :
    let act := Act.passreset user resetkey password confirm t
    (act.records env st = [] ∧ act.answer env st = st) ∨
    ∃ dbUser ∈ st.accounts,
      (act.records env st = [.issued dbUser.id t.token] ∧
        act.answer env st = st.updateAccount dbUser.id fun u => { u with resetKey := t.token }) ∨
      (dbUser.resetKey ≠ "" ∧
        act.records env st = [.used dbUser.id dbUser.resetKey, .password dbUser.id] ∧
        act.answer env st = (st.deleteSessions dbUser.id).updateAccount dbUser.id fun u =>
          { u with resetKey := "", passwd := env.hashpw password t.salt }) := by
  intro act
  simp only [act, Act.records, Act.answer]
  cases hfound : resetAccount env st user with
  | none => exact Or.inl ⟨rfl, by simp only [passresetPost, hfound]⟩
  | some dbUser =>
      have hmem : dbUser ∈ st.accounts := List.mem_of_find?_eq_some hfound
      simp only [passresetPost, hfound]
      by_cases hkey : resetkey = ""
      · simp only [if_pos hkey]
        exact Or.inr ⟨dbUser, hmem, Or.inl ⟨rfl, rfl⟩⟩
      simp only [if_neg hkey]
      by_cases hwrong : dbUser.resetKey = "" ∨ resetkey ≠ dbUser.resetKey
      · simp [hwrong]
      simp only [if_neg hwrong]
      rw [not_or, not_not] at hwrong
      obtain ⟨hhas, rfl⟩ := hwrong
      by_cases hmissing : user = "" ∨ password = ""
      · simp [hmissing]
      simp only [if_neg hmissing]
      by_cases hdiffer : password ≠ confirm
      · simp [hdiffer]
      simp only [if_neg hdiffer]
      by_cases hshort : password.length < env.passwdMinLen
      · simp [hshort]
      · simp only [if_neg hshort, if_true]
        exact Or.inr ⟨dbUser, hmem, Or.inr ⟨hhas, rfl, rfl⟩⟩

/-! ### The invariant -/

/-- A key is issued, and every other account keeps its own. -/
theorem KeysKept.issue (hkept : KeysKept h) {n : Nat} (hids : Table.Numbered (·.id) n st.accounts)
    (hfresh : ∀ uid, .issued uid key ∉ h.log)
    (hkeys : ∀ v u', st.account? v = some u' → v = uid ∧ u'.resetKey = key ∨
      v ≠ uid ∧ ∃ u, h.store.account? v = some u ∧ u'.resetKey = u.resetKey) :
    KeysKept { store := st, nextID := n, log := .issued uid key :: h.log } where
  ids := hids
  used v k hmem := by
    rcases List.mem_cons.mp hmem with heq | hmem
    · cases heq
    · exact List.mem_cons_of_mem _ (hkept.used v k hmem)
  once v v' k hv hv' := by
    rcases List.mem_cons.mp hv with heq | hv
    · cases heq
      rcases List.mem_cons.mp hv' with heq' | hv'
      · cases heq'
        rfl
      · exact absurd hv' (hfresh v')
    · rcases List.mem_cons.mp hv' with heq' | hv'
      · cases heq'
        exact absurd hv (hfresh v)
      · exact hkept.once v v' k hv hv'
  live v u' hu' hne := by
    rcases hkeys v u' hu' with ⟨rfl, hkey⟩ | ⟨hother, u, hu, hkey⟩
    · rw [hkey]
      exact live_issued (hkept.unused hfresh)
    · rw [hkey] at hne ⊢
      show Live ([.issued uid key] ++ h.log) v u.resetKey
      refine (hkept.live v u hu hne).append ?_ ?_
      · intro r hr
        rw [List.mem_singleton.mp hr]
        exact hother.symm
      · intro r hr
        rw [List.mem_singleton.mp hr]
        rfl

/-- An account has used its key and has none any more. -/
theorem KeysKept.use (hkept : KeysKept h) {u₀ : Account} (hu₀ : h.store.account? uid = some u₀)
    (hhas : u₀.resetKey ≠ "") (hids : Table.Numbered (·.id) h.nextID st.accounts)
    (hkeys : ∀ v u', st.account? v = some u' → v = uid ∧ u'.resetKey = "" ∨
      v ≠ uid ∧ ∃ u, h.store.account? v = some u ∧ u'.resetKey = u.resetKey) :
    KeysKept { h with
      store := st, log := [.used uid u₀.resetKey, .password uid] ++ h.log } where
  ids := hids
  used v k hmem := by
    have hissued := (hkept.live uid u₀ hu₀ hhas).mem
    simp only [List.cons_append, List.nil_append, List.mem_cons, reduceCtorEq, false_or,
      Record.used.injEq] at hmem ⊢
    rcases hmem with ⟨rfl, rfl⟩ | hmem
    · exact hissued
    · exact hkept.used v k hmem
  once v v' k hv hv' := by
    simp only [List.cons_append, List.nil_append, List.mem_cons, reduceCtorEq, false_or] at hv hv'
    exact hkept.once v v' k hv hv'
  live v u' hu' hne := by
    rcases hkeys v u' hu' with ⟨-, hkey⟩ | ⟨hother, u, hu, hkey⟩
    · exact absurd hkey hne
    rw [hkey] at hne ⊢
    have hlive := hkept.live v u hu hne
    -- A key is issued for one account, so this one is not the key that has been used.
    have hdiffer : u₀.resetKey ≠ u.resetKey := by
      intro hsame
      have hissued := (hkept.live uid u₀ hu₀ hhas).mem
      rw [hsame] at hissued
      exact hother (hkept.once v uid _ hlive.mem hissued)
    refine hlive.append ?_ ?_
    · intro r hr
      simp only [List.mem_cons, List.not_mem_nil, or_false] at hr
      rcases hr with rfl | rfl
      · exact hother.symm
      · exact hother.symm
    · intro r hr
      simp only [List.mem_cons, List.not_mem_nil, or_false] at hr
      rcases hr with rfl | rfl
      · simpa [Record.uses] using hdiffer
      · rfl

/-- Something has been changed, and no account that has a key is concerned. -/
theorem KeysKept.note (hkept : KeysKept h)
    (hids : st.accounts.map (·.id) = h.store.accounts.map (·.id)) (hsame : SameKeys h.store st) (hrs : ∀ r ∈ rs, r = .email r.uid ∨ r = .password r.uid)
    (hkeyless : ∀ r ∈ rs, ∀ u, h.store.account? r.uid = some u → u.resetKey = "") :
    KeysKept { h with store := st, log := rs ++ h.log } where
  ids := hkept.ids.of_map_eq hids
  used v k hmem := by
    rcases List.mem_append.mp hmem with hmem | hmem
    · rcases hrs _ hmem with heq | heq <;> cases heq
    · exact List.mem_append_right _ (hkept.used v k hmem)
  once v v' k hv hv' := by
    have hold : ∀ w, .issued w k ∈ rs ++ h.log → .issued w k ∈ h.log := by
      intro w hw
      rcases List.mem_append.mp hw with hw | hw
      · rcases hrs _ hw with heq | heq <;> cases heq
      · exact hw
    exact hkept.once v v' k (hold v hv) (hold v' hv')
  live v u' hu' hne := by
    obtain ⟨u, hu, hkey⟩ := hsame.held hu'
    rw [hkey] at hne ⊢
    refine (hkept.live v u hu hne).append (fun r hr huid => ?_) fun r hr => ?_
    · exact hne (hkeyless r hr u (huid.symm ▸ hu))
    · rcases hrs r hr with heq | heq
      · rw [heq]
        rfl
      · rw [heq]
        rfl

/-! ### One request -/

theorem accountRegisterPost_ok {id : Nat} {args : Args} {token : String}
    (hok : accountRegisterPost env st id args t token = .ok st') :
    ∃ row : Account, st'.accounts = st.accounts ++ [row] ∧ row.id = id ∧
      row.resetKey = t.token ∧ processGuestForm env st args.withoutBlanks t = .ok () := by
  unfold accountRegisterPost at hok
  simp only at hok
  split at hok
  · cases hok
  split at hok
  · cases hok
  · cases hok
  next hform =>
  split at hok
  · cases hok
  split at hok
  · cases hok
  split at hok
  · cases hok
  split at hok
  · cases hok
  split at hok
  · obtain rfl := Except.ok.inj hok
    exact ⟨_, rfl, rfl, rfl, hform⟩
  · cases hok

/-- An account with a new id. -/
theorem Store.account?_append {row : Account} (haccounts : st'.accounts = st.accounts ++ [row])
    (hnew : ∀ u ∈ st.accounts, u.id ≠ row.id) (v : Nat) :
    st'.account? v = if v = row.id then some row else st.account? v := by
  unfold Store.account?
  rw [haccounts, List.find?_append]
  by_cases hv : v = row.id
  · rw [if_pos hv, List.find?_eq_none.mpr fun u hu => by simpa [hv] using hnew u hu]
    simp [hv]
  · rw [if_neg hv]
    simp [Ne.symm hv]

theorem KeysKept.register {args : Args} {token : String} (hkept : KeysKept h)
    (hfresh : FreshKey h (.register args t token)) :
    KeysKept (h.step env (.register args t token)) := by
  unfold KeyHistory.step
  simp only
  split
  · exact hkept
  rename_i st hok
  obtain ⟨row, haccounts, hid, hkey, -⟩ := accountRegisterPost_ok hok
  have hnew : ∀ u ∈ h.store.accounts, u.id ≠ row.id := by
    intro u hu
    have hlt := hkept.ids.lt u hu
    omega
  refine hkept.issue ?_ hfresh fun v u' hu' => ?_
  · rw [haccounts]
    exact hkept.ids.insert hid
  · rw [Store.account?_append haccounts hnew] at hu'
    split at hu'
    · rename_i hv
      obtain rfl := Option.some.inj hu'
      exact Or.inl ⟨hv.trans hid, hkey⟩
    · rename_i hv
      exact Or.inr ⟨fun heq => hv (heq.trans hid.symm), u', hu', rfl⟩

theorem KeysKept.passreset {user resetkey password confirm : String} (hkept : KeysKept h)
    (hfresh : FreshKey h (.act (.passreset user resetkey password confirm t))) :
    KeysKept (h.step env (.act (.passreset user resetkey password confirm t))) := by
  have hids := answer_ids env h.store (.passreset user resetkey password confirm t)
  have hnumbered : Table.Numbered (·.id) h.nextID
      ((Act.passreset user resetkey password confirm t).answer env h.store).accounts :=
    hkept.ids.of_map_eq hids
  have hwritten : ∀ {st : Store} {uid v : Nat} {f : Account → Account} {u' : Account},
      (st.updateAccount uid f).account? v = some u' → (∀ u, (f u).id = u.id) →
        (v = uid ∧ ∃ u, u' = f u) ∨ v ≠ uid ∧ st.account? v = some u' := by
    intro st uid v f u' hu' hf
    rw [Store.account?_updateAccount fun u hid => (hf u).trans hid] at hu'
    split at hu'
    · rename_i hv
      obtain ⟨u, -, rfl⟩ := Option.map_eq_some_iff.mp hu'
      exact Or.inl ⟨hv, u, rfl⟩
    · rename_i hv
      exact Or.inr ⟨hv, hu'⟩
  unfold KeyHistory.step
  rcases passreset_records env h.store user resetkey password confirm t with
    ⟨hrecords, hanswer⟩ | ⟨dbUser, hmem, ⟨hrecords, hanswer⟩ | ⟨hhas, hrecords, hanswer⟩⟩
  · simp only [hrecords, hanswer]
    exact hkept
  · simp only [hrecords, hanswer] at hnumbered ⊢
    refine hkept.issue hnumbered hfresh fun v u' hu' => ?_
    rcases hwritten hu' fun _ => rfl with ⟨hv, u, rfl⟩ | ⟨hv, hu⟩
    · exact Or.inl ⟨hv, rfl⟩
    · exact Or.inr ⟨hv, u', hu, rfl⟩
  · simp only [hrecords, hanswer] at hnumbered ⊢
    have hdbUser := Store.account?_of_mem hkept.ids.nodup hmem
    refine hkept.use hdbUser hhas hnumbered fun v u' hu' => ?_
    rcases hwritten hu' fun _ => rfl with ⟨hv, u, rfl⟩ | ⟨hv, hu⟩
    · exact Or.inl ⟨hv, rfl⟩
    · exact Or.inr ⟨hv, u', hu, rfl⟩

/-- What an edit puts on record. -/
theorem edit_records {editorID : Nat} {username : String} {args : Args} {ticks : Task → Tick}
    {r : Record} (hr : r ∈ (Act.edit editorID username args t ticks).records env st) :
    r = .email r.uid ∨ r = .password r.uid := by
  rcases List.mem_append.mp hr with hr | hr
  · obtain ⟨uid, -, rfl⟩ := List.mem_map.mp hr
    exact Or.inl rfl
  · obtain ⟨set, -, rfl⟩ := List.mem_map.mp hr
    exact Or.inr rfl

theorem keysKept_step {visit : Visit} (hkept : KeysKept h) (hfresh : FreshKey h visit)
    (hkeyless : Keyless env h visit) : KeysKept (h.step env visit) := by
  cases visit with
  | register args t token => exact hkept.register hfresh
  | act act =>
      have hids := answer_ids env h.store act
      cases act with
      | passreset user resetkey password confirm t => exact hkept.passreset hfresh
      | edit editorID username args t ticks =>
          exact hkept.note hids (answer_sameKeys env h.store (by simp))
            (fun r hr => edit_records hr) hkeyless
      | _ =>
          exact hkept.note hids (answer_sameKeys env h.store (by simp)) (List.forall_mem_nil _)
            (List.forall_mem_nil _)

/-! ### Runs -/

theorem KeysLive.onlyLiveKeys (hlive : KeysLive h) (hids : (h.store.accounts.map (·.id)).Nodup) :
    OnlyLiveKeys env h := by
  intro user resetkey password confirm t dbUser hfound hgiven hdone
  have hmem : dbUser ∈ h.store.accounts := List.mem_of_find?_eq_some hfound
  simp only [passresetPost, hfound, if_neg hgiven] at hdone
  split at hdone
  · exact absurd hdone (by simp)
  rename_i hright
  rw [not_or, not_not] at hright
  obtain ⟨hhas, rfl⟩ := hright
  exact hlive dbUser.id dbUser (Store.account?_of_mem hids hmem) hhas

/-- After an edit that is not keyless, some account has a key that is not live. -/
theorem keyless_of_live {visit : Visit} (hlive : KeysLive (h.step env visit)) :
    Keyless env h visit := by
  cases visit with
  | register args t token => trivial
  | act act =>
      cases act with
      | edit editorID username args t ticks =>
          intro r hr u hu
          by_contra hhas
          have hsame : SameKeys h.store ((Act.edit editorID username args t ticks).answer env
              h.store) := answer_sameKeys env h.store (by simp)
          obtain ⟨u', hu', hkey⟩ := hsame.symm.held hu
          rw [hkey] at hhas
          have hnewest := (hlive r.uid u' hu' hhas).1
          -- The newest record about the account is one of this edit.
          have hsome : (((Act.edit editorID username args t ticks).records env h.store).find?
              (·.uid == r.uid)).isSome = true :=
            List.find?_isSome.mpr ⟨r, hr, beq_self_eq_true r.uid⟩
          obtain ⟨r', hfound⟩ := Option.isSome_iff_exists.mp hsome
          simp only [KeyHistory.step, List.find?_append, hfound, Option.some_or] at hnewest
          rw [Option.some.inj hnewest] at hfound
          rcases edit_records (List.mem_of_find?_eq_some hfound) with heq | heq
          · cases heq
          · cases heq
      | _ => trivial

/-- While keys are fresh, the keys of accounts are live as long as every edit is keyless. -/
theorem keysLive_iff_keyless {visits : List Visit} (hkept : KeysKept h)
    (hfresh : Run.Guarded (KeyHistory.step env) FreshKey h visits) :
    Run.Along (KeyHistory.step env) KeysLive h visits ↔
      Run.Guarded (KeyHistory.step env) (Keyless env) h visits :=
  Run.along_iff_guarded_of_inv (I := KeysKept) (fun _ hkept => hkept.live)
    (fun _ _ hkept hfresh hkeyless => keysKept_step hkept hfresh hkeyless)
    (fun _ _ _ _ hlive => keyless_of_live hlive) hkept hfresh

/--
**A password is reset with the latest key, once, and not over a later change.**  In every
history that starts with no key outstanding, in which the keys that are generated are distinct
and each edit that changes the address or the password of an account finds no key there, a
reset that goes through comes with a key that was issued for the account after the last change
of either, that is the latest one issued for it and that has not been used.
-/
theorem onlyLiveKeys_of_keyless (env : Env) (h : KeyHistory) (visits : List Visit)
    (hids : Table.Numbered (·.id) h.nextID h.store.accounts) (hlog : h.log = [])
    (hstart : ∀ u ∈ h.store.accounts, u.resetKey = "")
    (hfresh : Run.Guarded (KeyHistory.step env) FreshKey h visits)
    (hkeyless : Run.Guarded (KeyHistory.step env) (Keyless env) h visits) :
    Run.Along (KeyHistory.step env) (OnlyLiveKeys env) h visits := by
  have hkept : KeysKept h :=
    { ids := hids
      used := by simp [hlog]
      once := by simp [hlog]
      live := fun uid u hu hne => absurd (hstart u (Store.account?_mem hu).1) hne }
  have hall := Run.along_of_guarded (I := KeysKept)
    (fun h visit hkept hvisit => keysKept_step hkept hvisit.1 hvisit.2) hkept
    (hfresh.and hkeyless)
  exact hall.imp fun h hkept => hkept.live.onlyLiveKeys hkept.ids.nodup

end

/-- `Env.plain`, where a guest can solve the CAPTCHA. -/
def Env.open : Env := { Env.plain with captchaSalts := ["7"], captchaAnswer := fun _ => "14" }

/-- Before anybody has asked for a key. -/
def keylessSite : KeyHistory := { store := smallStore, nextID := 4 }

/-- Dave registers. -/
def daveRegisters : Visit :=
  .register
    { U := some "dave", E := some "dave@example.org", captcha := some "14"
      captchaSalt := some "7" } { now := 1000000, token := "d1" } "v1"

/-- Dave sets his first password. -/
def daveSets : Visit :=
  .act (.passreset "dave" "d1" "s3cret" "s3cret" { now := 2000000, token := "d2" })

/-- Dave's form with another address, an hour later. -/
def daveMoves : Visit :=
  .act (.edit 4 "dave" { filledIn "dave" "s3cret" with E := some "dave@example.net" }
    { now := 3600000000 } fun _ => laterTick 3600000000 "a2")

theorem onlyLiveKeys_of_keyless_dave :
    Run.Along (KeyHistory.step .open) (OnlyLiveKeys .open) keylessSite
      [daveRegisters, daveSets, daveMoves] := by
  have hregistered : (keylessSite.step .open daveRegisters).log = [.issued 4 "d1"] := by
    decide +kernel
  have hchanged : ∀ r ∈ (Act.edit 4 "dave"
      { filledIn "dave" "s3cret" with E := some "dave@example.net" } { now := 3600000000 }
      fun _ => laterTick 3600000000 "a2").records .open
        ((keylessSite.step .open daveRegisters).step .open daveSets).store, r = .email 4 := by
    decide +kernel
  have hused : (((keylessSite.step .open daveRegisters).step .open daveSets).store.account?
      4).map Account.resetKey = some "" := by
    decide +kernel
  refine onlyLiveKeys_of_keyless .open keylessSite _ ⟨by decide, by decide⟩ rfl (by decide)
    ⟨fun _ => by simp [keylessSite], fun uid => ?_, trivial, trivial⟩
    ⟨trivial, trivial, fun r hr u hu => ?_, trivial⟩
  · rw [hregistered]
    simp
  · obtain rfl := hchanged r hr
    rw [show (Record.email 4).uid = 4 from rfl] at hu
    rw [hu] at hused
    exact Option.some.inj hused

/-- Alice asks for a key. -/
def aliceAsks : Visit := .act (.passreset "alice" "" "" "" { now := 2000000, token := "k1" })

/-- Alice's form with another address. -/
def aliceMoves : Visit :=
  .act (.edit 1 "alice" { filledIn "alice" "alice" with E := some "alice@example.net" }
    { now := 3000000 } fun _ => laterTick 3000000 "a2")

/-- What was mailed to the old address sets the password. -/
theorem not_onlyLiveKeys_aliceMoves :
    ¬Run.Along (KeyHistory.step .plain) (OnlyLiveKeys .plain) keylessSite
      [aliceAsks, aliceMoves] := by
  intro h
  have hlog : (Run.exec (KeyHistory.step .plain) keylessSite [aliceAsks, aliceMoves]).log =
      [.email 1, .issued 1 "k1"] := by
    decide +kernel
  obtain ⟨dbUser, hfound⟩ := Option.isSome_iff_exists.mp (show (resetAccount .plain (Run.exec
    (KeyHistory.step .plain) keylessSite [aliceAsks, aliceMoves]).store "alice").isSome = true by
      decide +kernel)
  have hlive := h.last "alice" "k1" "mine" "mine" { now := 4000000 } dbUser hfound (by decide)
    (by decide +kernel)
  rw [hlog] at hlive
  have hid : dbUser.id = 1 := by
    have hids : (resetAccount .plain (Run.exec (KeyHistory.step .plain) keylessSite
        [aliceAsks, aliceMoves]).store "alice").map (·.id) = some 1 := by
      decide +kernel
    rw [hfound] at hids
    exact Option.some.inj hids
  rw [hid] at hlive
  exact absurd hlive (by decide)

end Aurweb.Users
