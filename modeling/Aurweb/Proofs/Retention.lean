/-
How long the site keeps an address.

A row of `Users` has the address of the last login by each way, and the time of it.  The two are
written together, by a login; `usermaint` erases the address where the time is a week ago.  So an
address that is there after a run of it is of a login within that week, or of one since.
-/
import Aurweb.Proofs.WaysIn

namespace Aurweb.Users

variable {env : Env} {t : Tick} {st st' : Store} {o : Office} {g : Gate} {uid : Nat}

/-- The last login of the account by this way was at `ts`, from the address that is stored. -/
def HasAddress (st : Store) (w : Way) (uid : Nat) (ip : String) (ts : Nat) : Prop :=
  ∃ u ∈ st.accounts, u.id = uid ∧ w.address u = some ip ∧ w.stamp u = ts

/-! ### What writes no address -/

theorem Keeps.hasAddress (h : Keeps st st') {w : Way} {ip : String} {ts : Nat}
    (hhas : HasAddress st' w uid ip ts) : HasAddress st w uid ip ts := by
  obtain ⟨u', hu', huid, haddress, hstamp⟩ := hhas
  obtain ⟨u, hu, hsame⟩ := h u' hu'
  exact ⟨u, hu, hsame.id.symm.trans huid, (hsame.address w).symm.trans haddress,
    (hsame.stamp w).symm.trans hstamp⟩

theorem Rehashed.keeps (h : Rehashed st st') : Keeps st st' := by
  rcases h with rfl | ⟨v, passwd, rfl⟩
  · exact keeps_of_accounts rfl
  · exact keeps_setPasswd st v passwd

/-! ### What does -/

/-- The event is a login of the account, from the address and at the time. -/
def Logs (env : Env) (w : Way) (uid : Nat) (ip : String) (ts : Nat) (g : Gate) (a : Arrival) :
    Prop :=
  (w = .web ∧ ∃ i t r, a = .event (.advance i t) ∧ g.office.inFlight[i]? = some r ∧
    r.opens = some uid ∧ t.clientIP = ip ∧ timestamp t.now = ts) ∨
  (w = .ssh ∧ ∃ user now, a = .ssh user ip now ∧ timestamp now = ts ∧
    ∃ u ∈ g.store.accounts, u.id = uid ∧ env.cfg.sameName u.username user = true)

/-- A login by the web writes the two columns of that way, and not those of the other. -/
theorem hasAddress_updateAccount {f : Account → Account} {v : Nat} {w : Way} {ip : String} {ts : Nat}
    (hhas : HasAddress (st.updateAccount v f) w uid ip ts)
    (hf : ∀ u, (f u).id = u.id ∧ Way.web.address (f u) = some t.clientIP ∧
      Way.web.stamp (f u) = timestamp t.now ∧ Way.ssh.address (f u) = Way.ssh.address u ∧
      Way.ssh.stamp (f u) = Way.ssh.stamp u) :
    HasAddress st w uid ip ts ∨ w = .web ∧ v = uid ∧ t.clientIP = ip ∧ timestamp t.now = ts := by
  obtain ⟨u', hu', huid, haddress, hstamp⟩ := hhas
  rcases mem_updateAccount hu' with hold | ⟨u, hu, hid, rfl⟩
  · exact .inl ⟨u', hold, huid, haddress, hstamp⟩
  · obtain ⟨hsame, hweb, hwebTime, hssh, hsshTime⟩ := hf u
    cases w with
    | web =>
        rw [hweb, Option.some.injEq] at haddress
        exact .inr ⟨rfl, hid.symm.trans (hsame.symm.trans huid), haddress, hwebTime ▸ hstamp⟩
    | ssh =>
        exact .inl ⟨u, hu, hsame.symm.trans huid, hssh ▸ haddress, hsshTime ▸ hstamp⟩

theorem hasAddress_openSession {v : Nat} {w : Way} {ip : String} {ts : Nat}
    (h : openSession t v st = .ok st') (hhas : HasAddress st' w uid ip ts) :
    HasAddress st w uid ip ts ∨ w = .web ∧ v = uid ∧ t.clientIP = ip ∧ timestamp t.now = ts := by
  obtain ⟨-, -, rfl⟩ := openSession_ok h
  have hlogged : HasAddress (st.updateAccount v (Account.loggedIn t)) w uid ip ts := hhas
  exact hasAddress_updateAccount hlogged fun _ => ⟨rfl, rfl, rfl, rfl, rfl⟩

theorem hasAddress_insertSession {v : Nat} {w : Way} {ip : String} {ts : Nat}
    (h : insertSession t v st = .ok st') (hhas : HasAddress st' w uid ip ts) :
    HasAddress st w uid ip ts ∨ w = .web ∧ v = uid ∧ t.clientIP = ip ∧ timestamp t.now = ts := by
  unfold insertSession at h
  split at h
  · cases h
  obtain rfl := Except.ok.inj h
  have hlogged : HasAddress (st.updateAccount v fun u => { u with
      lastLogin := timestamp t.now, lastLoginIPAddress := some t.clientIP }) w uid ip ts := hhas
  exact hasAddress_updateAccount hlogged fun _ => ⟨rfl, rfl, rfl, rfl, rfl⟩

theorem hasAddress_advance {r : Request} {w : Way} {ip : String} {ts : Nat}
    (hhas : HasAddress (r.advance env t st).2 w uid ip ts) : HasAddress st w uid ip ts ∨
      w = .web ∧ r.opens = some uid ∧ t.clientIP = ip ∧ timestamp t.now = ts := by
  cases r with
  | login v =>
      simp only [Request.advance] at hhas
      split at hhas
      · rename_i st' hopen
        rcases hasAddress_openSession hopen hhas with hold | ⟨hw, hv, hof⟩
        · exact .inl hold
        · exact .inr ⟨hw, congrArg some hv, hof⟩
      · exact .inl hhas
  | sso v =>
      simp only [Request.advance] at hhas
      split at hhas
      · rename_i st' hopen
        rcases hasAddress_insertSession hopen hhas with hold | ⟨hw, hv, hof⟩
        · exact .inl hold
        · exact .inr ⟨hw, congrArg some hv, hof⟩
      · exact .inl hhas
  | edit e =>
      simp only [Request.advance] at hhas
      split at hhas
      · exact .inl hhas
      rename_i task rest htodo
      split at hhas
      · exact .inl hhas
      rename_i e' st' hok
      rcases Task.run_keeps hok with hkeeps | ⟨rfl, happroved, hopen⟩
      · exact .inl (hkeeps.hasAddress hhas)
      · rcases hasAddress_openSession hopen hhas with hold | ⟨hw, hv, hof⟩
        · exact .inl hold
        · refine .inr ⟨hw, ?_, hof⟩
          simp [Request.opens, htodo, happroved, hv]

theorem hasAddress_logSSHLogin {user remoteAddr : String} {now : Nat} {w : Way} {ip : String}
    {ts : Nat} (hhas : HasAddress (st.logSSHLogin env.cfg user remoteAddr now) w uid ip ts) :
    HasAddress st w uid ip ts ∨ w = .ssh ∧ remoteAddr = ip ∧ timestamp now = ts ∧
      ∃ u ∈ st.accounts, u.id = uid ∧ env.cfg.sameName u.username user = true := by
  obtain ⟨u', hu', huid, haddress, hstamp⟩ := hhas
  obtain ⟨u, hu, heq⟩ := List.mem_map.mp hu'
  split at heq
  · rename_i hname
    subst heq
    cases w with
    | web => exact .inl ⟨u, hu, huid, haddress, hstamp⟩
    | ssh => exact .inr ⟨rfl, Option.some.inj haddress, hstamp, u, hu, huid, hname⟩
  · subst heq
    exact .inl ⟨u, hu, huid, haddress, hstamp⟩

/-- One of the two statements of the script. -/
def Way.forget (w : Way) (now : Nat) (st : Store) : Store :=
  { st with
    accounts := Table.update (fun u : Account => w.stamp u + aWeek < timestamp now)
      (fun u => match w with
        | .web => { u with lastLoginIPAddress := none }
        | .ssh => { u with lastSSHLoginIPAddress := none }) st.accounts }

theorem usermaint_eq (st : Store) (now : Nat) :
    st.usermaint now = Way.ssh.forget now (Way.web.forget now st) := rfl

/-- A statement leaves the other way alone, and of its own what is not older than a week. -/
theorem hasAddress_forget {now : Nat} {v w : Way} {ip : String} {ts : Nat}
    (hhas : HasAddress (v.forget now st) w uid ip ts) :
    HasAddress st w uid ip ts ∧ (v = w → timestamp now ≤ ts + aWeek) := by
  obtain ⟨u', hu', huid, haddress, hstamp⟩ := hhas
  obtain ⟨u, hu, heq⟩ := List.mem_map.mp hu'
  split at heq
  · subst heq
    cases v with
    | web =>
        cases w with
        | web => cases haddress
        | ssh => exact ⟨⟨u, hu, huid, haddress, hstamp⟩, fun hw => by cases hw⟩
    | ssh =>
        cases w with
        | web => exact ⟨⟨u, hu, huid, haddress, hstamp⟩, fun hw => by cases hw⟩
        | ssh => cases haddress
  · rename_i hrecent
    subst heq
    rw [decide_eq_true_eq, not_lt] at hrecent
    refine ⟨⟨u, hu, huid, haddress, hstamp⟩, fun hw => ?_⟩
    rw [← hstamp, ← hw]
    exact hrecent

/-- What the script leaves is not older than a week. -/
theorem hasAddress_usermaint {now : Nat} {w : Way} {ip : String} {ts : Nat}
    (hhas : HasAddress (st.usermaint now) w uid ip ts) :
    HasAddress st w uid ip ts ∧ timestamp now ≤ ts + aWeek := by
  rw [usermaint_eq] at hhas
  obtain ⟨hbetween, hssh⟩ := hasAddress_forget hhas
  obtain ⟨hbefore, hweb⟩ := hasAddress_forget hbetween
  refine ⟨hbefore, ?_⟩
  cases w with
  | web => exact hweb rfl
  | ssh => exact hssh rfl

theorem Registered.hasAddress {id : Nat} {args : Args} {w : Way} {ip : String} {ts : Nat}
    (h : Registered env id args st st') (hhas : HasAddress st' w uid ip ts) :
    HasAddress st w uid ip ts := by
  obtain ⟨row, haccounts, hnone⟩ := h.accounts
  obtain ⟨u, hu, huid, haddress, hstamp⟩ := hhas
  rw [haccounts] at hu
  rcases List.mem_append.mp hu with hu | hu
  · exact ⟨u, hu, huid, haddress, hstamp⟩
  · rw [List.mem_singleton.mp hu, hnone w] at haddress
    cases haddress

theorem passresetPost_keeps (env : Env) (st : Store) (user resetkey password confirm : String)
    (t : Tick) : Keeps st (passresetPost env st user resetkey password confirm t).2 := by
  have hupdate : ∀ (st : Store) (uid : Nat) (f : Account → Account),
      (∀ u, SameLogins u (f u)) → Keeps st (st.updateAccount uid f) :=
    fun st uid f hf => keeps_updateAccount fun u hu _ => ⟨u, hu, hf u⟩
  rcases passreset_records env st user resetkey password confirm t with ⟨-, hsame⟩ |
    ⟨dbUser, -, ⟨-, hissued⟩ | ⟨-, -, hused⟩⟩
  · have hst : (passresetPost env st user resetkey password confirm t).2 = st := hsame
    rw [hst]
    exact keeps_of_accounts rfl
  · have hst : (passresetPost env st user resetkey password confirm t).2 = _ := hissued
    rw [hst]
    exact hupdate _ _ _ fun u => .of_columns rfl rfl rfl rfl rfl
  · have hst : (passresetPost env st user resetkey password confirm t).2 = _ := hused
    rw [hst]
    exact hupdate (st.deleteSessions dbUser.id) _ _ fun u => .of_columns rfl rfl rfl rfl rfl

theorem hasAddress_step {w : Way} {ip : String} {ts : Nat} (a : Arrival)
    (h : HasAddress (g.step env a).store w uid ip ts) :
    HasAddress g.store w uid ip ts ∨ Logs env w uid ip ts g a := by
  cases a with
  | register args t token =>
      simp only [Gate.step] at h
      split at h
      · exact .inl h
      · rename_i store hok
        exact .inl ((accountRegisterPost_registered hok).hasAddress h)
  | event ev =>
      cases ev with
      | login user passwd t =>
          exact .inl ((checkLogin_rehashed env g.store user passwd t).keeps.hasAddress h)
      | sso sub t => exact .inl h
      | edit editorID username args t =>
          exact .inl ((rehashed_edit env g.office editorID username args t).keeps.hasAddress h)
      | advance i t =>
          simp only [Gate.step, Office.step, Gate.store] at h
          split at h
          · exact .inl h
          · rename_i r hr
            rcases hasAddress_advance h with hold | ⟨hw, hopens, hip, hts⟩
            · exact .inl hold
            · exact .inr (.inl ⟨hw, i, t, r, rfl, hr, hopens, hip, hts⟩)
      | fail i => exact .inl h
      | authenticate sid remembered now =>
          obtain ⟨p, hstore⟩ := authenticate_frame env g.office.store sid remembered now
          simp only [Gate.step, Office.step, Gate.store, hstore] at h
          exact .inl h
  | logout v => exact .inl h
  | passreset user resetkey password confirm t =>
      exact .inl ((passresetPost_keeps env g.store user resetkey password confirm t).hasAddress h)
  | delete v =>
      obtain ⟨u, hu, hof⟩ := h
      exact .inl ⟨u, (Table.mem_delete.mp hu).1, hof⟩
  | ssh user remoteAddr now =>
      rcases hasAddress_logSSHLogin h with hold | ⟨hw, hip, hts, hu⟩
      · exact .inl hold
      · exact .inr (.inr ⟨hw, user, now, hip ▸ rfl, hts, hu⟩)
  | usermaint now => exact .inl (hasAddress_usermaint h).1

/-! ### A week -/

/-- When a login that the event makes is written down. -/
def Arrival.loginTime : Arrival → Option Nat
  | .event (.advance _ t) => some t.now
  | .ssh _ _ now => some now
  | _ => none

theorem Logs.time {w : Way} {ip : String} {ts : Nat} {a : Arrival}
    (h : Logs env w uid ip ts g a) : ∃ now, a.loginTime = some now ∧ timestamp now = ts := by
  rcases h with ⟨-, i, t, r, rfl, -, -, -, hts⟩ | ⟨-, user, now, rfl, hts, -⟩
  · exact ⟨t.now, rfl, hts⟩
  · exact ⟨now, rfl, hts⟩

/-- **No address is kept for longer than the job lets it be.**  Whatever happens before and after a
run of `usermaint`, and however requests come in between each other, an address that an account
has is that of its last login by this way, which wrote it and the time, and the login was at most
a week before the run of the job, or after it. -/
theorem retained_of_run (g : Gate) (pre post : List Arrival) (now : Nat)
    (hclock : ∀ a ∈ post, ∀ n, a.loginTime = some n → now ≤ n) {u : Account}
    (hu : u ∈ (Run.exec (Gate.step env) g (pre ++ .usermaint now :: post)).store.accounts)
    {w : Way} {ip : String} (haddress : w.address u = some ip) :
    timestamp now ≤ w.stamp u + aWeek ∧
      Run.Since (Gate.step env) (fun g => HasAddress g.store w u.id ip (w.stamp u))
        (Logs env w u.id ip (w.stamp u)) g (pre ++ .usermaint now :: post) := by
  have hhas : HasAddress (Run.exec (Gate.step env) g (pre ++ .usermaint now :: post)).store w u.id
      ip (w.stamp u) := ⟨u, hu, rfl, haddress, rfl⟩
  have hsince : ∀ (g : Gate) (es : List Arrival),
      HasAddress (Run.exec (Gate.step env) g es).store w u.id ip (w.stamp u) →
        Run.Since (Gate.step env) (fun g => HasAddress g.store w u.id ip (w.stamp u))
          (Logs env w u.id ip (w.stamp u)) g es := fun g es h =>
    Run.since_of_step (I := fun _ => True) (fun _ _ _ => trivial)
      (fun _ a _ h => hasAddress_step a h) trivial h
  refine ⟨?_, hsince g _ hhas⟩
  rw [Run.exec_append, Run.exec_cons] at hhas
  rcases hsince _ post hhas with hall | ⟨before, a, after, rfl, hlogs, -⟩
  · exact (hasAddress_usermaint hall.head).2
  · obtain ⟨n, htime, hstamp⟩ := hlogs.time
    have hlater := hclock a (by simp) n htime
    have hle : timestamp now ≤ timestamp n := Nat.div_le_div_right hlater
    omega

/-- Alice logs in, and Bob after more than a week; the job runs, and Carol comes over SSH. -/
def threeLogins : List Arrival :=
  [.event (.login "alice" "alice" { now := 1000000, clientIP := "192.0.2.1" }),
    .event (.advance 0 { now := 1000000, sid := "a1", clientIP := "192.0.2.1" }),
    .event (.login "bob" "bob" { now := 700000000000, clientIP := "192.0.2.2" }),
    .event (.advance 0 { now := 700000000000, sid := "b1", clientIP := "192.0.2.2" })]

theorem retained_of_run_bob :
    let last := Run.exec (Gate.step .oneKey) smallGate
      (threeLogins ++ .usermaint 700001000000 :: [.ssh "carol" "192.0.2.3" 700002000000])
    last.store.accounts.map (·.lastLoginIPAddress) = [none, some "192.0.2.2", none] ∧
    ∃ u ∈ last.store.accounts, Way.web.address u = some "192.0.2.2" ∧
      timestamp 700001000000 ≤ Way.web.stamp u + aWeek ∧
      Run.Since (Gate.step .oneKey)
        (fun g => HasAddress g.store .web u.id "192.0.2.2" (Way.web.stamp u))
        (Logs .oneKey .web u.id "192.0.2.2" (Way.web.stamp u)) smallGate
        (threeLogins ++ .usermaint 700001000000 :: [.ssh "carol" "192.0.2.3" 700002000000]) := by
  intro last
  obtain ⟨u, hu, haddress⟩ : ∃ u ∈ last.store.accounts, Way.web.address u = some "192.0.2.2" := by
    decide +kernel
  have hclock : ∀ a ∈ [Arrival.ssh "carol" "192.0.2.3" 700002000000], ∀ n,
      a.loginTime = some n → 700001000000 ≤ n := by
    intro a ha n hn
    obtain rfl := List.mem_singleton.mp ha
    obtain rfl := Option.some.inj hn
    decide
  exact ⟨by decide +kernel, u, hu, haddress,
    retained_of_run smallGate threeLogins _ 700001000000 hclock hu haddress⟩

end Aurweb.Users
