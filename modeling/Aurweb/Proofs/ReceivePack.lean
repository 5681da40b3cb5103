/-
Who a push writes for.

`serve` decides about the access when a push arrives, and the hook writes some time later.
What carries over is `Cleared`: whoever is about to push may write to every base of that name,
as things stand now.  Other operations may take that away, and one thing among the pushes
does: two of them for a name nobody has, of which the first adds the base and the second
writes to it.  `only_writers` is about the runs in which neither happens.
-/
import Aurweb.ReceivePack
import Aurweb.Proofs.Stock

namespace Aurweb.ReceivePack

open GitUpdate (Stocked Framed baseByName userByName blocked firstCommit metadata)

/-! ### Who may write -/

/-- A Package Maintainer or a developer. -/
def Privileged (db : Db) (uid : Nat) : Prop := ∃ u ∈ db.users, u.id = uid ∧ u.isElevated = true

/-- Maintainer, comaintainer or privileged. -/
def MayWrite (db : Db) (uid : Nat) (b : PackageBase) : Prop :=
  b.maintainerUID = some uid ∨ isComaintainer db b.id uid = true ∨ Privileged db uid

/-- The name of the session is the account's, and no base of the name is closed to it. -/
structure Cleared (cfg : Config) (db : Db) (r : Receiver) : Prop where
  named : ∀ u ∈ db.users, cfg.sameName u.username r.session.user = true → u.id = r.uid
  access : ∀ b ∈ db.packageBases, cfg.sameName b.name r.pkgbase = true → MayWrite db r.uid b

section

variable {cfg : Config} {repo : Repo} {db db' : Db} {op : Op} {r : Receiver}

/-! ### The check -/

theorem privileged_logSSHLogin {s : GitServe.Session} {uid : Nat} (h : Privileged db uid) :
    Privileged (GitServe.logSSHLogin cfg db s) uid := by
  obtain ⟨u, hu, hid, hel⟩ := h
  refine ⟨_, Table.mem_update.mpr ⟨u, hu, rfl⟩, ?_⟩
  by_cases hname : cfg.sameName u.username s.user = true
  · rw [if_pos hname]
    exact ⟨hid, hel⟩
  · rw [if_neg hname]
    exact ⟨hid, hel⟩

/-- What a session that hands over has come to. -/
theorem handOver_of_receiver (h : receiver cfg db op = some r) :
    ∃ (user : User) (now : Nat) (hookInstalled : Bool) (remoteAddr : String),
      sessionOf db r.uid remoteAddr now hookInstalled = some (user, r.session) ∧
      user.id = r.uid ∧ r.accepted = none ∧
      Aurweb.step cfg db (handOver op) = GitServe.logSSHLogin cfg db r.session ∧
      (GitServe.mayPush cfg (GitServe.logSSHLogin cfg db r.session) r.session r.pkgbase = .ok () ∨
        baseNamed cfg (GitServe.logSSHLogin cfg db r.session) r.pkgbase = none) := by
  cases op with
  | ssh uid remoteAddr now hookInstalled action args upload =>
      simp only [receiver] at h
      cases hsession : (db.user? uid).bind fun u =>
          GitServe.Session.of u remoteAddr (timestamp now) hookInstalled with
      | none => simp [hsession] at h
      | some s =>
          simp only [hsession] at h
          obtain ⟨user, hu, hof⟩ := Option.bind_eq_some_iff.mp hsession
          have hsessionOf : sessionOf db uid remoteAddr now hookInstalled = some (user, s) := by
            simp [sessionOf, hu, hof]
          have huid := (Db.user?_mem hu).2
          simp only [handOver, Aurweb.step, hsession, session]
          rcases GitServe.serve_cases cfg db s action args with ⟨e, he⟩ | ⟨e, he⟩ | ⟨command, -, he⟩
          · simp [he] at h
          · simp [he] at h
          rw [he] at h ⊢
          split at h
          · rename_i pkgbase heq
            have hpair : GitServe.dispatch cfg (GitServe.logSSHLogin cfg db s) s command =
                (.ok (.receivePack pkgbase),
                  (GitServe.dispatch cfg (GitServe.logSSHLogin cfg db s) s command).2) :=
              Prod.ext heq rfl
            obtain ⟨hdb, hmay⟩ := GitServe.dispatch_receivePack hpair
            obtain rfl := Option.some.inj h
            refine ⟨user, now, hookInstalled, remoteAddr, hsessionOf, huid, rfl, ?_, Or.inl hmay⟩
            rw [hpair, hdb]
            rfl
          · rename_i pkgbase heq
            have hpair : GitServe.dispatch cfg (GitServe.logSSHLogin cfg db s) s command =
                (.ok (.restore pkgbase),
                  (GitServe.dispatch cfg (GitServe.logSSHLogin cfg db s) s command).2) :=
              Prod.ext heq rfl
            obtain ⟨hdb, hnone⟩ := GitServe.dispatch_restore hpair
            obtain rfl := Option.some.inj h
            refine ⟨user, now, hookInstalled, remoteAddr, hsessionOf, huid, rfl, ?_, Or.inr hnone⟩
            rw [hpair, hdb]
            rfl
          · cases h
  | _ => cases h

/-- **The check is right**, for as long as nothing changes. -/
theorem cleared_of_receiver (hwf : WellFormed cfg db) (h : receiver cfg db op = some r) :
    Cleared cfg (Aurweb.step cfg db (handOver op)) r := by
  obtain ⟨user, now, hookInstalled, remoteAddr, hsession, hid, -, hstep, hcheck⟩ :=
    handOver_of_receiver h
  have hacts := acts_of_session hwf hsession
  obtain ⟨hmem, -, hpriv⟩ := sessionOf_some hsession
  have hwf' : WellFormed cfg (GitServe.logSSHLogin cfg db r.session) :=
    hstep ▸ wellFormed_step hwf (handOver op)
  rw [hstep]
  refine ⟨fun u hu hname => (hacts.named u hu hname).trans hid, fun b hb hname => ?_⟩
  rcases hcheck with hmay | hnone
  · rcases access_of_mayPush hmay hb hname with hel | haccess
    · exact Or.inr (Or.inr (privileged_logSSHLogin ⟨user, hmem, hid, hpriv hel⟩))
    · rw [← hid]
      rcases GitServe.works_of_writeAccess hwf' hacts hb hname haccess with hm | hco
      · exact Or.inl hm
      · exact Or.inr (Or.inl hco)
  · exact absurd hname (List.find?_eq_none.mp hnone b hb)

/-! ### The hook -/

/-- What a hook does about who works on what: an orphan may be taken over, and a base of a new
name belongs to whoever pushed it. -/
structure Staffed (cfg : Config) (push : GitUpdate.Push) (db t : Db) : Prop where
  users : t.users = db.users
  comaintainers : t.packageComaintainers = db.packageComaintainers
  names : ∀ b ∈ db.packageBases, ∃ b' ∈ t.packageBases, b'.name = b.name
  bases : ∀ b' ∈ t.packageBases,
    (∃ b ∈ db.packageBases, b.id = b'.id ∧ b.name = b'.name ∧
      (b.maintainerUID ≠ none → b'.maintainerUID = b.maintainerUID)) ∨
    (baseByName cfg push.pkgbase db = none ∧ b'.name = push.pkgbase ∧
      ∃ u, userByName cfg push.user db = some u ∧ b'.maintainerUID = some u.id)

theorem Staffed.refl (cfg : Config) (push : GitUpdate.Push) (db : Db) : Staffed cfg push db db :=
  ⟨rfl, rfl, fun b hb => ⟨b, hb, rfl⟩, fun b hb => Or.inl ⟨b, hb, rfl, rfl, fun _ => rfl⟩⟩

theorem Staffed.updatePackageBase {push : GitUpdate.Push} {t : Db} (h : Staffed cfg push db t)
    (id : Nat) {f : PackageBase → PackageBase} (hid : ∀ b, (f b).id = b.id)
    (hname : ∀ b, (f b).name = b.name)
    (hm : ∀ b, b.maintainerUID ≠ none → (f b).maintainerUID = b.maintainerUID) :
    Staffed cfg push db (t.updatePackageBase id f) := by
  -- The update is `f` of some rows and nothing to the others.
  obtain ⟨g, hg, hkeeps⟩ : ∃ g : PackageBase → PackageBase,
      (∀ b, (if b.id == id then f b else b) = g b) ∧ ∀ b, (g b).id = b.id ∧ (g b).name = b.name ∧
        (b.maintainerUID ≠ none → (g b).maintainerUID = b.maintainerUID) := by
    refine ⟨_, fun _ => rfl, fun b => ?_⟩
    by_cases hb : b.id == id
    · rw [if_pos hb]
      exact ⟨hid b, hname b, hm b⟩
    · rw [if_neg hb]
      exact ⟨rfl, rfl, fun _ => rfl⟩
  refine ⟨h.users, h.comaintainers, fun b hb => ?_, fun b' hb' => ?_⟩
  · obtain ⟨b₁, hb₁, hname₁⟩ := h.names b hb
    refine ⟨_, Table.mem_update.mpr ⟨b₁, hb₁, rfl⟩, ?_⟩
    rw [hg, (hkeeps b₁).2.1, hname₁]
  · obtain ⟨b₁, hb₁, rfl⟩ := Table.mem_update.mp hb'
    obtain ⟨hid₁, hname₁, hm₁⟩ := hkeeps b₁
    rw [hg]
    rcases h.bases b₁ hb₁ with ⟨b, hb, hbid, hbname, hbm⟩ | ⟨hnone, hnew, u, hu, hbm⟩
    · refine Or.inl ⟨b, hb, hbid.trans hid₁.symm, hbname.trans hname₁.symm, fun hsome => ?_⟩
      rw [hm₁ (by rwa [hbm hsome]), hbm hsome]
    · refine Or.inr ⟨hnone, hname₁.trans hnew, u, hu, ?_⟩
      rw [hm₁ (by simp [hbm]), hbm]

theorem keptBy_staffed (cfg : Config) (push : GitUpdate.Push) (db : Db) :
    GitUpdate.KeptBy cfg push (Staffed cfg push db) where
  stores hs h := by cases hs <;> exact ⟨h.users, h.comaintainers, h.names, h.bases⟩
  clear _ h := ⟨h.users, h.comaintainers, h.names, h.bases⟩
  notify h := ⟨h.users, h.comaintainers, h.names, h.bases⟩
  touch _ _ _ h := h.updatePackageBase _ (fun _ => rfl) (fun _ => rfl) fun _ _ => rfl
  takeOver {_ _ _ _ u} _ _ _ _ h := by
    refine h.updatePackageBase _ (GitUpdate.takeOver_id u.id) (GitUpdate.takeOver_name u.id) ?_
    intro b hsome
    simp [hsome]
  create {db₁ t u b} h₁ hu h hnone _ hname hm _ := by
    have hold : baseByName cfg push.pkgbase db = none := by
      rw [baseByName, List.find?_eq_none]
      intro b₀ hb₀
      obtain ⟨b₁, hb₁, hsame⟩ := h.names b₀ hb₀
      rw [← hsame, hnone b₁ hb₁]
      simp
    refine ⟨h.users, h.comaintainers, fun b₀ hb₀ => ?_, fun b' hb' => ?_⟩
    · obtain ⟨b₁, hb₁, hsame⟩ := h.names b₀ hb₀
      exact ⟨b₁, List.mem_append_left _ hb₁, hsame⟩
    · rcases List.mem_append.mp hb' with hb' | hb'
      · exact h.bases b' hb'
      · obtain rfl := List.mem_singleton.mp hb'
        refine Or.inr ⟨hold, hname, u, ?_, hm⟩
        rw [userByName, ← h₁.users]
        exact hu

theorem staffed_run (push : GitUpdate.Push) (faults : Nat → Option GitUpdate.Failure) :
    Staffed cfg push db ((GitUpdate.main cfg push).run faults db).2 :=
  run_of_keptBy (keptBy_staffed cfg push db) faults (Staffed.refl cfg push db)

theorem MayWrite.staffed {push : GitUpdate.Push} {uid : Nat} {b b' : PackageBase}
    (h : MayWrite db uid b) (hs : Staffed cfg push db db') (hid : b.id = b'.id)
    (hm : b.maintainerUID ≠ none → b'.maintainerUID = b.maintainerUID) : MayWrite db' uid b' := by
  rcases h with hmaint | hco | hpriv
  · exact Or.inl ((hm (by simp [hmaint])).trans hmaint)
  · refine Or.inr (Or.inl ?_)
    rw [isComaintainer, comaintainerIDs, hs.comaintainers, ← hid]
    exact hco
  · refine Or.inr (Or.inr ?_)
    rw [Privileged, hs.users]
    exact hpriv

/-- What another push has found out stays true, unless a base of its name has been added. -/
theorem Cleared.staffed {push : GitUpdate.Push} (h : Cleared cfg db r)
    (hs : Staffed cfg push db db')
    (hnew : ∀ u, baseByName cfg push.pkgbase db = none →
      userByName cfg push.user db = some u → cfg.sameName push.pkgbase r.pkgbase = true →
      db' ≠ db → u.id = r.uid ∨ Privileged db r.uid) : Cleared cfg db' r := by
  by_cases hsame : db' = db
  · rw [hsame]
    exact h
  refine ⟨fun u hu => h.named u (hs.users ▸ hu), fun b' hb' hname => ?_⟩
  rcases hs.bases b' hb' with ⟨b, hb, hid, hbname, hm⟩ | ⟨hnone, hbname, u, hu, hm⟩
  · exact (h.access b hb (hbname ▸ hname)).staffed hs hid hm
  · rcases hnew u hnone hu (hbname ▸ hname) hsame with huid | hpriv
    · exact Or.inl (huid ▸ hm)
    · refine Or.inr (Or.inr ?_)
      rw [Privileged, hs.users]
      exact hpriv

/-! ### Runs -/

/-- The base, the packages that are shown for it or its ref are no longer what they were. -/
def Modifies (s s' : Server) (b : PackageBase) : Prop :=
  b ∉ s'.db.packageBases ∨ metadata s'.db b.id ≠ metadata s.db b.id ∨
    s'.master b.name ≠ s.master b.name

/-- Whose hook, or whose update, it is. -/
def Event.actor (s : Server) : Event → Option Receiver
  | .hook i _ _ _ _ _ => s.receivers[i]?
  | .update i => s.receivers[i]?
  | _ => none

/-- A push modifies no base that its user may not write to at that moment. -/
def OnlyWriters (cfg : Config) (repo : Repo) (s : Server) : Event → Prop
  | .op _ => True
  | e => ∀ b ∈ s.db.packageBases, Modifies s (step cfg repo s e) b →
      ∃ r, e.actor s = some r ∧ MayWrite s.db r.uid b

/-- The hook is for a base that is not there, and nothing keeps it from adding it. -/
structure Adds (cfg : Config) (repo : Repo) (s : Server) (r : Receiver) (old : Option Commit)
    (new : Commit) (overwrite : Bool) (now : Nat)
    (faults : Nat → Option GitUpdate.Failure) : Prop where
  pending : r.accepted = none
  missing : baseByName cfg r.pkgbase s.db = none
  validates : repo.validates r.pkgbase (overwrite && r.session.privileged)
    (if r.restore then some new else old) new = true
  admitted : blocked cfg s.db (r.push repo new now) = false
  committed : ∀ k ≤ firstCommit cfg s.db (r.push repo new now), faults k = none

/-- What was found out about the pushes under way stays true: no operation takes it back, and a
new base is added only when whoever else is about to push to that name is the same user, or
privileged. -/
def Undisturbed (cfg : Config) (repo : Repo) (s : Server) : Event → Prop
  | .op op => ∀ r ∈ s.receivers, Cleared cfg s.db r →
      Cleared cfg (Aurweb.step cfg s.db (handOver op)) r
  | .hook i old new overwrite now faults => ∀ r, s.receivers[i]? = some r →
      Adds cfg repo s r old new overwrite now faults →
      ∀ q ∈ s.receivers, cfg.sameName r.pkgbase q.pkgbase = true →
        q.uid = r.uid ∨ Privileged s.db q.uid
  | _ => True

/-- Everything a push relies on. -/
structure Kept (cfg : Config) (s : Server) : Prop where
  wellFormed : WellFormed cfg s.db
  stocked : Stocked s.db
  cleared : ∀ r ∈ s.receivers, Cleared cfg s.db r

variable {s : Server}

/-- How a hook ends. -/
theorem hook_cases (cfg : Config) (repo : Repo) (s : Server) (i : Nat) (old : Option Commit)
    (new : Commit) (overwrite : Bool) (now : Nat) (faults : Nat → Option GitUpdate.Failure) :
    s.hook cfg repo i old new overwrite now faults = s ∨
    ∃ r, s.receivers[i]? = some r ∧ r.accepted = none ∧
      ((repo.validates r.pkgbase (overwrite && r.session.privileged)
          (if r.restore then some new else old) new = false ∧
        s.hook cfg repo i old new overwrite now faults =
          { s with receivers := s.receivers.eraseIdx i }) ∨
      (repo.validates r.pkgbase (overwrite && r.session.privileged)
          (if r.restore then some new else old) new = true ∧
        ∃ receivers, s.hook cfg repo i old new overwrite now faults =
            { s with
              db := ((GitUpdate.main cfg (r.push repo new now)).run faults s.db).2, receivers } ∧
          ((receivers = s.receivers.eraseIdx i ∧ (r.restore = true ∨
            ∃ e, ((GitUpdate.main cfg (r.push repo new now)).run faults s.db).1 = .error e)) ∨
          (r.restore = false ∧
            ((GitUpdate.main cfg (r.push repo new now)).run faults s.db).1 = .ok () ∧
            receivers = s.receivers.set i { r with accepted := some (old, new) })))) := by
  unfold Server.hook
  cases hr : s.receivers[i]? with
  | none => exact Or.inl rfl
  | some r =>
      simp only
      by_cases haccepted : r.accepted.isSome
      · exact Or.inl (by rw [if_pos haccepted])
      rw [if_neg haccepted]
      refine Or.inr ⟨r, rfl, by simpa using haccepted, ?_⟩
      cases hvalid : repo.validates r.pkgbase (overwrite && r.session.privileged)
          (if r.restore then some new else old) new with
      | false => exact Or.inl ⟨rfl, rfl⟩
      | true =>
          refine Or.inr ⟨rfl, ?_⟩
          cases hrun : (GitUpdate.main cfg (r.push repo new now)).run faults s.db with
          | mk outcome db =>
              cases outcome with
              | error e => exact ⟨_, rfl, Or.inl ⟨rfl, Or.inr ⟨e, rfl⟩⟩⟩
              | ok _ =>
                  cases hrestore : r.restore with
                  | true => exact ⟨_, rfl, Or.inl ⟨rfl, Or.inl rfl⟩⟩
                  | false => exact ⟨_, rfl, Or.inr ⟨rfl, rfl, rfl⟩⟩

theorem hook_ok {i : Nat} {old : Option Commit} {new : Commit} {overwrite : Bool} {now : Nat}
    {faults : Nat → Option GitUpdate.Failure} {r : Receiver} {db' : Db}
    (hr : s.receivers[i]? = some r) (hpending : r.accepted = none) (hpush : r.restore = false)
    (hvalid : repo.validates r.pkgbase (overwrite && r.session.privileged) old new = true)
    (hrun : (GitUpdate.main cfg (r.push repo new now)).run faults s.db = (.ok (), db')) :
    s.hook cfg repo i old new overwrite now faults =
      { s with
        db := db', receivers := s.receivers.set i { r with accepted := some (old, new) } } := by
  simp [Server.hook, hr, hpending, hpush, hvalid, hrun]

/-- How an update ends. -/
theorem update_cases (s : Server) (i : Nat) :
    s.update i = s ∨
    ∃ r old new, s.receivers[i]? = some r ∧ r.accepted = some (old, new) ∧
      s.update i =
        { s with
          master :=
            if s.master r.pkgbase = old then Function.update s.master r.pkgbase (some new)
            else s.master
          receivers := s.receivers.eraseIdx i } := by
  unfold Server.update
  cases hr : s.receivers[i]? with
  | none => exact Or.inl rfl
  | some r =>
      cases haccepted : r.accepted with
      | none => exact Or.inl (by simp [haccepted])
      | some update =>
          refine Or.inr ⟨r, update.1, update.2, rfl, haccepted, ?_⟩
          simp [haccepted]

theorem Cleared.mem_set {i : Nat} {r : Receiver} {update : Option Commit × Commit}
    (h : ∀ q ∈ s.receivers, Cleared cfg db q) (hr : s.receivers[i]? = some r) :
    ∀ q ∈ s.receivers.set i { r with accepted := some update }, Cleared cfg db q := by
  intro q hq
  rcases List.mem_or_eq_of_mem_set hq with hq | rfl
  · exact h q hq
  · have hr' := h r (List.mem_of_getElem? hr)
    exact ⟨hr'.named, hr'.access⟩

theorem Kept.after_op (h : Kept cfg s) (op : Op) (hg : Undisturbed cfg repo s (.op op)) :
    Kept cfg (step cfg repo s (.op op)) where
  wellFormed := wellFormed_step h.wellFormed (handOver op)
  stocked := stocked_step h.wellFormed h.stocked (handOver op)
  cleared r hr := by
    rcases List.mem_append.mp hr with hr | hr
    · exact hg r hr (h.cleared r hr)
    · exact cleared_of_receiver h.wellFormed (Option.mem_toList.mp hr)

theorem Kept.after_hook (h : Kept cfg s) {i : Nat} {old : Option Commit} {new : Commit}
    {overwrite : Bool} {now : Nat} {faults : Nat → Option GitUpdate.Failure}
    (hg : Undisturbed cfg repo s (.hook i old new overwrite now faults)) :
    Kept cfg (s.hook cfg repo i old new overwrite now faults) := by
  rcases hook_cases cfg repo s i old new overwrite now faults with
    heq | ⟨r, hr, hpending, ⟨-, heq⟩ | ⟨hvalid, receivers, heq, hreceivers⟩⟩
  · rw [heq]
    exact h
  · rw [heq]
    exact ⟨h.wellFormed, h.stocked, fun q hq => h.cleared q (List.mem_of_mem_eraseIdx hq)⟩
  rw [heq]
  have hmem : r ∈ s.receivers := List.mem_of_getElem? hr
  have hframed : Framed (GitUpdate.target cfg r.pkgbase s.db) s.db
      ((GitUpdate.main cfg (r.push repo new now)).run faults s.db).2 :=
    GitUpdate.framed_run h.stocked h.wellFormed.bases.lt (r.push repo new now) faults
  have hcleared : ∀ q ∈ s.receivers,
      Cleared cfg ((GitUpdate.main cfg (r.push repo new now)).run faults s.db).2 q := by
    intro q hq
    refine (h.cleared q hq).staffed (staffed_run (r.push repo new now) faults) ?_
    intro u hmissing hu hname hchanged
    have hadds : Adds cfg repo s r old new overwrite now faults := by
      refine ⟨hpending, hmissing, hvalid, ?_, ?_⟩
      · by_contra hblocked
        exact hchanged (GitUpdate.unchanged_of_early hmissing (Or.inl (by simpa using hblocked)))
      · intro k hk
        by_contra hfault
        exact hchanged (GitUpdate.unchanged_of_early hmissing (Or.inr ⟨k, hk, hfault⟩))
    refine (hg r hr hadds q hq hname).imp_left fun huid => ?_
    have hnamed := List.find?_some hu
    rw [huid]
    exact (h.cleared r hmem).named u (List.mem_of_find?_eq_some hu) hnamed
  refine ⟨run_of_keptBy (keptBy_wellFormed cfg _) faults h.wellFormed, hframed.stocked, ?_⟩
  rcases hreceivers with ⟨rfl, -⟩ | ⟨-, -, rfl⟩
  · exact fun q hq => hcleared q (List.mem_of_mem_eraseIdx hq)
  · exact Cleared.mem_set hcleared hr

theorem Kept.step (h : Kept cfg s) (e : Event) (hg : Undisturbed cfg repo s e) :
    Kept cfg (step cfg repo s e) := by
  have herase : ∀ (i : Nat) master, Kept cfg
      { s with master := master, receivers := s.receivers.eraseIdx i } := fun i _ =>
    ⟨h.wellFormed, h.stocked, fun q hq => h.cleared q (List.mem_of_mem_eraseIdx hq)⟩
  cases e with
  | op op => exact h.after_op op hg
  | hook => exact h.after_hook hg
  | update i =>
      show Kept cfg (s.update i)
      rcases update_cases s i with heq | ⟨r, old, new, -, -, heq⟩
      · rw [heq]
        exact h
      · rw [heq]
        exact herase i _
  | abandon i => exact herase i _

/-! ### Whose base it is -/

theorem not_modifies {s' : Server} {b : PackageBase} (hb : b ∈ s.db.packageBases)
    (hdb : s'.db = s.db) (href : s'.master b.name = s.master b.name) : ¬Modifies s s' b := by
  simp [Modifies, hdb, href, hb]

/-- Whatever a hook changes is its own base. -/
theorem eq_target_of_modifies (h : Kept cfg s) {push : GitUpdate.Push}
    {faults : Nat → Option GitUpdate.Failure} {receivers : List Receiver} {b : PackageBase}
    (hb : b ∈ s.db.packageBases)
    (hmod : Modifies s { s with
      db := ((GitUpdate.main cfg push).run faults s.db).2, receivers := receivers } b) :
    b.id = GitUpdate.target cfg push.pkgbase s.db := by
  have hframed : Framed (GitUpdate.target cfg push.pkgbase s.db) s.db
      ((GitUpdate.main cfg push).run faults s.db).2 :=
    GitUpdate.framed_run h.stocked h.wellFormed.bases.lt push faults
  by_contra hother
  rcases hmod with hgone | hmeta | href
  · exact hgone (hframed.mem_packageBases hb hother)
  · exact hmeta (hframed.metadata h.stocked hother)
  · exact href rfl

/-- No id is the next one, so a base that is a target has been found by its name. -/
theorem sameName_of_target (hwf : WellFormed cfg db) {pkgbase : String} {b : PackageBase}
    (hb : b ∈ db.packageBases) (htarget : b.id = GitUpdate.target cfg pkgbase db) :
    cfg.sameName b.name pkgbase = true := by
  unfold GitUpdate.target at htarget
  cases hbase : baseByName cfg pkgbase db with
  | none =>
      have hlt := hwf.bases.lt b hb
      simp only [hbase] at htarget
      omega
  | some base =>
      simp only [hbase] at htarget
      have hmem : base ∈ db.packageBases := List.mem_of_find?_eq_some hbase
      have hname := List.find?_some hbase
      rw [hwf.base_eq hb hmem htarget]
      exact hname

/-- A hook writes to the base its user was cleared for, if that is there at all. -/
theorem Kept.hook_writers (h : Kept cfg s) (i : Nat) (old : Option Commit) (new : Commit)
    (overwrite : Bool) (now : Nat) (faults : Nat → Option GitUpdate.Failure) :
    OnlyWriters cfg repo s (.hook i old new overwrite now faults) := by
  intro b hb hmod
  have hmod' : Modifies s (s.hook cfg repo i old new overwrite now faults) b := hmod
  rcases hook_cases cfg repo s i old new overwrite now faults with
    heq | ⟨r, hr, -, ⟨-, heq⟩ | ⟨-, receivers, heq, -⟩⟩
  · exact absurd hmod' (not_modifies hb (by rw [heq]) (by rw [heq]))
  · exact absurd hmod' (not_modifies hb (by rw [heq]) (by rw [heq]))
  · rw [heq] at hmod'
    have htarget := eq_target_of_modifies h hb hmod'
    have hname := sameName_of_target h.wellFormed hb htarget
    exact ⟨r, hr, (h.cleared r (List.mem_of_getElem? hr)).access b hb hname⟩

/-- The ref that is moved is the one of the name the user was cleared for. -/
theorem Kept.update_writers (h : Kept cfg s) (i : Nat) :
    OnlyWriters cfg repo s (.update i) := by
  intro b hb hmod
  have hmod' : Modifies s (s.update i) b := hmod
  rcases update_cases s i with heq | ⟨r, old, new, hr, -, heq⟩
  · exact absurd hmod' (not_modifies hb (by rw [heq]) (by rw [heq]))
  by_cases hname : b.name = r.pkgbase
  · refine ⟨r, hr, (h.cleared r (List.mem_of_getElem? hr)).access b hb ?_⟩
    rw [hname]
    exact Config.sameName_refl cfg _
  · refine absurd hmod' (not_modifies hb (by rw [heq]) ?_)
    rw [heq]
    show (if _ then _ else _ : String → Option Commit) b.name = _
    split
    · exact Function.update_of_ne hname _ _
    · rfl

theorem Kept.mayWrite (h : Kept cfg s) (e : Event) : OnlyWriters cfg repo s e := by
  cases e with
  | op op => exact trivial
  | hook i old new overwrite now faults => exact h.hook_writers i old new overwrite now faults
  | update i => exact h.update_writers i
  | abandon i =>
      intro b hb hmod
      simp [Modifies, ReceivePack.step, hb] at hmod

end

/--
**Only those who may write modify a base**, in every run that leaves the pushes undisturbed.
-/
theorem only_writers {cfg : Config} {repo : Repo} {db : Db} (hwf : WellFormed cfg db)
    (hs : Stocked db) (master : String → Option Commit) {es : List Event}
    (h : Run.Guarded (step cfg repo) (Undisturbed cfg repo) (Server.start db master) es) :
    Run.Guarded (step cfg repo) (OnlyWriters cfg repo) (Server.start db master) es := by
  have hstart : Kept cfg (Server.start db master) := by
    refine ⟨hwf, hs, fun r hr => ?_⟩
    cases hr
  exact Run.Guarded.of_inv (fun s e hk hg => ⟨hk.mayWrite e, hk.step e hg⟩) hstart h

theorem stocked_smallSite : Stocked smallSite := by
  refine ⟨⟨?_, ?_, ?_, ?_, ?_, ?_, ?_, ?_, ?_, ?_⟩, ?_⟩ <;> simp [smallSite]

/-- Every commit passes, and is of one package, named like the base. -/
def onePackage (name : String) : Repo where
  srcinfo _ := [{
    name := name, version := .ok "1-1", description := none, url := none, passes := []
    licenses := [], groups := [] }]
  validates _ _ _ _ := true

/-- `git push`, up to the hand-over. -/
def startPush (uid : Nat) (path : String) : Event :=
  .op (.ssh uid "127.0.0.1" 0 true "git-receive-pack" [path]
    { packages := none, faults := fun _ => none })

/-- The hook of a first push, which nothing goes wrong in. -/
def firstHook (i : Nat) (new : Commit) : Event := .hook i none new false 9 fun _ => none

theorem only_writers_foo :
    Run.Guarded (step siteConfig (onePackage "foo")) (OnlyWriters siteConfig (onePackage "foo"))
      (Server.start smallSite fun _ => none)
      [startPush 3 "foo.git", firstHook 0 "c1", .update 0] := by
  refine only_writers smallSite_wellFormed stocked_smallSite _ ⟨?_, ?_, trivial, trivial⟩
  · intro r hr
    cases hr
  · -- `foo` is there, and nobody adds it.
    intro r hr hadds
    have hthere : ∀ q ∈ (step siteConfig (onePackage "foo") (Server.start smallSite fun _ => none)
        (startPush 3 "foo.git")).receivers, baseByName siteConfig q.pkgbase smallSite ≠ none := by
      decide +kernel
    exact absurd hadds.missing (hthere r (List.mem_of_getElem? hr))

/-- Alice and Carol both push a base nobody has. -/
def twoFirstPushes : List Event :=
  [startPush 1 "bar.git", startPush 3 "bar.git", firstHook 0 "c1", firstHook 1 "c2"]

/-- What has become of the session. -/
def pushOf (uid : Nat) (user : String) : Receiver where
  uid := uid
  session := { user := user, privileged := false, remoteAddr := "127.0.0.1", now := 0,
               hookInstalled := true }
  pkgbase := "bar"
  restore := false
  accepted := none

/-- Both have been let through. -/
def letThrough : Server where
  db := { smallSite with
    users := smallSite.users.map fun u =>
      if u.id = 2 then u else { u with lastSSHLoginIPAddress := some "127.0.0.1" } }
  master _ := none
  receivers := [pushOf 1 "alice", pushOf 3 "carol"]

/-- Alice's hook has added `bar`. -/
def barAdded : Server where
  db := { letThrough.db with
    packageBases := letThrough.db.packageBases ++ [
      { id := 5, name := "bar", numVotes := 0, outOfDateTS := none, flaggerComment := ""
        submittedTS := 9, modifiedTS := 9, flaggerUID := none, submitterUID := some 1
        maintainerUID := some 1, packagerUID := some 1 }]
    packages := [{ id := 6, packageBaseID := 5, name := "bar", version := "1-1"
                   description := none, url := none }]
    packageNotifications := [{ packageBaseID := 5, userID := 1 }]
    nextID := 7 }
  master _ := none
  receivers := [{ pushOf 1 "alice" with accepted := some (none, "c1") }, pushOf 3 "carol"]

theorem letThrough_eq :
    Run.exec (step siteConfig (onePackage "bar")) (Server.start smallSite fun _ => none)
      [startPush 1 "bar.git", startPush 3 "bar.git"] = letThrough := by
  have hdb : (Run.exec (step siteConfig (onePackage "bar")) (Server.start smallSite fun _ => none)
      [startPush 1 "bar.git", startPush 3 "bar.git"]).db = letThrough.db := by decide +kernel
  have hreceivers : (Run.exec (step siteConfig (onePackage "bar"))
      (Server.start smallSite fun _ => none)
      [startPush 1 "bar.git", startPush 3 "bar.git"]).receivers = letThrough.receivers := by
    decide +kernel
  exact Server.mk.injEq _ _ _ _ _ _ |>.mpr ⟨hdb, rfl, hreceivers⟩

theorem barAdded_eq : step siteConfig (onePackage "bar") letThrough (firstHook 0 "c1") = barAdded := by
  have hrun : (GitUpdate.main siteConfig ((pushOf 1 "alice").push (onePackage "bar") "c1" 9)).run
      (fun _ => none) letThrough.db = (.ok (), barAdded.db) := by
    decide +kernel
  have hfirst : letThrough.receivers[0]? = some (pushOf 1 "alice") := rfl
  have hvalid : (onePackage "bar").validates (pushOf 1 "alice").pkgbase
      (false && (pushOf 1 "alice").session.privileged) none "c1" = true := rfl
  have hhook := hook_ok hfirst rfl rfl hvalid hrun
  unfold step firstHook
  simp only
  rw [hhook]
  rfl

/-- Carol's hook overwrites what Alice has stored, without Carol having anything to do with it. -/
theorem not_only_writers_twoFirstPushes :
    WellFormed siteConfig smallSite ∧ Stocked smallSite ∧
      ¬Run.Guarded (step siteConfig (onePackage "bar"))
        (OnlyWriters siteConfig (onePackage "bar")) (Server.start smallSite fun _ => none)
        twoFirstPushes := by
  refine ⟨smallSite_wellFormed, stocked_smallSite, fun h => ?_⟩
  obtain ⟨-, -, -, hlast, -⟩ := h
  have hstate : step siteConfig (onePackage "bar")
      (Run.exec (step siteConfig (onePackage "bar")) (Server.start smallSite fun _ => none)
        [startPush 1 "bar.git", startPush 3 "bar.git"]) (firstHook 0 "c1") = barAdded := by
    rw [letThrough_eq, barAdded_eq]
  rw [Run.exec_cons, Run.exec_cons, Run.exec_nil] at hstate
  rw [hstate] at hlast
  have hbar : ∃ b ∈ barAdded.db.packageBases, b.id = 5 ∧ b.maintainerUID = some 1 ∧
      b ∉ (step siteConfig (onePackage "bar") barAdded (firstHook 1 "c2")).db.packageBases := by
    decide +kernel
  obtain ⟨b, hb, hid, hm, hgone⟩ := hbar
  obtain ⟨r, hr, hmay⟩ := hlast b hb (Or.inl hgone)
  obtain rfl : pushOf 3 "carol" = r := Option.some.inj hr
  rcases hmay with hmaint | hco | ⟨u, hu, huid, hel⟩
  · rw [hm] at hmaint
    cases hmaint
  · have hnone : isComaintainer barAdded.db 5 3 = false := by decide
    rw [hid] at hco
    exact absurd hco (by rw [show (pushOf 3 "carol").uid = 3 from rfl, hnone]; simp)
  · have hplain : ∀ u ∈ barAdded.db.users, u.id = 3 → u.isElevated = false := by decide
    rw [hplain u hu huid] at hel
    cases hel

end Aurweb.ReceivePack
