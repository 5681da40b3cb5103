/-
Every operation is a chain of writes.

`mayOf` reads what an operation may do off the state it arrives in: who its actor is, what
they have to do with each base, and which of the things it does that none should.
`writes_step` is the inversion of `step`: whatever holds along a run is shown for one
`Write` at a time, and never for an operation.
-/
import Aurweb.Proofs.AccountMaint
import Aurweb.Proofs.GitServeWrites

namespace Aurweb

/-! ### What an operation may do -/

/-- The grants of a user, and of nobody else; `edits` is what else they may edit. -/
def userMay (db : Db) (user : User) (edits remove : Nat → Prop)
    (adopt accept reclose stray desert uncount double overlook : Prop) : May where
  actor := some user.id
  adopt := adopt
  manage id := user.isElevated = true ∨
    ∃ b ∈ db.packageBases, b.id = id ∧ b.maintainerUID = some user.id
  edit id := (user.isElevated = true ∨
    ∃ b ∈ db.packageBases, b.id = id ∧ b.maintainerUID = some user.id) ∨
    isComaintainer db id user.id = true ∨ edits id
  clear id := (user.isElevated = true ∨
    ∃ b ∈ db.packageBases, b.id = id ∧ b.maintainerUID = some user.id) ∨
    isComaintainer db id user.id = true ∨ edits id ∨
    ∃ b ∈ db.packageBases, b.id = id ∧ b.flaggerUID = some user.id
  remove := remove
  accept := accept
  reclose := reclose
  stray := stray
  desert := desert
  uncount := uncount
  double := double
  overlook := overlook

theorem userMay_grants {db : Db} {user : User} {edits remove : Nat → Prop}
    {adopt accept reclose stray desert uncount double overlook : Prop} :
    Grants db user (userMay db user edits remove adopt accept reclose stray desert uncount double
      overlook) where
  actor := rfl
  elevated hel _ := Or.inl hel
  maintainer b hb hm := Or.inr ⟨b, hb, rfl, hm⟩
  manager _ hmanage := Or.inl hmanage
  comaintainer _ hco := Or.inr (Or.inl hco)
  editor _ hedit := by
    rcases hedit with hmanage | hco | hslip
    · exact Or.inl hmanage
    · exact Or.inr (Or.inl hco)
    · exact Or.inr (Or.inr (Or.inl hslip))
  flagger b hb hf := Or.inr (Or.inr (Or.inr ⟨b, hb, rfl, hf⟩))

/-- What nobody in particular may do: the scripts, and visitors without an account. -/
def scriptMay (remove : Nat → Prop) : May where
  actor := none
  adopt := False
  manage _ := False
  edit _ := False
  clear _ := False
  remove := remove
  accept := False
  reclose := False
  stray := False
  desert := False
  uncount := False
  double := False
  overlook := False

/-- The base whose keywords a session sets. -/
def SetsKeywords (cfg : Config) (db : Db) (s : GitServe.Session) (action : String)
    (args : List String) (id : Nat) : Prop :=
  ∃ pkgbase keywords b, GitServe.Admitted cfg db s action args (.setKeywords pkgbase keywords) ∧
    baseNamed cfg (GitServe.logSSHLogin cfg db s) pkgbase = some b ∧ b.id = id

/-- A session that may push wherever it likes, and pushes. -/
def SessionAdopts (cfg : Config) (db : Db) (s : GitServe.Session) (action : String)
    (args : List String) : Prop :=
  s.privileged = true ∧
    ∃ pkgbase, (GitServe.serve cfg db s action args).1 = .ok (.receivePack pkgbase)

/-- A session that gives an orphan comaintainers. -/
def SessionStrays (cfg : Config) (db : Db) (s : GitServe.Session) (action : String)
    (args : List String) : Prop :=
  ∃ pkgbase users, GitServe.Admitted cfg db s action args (.setComaintainers pkgbase users) ∧
    s.privileged = true ∧ StaffsOrphan cfg (GitServe.logSSHLogin cfg db s) pkgbase users

/-- A session whose push takes an orphan over. -/
def TakesOver (cfg : Config) (db : Db) (s : GitServe.Session) (action : String)
    (args : List String) (upload : Upload) (b : PackageBase) : Prop :=
  ∃ pkgbase, (GitServe.serve cfg db s action args).1 = .ok (.receivePack pkgbase) ∧
    upload.packages.isSome ∧ b ∈ db.packageBases ∧ cfg.sameName b.name pkgbase = true ∧
    b.maintainerUID = none

/-- A session that puts the maintainer of a base on the list of its comaintainers, or makes
someone its maintainer who stays on it. -/
def SessionDoubles (cfg : Config) (db : Db) (user : User) (s : GitServe.Session)
    (action : String) (args : List String) (upload : Upload) : Prop :=
  (∃ pkgbase users, GitServe.Admitted cfg db s action args (.setComaintainers pkgbase users) ∧
    (s.privileged = true ∨
      GitServe.hasFullAccess cfg (GitServe.logSSHLogin cfg db s) pkgbase s.user = true) ∧
    GitServe.ListsMaintainer cfg (GitServe.logSSHLogin cfg db s) pkgbase users) ∨
  (∃ pkgbase, GitServe.Admitted cfg db s action args (.disown pkgbase) ∧
    GitServe.hasFullAccess cfg (GitServe.logSSHLogin cfg db s) pkgbase s.user = true ∧
    GitServe.NextTwice cfg (GitServe.logSSHLogin cfg db s) pkgbase) ∨
  ∃ b, TakesOver cfg db s action args upload b ∧ isComaintainer db b.id user.id = true

/-- A session whose push takes an orphan over that somebody else has asked for. -/
def SessionOverlooks (cfg : Config) (db : Db) (s : GitServe.Session) (action : String)
    (args : List String) (upload : Upload) : Prop :=
  ∃ b, TakesOver cfg db s action args upload b ∧ ¬Unrequested db b.id

/-- The session of an account. -/
def sessionOf (db : Db) (uid : Nat) (remoteAddr : String) (now : Nat) (hookInstalled : Bool) :
    Option (User × GitServe.Session) :=
  (db.user? uid).bind fun u =>
    (GitServe.Session.of u remoteAddr (timestamp now) hookInstalled).map fun s => (u, s)

def mayOf (cfg : Config) (db : Db) : Op → May
  | .post uid now form =>
      match db.user? uid with
      | none => scriptMay fun _ => False
      | some user =>
          userMay db user (fun _ => False) (fun uid => form.Removes cfg db user uid)
            (form.Adopts user) (form.Accepts cfg db now) (form.Recloses db user)
            (form.Strays cfg db user now) (form.Deserts cfg db user now)
            (form.Uncounts cfg db user) (form.Doubles cfg db user) False
  | .ssh uid remoteAddr now hookInstalled action args upload =>
      match sessionOf db uid remoteAddr now hookInstalled with
      | none => scriptMay fun _ => False
      | some (user, s) =>
          userMay db user (SetsKeywords cfg db s action args) (fun _ => False)
            (SessionAdopts cfg db s action args) False False (SessionStrays cfg db s action args)
            False False (SessionDoubles cfg db user s action args upload)
            (SessionOverlooks cfg db s action args upload)
  | .accountmaint now tokens => scriptMay fun uid =>
      AccountMaint.checkConfig cfg = true ∧ uid ∈ AccountMaint.expired cfg
        (AccountMaint.issueAll cfg db ((AccountMaint.expiring cfg db now).map (·.id)) tokens now)
        now
  | _ => scriptMay fun _ => False

/-! ### Sessions -/

section

variable {cfg : Config} {may : May} {db : Db} {user : User} {s : GitServe.Session}

theorem logSSHLogin_usersOnly (cfg : Config) (db : Db) (s : GitServe.Session) :
    UsersOnly db (GitServe.logSSHLogin cfg db s) :=
  UsersOnly.update db _ fun _ => ⟨rfl, rfl⟩

theorem sessionOf_some {uid : Nat} {remoteAddr : String} {now : Nat} {hookInstalled : Bool}
    (h : sessionOf db uid remoteAddr now hookInstalled = some (user, s)) :
    user ∈ db.users ∧ s.user = user.username ∧ (s.privileged = true → user.isElevated = true) := by
  unfold sessionOf GitServe.Session.of at h
  obtain ⟨u, hu, hs⟩ := Option.bind_eq_some_iff.mp h
  split at hs
  · simp at hs
  obtain ⟨rfl, rfl⟩ := Prod.mk.inj (Option.some.inj hs)
  refine ⟨(Db.user?_mem hu).1, rfl, fun hpriv => ?_⟩
  simp only [decide_eq_true_eq] at hpriv
  unfold User.isElevated packageMaintainerOrDev
  cases htype : u.accountType <;> simp_all [AccountType.id]

theorem acts_of_session (hwf : WellFormed cfg db) {uid : Nat} {remoteAddr : String} {now : Nat}
    {hookInstalled : Bool} (h : sessionOf db uid remoteAddr now hookInstalled = some (user, s)) :
    GitServe.Acts cfg (GitServe.logSSHLogin cfg db s) s user := by
  obtain ⟨hmem, hname, hpriv⟩ := sessionOf_some h
  refine ⟨fun u hu hsame => ?_, hpriv⟩
  have hkey : (u.id, u.username) ∈ db.userKeys := by
    rw [← (logSSHLogin_usersOnly cfg db s).2]
    exact List.mem_map_of_mem hu
  obtain ⟨u₀, hu₀, hrow⟩ := List.mem_map.mp hkey
  rw [hname, ← (Prod.mk.inj hrow).2] at hsame
  rw [← (Prod.mk.inj hrow).1, hwf.user_eq_of_name hu₀ hmem hsame]

theorem Grants.logSSHLogin (hg : Grants db user may) :
    Grants (GitServe.logSSHLogin cfg db s) user may :=
  ⟨hg.actor, hg.elevated, hg.maintainer, hg.manager, hg.comaintainer, hg.editor, hg.flagger⟩

namespace GitServe

/-- The result hands over to nothing that writes. -/
def Quiet (r : Result) : Prop :=
  ∀ pkgbase, r.1 ≠ .ok (.receivePack pkgbase) ∧ r.1 ≠ .ok (.restore pkgbase)

theorem quiet_finished (db : Db) : Quiet (finished db) := fun _ => ⟨by simp [finished], by simp [finished]⟩

theorem quiet_error (e : Failure) (db : Db) : Quiet (.error e, db) := fun _ => ⟨by simp, by simp⟩

theorem quiet_withPkgbase {pkgbase : String} {command : PackageBase → Result}
    (h : ∀ b, Quiet (command b)) : Quiet (withPkgbase cfg db pkgbase command) := by
  unfold withPkgbase
  split
  · exact quiet_error _ _
  · exact h _

theorem quiet_withUser {name : String} {command : User → Result} (h : ∀ u, Quiet (command u)) :
    Quiet (withUser cfg db name command) := by
  unfold withUser
  split
  · exact quiet_error _ _
  · exact h _

theorem quiet_adopt (pkgbase name : String) (now : Nat) :
    Quiet (pkgbaseAdopt cfg db pkgbase name now) := by
  refine quiet_withPkgbase fun b => quiet_withUser fun u => ?_
  split
  · exact quiet_error _ _
  split
  · exact quiet_error _ _
  · exact quiet_finished _

theorem quiet_setComaintainers (pkgbase : String) (userlist : List String) (name : String)
    (privileged : Bool) : Quiet (pkgbaseSetComaintainers cfg db pkgbase userlist name privileged) := by
  refine quiet_withPkgbase fun b => ?_
  split
  · exact quiet_error _ _
  split
  · exact quiet_finished _
  · exact quiet_error _ _

theorem quiet_disown (pkgbase name : String) (privileged : Bool) (now : Nat) :
    Quiet (pkgbaseDisown cfg db pkgbase name privileged now) := by
  refine quiet_withPkgbase fun b => ?_
  simp only
  split
  · exact quiet_error _ _
  generalize List.foldl _ db _ = closed
  generalize (if hasFullAccess cfg db pkgbase name = true then
    getComaintainers cfg closed pkgbase else []) = comaintainers
  split
  · exact quiet_error _ _
  split
  · exact quiet_error _ _
  · exact quiet_withUser fun u => quiet_finished _

theorem quiet_flag (pkgbase name comment : String) (now : Nat) :
    Quiet (pkgbaseFlag cfg db pkgbase name comment now) := by
  refine quiet_withPkgbase fun b => ?_
  split
  · exact quiet_error _ _
  refine quiet_withUser fun u => ?_
  split
  · exact quiet_error _ _
  · exact quiet_finished _

theorem quiet_unflag (pkgbase name : String) : Quiet (pkgbaseUnflag cfg db pkgbase name) := by
  refine quiet_withPkgbase fun b => quiet_withUser fun u => ?_
  split <;> exact quiet_finished _

theorem quiet_vote (pkgbase name : String) (now : Nat) :
    Quiet (pkgbaseVote cfg db pkgbase name now) := by
  refine quiet_withPkgbase fun b => quiet_withUser fun u => ?_
  split
  · exact quiet_error _ _
  unfold commitVote
  split
  · exact quiet_error _ _
  · exact quiet_finished _

theorem quiet_unvote (pkgbase name : String) : Quiet (pkgbaseUnvote cfg db pkgbase name) := by
  refine quiet_withPkgbase fun b => quiet_withUser fun u => ?_
  split
  · exact quiet_error _ _
  unfold commitUnvote
  split
  · exact quiet_error _ _
  · exact quiet_finished _

theorem quiet_setKeywords (pkgbase : String) (keywords : List String) :
    Quiet (pkgbaseSetKeywords cfg db pkgbase keywords) := by
  refine quiet_withPkgbase fun b => ?_
  split
  · exact quiet_error _ _
  · exact quiet_finished _

theorem quiet_dispatch {command : Command} (hpush : ∀ path, command ≠ .receivePack path)
    (hrestore : ∀ name, command ≠ .restore name) : Quiet (dispatch cfg db s command) := by
  cases command with
  | receivePack path => exact absurd rfl (hpush path)
  | restore name => exact absurd rfl (hrestore name)
  | uploadPack path =>
      intro pkgbase
      simp only [dispatch]
      split
      · exact quiet_error _ _ pkgbase
      split
      · exact quiet_error _ _ pkgbase
      · exact ⟨by simp, by simp⟩
  | setKeywords name keywords => exact quiet_setKeywords name keywords
  | listRepos => exact quiet_withUser fun _ => quiet_finished _
  | adopt name => exact quiet_adopt name _ _
  | disown name => exact quiet_disown name _ _ _
  | flag name comment => exact quiet_flag name _ comment _
  | unflag name => exact quiet_unflag name _
  | vote name => exact quiet_vote name _ _
  | unvote name => exact quiet_unvote name _
  | setComaintainers name users => exact quiet_setComaintainers name users _ _
  | help => exact quiet_finished _

theorem validatePkgbase_ok {pkgbase name : String} {handover : Handover} {db' : Db}
    (h : validatePkgbase cfg db pkgbase name = (.ok handover, db')) :
    handover = .restore pkgbase ∧ db' = db ∧ baseNamed cfg db pkgbase = none := by
  unfold validatePkgbase at h
  split at h
  · cases h
  split at h
  · cases h
  rename_i hnone
  unfold withUser at h
  split at h
  · cases h
  · obtain ⟨hok, hdb⟩ := Prod.mk.inj h
    exact ⟨(Except.ok.inj hok).symm, hdb.symm, by simpa using hnone⟩

/-- A push gets through when the user may push, and nothing has been written by then. -/
theorem dispatch_receivePack {command : Command} {pkgbase : String} {db' : Db}
    (h : dispatch cfg db s command = (.ok (.receivePack pkgbase), db')) :
    db' = db ∧ mayPush cfg db s pkgbase = .ok () := by
  cases command with
  | receivePack path =>
      simp only [dispatch] at h
      split at h
      · cases h
      split at h
      · cases h
      rename_i hmay
      split at h
      · cases h
      · obtain ⟨hok, hdb⟩ := Prod.mk.inj h
        obtain rfl := Handover.receivePack.inj (Except.ok.inj hok)
        exact ⟨hdb.symm, hmay⟩
  | restore name =>
      obtain ⟨hrestored, -⟩ := validatePkgbase_ok h
      cases hrestored
  | _ =>
      refine absurd (congrArg Prod.fst h) (quiet_dispatch ?_ ?_ pkgbase).1
      · simp
      · simp

/-- A restoration is of a base that is not there. -/
theorem dispatch_restore {command : Command} {pkgbase : String} {db' : Db}
    (h : dispatch cfg db s command = (.ok (.restore pkgbase), db')) :
    db' = db ∧ baseNamed cfg db pkgbase = none := by
  cases command with
  | restore name =>
      obtain ⟨hrestored, hdb, hnone⟩ := validatePkgbase_ok h
      obtain rfl := Handover.restore.inj hrestored
      exact ⟨hdb, hnone⟩
  | receivePack path =>
      simp only [dispatch] at h
      split at h
      · cases h
      split at h
      · cases h
      split at h <;> cases h
  | _ =>
      refine absurd (congrArg Prod.fst h) (quiet_dispatch ?_ ?_ pkgbase).2
      · simp
      · simp

end GitServe

/-! ### Pushes -/

theorem runHook_writes {pkgbase : String} {upload : Upload}
    (haccess : ∀ b ∈ db.packageBases, cfg.sameName b.name pkgbase = true →
      may.adopt ∨ GitServe.hasWriteAccess cfg db pkgbase s.user = true)
    (hclear : ∀ b ∈ db.packageBases, cfg.sameName b.name pkgbase = true → may.clear b.id)
    (hdouble : upload.packages.isSome → ∀ b ∈ db.packageBases,
      cfg.sameName b.name pkgbase = true → b.maintainerUID = none → may.double ∨
        ∀ u ∈ db.users, cfg.sameName u.username s.user = true →
          isComaintainer db b.id u.id = false)
    (hoverlook : upload.packages.isSome → ∀ b ∈ db.packageBases,
      cfg.sameName b.name pkgbase = true → b.maintainerUID = none → may.overlook ∨
        Unrequested db b.id) :
    Writes cfg may db (runHook cfg db s pkgbase upload) := by
  unfold runHook
  cases hpackages : upload.packages with
  | none => exact Relation.ReflTransGen.refl
  | some packages =>
      rw [hpackages] at hdouble hoverlook
      refine Writes.one (.push haccess hclear ?_ ?_)
      · by_cases hmay : may.double
        · exact Or.inl hmay
        · exact Or.inr fun b hb hname hm => (hdouble rfl b hb hname hm).resolve_left hmay
      · by_cases hmay : may.overlook
        · exact Or.inl hmay
        · exact Or.inr fun b hb hname hm => (hoverlook rfl b hb hname hm).resolve_left hmay

/-- What the access check of a push has found out. -/
theorem access_of_mayPush {pkgbase : String} (h : GitServe.mayPush cfg db s pkgbase = .ok ())
    {b : PackageBase} (hb : b ∈ db.packageBases) (hname : cfg.sameName b.name pkgbase = true) :
    s.privileged = true ∨ GitServe.hasWriteAccess cfg db pkgbase s.user = true := by
  have hthere : (baseNamed cfg db pkgbase).isSome = true := by
    unfold baseNamed
    exact List.find?_isSome.mpr ⟨b, hb, hname⟩
  unfold GitServe.mayPush at h
  split at h
  · split at h <;> cases h
  rename_i hcond
  cases hpriv : s.privileged with
  | true => exact Or.inl rfl
  | false => exact Or.inr (by simpa [hthere, hpriv] using hcond)

/-- **Every session is a chain of writes.** -/
theorem session_writes (hwf : WellFormed cfg db)
    (hs : GitServe.Acts cfg (GitServe.logSSHLogin cfg db s) s user) (hg : Grants db user may)
    {action : String} {args : List String} {upload : Upload}
    (hadopt : SessionAdopts cfg db s action args → may.adopt)
    (hedit : ∀ id, SetsKeywords cfg db s action args id → may.edit id)
    (hstray : SessionStrays cfg db s action args → may.stray)
    (hdouble : SessionDoubles cfg db user s action args upload → may.double)
    (hoverlook : SessionOverlooks cfg db s action args upload → may.overlook) :
    Writes cfg may db (session cfg db s action args upload) := by
  have hlogged : Writes cfg may db (GitServe.logSSHLogin cfg db s) :=
    (logSSHLogin_usersOnly cfg db s).writes hwf
  have hwf' : WellFormed cfg (GitServe.logSSHLogin cfg db s) := hlogged.wellFormed hwf
  have hg' : Grants (GitServe.logSSHLogin cfg db s) user may := hg.logSSHLogin
  unfold session
  rcases GitServe.serve_cases cfg db s action args with ⟨e, he⟩ | ⟨e, he⟩ | ⟨command, hc, he⟩
  · rw [he]
  · rw [he]
    exact hlogged
  rw [he]
  have hdispatched : Writes cfg may _ (GitServe.dispatch cfg _ s command).2 :=
    GitServe.dispatch_writes hwf' hs hg'
      (fun pkgbase keywords b hcommand hnamed =>
        hedit b.id ⟨pkgbase, keywords, b, hcommand ▸ hc, hnamed, rfl⟩)
      (fun pkgbase users hcommand hpriv horphan =>
        hstray ⟨pkgbase, users, hcommand ▸ hc, hpriv, horphan⟩)
      (fun pkgbase users hcommand hallowed hlists =>
        hdouble (Or.inl ⟨pkgbase, users, hcommand ▸ hc, hallowed, hlists⟩))
      fun pkgbase hcommand hfull htwice =>
        hdouble (Or.inr (Or.inl ⟨pkgbase, hcommand ▸ hc, hfull, htwice⟩))
  split
  · rename_i pkgbase after heq
    obtain ⟨rfl, hmay⟩ := GitServe.dispatch_receivePack heq
    have hpushes : (GitServe.serve cfg db s action args).1 = .ok (.receivePack pkgbase) := by
      rw [he, heq]
    refine hlogged.trans (runHook_writes (fun b hb hname => ?_) (fun b hb hname => ?_)
      (fun hupload b hb hname hm => ?_) fun hupload b hb hname hm => ?_)
    · exact (access_of_mayPush hmay hb hname).imp_left fun hpriv => hadopt ⟨hpriv, pkgbase, hpushes⟩
    · rcases access_of_mayPush hmay hb hname with hpriv | haccess
      · exact hg.editor _ (hg.manager _ (hg.elevated (hs.privileged hpriv) _))
      · exact hg.editor _ (GitServe.edits_of_writeAccess hwf' hs hg' hb hname haccess)
    · have htakes : TakesOver cfg db s action args upload b :=
        ⟨pkgbase, hpushes, hupload, hb, hname, hm⟩
      by_cases hco : isComaintainer db b.id user.id = true
      · exact Or.inl (hdouble (Or.inr (Or.inr ⟨b, htakes, hco⟩)))
      · refine Or.inr fun u hu huser => ?_
        rw [hs.named u hu huser]
        exact Bool.not_eq_true _ ▸ hco
    · have htakes : TakesOver cfg db s action args upload b :=
        ⟨pkgbase, hpushes, hupload, hb, hname, hm⟩
      by_cases hnone : Unrequested db b.id
      · exact Or.inr hnone
      · exact Or.inl (hoverlook ⟨b, htakes, hnone⟩)
  · rename_i pkgbase after heq
    obtain ⟨rfl, hnone⟩ := GitServe.dispatch_restore heq
    have hnew : ∀ b ∈ (GitServe.logSSHLogin cfg db s).packageBases,
        ¬cfg.sameName b.name pkgbase = true := by
      intro b hb hname
      have hfound := List.find?_eq_none.mp hnone b hb
      exact hfound hname
    exact hlogged.trans (runHook_writes (fun b hb hname => absurd hname (hnew b hb))
      (fun b hb hname => absurd hname (hnew b hb))
      (fun _ b hb hname => absurd hname (hnew b hb))
      fun _ b hb hname => absurd hname (hnew b hb))
  · rename_i heq
    rw [heq] at hdispatched
    exact hlogged.trans hdispatched

/-! ### Scripts -/

theorem popupdateEach_writes :
    ∀ (due : List Nat) (db : Db), WellFormed cfg db →
      Writes cfg may db (due.foldl popupdate db)
  | [], _, _ => Relation.ReflTransGen.refl
  | id :: due, db, hwf => by
      have hfirst : Writes cfg may db (popupdate db id) :=
        popupdate_writes hwf.voteBases hwf.votes rfl
      exact hfirst.trans (popupdateEach_writes due _ (hfirst.wellFormed hwf))

/-- An account without content maintains nothing and has voted for nothing. -/
theorem nothing_of_noContent {uid : Nat} (h : ownsContent db uid = false) :
    (∀ b ∈ db.packageBases, b.maintainerUID ≠ some uid) ∧
      ∀ v ∈ db.packageVotes, v.usersID ≠ uid := by
  have hcolumn : ∀ column ∈ contentColumns, some uid ∉ column db := by
    intro column hcolumn hmem
    have hnot := List.any_eq_false.mp h column hcolumn
    exact hnot (List.contains_iff_mem.mpr hmem)
  refine ⟨fun b hb hm => ?_, fun v hv huid => ?_⟩
  · refine hcolumn (fun db => db.packageBases.map (·.maintainerUID)) (by simp [contentColumns]) ?_
    exact List.mem_map.mpr ⟨b, hb, hm⟩
  · refine hcolumn (fun db => db.packageVotes.map (some ·.usersID)) (by simp [contentColumns]) ?_
    exact List.mem_map.mpr ⟨v, hv, by rw [huid]⟩

theorem deleteUsers_writes :
    ∀ (batch : List Nat) (db : Db), (∀ uid ∈ batch, may.remove uid) →
      (∀ uid ∈ batch, ownsContent db uid = false) →
      Writes cfg may db (AccountMaint.deleteUsers db batch)
  | [], _, _, _ => Relation.ReflTransGen.refl
  | uid :: batch, db, hmay, hcontent => by
      obtain ⟨hmaintains, hvotes⟩ := nothing_of_noContent (hcontent uid (by simp))
      have hfirst : Write cfg may db (db.deleteUser uid) :=
        .account (hmay uid (by simp)) (Or.inr fun b hb hm => absurd hm (hmaintains b hb)) (Or.inr hvotes)
      refine (Writes.one hfirst).trans (deleteUsers_writes batch _
        (fun uid' huid' => hmay uid' (by simp [huid'])) fun uid' huid' => ?_)
      have hold : ownsContent db uid' = false := hcontent uid' (by simp [huid'])
      cases hnow : ownsContent (db.deleteUser uid) uid' with
      | false => rfl
      | true =>
          rw [ownsContent_deleteUser hnow] at hold
          cases hold

theorem accountmaint_writes (hwf : WellFormed cfg db) (now : Nat) (tokens : Nat → String)
    (hmay : AccountMaint.checkConfig cfg = true → ∀ uid ∈ AccountMaint.expired cfg
      (AccountMaint.issueAll cfg db ((AccountMaint.expiring cfg db now).map (·.id)) tokens now)
      now, may.remove uid) : Writes cfg may db (accountmaint cfg db now tokens) := by
  unfold accountmaint
  split
  · rename_i hconfig
    have hwarned : UsersOnly db (AccountMaint.issueAll cfg db
        ((AccountMaint.expiring cfg db now).map (·.id)) tokens now) := by
      exact UsersOnly.update db _ fun _ => ⟨rfl, rfl⟩
    refine (hwarned.writes hwf).trans (deleteUsers_writes _ _ (hmay hconfig) fun uid huid => ?_)
    obtain ⟨u, -, rfl, hdoomed, -⟩ := AccountMaint.mem_expired.mp huid
    exact (AccountMaint.doomed_iff.mp hdoomed).2.2.2.2
  · exact Relation.ReflTransGen.refl

/-! ### The step -/

/-- **Every operation is a chain of writes.** -/
theorem writes_step (hwf : WellFormed cfg db) (op : Op) :
    Writes cfg (mayOf cfg db op) db (step cfg db op) := by
  cases op with
  | post uid now form =>
      simp only [step, mayOf]
      cases db.user? uid with
      | none => exact Relation.ReflTransGen.refl
      | some user => exact Form.post_writes hwf userMay_grants ⟨id, fun _ => id, id, id, id, id, id,
          id⟩
  | register username email token now =>
      simp only [step]
      split
      · exact Relation.ReflTransGen.refl
      rename_i hfree
      refine Writes.one (.register rfl fun u hu => ?_)
      rw [Bool.not_eq_true] at hfree
      have hnot : cfg.sameName u.username username = false := by
        simpa using List.any_eq_false.mp hfree u hu
      exact hnot
  | login uid now => exact (login_usersOnly db uid now).writes hwf
  | verify token now => exact (accountVerify_usersOnly db token now).writes hwf
  | ssh uid remoteAddr now hookInstalled action args upload =>
      have hsession : ((db.user? uid).bind fun u =>
          GitServe.Session.of u remoteAddr (timestamp now) hookInstalled) =
          (sessionOf db uid remoteAddr now hookInstalled).map Prod.snd := by
        unfold sessionOf
        cases db.user? uid with
        | none => rfl
        | some u => simp [Option.map_map, Function.comp_def]
      simp only [step, mayOf, hsession]
      cases hs : sessionOf db uid remoteAddr now hookInstalled with
      | none => exact Relation.ReflTransGen.refl
      | some us =>
          obtain ⟨user, s⟩ := us
          exact session_writes hwf (acts_of_session hwf hs) userMay_grants id
            (fun _ hsets => Or.inr (Or.inr hsets)) id id id
  | requestmaint now => exact requestmaint_writes _
  | accountmaint now tokens => exact accountmaint_writes hwf now tokens fun h _ hin => ⟨h, hin⟩
  | popupdate due => exact popupdateEach_writes due db hwf

theorem wellFormed_step (hwf : WellFormed cfg db) (op : Op) : WellFormed cfg (step cfg db op) :=
  (writes_step hwf op).wellFormed hwf

/-! ### Runs -/

theorem wellFormed_exec (hwf : WellFormed cfg db) (ops : List Op) :
    WellFormed cfg (Run.exec (step cfg) db ops) := by
  induction ops generalizing db with
  | nil => exact hwf
  | cons op ops ih => exact ih (wellFormed_step hwf op)

/-- What every write of a guarded operation keeps, the operation keeps. -/
theorem step_of_writes {P : Db → Prop} {G : Db → Op → Prop}
    (hkeep : ∀ {db₀ op db db'}, WellFormed cfg db₀ → P db₀ → G db₀ op → WellFormed cfg db →
      Write cfg (mayOf cfg db₀ op) db db' → P db → P db')
    {op : Op} (hwf : WellFormed cfg db) (hP : P db) (hop : G db op) :
    WellFormed cfg (step cfg db op) ∧ P (step cfg db op) :=
  Writes.keeps (P := fun db => WellFormed cfg db ∧ P db)
    (fun _ _ hw hold => ⟨hw.wellFormed hold.1, hkeep hwf hP hop hold.1 hw hold.2⟩)
    (writes_step hwf op) ⟨hwf, hP⟩

/-- **What every write keeps, a run keeps**, as long as its operations meet the guard. -/
theorem along_of_writes {P : Db → Prop} {G : Db → Op → Prop}
    (hkeep : ∀ {db₀ op db db'}, WellFormed cfg db₀ → P db₀ → G db₀ op → WellFormed cfg db →
      Write cfg (mayOf cfg db₀ op) db db' → P db → P db')
    {ops : List Op} (hwf : WellFormed cfg db) (hP : P db)
    (hg : Run.Guarded (step cfg) G db ops) : Run.Along (step cfg) P db ops := by
  have hall : Run.Along (step cfg) (fun db => WellFormed cfg db ∧ P db) db ops := by
    refine Run.along_of_guarded ?_ ⟨hwf, hP⟩ hg
    intro db op h hop
    exact step_of_writes hkeep h.1 h.2 hop
  exact hall.imp fun _ h => h.2

/-- The guard is exact when whatever does not meet it leaves the invariant. -/
theorem along_iff_of_writes {P : Db → Prop} {G : Db → Op → Prop}
    (hkeep : ∀ {db₀ op db db'}, WellFormed cfg db₀ → P db₀ → G db₀ op → WellFormed cfg db →
      Write cfg (mayOf cfg db₀ op) db db' → P db → P db')
    (hbreak : ∀ {db op}, WellFormed cfg db → P db → P (step cfg db op) → G db op)
    {ops : List Op} (hwf : WellFormed cfg db) (hP : P db) :
    Run.Along (step cfg) P db ops ↔ Run.Guarded (step cfg) G db ops := by
  have hstep : ∀ db op, WellFormed cfg db ∧ P db →
      (WellFormed cfg (step cfg db op) ∧ P (step cfg db op) ↔ G db op) := fun db op h =>
    ⟨fun hnext => hbreak h.1 h.2 hnext.2, fun hop => step_of_writes hkeep h.1 h.2 hop⟩
  rw [← Run.along_iff_guarded hstep ⟨hwf, hP⟩]
  constructor
  · intro hall
    refine Run.along_iff_visited.mpr fun pre post heq => ?_
    exact ⟨wellFormed_exec hwf pre, Run.along_iff_visited.mp hall pre post heq⟩
  · exact Run.Along.imp fun _ h => h.2

/-! ### What no operation should do -/

/-- An orphan is given a maintainer by an elevated user: with the adoption form, or by a push
that needs no access to it. -/
def Op.Adopts (cfg : Config) (db : Db) : Op → Prop
  | .post uid _ form => ∃ user, db.user? uid = some user ∧ form.Adopts user
  | .ssh uid remoteAddr now hookInstalled action args _ =>
      ∃ user s, sessionOf db uid remoteAddr now hookInstalled = some (user, s) ∧
        SessionAdopts cfg db s action args
  | _ => False

/-- A request is accepted and not closed. -/
def Op.Accepts (cfg : Config) (db : Db) : Op → Prop
  | .post uid now form => ∃ user, db.user? uid = some user ∧ form.Accepts cfg db now
  | _ => False

/-- A request that is not pending is closed again. -/
def Op.Recloses (db : Db) : Op → Prop
  | .post uid _ form => ∃ user, db.user? uid = some user ∧ form.Recloses db user
  | _ => False

/-- A base is left with comaintainers and no maintainer. -/
def Op.Strays (cfg : Config) (db : Db) : Op → Prop
  | .post uid now form => ∃ user, db.user? uid = some user ∧ form.Strays cfg db user now
  | .ssh uid remoteAddr now hookInstalled action args _ =>
      ∃ user s, sessionOf db uid remoteAddr now hookInstalled = some (user, s) ∧
        SessionStrays cfg db s action args
  | _ => False

/-- A base goes while a request of another type is pending on it. -/
def Op.Deserts (cfg : Config) (db : Db) : Op → Prop
  | .post uid now form => ∃ user, db.user? uid = some user ∧ form.Deserts cfg db user now
  | _ => False

/-- An account goes, and its votes with it. -/
def Op.Uncounts (cfg : Config) (db : Db) : Op → Prop
  | .post uid _ form => ∃ user, db.user? uid = some user ∧ form.Uncounts cfg db user
  | _ => False

/-- The maintainer of a base becomes one of its comaintainers, or one of these its
maintainer. -/
def Op.Doubles (cfg : Config) (db : Db) : Op → Prop
  | .post uid _ form => ∃ user, db.user? uid = some user ∧ form.Doubles cfg db user
  | .ssh uid remoteAddr now hookInstalled action args upload =>
      ∃ user s, sessionOf db uid remoteAddr now hookInstalled = some (user, s) ∧
        SessionDoubles cfg db user s action args upload
  | _ => False

/-- A push takes an orphan over whose adoption is requested. -/
def Op.Overlooks (cfg : Config) (db : Db) : Op → Prop
  | .ssh uid remoteAddr now hookInstalled action args upload =>
      ∃ user s, sessionOf db uid remoteAddr now hookInstalled = some (user, s) ∧
        SessionOverlooks cfg db s action args upload
  | _ => False

/-- The account is deleted. -/
def Op.Removes (cfg : Config) (db : Db) (removed : Nat) : Op → Prop
  | .post uid _ form => ∃ user, db.user? uid = some user ∧ form.Removes cfg db user removed
  | .accountmaint now tokens =>
      AccountMaint.checkConfig cfg = true ∧ removed ∈ AccountMaint.expired cfg
        (AccountMaint.issueAll cfg db ((AccountMaint.expiring cfg db now).map (·.id)) tokens now)
        now
  | _ => False

/-- What an operation is allowed, and only one of its kind is, it does. -/
structure Op.Explains (cfg : Config) (db : Db) (op : Op) (may : May) : Prop where
  adopt : may.adopt → op.Adopts cfg db
  accept : may.accept → op.Accepts cfg db
  reclose : may.reclose → op.Recloses db
  stray : may.stray → op.Strays cfg db
  desert : may.desert → op.Deserts cfg db
  uncount : may.uncount → op.Uncounts cfg db
  double : may.double → op.Doubles cfg db
  overlook : may.overlook → op.Overlooks cfg db
  remove : ∀ uid, may.remove uid → op.Removes cfg db uid

theorem Op.Explains.script {op : Op} {remove : Nat → Prop}
    (h : ∀ uid, remove uid → op.Removes cfg db uid) : op.Explains cfg db (scriptMay remove) :=
  ⟨False.elim, False.elim, False.elim, False.elim, False.elim, False.elim, False.elim, False.elim,
    h⟩

theorem explains_mayOf (cfg : Config) (db : Db) (op : Op) :
    op.Explains cfg db (mayOf cfg db op) := by
  cases op with
  | post uid now form =>
      simp only [mayOf]
      cases hu : db.user? uid with
      | none => exact .script fun _ => False.elim
      | some user =>
          exact ⟨fun h => ⟨user, hu, h⟩, fun h => ⟨user, hu, h⟩, fun h => ⟨user, hu, h⟩,
            fun h => ⟨user, hu, h⟩, fun h => ⟨user, hu, h⟩, fun h => ⟨user, hu, h⟩,
            fun h => ⟨user, hu, h⟩, False.elim, fun _ h => ⟨user, hu, h⟩⟩
  | ssh uid remoteAddr now hookInstalled action args upload =>
      simp only [mayOf]
      cases hs : sessionOf db uid remoteAddr now hookInstalled with
      | none => exact .script fun _ => False.elim
      | some us =>
          exact ⟨fun h => ⟨us.1, us.2, hs, h⟩, False.elim, False.elim,
            fun h => ⟨us.1, us.2, hs, h⟩, False.elim, False.elim, fun h => ⟨us.1, us.2, hs, h⟩,
            fun h => ⟨us.1, us.2, hs, h⟩, fun _ => False.elim⟩
  | accountmaint now tokens => exact .script fun _ h => h
  | _ => exact .script fun _ => False.elim

end

end Aurweb
