/-
Who maintains a package base.

The access check of a push asks for a maintainer or a comaintainer, and the hook gives an
orphan to whoever pushes; what keeps everybody else away from an orphan is that it has no
comaintainers.  Every write keeps it so, except those of the operations that leave
comaintainers behind.  Where it is so, an orphan gets a maintainer from an elevated user
only.
-/
import Aurweb.Proofs.PackageRequests

namespace Aurweb

/-- No orphan has comaintainers. -/
def NoStrays (db : Db) : Prop :=
  ∀ b ∈ db.packageBases, b.maintainerUID = none →
    ∀ c ∈ db.packageComaintainers, c.of b.id = false

instance : DecidablePred NoStrays := fun db =>
  inferInstanceAs (Decidable (∀ b ∈ db.packageBases, b.maintainerUID = none →
    ∀ c ∈ db.packageComaintainers, c.of b.id = false))

/-- The base with this id, as long as it is there, has no maintainer. -/
def Orphaned (db : Db) (id : Nat) : Prop :=
  ∀ b ∈ db.packageBases, b.id = id → b.maintainerUID = none

section

variable {cfg : Config} {may : May} {db db' : Db}

/-! ### Comaintainers of an orphan -/

/-- No new orphan, and no new comaintainer. -/
theorem NoStrays.of_rows (h : NoStrays db)
    (hbases : ∀ b' ∈ db'.packageBases, b'.maintainerUID = none →
      ∃ b ∈ db.packageBases, b.id = b'.id ∧ b.maintainerUID = none)
    (hrows : ∀ c' ∈ db'.packageComaintainers,
      ∃ c ∈ db.packageComaintainers, c.packageBaseID = c'.packageBaseID) : NoStrays db' := by
  intro b' hb' hm' c' hc'
  obtain ⟨b, hb, hid, hm⟩ := hbases b' hb' hm'
  obtain ⟨c, hc, hof⟩ := hrows c' hc'
  have hnone := h b hb hm c hc
  unfold PackageComaintainer.of at hnone ⊢
  rw [← hid, ← hof]
  exact hnone

/-- What holds of a maintainer after an update held before. -/
theorem exists_of_mem_updatePackageBase {P : Option Nat → Prop} {id : Nat}
    {f : PackageBase → PackageBase}
    (hf : ∀ b, (f b).id = b.id ∧ (P (f b).maintainerUID → P b.maintainerUID)) {b' : PackageBase}
    (hb' : b' ∈ (db.updatePackageBase id f).packageBases) (hm' : P b'.maintainerUID) :
    ∃ b ∈ db.packageBases, b.id = b'.id ∧ P b.maintainerUID := by
  obtain ⟨b, hb, rfl⟩ := Table.mem_update.mp hb'
  by_cases hid : (b.id == id) = true
  · rw [if_pos hid] at hm' ⊢
    exact ⟨b, hb, (hf b).1.symm, (hf b).2 hm'⟩
  · rw [if_neg hid] at hm' ⊢
    exact ⟨b, hb, rfl, hm'⟩

theorem NoStrays.updatePackageBase (h : NoStrays db) (id : Nat) {f : PackageBase → PackageBase}
    (hf : ∀ b, (f b).id = b.id ∧ ((f b).maintainerUID = none → b.maintainerUID = none)) :
    NoStrays (db.updatePackageBase id f) :=
  h.of_rows (fun _ hb' hm' => exists_of_mem_updatePackageBase (P := (· = none)) hf hb' hm')
    fun c hc => ⟨c, hc, rfl⟩

theorem NoStrays.release (h : NoStrays db) {id : Nat}
    (hnone : ∀ c ∈ db.packageComaintainers, c.of id = false) :
    NoStrays (setMaintainer db id none) := by
  intro b' hb' hm' c hc
  obtain ⟨b, hb, rfl⟩ := Table.mem_update.mp hb'
  by_cases hid : b.id = id
  · simp only [hid, beq_self_eq_true, if_true] at hm' ⊢
    exact hnone c hc
  · simp only [beq_iff_eq, hid, if_false] at hm' ⊢
    exact h b hb hm' c hc

/-- The comaintainers of another base are the ones it had. -/
theorem mem_of_staffed {id : Nat} {rows : List PackageComaintainer} {b : PackageBase}
    {c : PackageComaintainer}
    (hother : (rows.filter fun c => !c.of id) = db.packageComaintainers.filter fun c => !c.of id)
    (hc : c ∈ rows) (hof : c.of b.id = true) (hid : b.id ≠ id) : c ∈ db.packageComaintainers := by
  have hnot : c.of id = false := by
    have hbase : c.packageBaseID = b.id := by simpa [PackageComaintainer.of] using hof
    simpa [PackageComaintainer.of, hbase] using hid
  have hmem : c ∈ rows.filter fun c => !c.of id := List.mem_filter.mpr ⟨hc, by simp [hnot]⟩
  rw [hother] at hmem
  exact (List.mem_filter.mp hmem).1

theorem NoStrays.staff (h : NoStrays db) {id : Nat} {rows : List PackageComaintainer}
    (hother : (rows.filter fun c => !c.of id) = db.packageComaintainers.filter fun c => !c.of id)
    (hstaffed : (∀ b ∈ db.packageBases, b.id = id → b.maintainerUID ≠ none) ∨
      ∀ c ∈ rows, c.of id = true → ∃ c₀ ∈ db.packageComaintainers, c₀.of id = true) :
    NoStrays { db with packageComaintainers := rows } := by
  intro b hb hm c hc
  by_contra hof
  rw [Bool.not_eq_false] at hof
  by_cases hid : b.id = id
  · subst hid
    rcases hstaffed with hmaintained | hold
    · exact hmaintained b hb rfl hm
    · obtain ⟨c₀, hc₀, hof₀⟩ := hold c hc hof
      rw [h b hb hm c₀ hc₀] at hof₀
      cases hof₀
  · rw [h b hb hm c (mem_of_staffed hother hc hof hid)] at hof
    cases hof

theorem NoStrays.deletePackageBase (h : NoStrays db) (id : Nat) :
    NoStrays (db.deletePackageBase id) := by
  refine h.of_rows (fun b hb hm => ?_) fun c hc => ?_
  · exact ⟨b, (Table.mem_delete.mp hb).1, rfl, hm⟩
  · exact ⟨c, (Table.mem_delete.mp hc).1, rfl⟩

theorem NoStrays.deleteUser (h : NoStrays db) {uid : Nat}
    (hleft : ∀ b ∈ db.packageBases, b.maintainerUID = some uid →
      ∀ c ∈ db.packageComaintainers, c.of b.id = true → c.usersID = uid) :
    NoStrays (db.deleteUser uid) := by
  intro b' hb' hm' c hc
  obtain ⟨b, hb, rfl⟩ := List.mem_map.mp hb'
  obtain ⟨hc, hother⟩ := Table.mem_delete.mp hc
  by_contra hof
  rw [Bool.not_eq_false] at hof
  by_cases hm : b.maintainerUID = some uid
  · have huid : c.usersID = uid := hleft b hb hm c hc hof
    simp [huid] at hother
  · have hnone : b.maintainerUID = none := by simpa [Db.setNull, hm] using hm'
    rw [h b hb hnone c hc] at hof
    cases hof

theorem keptBy_noStrays (cfg : Config) (p : GitUpdate.Push) :
    GitUpdate.KeptBy cfg p fun db => WellFormed cfg db ∧ NoStrays db where
  stores hs h := by
    refine ⟨(keptBy_wellFormed cfg p).stores hs h.1, ?_⟩
    have hstrays := h.2
    cases hs <;> exact hstrays
  clear hsub h := ⟨(keptBy_wellFormed cfg p).clear hsub h.1, h.2⟩
  notify h := ⟨(keptBy_wellFormed cfg p).notify h.1, h.2⟩
  touch uid h₁ hbase h := by
    refine ⟨(keptBy_wellFormed cfg p).touch uid h₁.1 hbase h.1, ?_⟩
    exact h.2.updatePackageBase _ fun b => ⟨rfl, id⟩
  takeOver h₁ hbase h₂ huser h := by
    refine ⟨(keptBy_wellFormed cfg p).takeOver h₁.1 hbase h₂.1 huser h.1, ?_⟩
    refine h.2.updatePackageBase _ fun b => ?_
    by_cases hm : b.maintainerUID = none <;> simp [hm]
  create h₁ huser h hnone hid hname hm hzero := by
    refine ⟨(keptBy_wellFormed cfg p).create h₁.1 huser h.1 hnone hid hname hm hzero, ?_⟩
    refine h.2.of_rows (fun b' hb' hm' => ?_) fun c hc => ⟨c, hc, rfl⟩
    rcases List.mem_append.mp hb' with hb' | hb'
    · exact ⟨b', hb', rfl, hm'⟩
    · rw [List.mem_singleton.mp hb', hm] at hm'
      cases hm'

theorem NoStrays.write (hstray : ¬may.stray) (hwf : WellFormed cfg db)
    (hw : Write cfg may db db') (h : NoStrays db) : NoStrays db' := by
  cases hw with
  | engage => exact h.updatePackageBase _ fun b => ⟨rfl, by simp⟩
  | release hnone => exact h.release (hnone.resolve_left hstray)
  | leave =>
      refine h.of_rows (fun b hb hm => ⟨b, hb, rfl, hm⟩) fun c' hc' => ?_
      obtain ⟨c, hc, rfl⟩ := Table.mem_update.mp (Table.mem_delete.mp hc').1
      exact ⟨c, hc, by split <;> rfl⟩
  | staff _ hother _ _ hstaffed => exact h.staff hother (hstaffed.resolve_left hstray)
  | delete => exact h.deletePackageBase _
  | @merge pkgbase target =>
      have hmoved : NoStrays (moveRows db pkgbase target) := h
      have hcounted : NoStrays (popupdate (moveRows db pkgbase target) target.id) :=
        hmoved.updatePackageBase _ fun b => ⟨rfl, id⟩
      exact hcounted.deletePackageBase _
  | account _ hleft => exact h.deleteUser (hleft.resolve_left hstray)
  | mark hf =>
      exact h.updatePackageBase _ fun b => ⟨(hf b).id, fun hm => (hf b).maintainer ▸ hm⟩
  | @ballot _ votes _ hf =>
      have hvoted : NoStrays { db with packageVotes := votes } := h
      exact hvoted.updatePackageBase _ fun b => ⟨(hf b).id, fun hm => (hf b).maintainer ▸ hm⟩
  | side hbases _ _ hcomaintainers =>
      refine h.of_rows (fun b hb hm => ⟨b, hbases ▸ hb, rfl, hm⟩) fun c hc => ?_
      exact ⟨c, hcomaintainers ▸ hc, rfl⟩
  | push => exact (run_of_keptBy (keptBy_noStrays cfg _) _ ⟨hwf, h⟩).2
  | _ => exact h

/-! ### A push to an orphan -/

/-- Without comaintainers nobody has write access to an orphan. -/
theorem noWriteAccess_of_orphan (hwf : WellFormed cfg db) (h : NoStrays db) {b : PackageBase}
    (hb : b ∈ db.packageBases) (hm : b.maintainerUID = none) {pkgbase user : String}
    (hname : cfg.sameName b.name pkgbase = true) :
    GitServe.hasWriteAccess cfg db pkgbase user = false := by
  by_contra haccess
  rw [Bool.not_eq_false] at haccess
  obtain ⟨b', hb', hcond⟩ := List.any_eq_true.mp haccess
  simp only [Bool.and_eq_true, Bool.or_eq_true, List.any_eq_true, beq_iff_eq] at hcond
  obtain ⟨hname', u, -, -, hmay⟩ := hcond
  have hsame := Config.sameName_trans hname' (Config.sameName_symm hname)
  rw [hwf.base_eq_of_name hb' hb hsame, hm] at hmay
  rcases hmay with hmaintains | hco
  · cases hmaintains
  · simp only [isComaintainer, comaintainerIDs, List.contains_iff_mem, List.mem_map,
      List.mem_filter] at hco
    obtain ⟨c, ⟨hc, hof⟩, -⟩ := hco
    rw [h b hb hm c hc] at hof
    cases hof

/-- The base the hook has looked up is the one that is pushed. -/
theorem looked_up_ne {p : GitUpdate.Push} {b base : PackageBase}
    (hname : cfg.sameName b.name p.pkgbase = false) (hwf : WellFormed cfg db)
    (hb : b ∈ db.packageBases) (hbase : GitUpdate.baseByName cfg p.pkgbase db = some base) :
    base.id ≠ b.id := by
  intro hid
  obtain ⟨hmem, hsame⟩ := baseNamed_mem hbase
  rw [hwf.base_eq hmem hb hid, hname] at hsame
  cases hsame

/-- The hook writes to no base but the one that is pushed. -/
theorem keptBy_base (cfg : Config) (p : GitUpdate.Push) {b : PackageBase}
    (hname : cfg.sameName b.name p.pkgbase = false) :
    GitUpdate.KeptBy cfg p fun db => WellFormed cfg db ∧ b ∈ db.packageBases where
  stores hs h := by
    refine ⟨(keptBy_wellFormed cfg p).stores hs h.1, ?_⟩
    have hmem := h.2
    cases hs <;> exact hmem
  clear hsub h := ⟨(keptBy_wellFormed cfg p).clear hsub h.1, h.2⟩
  notify h := ⟨(keptBy_wellFormed cfg p).notify h.1, h.2⟩
  touch uid h₁ hbase h := by
    refine ⟨(keptBy_wellFormed cfg p).touch uid h₁.1 hbase h.1, ?_⟩
    exact mem_updatePackageBase h.2 (looked_up_ne hname h₁.1 h₁.2 hbase)
  takeOver h₁ hbase h₂ huser h := by
    refine ⟨(keptBy_wellFormed cfg p).takeOver h₁.1 hbase h₂.1 huser h.1, ?_⟩
    exact mem_updatePackageBase h.2 (looked_up_ne hname h₁.1 h₁.2 hbase)
  create h₁ huser h hnone hid hname' hm hzero :=
    ⟨(keptBy_wellFormed cfg p).create h₁.1 huser h.1 hnone hid hname' hm hzero,
      List.mem_append_left _ h.2⟩

/-- Nor does it make up bases with ids that have been there before. -/
theorem keptBy_keys (cfg : Config) (p : GitUpdate.Push) (db₀ : Db) :
    GitUpdate.KeptBy cfg p fun db => db₀.nextID ≤ db.nextID ∧
      ∀ key ∈ db.baseKeys, key.1 < db₀.nextID → key ∈ db₀.baseKeys where
  stores hs h := by
    obtain ⟨hle, hkeys⟩ := h
    cases hs <;> exact ⟨by first | exact hle | exact Nat.le_succ_of_le hle, hkeys⟩
  clear _ h := h
  notify h := h
  touch uid _ _ h := ⟨h.1, by rw [baseKeys_touchBase]; exact h.2⟩
  takeOver _ _ _ _ h := ⟨h.1, by rw [baseKeys_takeOver]; exact h.2⟩
  create _ _ h _ hid _ _ _ := by
    refine ⟨Nat.le_succ_of_le h.1, fun key hmem hlt => ?_⟩
    unfold Db.baseKeys at hmem
    rw [List.map_append, List.mem_append, List.map_singleton, List.mem_singleton] at hmem
    rcases hmem with hmem | rfl
    · exact h.2 key hmem hlt
    · have hle := h.1
      simp only [hid] at hlt
      omega

theorem Write.nextID_le (hw : Write cfg may db db') : db.nextID ≤ db'.nextID := by
  cases hw with
  | file | register => exact Nat.le_succ _
  | side _ _ _ _ _ _ hnext => exact hnext
  | push =>
      exact (run_of_keptBy (keptBy_keys cfg _ db) _
        ⟨Nat.le_refl _, fun _ hmem _ => hmem⟩).1
  | _ => exact Nat.le_refl _

/-! ### An orphan stays one -/

theorem Orphaned.updatePackageBase {id : Nat} (h : Orphaned db id) (id' : Nat)
    {f : PackageBase → PackageBase} (hf : ∀ b, (f b).id = b.id)
    (hm : ∀ b ∈ db.packageBases, b.id = id → b.id = id' → (f b).maintainerUID = none) :
    Orphaned (db.updatePackageBase id' f) id := by
  intro b' hb' hid
  obtain ⟨b, hb, rfl⟩ := Table.mem_update.mp hb'
  by_cases hid' : b.id = id'
  · simp only [hid', beq_self_eq_true, if_true, hf] at hid ⊢
    exact hm b hb (hid' ▸ hid) hid'
  · simp only [beq_iff_eq, hid', if_false] at hid ⊢
    exact h b hb hid

theorem Orphaned.deletePackageBase {id : Nat} (h : Orphaned db id) (id' : Nat) :
    Orphaned (db.deletePackageBase id') id :=
  fun b hb hid => h b (Table.mem_delete.mp hb).1 hid

theorem Orphaned.push {id : Nat} (hwf : WellFormed cfg db) (hstrays : NoStrays db)
    (hadopt : ¬may.adopt) {p : GitUpdate.Push} {faults : Nat → Option GitUpdate.Failure}
    (haccess : ∀ b ∈ db.packageBases, cfg.sameName b.name p.pkgbase = true →
      may.adopt ∨ GitServe.hasWriteAccess cfg db p.pkgbase p.user = true)
    (hlt : id < db.nextID) (h : Orphaned db id) :
    Orphaned ((GitUpdate.main cfg p).run faults db).2 id := by
  intro b' hb' hid
  have hkeys := (run_of_keptBy (keptBy_keys cfg p db) faults
    ⟨Nat.le_refl _, fun _ hmem _ => hmem⟩).2
  obtain ⟨b, hb, hkey⟩ := List.mem_map.mp (hkeys _ (List.mem_map_of_mem hb') (hid ▸ hlt))
  have hbid : b.id = b'.id := (Prod.mk.inj hkey).1
  have hm : b.maintainerUID = none := h b hb (hbid.trans hid)
  have hname : cfg.sameName b.name p.pkgbase = false := by
    by_contra hnot
    rw [Bool.not_eq_false] at hnot
    have hmay := (haccess b hb hnot).resolve_left hadopt
    rw [noWriteAccess_of_orphan hwf hstrays hb hm hnot] at hmay
    cases hmay
  obtain ⟨hwf', hkept⟩ := run_of_keptBy (keptBy_base cfg p hname) faults ⟨hwf, hb⟩
  rw [hwf'.base_eq hb' hkept hbid.symm]
  exact hm

theorem Orphaned.write {id : Nat} (hadopt : ¬may.adopt) (hwf : WellFormed cfg db)
    (hstrays : NoStrays db) (hlt : id < db.nextID) (hw : Write cfg may db db')
    (h : Orphaned db id) : Orphaned db' id := by
  cases hw with
  | engage hmaintained =>
      refine h.updatePackageBase _ (fun b => rfl) fun b hb hid hid' => ?_
      exact absurd (h b hb hid) (hmaintained.resolve_left (fun hmay => hadopt hmay.1) b hb hid')
  | release => exact h.updatePackageBase _ (fun b => rfl) fun b hb hid hid' => rfl
  | delete => exact h.deletePackageBase _
  | @merge pkgbase target =>
      have hmoved : Orphaned (moveRows db pkgbase target) id := h
      have hcounted : Orphaned (popupdate (moveRows db pkgbase target) target.id) id :=
        hmoved.updatePackageBase _ (fun b => rfl) fun b hb hid _ => h b hb hid
      exact hcounted.deletePackageBase _
  | account =>
      intro b' hb' hid
      obtain ⟨b, hb, rfl⟩ := List.mem_map.mp hb'
      have hm := h b hb hid
      simp [hm, Db.setNull]
  | mark hf =>
      refine h.updatePackageBase _ (fun b => (hf b).id) fun b hb hid _ => ?_
      rw [(hf b).maintainer]
      exact h b hb hid
  | @ballot _ votes _ hf =>
      have hvoted : Orphaned { db with packageVotes := votes } id := h
      refine hvoted.updatePackageBase _ (fun b => (hf b).id) fun b hb hid _ => ?_
      rw [(hf b).maintainer]
      exact h b hb hid
  | side hbases => exact fun b hb hid => h b (hbases ▸ hb) hid
  | push haccess => exact h.push hwf hstrays hadopt haccess hlt
  | _ => exact h

/-- An orphan stays one, unless the operation is one that gives it a maintainer. -/
theorem orphaned_step (hwf : WellFormed cfg db) (hstrays : NoStrays db) {op : Op}
    (hstray : ¬op.Strays cfg db) (hadopt : ¬op.Adopts cfg db) {id : Nat} (hlt : id < db.nextID)
    (h : Orphaned db id) : Orphaned (step cfg db op) id := by
  have hslips : op.Explains cfg db (mayOf cfg db op) := explains_mayOf cfg db op
  refine ((writes_step hwf op).keeps (P := fun db =>
    (WellFormed cfg db ∧ NoStrays db) ∧ id < db.nextID ∧ Orphaned db id) ?_
    ⟨⟨hwf, hstrays⟩, hlt, h⟩).2.2
  rintro db₁ db₂ hw ⟨⟨hwf₁, hstrays₁⟩, hlt₁, h₁⟩
  refine ⟨⟨hw.wellFormed hwf₁, hstrays₁.write (fun hmay => hstray (hslips.stray hmay)) hwf₁ hw⟩,
    Nat.lt_of_lt_of_le hlt₁ hw.nextID_le, ?_⟩
  exact h₁.write (fun hmay => hadopt (hslips.adopt hmay)) hwf₁ hstrays₁ hlt₁ hw

/-! ### Every run -/

/-- No session without privileges gets to push to an orphan. -/
def OrphansRefused (cfg : Config) (db : Db) : Prop :=
  ∀ b ∈ db.packageBases, b.maintainerUID = none →
    ∀ (s : GitServe.Session) (action : String) (args : List String) (pkgbase : String),
      s.privileged = false → cfg.sameName b.name pkgbase = true →
        (GitServe.serve cfg db s action args).1 ≠ .ok (.receivePack pkgbase)

/-- An orphan that the operation gives a maintainer is given it by an elevated user. -/
def GivenAway (cfg : Config) (db : Db) (op : Op) : Prop :=
  ∀ b ∈ db.packageBases, b.maintainerUID = none →
    ∀ b' ∈ (step cfg db op).packageBases, b'.id = b.id → b'.maintainerUID ≠ none →
      op.Adopts cfg db

theorem NoStrays.orphansRefused (hwf : WellFormed cfg db) (h : NoStrays db) :
    OrphansRefused cfg db := by
  intro b hb hm s action args pkgbase hpriv hname hok
  rcases GitServe.serve_cases cfg db s action args with ⟨e, he⟩ | ⟨e, he⟩ | ⟨command, -, he⟩
  · rw [he] at hok
    cases hok
  · rw [he] at hok
    cases hok
  rw [he] at hok
  obtain ⟨-, hmay⟩ := GitServe.dispatch_receivePack (Prod.ext hok rfl)
  have hlogged : WellFormed cfg (GitServe.logSSHLogin cfg db s) :=
    (logSSHLogin_usersOnly cfg db s).wellFormed hwf
  have hstrays : NoStrays (GitServe.logSSHLogin cfg db s) := h
  rcases access_of_mayPush hmay hb hname with hpriv' | haccess
  · rw [hpriv] at hpriv'
    cases hpriv'
  · rw [noWriteAccess_of_orphan hlogged hstrays hb hm hname] at haccess
    cases haccess

theorem NoStrays.along {ops : List Op} (hwf : WellFormed cfg db) (h : NoStrays db)
    (hg : Run.Guarded (step cfg) (fun db op => ¬op.Strays cfg db) db ops) :
    Run.Along (step cfg) NoStrays db ops := by
  refine along_of_writes ?_ hwf h hg
  intro db₀ op db db' _ _ hop hwf' hw hold
  exact hold.write (fun hmay => hop ((explains_mayOf cfg db₀ op).stray hmay)) hwf' hw

/--
**An orphan is out of reach without privileges**, in every run whose operations leave no
comaintainers on a base without a maintainer: no session without privileges gets to push to
it, and an operation that gives it a maintainer is an elevated user's.
-/
theorem ownership_of_guarded (cfg : Config) (db : Db) (ops : List Op) (hwf : WellFormed cfg db)
    (h : NoStrays db)
    (hg : Run.Guarded (step cfg) (fun db op => ¬op.Strays cfg db) db ops) :
    Run.Along (step cfg) (OrphansRefused cfg) db ops ∧
      Run.Guarded (step cfg) (GivenAway cfg) db ops := by
  constructor
  · refine Run.along_iff_visited.mpr fun pre post heq => ?_
    have hvisited : NoStrays (Run.exec (step cfg) db pre) :=
      Run.along_iff_visited.mp (h.along hwf hg) pre post heq
    exact hvisited.orphansRefused (wellFormed_exec hwf pre)
  · induction ops generalizing db with
    | nil => trivial
    | cons op ops ih =>
        have hnext : NoStrays (step cfg db op) := (h.along hwf hg).2.head
        refine ⟨?_, ih _ (wellFormed_step hwf op) hnext hg.2⟩
        intro b hb hm b' hb' hid hm'
        by_contra hadopt
        have horphaned : Orphaned db b.id := fun b₁ hb₁ hid₁ => hwf.base_eq hb₁ hb hid₁ ▸ hm
        exact hm' (orphaned_step hwf h hg.1 hadopt (hwf.bases.lt b hb) horphaned b' hb' hid)

end

/-- `carol` takes `alice` on as a comaintainer of `foo`. -/
def takeOnAlice : Op := .post 3 1000000 (.comaintainers "foo" ["alice"])

/-- An account pushes a `.SRCINFO` with one plain package. -/
def pushFoo (uid : Nat) : Op :=
  .ssh uid "127.0.0.1" (201 * 86400 * 1000000) true "git-receive-pack" ["/foo.git"]
    { packages := some
        [{ name := "foo", version := .ok "1-1", description := none, url := none, passes := []
           licenses := [], groups := [] }]
      faults := fun _ => none }

theorem ownership_of_guarded_smallSite :
    Run.Along (step siteConfig) (OrphansRefused siteConfig) smallSite
        [orphanRequest 200, pushFoo 1] ∧
      Run.Guarded (step siteConfig) (GivenAway siteConfig) smallSite
        [orphanRequest 200, pushFoo 1] := by
  refine ownership_of_guarded siteConfig smallSite _ smallSite_wellFormed (by decide)
    ⟨?_, ?_, trivial⟩
  · rintro ⟨user, -, b, -, c, hc, -⟩
    cases hc
  · rintro ⟨user, s, -, pkgbase, users, ⟨-, -, -, action, args, haction, hcommand⟩, -⟩
    obtain ⟨rfl, rfl⟩ := Prod.mk.inj (Except.ok.inj haction)
    cases hcommand

/-- An orphan request that is granted at once leaves the comaintainers, and one of them pushes. -/
theorem comaintainer_takes_orphan :
    let orphaned := Run.exec (step siteConfig) smallSite [takeOnAlice, orphanRequest 200]
    (orphaned.user? 1).map (·.isElevated) = some false ∧
      orphaned.packageBases.map (·.maintainerUID) = [none] ∧
      (step siteConfig orphaned (pushFoo 1)).packageBases.map (·.maintainerUID) = [some 1] := by
  decide +kernel

end Aurweb
