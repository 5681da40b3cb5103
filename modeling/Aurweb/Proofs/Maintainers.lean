/-
Who maintains a base does not comaintain it.

Rows of comaintainers are written by two implementations and the maintainer by three.  The
form skips the maintainer when it adds comaintainers and a disowning takes whoever is
promoted off the list, so every write keeps the two apart, except those of the operations
that look at one of them only.
-/
import Aurweb.Proofs.Ownership

namespace Aurweb

/-- No base has its maintainer among its comaintainers. -/
def Distinct (db : Db) : Prop :=
  ∀ b ∈ db.packageBases, ∀ c ∈ db.packageComaintainers, c.of b.id = true →
    b.maintainerUID ≠ some c.usersID

instance : DecidablePred Distinct := fun db =>
  inferInstanceAs (Decidable (∀ b ∈ db.packageBases, ∀ c ∈ db.packageComaintainers,
    c.of b.id = true → b.maintainerUID ≠ some c.usersID))

section

variable {cfg : Config} {may : May} {db db' : Db}

/-! ### What the tables have to keep -/

/-- No new maintainer, and no new comaintainer. -/
theorem Distinct.of_rows (h : Distinct db)
    (hbases : ∀ b' ∈ db'.packageBases, ∀ uid, b'.maintainerUID = some uid →
      ∃ b ∈ db.packageBases, b.id = b'.id ∧ b.maintainerUID = some uid)
    (hrows : ∀ c' ∈ db'.packageComaintainers, ∃ c ∈ db.packageComaintainers,
      c.packageBaseID = c'.packageBaseID ∧ c.usersID = c'.usersID) : Distinct db' := by
  intro b' hb' c' hc' hof hm
  obtain ⟨b, hb, hid, hm₀⟩ := hbases b' hb' c'.usersID hm
  obtain ⟨c, hc, hbase, huid⟩ := hrows c' hc'
  refine h b hb c hc ?_ (huid ▸ hm₀)
  unfold PackageComaintainer.of at hof ⊢
  rw [hbase, hid]
  exact hof

theorem Distinct.updatePackageBase (h : Distinct db) (id : Nat) {f : PackageBase → PackageBase}
    (hf : ∀ b uid, (f b).id = b.id ∧
      ((f b).maintainerUID = some uid → b.maintainerUID = some uid)) :
    Distinct (db.updatePackageBase id f) := by
  refine h.of_rows (fun b' hb' uid hm' => ?_) fun c hc => ⟨c, hc, rfl, rfl⟩
  obtain ⟨b, hb, rfl⟩ := Table.mem_update.mp hb'
  by_cases hid : (b.id == id) = true
  · rw [if_pos hid] at hm' ⊢
    exact ⟨b, hb, (hf b uid).1.symm, (hf b uid).2 hm'⟩
  · rw [if_neg hid] at hm' ⊢
    exact ⟨b, hb, rfl, hm'⟩

/-- A new maintainer who is not on the list. -/
theorem Distinct.engage (h : Distinct db) {id uid : Nat}
    (hout : ∀ c ∈ db.packageComaintainers, c.of id = true → c.usersID ≠ uid) :
    Distinct (setMaintainer db id (some uid)) := by
  intro b' hb' c hc hof hm
  obtain ⟨b, hb, rfl⟩ := Table.mem_update.mp hb'
  by_cases hid : b.id = id
  · simp only [hid, beq_self_eq_true, if_true] at hof hm
    exact hout c hc hof (Option.some.inj hm).symm
  · simp only [beq_iff_eq, hid, if_false] at hof hm
    exact h b hb c hc hof hm

/-- New comaintainers, none of whom is the maintainer. -/
theorem Distinct.staff (h : Distinct db) {id : Nat} {rows : List PackageComaintainer}
    (hother : (rows.filter fun c => !c.of id) = db.packageComaintainers.filter fun c => !c.of id)
    (hnew : ∀ b ∈ db.packageBases, b.id = id → ∀ c ∈ rows, c.of id = true →
      b.maintainerUID = some c.usersID →
      ∃ c₀ ∈ db.packageComaintainers, c₀.of id = true ∧ c₀.usersID = c.usersID) :
    Distinct { db with packageComaintainers := rows } := by
  intro b hb c hc hof hm
  by_cases hid : b.id = id
  · subst hid
    obtain ⟨c₀, hc₀, hof₀, huid⟩ := hnew b hb rfl c hc hof hm
    exact h b hb c₀ hc₀ hof₀ (huid ▸ hm)
  · exact h b hb c (mem_of_staffed hother hc hof hid) hof hm

theorem Distinct.deletePackageBase (h : Distinct db) (id : Nat) :
    Distinct (db.deletePackageBase id) := by
  refine h.of_rows (fun b hb uid hm => ?_) fun c hc => ?_
  · exact ⟨b, (Table.mem_delete.mp hb).1, rfl, hm⟩
  · exact ⟨c, (Table.mem_delete.mp hc).1, rfl, rfl⟩

theorem Distinct.deleteUser (h : Distinct db) (uid : Nat) : Distinct (db.deleteUser uid) := by
  refine h.of_rows (fun b' hb' uid' hm => ?_) fun c hc => ?_
  · obtain ⟨b, hb, rfl⟩ := List.mem_map.mp hb'
    refine ⟨b, hb, rfl, ?_⟩
    by_cases hgone : b.maintainerUID = some uid
    · simp [Db.setNull, hgone] at hm
    · simpa [Db.setNull, hgone] using hm
  · exact ⟨c, (Table.mem_delete.mp hc).1, rfl, rfl⟩

/-! ### The hook -/

/-- A base as a push leaves it: as it was, or taken over by whoever pushes. -/
structure Carried (cfg : Config) (p : GitUpdate.Push) (db₀ : Db) (b₀ b : PackageBase) : Prop where
  id : b₀.id = b.id
  name : b₀.name = b.name
  maintainer : b.maintainerUID = b₀.maintainerUID ∨
    (b₀.maintainerUID = none ∧ cfg.sameName b₀.name p.pkgbase = true ∧
      ∃ u ∈ db₀.users, cfg.sameName u.username p.user = true ∧ b.maintainerUID = some u.id)

theorem Carried.refl (cfg : Config) (p : GitUpdate.Push) (db : Db) (b : PackageBase) :
    Carried cfg p db b b :=
  ⟨rfl, rfl, Or.inl rfl⟩

/-- What a push does to the tables that say who works on a base. -/
structure Pushed (cfg : Config) (p : GitUpdate.Push) (db₀ db : Db) : Prop where
  nextID : db₀.nextID ≤ db.nextID
  users : db.users = db₀.users
  comaintainers : db.packageComaintainers = db₀.packageComaintainers
  requests : db.packageRequests = db₀.packageRequests
  bases : ∀ b ∈ db.packageBases,
    db₀.nextID ≤ b.id ∨ ∃ b₀ ∈ db₀.packageBases, Carried cfg p db₀ b₀ b

theorem Pushed.refl (cfg : Config) (p : GitUpdate.Push) (db : Db) : Pushed cfg p db db where
  nextID := Nat.le_refl _
  users := rfl
  comaintainers := rfl
  requests := rfl
  bases b hb := Or.inr ⟨b, hb, Carried.refl cfg p db b⟩

/-- An update of bases that keeps their ids and names. -/
theorem Pushed.updatePackageBase {p : GitUpdate.Push} {db₀ : Db} (h : Pushed cfg p db₀ db)
    (id : Nat) {f : PackageBase → PackageBase}
    (hf : ∀ b b₀, b.id = id → b₀ ∈ db₀.packageBases → Carried cfg p db₀ b₀ b →
      Carried cfg p db₀ b₀ (f b))
    (hid : ∀ b, (f b).id = b.id) : Pushed cfg p db₀ (db.updatePackageBase id f) := by
  refine ⟨h.nextID, h.users, h.comaintainers, h.requests, fun b' hb' => ?_⟩
  obtain ⟨b, hb, rfl⟩ := Table.mem_update.mp hb'
  by_cases heq : b.id = id
  · simp only [heq, beq_self_eq_true, if_true]
    rw [hid]
    rcases h.bases b hb with hnew | ⟨b₀, hb₀, hcarried⟩
    · exact Or.inl hnew
    · exact Or.inr ⟨b₀, hb₀, hf b b₀ heq hb₀ hcarried⟩
  · simp only [beq_iff_eq, heq, if_false]
    exact h.bases b hb

theorem keptBy_pushed {db₀ : Db} (hwf : WellFormed cfg db₀) (p : GitUpdate.Push) :
    GitUpdate.KeptBy cfg p (Pushed cfg p db₀) where
  stores hs h := by
    obtain ⟨hnext, husers, hcomaintainers, hrequests, hbases⟩ := h
    cases hs <;> exact ⟨by first | exact hnext | exact Nat.le_succ_of_le hnext, husers,
      hcomaintainers, hrequests, hbases⟩
  clear _ h := ⟨h.nextID, h.users, h.comaintainers, h.requests, h.bases⟩
  notify h := ⟨h.nextID, h.users, h.comaintainers, h.requests, h.bases⟩
  touch uid _ _ h := by
    refine h.updatePackageBase _ (fun b b₀ _ _ hcarried => ?_) fun _ => rfl
    exact ⟨hcarried.id, hcarried.name, hcarried.maintainer⟩
  takeOver {db₁ db₂ db base u} h₁ hbase h₂ huser h := by
    refine h.updatePackageBase _ (fun b b₀ hid hb₀ hcarried => ?_) fun b => ?_
    · by_cases hnone : b.maintainerUID = none
      · rw [if_pos hnone]
        obtain ⟨hmem, hname⟩ := baseNamed_mem hbase
        obtain ⟨hu, hsame⟩ := userNamed_mem huser
        -- The base that was looked up has been there from the start, under its name.
        have hlt : base.id < db₀.nextID := by
          rw [← hid, ← hcarried.id]
          exact hwf.bases.lt b₀ hb₀
        have horigin : cfg.sameName b₀.name p.pkgbase = true := by
          rcases h₁.bases base hmem with hnew | ⟨b₁, hb₁, hcarried₁⟩
          · omega
          · have hsameID : b₁.id = b₀.id := by rw [hcarried₁.id, hcarried.id, hid]
            rw [← hwf.base_eq hb₁ hb₀ hsameID, hcarried₁.name]
            exact hname
        refine ⟨hcarried.id, hcarried.name, Or.inr ⟨?_, horigin, u, ?_, hsame, rfl⟩⟩
        · rcases hcarried.maintainer with hm | ⟨hm, -⟩
          · rw [← hm]
            exact hnone
          · exact hm
        · rw [← h₂.users]
          exact hu
      · rw [if_neg hnone]
        exact hcarried
    · by_cases hnone : b.maintainerUID = none <;> simp [hnone]
  create _ _ h _ hid _ _ _ := by
    refine ⟨Nat.le_succ_of_le h.nextID, h.users, h.comaintainers, h.requests, fun b' hb' => ?_⟩
    rcases List.mem_append.mp hb' with hb' | hb'
    · exact h.bases b' hb'
    · rw [List.mem_singleton.mp hb', hid]
      exact Or.inl h.nextID

/-- A push, wherever it fails. -/
theorem main_pushed (hwf : WellFormed cfg db) (p : GitUpdate.Push)
    (faults : Nat → Option GitUpdate.Failure) :
    Pushed cfg p db ((GitUpdate.main cfg p).run faults db).2 :=
  run_of_keptBy (keptBy_pushed hwf p) faults (Pushed.refl cfg p db)

theorem Distinct.pushed {p : GitUpdate.Push} (hwf : WellFormed cfg db) (h : Distinct db)
    (hnew : ∀ b ∈ db.packageBases, cfg.sameName b.name p.pkgbase = true →
      b.maintainerUID = none → ∀ u ∈ db.users, cfg.sameName u.username p.user = true →
        isComaintainer db b.id u.id = false)
    (hpushed : Pushed cfg p db db') : Distinct db' := by
  intro b hb c hc hof hm
  rw [hpushed.comaintainers] at hc
  have hbase : c.packageBaseID = b.id := by simpa [PackageComaintainer.of] using hof
  rcases hpushed.bases b hb with hfresh | ⟨b₀, hb₀, hcarried⟩
  · obtain ⟨b₁, hb₁, hid⟩ := hwf.comaintainerBases c hc
    have hlt : b₁.id < db.nextID := hwf.bases.lt b₁ hb₁
    omega
  have hof₀ : c.of b₀.id = true := by
    rw [hcarried.id]
    exact hof
  rcases hcarried.maintainer with hsame | ⟨hnone, hname, u, hu, huser, htaken⟩
  · exact h b₀ hb₀ c hc hof₀ (hsame ▸ hm)
  · refine not_of_isComaintainer (hnew b₀ hb₀ hname hnone u hu huser) hc hof₀ ?_
    rw [htaken] at hm
    exact (Option.some.inj hm).symm

/-! ### Every write -/

theorem Distinct.write (hdouble : ¬may.double) (hwf : WellFormed cfg db)
    (hw : Write cfg may db db') (h : Distinct db) : Distinct db' := by
  cases hw with
  | engage _ hout => exact h.engage (hout.resolve_left hdouble)
  | release => exact h.updatePackageBase _ fun b uid => ⟨rfl, by simp⟩
  | leave =>
      refine h.of_rows (fun b hb uid hm => ⟨b, hb, rfl, hm⟩) fun c' hc' => ?_
      obtain ⟨c, hc, rfl⟩ := Table.mem_update.mp (Table.mem_delete.mp hc').1
      exact ⟨c, hc, by split <;> exact ⟨rfl, rfl⟩⟩
  | staff _ hother _ _ _ hapart => exact h.staff hother (hapart.resolve_left hdouble)
  | delete => exact h.deletePackageBase _
  | @merge pkgbase target =>
      have hmoved : Distinct (moveRows db pkgbase target) := h
      have hcounted : Distinct (popupdate (moveRows db pkgbase target) target.id) :=
        hmoved.updatePackageBase _ fun b uid => ⟨rfl, fun hm => hm⟩
      exact hcounted.deletePackageBase _
  | account => exact h.deleteUser _
  | mark hf =>
      exact h.updatePackageBase _ fun b uid => ⟨(hf b).id, fun hm => (hf b).maintainer ▸ hm⟩
  | @ballot _ votes _ hf =>
      have hvoted : Distinct { db with packageVotes := votes } := h
      exact hvoted.updatePackageBase _ fun b uid =>
        ⟨(hf b).id, fun hm => (hf b).maintainer ▸ hm⟩
  | side hbases _ _ hcomaintainers =>
      refine h.of_rows (fun b hb uid hm => ⟨b, hbases ▸ hb, rfl, hm⟩) fun c hc => ?_
      exact ⟨c, hcomaintainers ▸ hc, rfl, rfl⟩
  | push _ _ hnew => exact h.pushed hwf (hnew.resolve_left hdouble) (main_pushed hwf _ _)
  | _ => exact h

/--
**The maintainer of a base is never one of its comaintainers**, in every run none of whose
operations puts the maintainer on the list or makes somebody the maintainer who is on it.
-/
theorem distinct_of_guarded (cfg : Config) (db : Db) (ops : List Op) (hwf : WellFormed cfg db)
    (h : Distinct db)
    (hg : Run.Guarded (step cfg) (fun db op => ¬op.Doubles cfg db) db ops) :
    Run.Along (step cfg) Distinct db ops := by
  refine along_of_writes ?_ hwf h hg
  intro db₀ op db db' _ _ hop hwf' hw hold
  exact hold.write (fun hmay => hop ((explains_mayOf cfg db₀ op).double hmay)) hwf' hw

end

/-- A session that sets the comaintainers of `foo`. -/
def setComaintainersOf (uid : Nat) (users : List String) : Op :=
  .ssh uid "127.0.0.1" 2000000 true "set-comaintainers" ("foo" :: users)
    { packages := none, faults := fun _ => none }

/-- `carol` takes `alice` on and disowns `foo`. -/
theorem distinct_of_guarded_smallSite :
    Run.Along (step siteConfig) Distinct smallSite
      [takeOnAlice, .post 3 3000000 (.disown "foo" "" true "")] := by
  refine distinct_of_guarded siteConfig smallSite _ smallSite_wellFormed (by decide)
    ⟨?_, ?_, trivial⟩
  · rintro ⟨user, -, hdoubles⟩
    exact hdoubles
  · rintro ⟨user, -, hdoubles⟩
    exact hdoubles

/-- `carol` puts herself on the list of her own base; the form would have skipped her. -/
theorem not_distinct_carolListed :
    ¬Run.Along (step siteConfig) Distinct smallSite [setComaintainersOf 3 ["alice", "carol"]] := by
  decide +kernel

end Aurweb
