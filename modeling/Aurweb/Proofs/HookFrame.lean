/-
What a push leaves alone, however it ends.

Whatever fails, and wherever, the hook writes to one package base: the one its name finds,
or the one it adds.  `Framed` says so of two states, statement after statement: the rows of
every other base are the same, licenses and groups have only been added to, and ids still
come from the counter.  A run may be cut off between two commits, so the walk carries what is
stored and what the connection sees apart, as `Secures` does.
-/
import Aurweb.Proofs.SaveMetadata

namespace Aurweb.GitUpdate

open Txn Txn.Prog

/-- Ids are handed out once. -/
structure Stocked (db : Db) : Prop where
  keyed : Keyed db
  ids : (db.packages.map (·.id)).Nodup

/-- From `s` to `s'`, rows of one base have changed, and names have been added. -/
structure Framed (baseID : Nat) (s s' : Db) : Prop where
  stocked : Stocked s'
  rest : restOf baseID s' = restOf baseID s
  licenses : ∃ added, s'.licenses = s.licenses ++ added ∧ ∀ l ∈ added, s.nextID ≤ l.id
  groups : ∃ added, s'.groups = s.groups ++ added ∧ ∀ g ∈ added, s.nextID ≤ g.id
  next : s.nextID ≤ s'.nextID
  fresh : Fresh s → Fresh s'

section

variable {baseID : Nat} {s s' : Db}

theorem Framed.refl (h : Stocked s) : Framed baseID s s :=
  ⟨h, rfl, ⟨[], by simp, by simp⟩, ⟨[], by simp, by simp⟩, Nat.le_refl _, id⟩

theorem Framed.trans {s'' : Db} (h : Framed baseID s s') (h' : Framed baseID s' s'') :
    Framed baseID s s'' := by
  obtain ⟨added, hadd, hadded⟩ := h.licenses
  obtain ⟨added', hadd', hadded'⟩ := h'.licenses
  obtain ⟨gadded, hgadd, hgadded⟩ := h.groups
  obtain ⟨gadded', hgadd', hgadded'⟩ := h'.groups
  have hnext := h.next
  have hnext' := h'.next
  refine ⟨h'.stocked, h'.rest.trans h.rest, ⟨added ++ added', ?_, ?_⟩,
    ⟨gadded ++ gadded', ?_, ?_⟩, by omega, fun hs => h'.fresh (h.fresh hs)⟩
  · rw [hadd', hadd, List.append_assoc]
  · intro l hl
    rcases List.mem_append.mp hl with hl | hl
    · exact hadded l hl
    · have hle := hadded' l hl
      omega
  · rw [hgadd', hgadd, List.append_assoc]
  · intro g hg
    rcases List.mem_append.mp hg with hg | hg
    · exact hgadded g hg
    · have hle := hgadded' g hg
      omega

/-! ### Statement by statement -/

theorem framed_updatePackageBase (h : Stocked s) {f : PackageBase → PackageBase}
    (hf : ∀ b, (f b).id = b.id) : Framed baseID s (s.updatePackageBase baseID f) := by
  refine ⟨⟨h.keyed.updatePackageBase _ _, h.ids⟩, restOf_updatePackageBase hf,
    ⟨[], by simp [Db.updatePackageBase], by simp⟩, ⟨[], by simp [Db.updatePackageBase], by simp⟩,
    Nat.le_refl _, fun hs => ⟨?_, hs.packages, hs.notifications⟩⟩
  intro b hb
  obtain ⟨b₀, hb₀, rfl⟩ := Table.mem_update.mp hb
  have hlt := hs.bases b₀ hb₀
  by_cases hid : b₀.id == baseID
  · rw [if_pos hid, hf]
    exact hlt
  · rw [if_neg hid]
    exact hlt

theorem Stocked.deletePackages (h : Stocked s) (p : Package → Bool) :
    Stocked (s.deletePackages p) :=
  ⟨h.keyed.deletePackages p, h.ids.sublist ((Table.delete_sublist _ _).map _)⟩

theorem framed_deletePackages (h : Stocked s) :
    Framed baseID s (s.deletePackages (·.packageBaseID == baseID)) := by
  refine ⟨h.deletePackages _, restOf_deletePackages baseID s,
    ⟨[], by simp [Db.deletePackages], by simp⟩, ⟨[], by simp [Db.deletePackages], by simp⟩,
    Nat.le_refl _, fun hs => ⟨hs.bases, ?_, hs.notifications⟩⟩
  intro p hp
  exact hs.packages p (Table.mem_delete.mp hp).1

theorem Fresh.succ (h : Fresh s) : Fresh { s with nextID := s.nextID + 1 } :=
  ⟨fun b hb => Nat.lt_succ_of_lt (h.bases b hb), fun p hp => Nat.lt_succ_of_lt (h.packages p hp),
    fun n hn => Nat.lt_succ_of_lt (h.notifications n hn)⟩

theorem framed_insertPackage (h : Stocked s) {p : Package} (hid : p.id = s.nextID)
    (hbase : p.packageBaseID = baseID) :
    Framed baseID s { s with packages := s.packages ++ [p], nextID := s.nextID + 1 } := by
  subst hbase
  have hpackages : Table.delete (·.packageBaseID == p.packageBaseID) (s.packages ++ [p]) =
      Table.delete (·.packageBaseID == p.packageBaseID) s.packages := by
    simp [Table.delete]
  have hrows : ∀ {ρ : Type} (key : ρ → Nat) {t : List ρ}, (∀ r ∈ t, key r < s.nextID) →
      Table.delete (fun r => ownedBy { s with
        packages := s.packages ++ [p], nextID := s.nextID + 1 } p.packageBaseID (key r)) t =
      Table.delete (fun r => ownedBy s p.packageBaseID (key r)) t :=
    fun key _ hold => delete_owned_push key rfl hid hold _
  have hk := h.keyed
  have hnumbered := Table.Numbered.insert ⟨h.ids, hk.packages⟩ hid
  refine ⟨⟨?_, ?_⟩, ?_, ⟨[], by simp, by simp⟩, ⟨[], by simp, by simp⟩, Nat.le_succ _, ?_⟩
  · exact { hk.succ with packages := hnumbered.lt }
  · exact hnumbered.nodup
  · rw [restOf, hpackages, hrows _ hk.sources, hrows _ hk.depends, hrows _ hk.relations,
      hrows _ fun r hr => (hk.packageLicenses r hr).1,
      hrows _ fun r hr => (hk.packageGroups r hr).1]
    rfl
  · exact fun hs => ⟨hs.succ.bases, hnumbered.lt, hs.succ.notifications⟩

theorem lt_of_owned (h : Keyed s) {id : Nat} (howned : ownedBy s baseID id = true) :
    id < s.nextID := by
  obtain ⟨p, hp, hcond⟩ := List.any_eq_true.mp howned
  simp only [Bool.and_eq_true, beq_iff_eq] at hcond
  rw [← hcond.2]
  exact h.packages p hp

/-- A row of the base's own package goes unnoticed. -/
theorem delete_append_owned {ρ : Type} (key : ρ → Nat) (t : List ρ) {r : ρ}
    (howned : ownedBy s baseID (key r) = true) :
    Table.delete (fun r => ownedBy s baseID (key r)) (t ++ [r]) =
      Table.delete (fun r => ownedBy s baseID (key r)) t := by
  simp [Table.delete, howned]

theorem forall_append {ρ : Type} {P : ρ → Prop} {t : List ρ} {r : ρ} (h : ∀ r ∈ t, P r)
    (hr : P r) : ∀ r' ∈ t ++ [r], P r' := by
  intro r' hr'
  rcases List.mem_append.mp hr' with hr' | hr'
  · exact h r' hr'
  · rw [List.mem_singleton.mp hr']
    exact hr

theorem framed_source (h : Stocked s) {r : PackageSource}
    (howned : ownedBy s baseID r.packageID = true) :
    Framed baseID s { s with packageSources := s.packageSources ++ [r] } := by
  have hk := h.keyed
  refine ⟨⟨{ hk with
    sources := forall_append hk.sources (lt_of_owned hk howned) }, h.ids⟩, ?_,
    ⟨[], by simp, by simp⟩, ⟨[], by simp, by simp⟩, Nat.le_refl _,
    fun hs => ⟨hs.bases, hs.packages, hs.notifications⟩⟩
  exact congrArg (fun rows => { restOf baseID s with packageSources := rows })
    (delete_append_owned PackageSource.packageID _ howned)

theorem framed_dependency (h : Stocked s) {r : PackageDependency}
    (howned : ownedBy s baseID r.packageID = true) :
    Framed baseID s { s with packageDepends := s.packageDepends ++ [r] } := by
  have hk := h.keyed
  refine ⟨⟨{ hk with
    depends := forall_append hk.depends (lt_of_owned hk howned) }, h.ids⟩, ?_,
    ⟨[], by simp, by simp⟩, ⟨[], by simp, by simp⟩, Nat.le_refl _,
    fun hs => ⟨hs.bases, hs.packages, hs.notifications⟩⟩
  exact congrArg (fun rows => { restOf baseID s with packageDepends := rows })
    (delete_append_owned PackageDependency.packageID _ howned)

theorem framed_relation (h : Stocked s) {r : PackageRelation}
    (howned : ownedBy s baseID r.packageID = true) :
    Framed baseID s { s with packageRelations := s.packageRelations ++ [r] } := by
  have hk := h.keyed
  refine ⟨⟨{ hk with
    relations := forall_append hk.relations (lt_of_owned hk howned) }, h.ids⟩, ?_,
    ⟨[], by simp, by simp⟩, ⟨[], by simp, by simp⟩, Nat.le_refl _,
    fun hs => ⟨hs.bases, hs.packages, hs.notifications⟩⟩
  exact congrArg (fun rows => { restOf baseID s with packageRelations := rows })
    (delete_append_owned PackageRelation.packageID _ howned)

theorem framed_packageLicense (h : Stocked s) {r : PackageLicense}
    (howned : ownedBy s baseID r.packageID = true) (hlicense : r.licenseID < s.nextID) :
    Framed baseID s { s with packageLicenses := s.packageLicenses ++ [r] } := by
  have hk := h.keyed
  refine ⟨⟨{ hk with
    packageLicenses := forall_append hk.packageLicenses ⟨lt_of_owned hk howned, hlicense⟩ },
    h.ids⟩, ?_, ⟨[], by simp, by simp⟩, ⟨[], by simp, by simp⟩, Nat.le_refl _,
    fun hs => ⟨hs.bases, hs.packages, hs.notifications⟩⟩
  exact congrArg (fun rows => { restOf baseID s with packageLicenses := rows })
    (delete_append_owned PackageLicense.packageID _ howned)

theorem framed_packageGroup (h : Stocked s) {r : PackageGroup}
    (howned : ownedBy s baseID r.packageID = true) (hgroup : r.groupID < s.nextID) :
    Framed baseID s { s with packageGroups := s.packageGroups ++ [r] } := by
  have hk := h.keyed
  refine ⟨⟨{ hk with
    packageGroups := forall_append hk.packageGroups ⟨lt_of_owned hk howned, hgroup⟩ },
    h.ids⟩, ?_, ⟨[], by simp, by simp⟩, ⟨[], by simp, by simp⟩, Nat.le_refl _,
    fun hs => ⟨hs.bases, hs.packages, hs.notifications⟩⟩
  exact congrArg (fun rows => { restOf baseID s with packageGroups := rows })
    (delete_append_owned PackageGroup.packageID _ howned)

theorem framed_license (h : Stocked s) {l : License} (hid : l.id = s.nextID) :
    Framed baseID s { s with licenses := s.licenses ++ [l], nextID := s.nextID + 1 } := by
  have hnumbered := Table.Numbered.insert ⟨h.keyed.licensesNodup, h.keyed.licenses⟩ hid
  refine ⟨⟨{ h.keyed.succ with
    licensesNodup := hnumbered.nodup, licenses := hnumbered.lt }, h.ids⟩, rfl,
    ⟨[l], rfl, ?_⟩, ⟨[], by simp, by simp⟩, Nat.le_succ _, fun hs => ?_⟩
  · intro l' hl'
    obtain rfl := List.mem_singleton.mp hl'
    omega
  · exact ⟨hs.succ.bases, hs.succ.packages, hs.succ.notifications⟩

theorem framed_group (h : Stocked s) {g : Group} (hid : g.id = s.nextID) :
    Framed baseID s { s with groups := s.groups ++ [g], nextID := s.nextID + 1 } := by
  have hnumbered := Table.Numbered.insert ⟨h.keyed.groupsNodup, h.keyed.groups⟩ hid
  refine ⟨⟨{ h.keyed.succ with
    groupsNodup := hnumbered.nodup, groups := hnumbered.lt }, h.ids⟩, rfl,
    ⟨[], by simp, by simp⟩, ⟨[g], rfl, ?_⟩, Nat.le_succ _, fun hs => ?_⟩
  · intro g' hg'
    obtain rfl := List.mem_singleton.mp hg'
    omega
  · exact ⟨hs.succ.bases, hs.succ.packages, hs.succ.notifications⟩

theorem framed_notification (h : Stocked s) {n : PackageNotification}
    (hbase : n.packageBaseID = baseID) (hlt : baseID < s.nextID) :
    Framed baseID s { s with packageNotifications := s.packageNotifications ++ [n] } := by
  refine ⟨⟨{ h.keyed with }, h.ids⟩, ?_, ⟨[], by simp, by simp⟩, ⟨[], by simp, by simp⟩,
    Nat.le_refl _, fun hs => ⟨hs.bases, hs.packages, ?_⟩⟩
  · have hrows : Table.delete (·.packageBaseID == baseID) (s.packageNotifications ++ [n]) =
        Table.delete (·.packageBaseID == baseID) s.packageNotifications := by
      simp [Table.delete, hbase]
    rw [restOf, hrows]
    rfl
  · exact forall_append hs.notifications (by rw [hbase]; exact hlt)

theorem framed_packageBase (h : Stocked s) {b : PackageBase} (hid : b.id = s.nextID) :
    Framed s.nextID s
      { s with packageBases := s.packageBases ++ [b], nextID := s.nextID + 1 } := by
  refine ⟨⟨{ h.keyed.succ with }, h.ids⟩, ?_, ⟨[], by simp, by simp⟩, ⟨[], by simp, by simp⟩,
    Nat.le_succ _, fun hs => ⟨?_, hs.succ.packages, hs.succ.notifications⟩⟩
  · have hrows : Table.delete (·.id == s.nextID) (s.packageBases ++ [b]) =
        Table.delete (·.id == s.nextID) s.packageBases := by
      simp [Table.delete, hid]
    rw [restOf, hrows]
    rfl
  · exact forall_append hs.succ.bases (by rw [hid]; exact Nat.lt_succ_self _)

end

/-! ### The walk -/

/-- The base has been found or added. -/
structure Within (baseID : Nat) (s t : Db) : Prop where
  framed : Framed baseID s t
  below : baseID < t.nextID

/-- The package has been added. -/
structure Storing (baseID pkgID : Nat) (s t : Db) : Prop where
  within : Within baseID s t
  owned : ownedBy t baseID pkgID = true

section

variable {cfg : Config} {baseID pkgID : Nat} {s t t' : Db}

theorem Within.next (h : Within baseID s t) (h' : Framed baseID t t') : Within baseID s t' :=
  ⟨h.framed.trans h', Nat.lt_of_lt_of_le h.below h'.next⟩

theorem Within.stocked (h : Within baseID s t) : Stocked t := h.framed.stocked

theorem Storing.stocked (h : Storing baseID pkgID s t) : Stocked t := h.within.stocked

/-- The packages stay as they are. -/
theorem Storing.next (h : Storing baseID pkgID s t) (h' : Framed baseID t t')
    (hpackages : t'.packages = t.packages) : Storing baseID pkgID s t' :=
  ⟨h.within.next h', by rw [ownedBy, hpackages]; exact h.owned⟩

theorem secures_insertPackage (d : PackageData) (version : String) :
    Secures (Framed baseID s) (Within baseID s) (insertPackage cfg baseID d version)
      fun pkgID t => Storing baseID pkgID s t := by
  refine Secures.constrained fun t ht _ => ⟨ht.next (framed_insertPackage ht.stocked rfl rfl), ?_⟩
  simp [ownedBy]

theorem secures_storePass (p : Pass) :
    Secures (Framed baseID s) (Storing baseID pkgID s) (storePass pkgID p)
      fun _ => Storing baseID pkgID s := by
  have hsource : ∀ r ∈ p.sources, Secures (Framed baseID s) (Storing baseID pkgID s)
      (insertSource pkgID r) fun _ => Storing baseID pkgID s := fun r _ =>
    Secures.write fun t ht => ht.next (framed_source ht.stocked ht.owned) rfl
  have hdep : ∀ t, ∀ d ∈ p.depends t, Secures (Framed baseID s) (Storing baseID pkgID s)
      (insertDependency pkgID t d) fun _ => Storing baseID pkgID s := fun _ d _ =>
    Secures.write fun t ht => ht.next (framed_dependency ht.stocked ht.owned) rfl
  have hrel : ∀ t, ∀ r ∈ p.relations t, Secures (Framed baseID s) (Storing baseID pkgID s)
      (insertRelation pkgID t r) fun _ => Storing baseID pkgID s := fun _ r _ =>
    Secures.write fun t ht => ht.next (framed_relation ht.stocked ht.owned) rfl
  refine Secures.bind (Secures.forEach hsource) fun _ =>
    Secures.bind (R := fun _ => Storing baseID pkgID s) ?_ fun _ => ?_
  · exact Secures.forEach fun t _ =>
      Secures.bind (Secures.external fun _ ht => ht) fun _ => Secures.forEach (hdep t)
  · exact Secures.forEach fun t _ =>
      Secures.bind (Secures.external fun _ ht => ht) fun _ => Secures.forEach (hrel t)

theorem secures_storeNamed {lookup : Db → Option Nat} {insertName : Hook Nat}
    {insertLink : Nat → Hook Unit}
    (hlookup : ∀ t id, Stocked t → lookup t = some id → id < t.nextID)
    (hname : Secures (Framed baseID s) (Storing baseID pkgID s) insertName
      fun id t => id < t.nextID ∧ Storing baseID pkgID s t)
    (hlink : ∀ id, Secures (Framed baseID s) (fun t => id < t.nextID ∧ Storing baseID pkgID s t)
      (insertLink id) fun _ => Storing baseID pkgID s) :
    Secures (Framed baseID s) (Storing baseID pkgID s) (storeNamed lookup insertName insertLink)
      fun _ => Storing baseID pkgID s := by
  refine Secures.bind (R := fun row t => row = lookup t ∧ Storing baseID pkgID s t)
    (Secures.query fun t ht => ⟨rfl, ht⟩) fun row => ?_
  cases row with
  | some id =>
      refine (hlink id).imp (fun t ht => ⟨?_, ht.2⟩) fun _ _ h => h
      exact hlookup t id ht.2.stocked ht.1.symm
  | none =>
      refine Secures.bind (hname.imp (fun t ht => ht.2) fun _ _ h => h) fun id => ?_
      refine Secures.bind (R := fun _ t => id < t.nextID ∧ Storing baseID pkgID s t) ?_ fun _ =>
        hlink id
      exact Secures.commit fun t ht => ⟨ht.2.within.framed, ht⟩

theorem secures_storeLicense (name : String) :
    Secures (Framed baseID s) (Storing baseID pkgID s) (storeLicense cfg pkgID name)
      fun _ => Storing baseID pkgID s := by
  refine secures_storeNamed ?_ ?_ fun id => ?_
  · intro t id ht hid
    obtain ⟨l, hl, rfl⟩ := Option.map_eq_some_iff.mp hid
    exact ht.keyed.licenses l (List.mem_of_find?_eq_some hl)
  · unfold insertLicense insertUnique
    refine Secures.constrained fun t ht _ => ⟨Nat.lt_succ_self _, ?_⟩
    exact ht.next (framed_license ht.stocked rfl) rfl
  · unfold insertPackageLicense insertUnique
    refine Secures.constrained fun t ht _ => ?_
    exact ht.2.next (framed_packageLicense ht.2.stocked ht.2.owned ht.1) rfl

theorem secures_storeGroup (name : String) :
    Secures (Framed baseID s) (Storing baseID pkgID s) (storeGroup cfg pkgID name)
      fun _ => Storing baseID pkgID s := by
  refine secures_storeNamed ?_ ?_ fun id => ?_
  · intro t id ht hid
    obtain ⟨g, hg, rfl⟩ := Option.map_eq_some_iff.mp hid
    exact ht.keyed.groups g (List.mem_of_find?_eq_some hg)
  · unfold insertGroup insertUnique
    refine Secures.constrained fun t ht _ => ⟨Nat.lt_succ_self _, ?_⟩
    exact ht.next (framed_group ht.stocked rfl) rfl
  · unfold insertPackageGroup insertUnique
    refine Secures.constrained fun t ht _ => ?_
    exact ht.2.next (framed_packageGroup ht.2.stocked ht.2.owned ht.1) rfl

theorem secures_storePackage (d : PackageData) :
    Secures (Framed baseID s) (Within baseID s) (storePackage cfg baseID d)
      fun _ => Within baseID s := by
  refine Secures.bind (R := fun _ => Within baseID s)
    (Secures.ofExcept fun _ _ ht _ => ht) fun version => ?_
  refine Secures.bind (secures_insertPackage d version) fun pkgID => ?_
  refine Secures.bind (R := fun _ => Storing baseID pkgID s)
    (Secures.commit fun t ht => ⟨ht.within.framed, ht⟩) fun _ => ?_
  refine Secures.bind (Secures.forEach fun p _ => secures_storePass p) fun _ => ?_
  refine Secures.bind (Secures.forEach fun name _ => secures_storeLicense name) fun _ => ?_
  exact (Secures.forEach fun name _ => secures_storeGroup name).imp (fun _ ht => ht)
    fun _ _ ht => ht.within

theorem secures_write_eq (C : Db → Prop) (f : Db → Db) (t : Db) :
    Secures C (· = t) (write f : Hook Unit) fun _ t' => t' = f t :=
  Secures.write fun _ h => congrArg f h

theorem secures_clearPackages :
    Secures (Framed baseID s) (Within baseID s) (clearPackages baseID)
      fun _ => Within baseID s := by
  refine Secures.intro fun t ht => ?_
  have hchain : Secures (Framed baseID s) (· = t) (clearPackages baseID)
      fun _ t' => t' = t.deletePackages (·.packageBaseID == baseID) := by
    rw [← deletePackages_deleteSources, ← deletePackages_deleteDepends,
      ← deletePackages_deleteRelations, ← deletePackages_deleteLicenses,
      ← deletePackages_deleteGroups]
    refine Secures.bind (secures_write_eq _ _ _) fun _ => ?_
    refine Secures.bind (secures_write_eq _ _ _) fun _ => ?_
    refine Secures.bind (secures_write_eq _ _ _) fun _ => ?_
    refine Secures.bind (secures_write_eq _ _ _) fun _ => ?_
    refine Secures.bind (secures_write_eq _ _ _) fun _ => ?_
    exact secures_write_eq _ _ _
  refine hchain.imp (fun _ h => h) fun _ t' h => ?_
  rw [h]
  exact ht.next (framed_deletePackages ht.stocked)

theorem secures_insertNotification (uid : Nat) :
    Secures (Framed baseID s) (Within baseID s) (insertNotification baseID uid)
      fun _ => Within baseID s :=
  Secures.constrained fun _ ht _ => ht.next (framed_notification ht.stocked rfl ht.below)

theorem secures_finish (uid : Nat) (wasOrphan : Bool) :
    Secures (Framed baseID s) (Within baseID s) (finish baseID uid wasOrphan)
      fun _ => Framed baseID s := by
  refine Secures.bind (R := fun _ => Within baseID s) ?_ fun _ =>
    Secures.commit fun _ ht => ⟨ht.framed, ht.framed⟩
  refine Secures.when (fun _ => ?_) fun _ ht => ht
  refine Secures.bind (R := fun _ => Within baseID s) (Secures.query fun _ ht => ht) fun _ => ?_
  exact Secures.when (fun _ => secures_insertNotification uid) fun _ ht => ht

/-- The name finds the base, if anything. -/
def Finds (cfg : Config) (pkgbase : String) (baseID : Nat) (t : Db) : Prop :=
  ∀ b, baseByName cfg pkgbase t = some b → b.id = baseID

theorem secures_saveMetadata (pkgbase user : String) (packages : List PackageData) (now : Nat) :
    Secures (Framed baseID s) (fun t => Within baseID s t ∧ Finds cfg pkgbase baseID t)
      (saveMetadata cfg pkgbase user packages now) fun _ => Framed baseID s := by
  refine Secures.bind (R := fun (row : Option PackageBase) t =>
      (∀ b, row = some b → b.id = baseID) ∧ Within baseID s t)
    (Secures.query fun t ht => ⟨ht.2, ht.1⟩) fun row => Secures.assume fun hrow => ?_
  cases row with
  | none => exact Secures.raise _
  | some base =>
      obtain rfl := hrow base rfl
      refine Secures.bind (R := fun _ => Within base.id s) (Secures.query fun _ ht => ht)
        fun packager => ?_
      cases packager with
      | none => exact Secures.raise _
      | some u =>
          refine Secures.bind (R := fun _ => Within base.id s) (Secures.write fun t ht => ?_)
            fun _ => ?_
          · exact ht.next (framed_updatePackageBase ht.stocked fun _ => rfl)
          refine Secures.bind (R := fun _ => Within base.id s) (Secures.write fun t ht => ?_)
            fun _ => ?_
          · exact ht.next (framed_updatePackageBase ht.stocked (takeOver_id u.id))
          refine Secures.bind secures_clearPackages fun _ => ?_
          refine Secures.bind (Secures.forEach fun d _ => secures_storePackage d) fun _ => ?_
          exact secures_finish u.id _

theorem secures_createPkgbase {pkgbase : String} (hs : Stocked s)
    (hnone : baseByName cfg pkgbase s = none) (user : String) (now : Nat) :
    Secures (Framed s.nextID s) (· = s) (createPkgbase cfg pkgbase user now)
      fun _ t => Within s.nextID s t ∧ Finds cfg pkgbase s.nextID t := by
  refine Secures.bind (R := fun _ t => t = s) (Secures.query fun _ ht => ht) fun submitter => ?_
  cases submitter with
  | none => exact Secures.raise _
  | some u =>
      refine Secures.bind (R := fun baseID t => baseID = s.nextID ∧ Within s.nextID s t ∧
        Finds cfg pkgbase s.nextID t) ?_ fun baseID => Secures.assume fun hid => ?_
      · unfold insertPackageBase insertUnique
        refine Secures.constrained fun t ht _ => ?_
        subst ht
        refine ⟨rfl, ⟨framed_packageBase hs rfl, Nat.lt_succ_self _⟩, fun b hb => ?_⟩
        rw [baseByName] at hnone
        rw [baseByName, List.find?_append, hnone, Option.none_or] at hb
        rw [List.mem_singleton.mp (List.mem_of_find?_eq_some hb)]
      · subst hid
        refine Secures.bind (R := fun _ t => Within s.nextID s t ∧ Finds cfg pkgbase s.nextID t)
          ?_ fun _ => ?_
        · unfold insertNotification insertUnique
          refine Secures.constrained fun t ht _ => ⟨?_, ht.2⟩
          exact ht.1.next (framed_notification ht.1.stocked rfl ht.1.below)
        · exact Secures.commit fun t ht => ⟨ht.1.framed, ht⟩

theorem secures_warnOrDie {C W : Db → Prop} (privileged : Bool) (message : String) :
    Secures C W (warnOrDie privileged message) fun _ => W := by
  cases privileged with
  | true => exact Secures.pure fun _ ht => ht
  | false => exact Secures.raise _

theorem secures_checkPackage {C W : Db → Prop} (privileged : Bool) (blacklist : List String)
    (providers : List OfficialProvider) (row : Option Nat) (d : PackageData) :
    Secures C W (checkPackage cfg privileged blacklist providers row d) fun _ => W := by
  refine Secures.bind (R := fun _ => W)
    (Secures.when (fun _ => secures_warnOrDie _ _) fun _ ht => ht) fun _ => ?_
  refine Secures.bind (R := fun _ => W) ?_ fun _ => ?_
  · unfold checkProvider
    cases provider? providers d.name with
    | none => exact Secures.pure fun _ ht => ht
    | some repo => exact secures_warnOrDie _ _
  · refine Secures.bind (R := fun _ => W) (Secures.query fun _ ht => ht) fun taken => ?_
    exact Secures.when (fun _ => Secures.raise _) fun _ ht => ht

theorem secures_publish {C W : Db → Prop} (user : String) :
    Secures C W (publish cfg user) fun _ => W := by
  refine Secures.bind (R := fun _ => W) (Secures.external fun _ ht => ht) fun _ => ?_
  refine Secures.bind (R := fun _ => W) (Secures.external fun _ ht => ht) fun _ => ?_
  refine Secures.bind (R := fun _ => W) (Secures.query fun _ ht => ht) fun row => ?_
  cases row with
  | none => exact Secures.raise _
  | some u => exact Secures.external fun _ ht => ht

/-- The base a push is for: the one of that name, or the next. -/
def target (cfg : Config) (pkgbase : String) (s : Db) : Nat :=
  match baseByName cfg pkgbase s with
  | some base => base.id
  | none => s.nextID

theorem secures_main {push : Push} (hs : Stocked s)
    (hbelow : ∀ b ∈ s.packageBases, b.id < s.nextID) :
    Secures (Framed (target cfg push.pkgbase s) s) (· = s) (main cfg push)
      fun _ => Framed (target cfg push.pkgbase s) s := by
  refine Secures.bind (R := fun row t => row = baseByName cfg push.pkgbase s ∧ t = s)
    (Secures.query fun t ht => ⟨by rw [ht], ht⟩) fun row => Secures.assume fun hrow => ?_
  refine Secures.bind (R := fun _ t => t = s) (Secures.query fun _ ht => ht) fun blacklist => ?_
  refine Secures.bind (R := fun _ t => t = s)
    (Secures.when (fun _ => secures_warnOrDie _ _) fun _ ht => ht) fun _ => ?_
  refine Secures.bind (R := fun _ t => t = s) (Secures.query fun _ ht => ht) fun providers => ?_
  refine Secures.bind (R := fun _ t => t = s)
    (Secures.forEach fun d _ => secures_checkPackage _ _ _ _ d) fun _ => ?_
  refine Secures.bind (R := fun _ t => Within (target cfg push.pkgbase s) s t ∧
    Finds cfg push.pkgbase (target cfg push.pkgbase s) t) ?_ fun _ => ?_
  · rw [hrow]
    cases hbase : baseByName cfg push.pkgbase s with
    | none =>
        simp only [target, hbase]
        exact secures_createPkgbase hs hbase push.user push.now
    | some base =>
        simp only [target, hbase]
        refine Secures.pure fun t ht => ?_
        subst ht
        refine ⟨⟨Framed.refl hs, hbelow base (List.mem_of_find?_eq_some hbase)⟩, fun b hb => ?_⟩
        rw [hbase, Option.some.injEq] at hb
        rw [hb]
  refine Secures.bind (secures_saveMetadata _ _ _ _) fun _ => secures_publish _

/-- **Whatever becomes of a push, it has only written to its base.** -/
theorem framed_run (hs : Stocked s) (hbelow : ∀ b ∈ s.packageBases, b.id < s.nextID)
    (push : Push) (faults : Nat → Option Failure) :
    Framed (target cfg push.pkgbase s) s ((main cfg push).run faults s).2 :=
  (secures_main hs hbelow).run faults (Framed.refl hs)

end

/-! ### Reading back -/

/-- The packages of a base, as they are shown. -/
def metadata (db : Db) (baseID : Nat) : List PackageRows :=
  (db.packages.filter (·.packageBaseID == baseID)).map (readPackage db)

section

variable {baseID : Nat} {s s' : Db}

/-- Package ids are unique, so a package of another base is not the base's. -/
theorem not_owned (hs : Stocked s) {p : Package} (hp : p ∈ s.packages)
    (hother : p.packageBaseID ≠ baseID) : ownedBy s baseID p.id = false := by
  rw [ownedBy, List.any_eq_false]
  intro q hq hcond
  simp only [Bool.and_eq_true, beq_iff_eq] at hcond
  have heq : q = p := List.inj_on_of_nodup_map hs.ids hq hp hcond.2
  rw [heq] at hcond
  exact hother hcond.1

/-- A package that is not the base's has kept its rows if the rest has. -/
theorem rows_of_rest {ρ : Type} (key : ρ → Nat) {t t' : List ρ} {id : Nat}
    (hfree : ownedBy s baseID id = false) (hfree' : ownedBy s' baseID id = false)
    (h : Table.delete (fun r => ownedBy s' baseID (key r)) t' =
      Table.delete (fun r => ownedBy s baseID (key r)) t) :
    t'.filter (fun r => key r == id) = t.filter fun r => key r == id := by
  have hrows : ∀ {s : Db} (t : List ρ), ownedBy s baseID id = false →
      (Table.delete (fun r => ownedBy s baseID (key r)) t).filter (fun r => key r == id) =
        t.filter fun r => key r == id := by
    intro s t hfree
    refine Table.filter_delete_of_disjoint ?_ t
    intro r howned hid
    rw [eq_of_beq hid, hfree] at howned
    cases howned
  rw [← hrows t' hfree', h, hrows t hfree]

theorem Framed.mem_packageBases (h : Framed baseID s s') {b : PackageBase}
    (hb : b ∈ s.packageBases) (hother : b.id ≠ baseID) : b ∈ s'.packageBases := by
  have hrest : Table.delete (·.id == baseID) s'.packageBases =
      Table.delete (·.id == baseID) s.packageBases := congrArg Db.packageBases h.rest
  have hin : b ∈ Table.delete (·.id == baseID) s.packageBases :=
    Table.mem_delete.mpr ⟨hb, by simpa using hother⟩
  rw [← hrest] at hin
  exact (Table.mem_delete.mp hin).1

theorem Framed.packages (h : Framed baseID s s') {id : Nat} (hother : id ≠ baseID) :
    s'.packages.filter (·.packageBaseID == id) = s.packages.filter (·.packageBaseID == id) := by
  have hrows : ∀ t : List Package, (Table.delete (·.packageBaseID == baseID) t).filter
      (·.packageBaseID == id) = t.filter (·.packageBaseID == id) := fun t => by
    refine Table.filter_delete_of_disjoint ?_ t
    intro p hbase hid
    exact hother ((eq_of_beq hid).symm.trans (eq_of_beq hbase))
  rw [← hrows s'.packages, ← hrows s.packages]
  exact congrArg (fun db : Db => db.packages.filter (·.packageBaseID == id)) h.rest

theorem Framed.readPackage (hs : Stocked s) (h : Framed baseID s s') {p : Package}
    (hp : p ∈ s.packages) (hother : p.packageBaseID ≠ baseID) :
    readPackage s' p = readPackage s p := by
  have hmem : p ∈ s'.packages := by
    have hrows := h.packages hother
    have hin : p ∈ s.packages.filter (·.packageBaseID == p.packageBaseID) :=
      List.mem_filter.mpr ⟨hp, by simp⟩
    rw [← hrows] at hin
    exact (List.mem_filter.mp hin).1
  have hfree := not_owned hs hp hother
  have hfree' := not_owned h.stocked hmem hother
  have hrest := h.rest
  have hsrc : sourcesOf s' p.id = sourcesOf s p.id :=
    congrArg (List.map _)
      (rows_of_rest PackageSource.packageID hfree hfree' (congrArg Db.packageSources hrest))
  have hdep : dependsOf s' p.id = dependsOf s p.id :=
    congrArg (List.map _)
      (rows_of_rest PackageDependency.packageID hfree hfree' (congrArg Db.packageDepends hrest))
  have hrel : relationsOf s' p.id = relationsOf s p.id :=
    congrArg (List.map _)
      (rows_of_rest PackageRelation.packageID hfree hfree' (congrArg Db.packageRelations hrest))
  -- Which names are the same to the database does not matter here.
  have hlicenses : licensesOf s' p.id = licensesOf s p.id := by
    obtain ⟨added, hadd, hadded⟩ := h.licenses
    rw [licensesOf, licensesOf, hadd, rows_of_rest PackageLicense.packageID hfree hfree'
      (congrArg Db.packageLicenses hrest)]
    refine List.filterMap_congr fun r hr => ?_
    have hid := (hs.keyed.packageLicenses r (List.mem_of_mem_filter hr)).2
    exact Registry.nameOf_append (o := licenseOps plainConfig) hid hadded
  have hgroups : groupsOf s' p.id = groupsOf s p.id := by
    obtain ⟨added, hadd, hadded⟩ := h.groups
    rw [groupsOf, groupsOf, hadd, rows_of_rest PackageGroup.packageID hfree hfree'
      (congrArg Db.packageGroups hrest)]
    refine List.filterMap_congr fun r hr => ?_
    have hid := (hs.keyed.packageGroups r (List.mem_of_mem_filter hr)).2
    exact Registry.nameOf_append (o := groupOps plainConfig) hid hadded
  rw [GitUpdate.readPackage, GitUpdate.readPackage, hsrc, hdep, hrel, hlicenses, hgroups]

/-- **No other base reads back differently.** -/
theorem Framed.metadata (hs : Stocked s) (h : Framed baseID s s') {id : Nat}
    (hother : id ≠ baseID) : metadata s' id = metadata s id := by
  rw [GitUpdate.metadata, GitUpdate.metadata, h.packages hother]
  refine List.map_congr_left fun p hp => ?_
  obtain ⟨hmem, hid⟩ := List.mem_filter.mp hp
  exact h.readPackage hs hmem (by rw [eq_of_beq hid]; exact hother)

end

end Aurweb.GitUpdate
