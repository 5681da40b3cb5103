/-
What the packages, comments and notifications of every state are like.

`Listed` is what the schema promises of the tables `WellFormed` does not look at.  A function
that leaves their columns alone keeps it; what is left are the deletions, a merge, a
notification, a registration, and the hook.
-/
import Aurweb.Proofs.HookFrame
import Aurweb.Proofs.Untouched

namespace Aurweb

/-- The primary keys, unique indices and foreign keys of packages, comments and notifications,
and of the column that says who submitted a base. -/
structure Listed (cfg : Config) (db : Db) : Prop where
  packages : Table.Numbered (·.id) db.nextID db.packages
  packageNames : (db.packages.map fun p => cfg.collate p.name).Nodup
  packageBases : ∀ p ∈ db.packages, ∃ b ∈ db.packageBases, b.id = p.packageBaseID
  submitters : ∀ b ∈ db.packageBases, ∀ uid, b.submitterUID = some uid →
    ∃ u ∈ db.users, u.id = uid
  comments : Table.Numbered (·.id) db.nextID db.packageComments
  notifications : (db.packageNotifications.map fun n => (n.userID, n.packageBaseID)).Nodup
  /-- `AUTO_INCREMENT` begins with one. -/
  next : 0 < db.nextID
  userIDs : ∀ u ∈ db.users, 0 < u.id

section

variable {cfg : Config} {db db' : Db}

theorem Untouched.mem_packageBases (h : Untouched db db') {b : PackageBase}
    (hb : b ∈ db'.packageBases) :
    ∃ b₀ ∈ db.packageBases, b₀.id = b.id ∧ b₀.submitterUID = b.submitterUID := by
  have hmem : (b.id, b.submitterUID) ∈ db.packageBases.map fun b => (b.id, b.submitterUID) :=
    h.submitters ▸ List.mem_map_of_mem hb
  obtain ⟨b₀, hb₀, hrow⟩ := List.mem_map.mp hmem
  exact ⟨b₀, hb₀, (Prod.mk.inj hrow).1, (Prod.mk.inj hrow).2⟩

theorem Untouched.hasBase (h : Untouched db db') {id : Nat} (hid : GitUpdate.HasBase id db) :
    GitUpdate.HasBase id db' := by
  obtain ⟨b, hb, rfl⟩ := hid
  have hmem : (b.id, b.submitterUID) ∈ db'.packageBases.map fun b => (b.id, b.submitterUID) :=
    h.submitters.symm ▸ List.mem_map_of_mem hb
  obtain ⟨b', hb', hrow⟩ := List.mem_map.mp hmem
  exact ⟨b', hb', (Prod.mk.inj hrow).1⟩

theorem Untouched.mem_users (h : Untouched db db') {uid : Nat} :
    (∃ u ∈ db'.users, u.id = uid) ↔ ∃ u ∈ db.users, u.id = uid := by
  have hids : uid ∈ db'.users.map (·.id) ↔ uid ∈ db.users.map (·.id) := by rw [h.users]
  simpa using hids

namespace Listed

theorem of_untouched (h : Listed cfg db) (hu : Untouched db db') : Listed cfg db' where
  packages := by
    rw [hu.packages]
    exact h.packages.mono hu.next
  packageNames := by
    rw [hu.packages]
    exact h.packageNames
  packageBases p hp := hu.hasBase (h.packageBases p (hu.packages ▸ hp))
  submitters b hb uid huid := by
    obtain ⟨b₀, hb₀, -, hsubmitter⟩ := hu.mem_packageBases hb
    exact hu.mem_users.mpr (h.submitters b₀ hb₀ uid (hsubmitter.trans huid))
  comments := by
    rw [hu.comments]
    exact h.comments.mono hu.next
  notifications := by
    rw [hu.notifications]
    exact h.notifications
  next := Nat.lt_of_lt_of_le h.next hu.next
  userIDs u hu' := by
    obtain ⟨u₀, hu₀, hid⟩ := hu.mem_users.mp ⟨u, hu', rfl⟩
    rw [← hid]
    exact h.userIDs u₀ hu₀

/-! ### Deletions and merges -/

theorem deletePackages (h : Listed cfg db) (p : Package → Bool) :
    Listed cfg (db.deletePackages p) :=
  { h with
    packages := h.packages.sublist (Table.delete_sublist _ _)
    packageNames := h.packageNames.sublist ((Table.delete_sublist _ _).map _)
    packageBases := fun q hq => h.packageBases q (Table.mem_delete.mp hq).1 }

theorem deletePackageBase (h : Listed cfg db) (id : Nat) :
    Listed cfg (db.deletePackageBase id) :=
  { h.deletePackages (·.packageBaseID == id) with
    packageBases := by
      intro p hp
      obtain ⟨hp, hother⟩ := Table.mem_delete.mp hp
      obtain ⟨b, hb, hid⟩ := h.packageBases p hp
      exact ⟨b, Table.mem_delete.mpr ⟨hb, by simpa [hid] using hother⟩, hid⟩
    submitters := fun b hb => h.submitters b (Table.mem_delete.mp hb).1
    comments := h.comments.sublist (Table.delete_sublist _ _)
    notifications := h.notifications.sublist ((Table.delete_sublist _ _).map _) }

theorem deleteUser (h : Listed cfg db) (uid : Nat) : Listed cfg (db.deleteUser uid) :=
  { h with
    packageBases := by
      intro p hp
      obtain ⟨b, hb, hid⟩ := h.packageBases p hp
      exact ⟨_, List.mem_map_of_mem hb, hid⟩
    submitters := by
      intro b hb uid' huid'
      obtain ⟨b₀, hb₀, rfl⟩ := List.mem_map.mp hb
      -- Whoever is left as the submitter is not the one who goes.
      have hkept : b₀.submitterUID = some uid' ∧ uid' ≠ uid := by
        simp only [Db.setNull] at huid'
        split at huid'
        · cases huid'
        · rename_i hne
          exact ⟨huid', fun heq => hne (heq ▸ huid')⟩
      obtain ⟨u, hu, rfl⟩ := h.submitters b₀ hb₀ uid' hkept.1
      exact ⟨u, Table.mem_delete.mpr ⟨hu, beq_false_of_ne hkept.2⟩, rfl⟩
    comments := by
      have hkept := h.comments.sublist (Table.delete_sublist (·.delUsersID == some uid) _)
      exact hkept.of_map_eq (by simp [Db.deleteUser])
    notifications := h.notifications.sublist ((Table.delete_sublist _ _).map _)
    userIDs := fun u hu => h.userIDs u (Table.mem_delete.mp hu).1 }

theorem updateComments (h : Listed cfg db) {p : PackageComment → Bool}
    {f : PackageComment → PackageComment} (hf : ∀ c, (f c).id = c.id) :
    Listed cfg { db with packageComments := Table.update p f db.packageComments } :=
  { h with comments := h.comments.of_map_eq (Table.map_update hf _) }

/-- A notification is moved only to where its user has none, so no two become one. -/
theorem moveRows (h : Listed cfg db) (pkgbase target : PackageBase) :
    Listed cfg (moveRows db pkgbase target) := by
  have hunique : Transfer.Unique PackageNotification.userID PackageNotification.packageBaseID
      db.packageNotifications := h.notifications
  have hmoved : Transfer.Unique PackageNotification.userID PackageNotification.packageBaseID
      (Transfer.moved PackageNotification.userID PackageNotification.packageBaseID
        (fun n => { n with packageBaseID := target.id }) pkgbase.id target.id
        db.packageNotifications) :=
    hunique.moved (fun _ => rfl) fun _ => rfl
  have hcomments : Listed cfg { db with
      packageComments := Table.update (·.packageBaseID == pkgbase.id)
        (fun c => { c with packageBaseID := target.id }) db.packageComments } :=
    h.updateComments fun _ => rfl
  exact { hcomments with notifications := hmoved }

theorem retryMerge (h : Listed cfg db) (pkgbase target : PackageBase) :
    Listed cfg (retryMerge db pkgbase target) :=
  ((h.moveRows pkgbase target).of_untouched (.popupdate _ target.id)).deletePackageBase pkgbase.id

/-! ### New rows -/

theorem notify (h : Listed cfg db) {baseID uid : Nat}
    (hnew : (db.packageNotifications.any fun n => n.packageBaseID == baseID && n.userID == uid) =
      false) : Listed cfg (insertNotification db baseID uid) := by
  refine { h with notifications := ?_ }
  rw [insertNotification, List.map_append, List.map_singleton]
  refine List.Nodup.append h.notifications (List.nodup_singleton _) ?_
  intro k hk hk'
  obtain ⟨n, hn, rfl⟩ := List.mem_map.mp hk
  simp only [List.mem_singleton, Prod.mk.injEq] at hk'
  have hnot := List.any_eq_false.mp hnew n hn
  simp [hk'.1, hk'.2] at hnot

theorem unnotify (h : Listed cfg db) (p : PackageNotification → Bool) :
    Listed cfg { db with packageNotifications := Table.delete p db.packageNotifications } :=
  { h with notifications := h.notifications.sublist ((Table.delete_sublist _ _).map _) }

theorem comment (h : Listed cfg db) {c : PackageComment} (hid : c.id = db.nextID) :
    Listed cfg { db with
      packageComments := db.packageComments ++ [c], nextID := db.nextID + 1 } :=
  { h with
    packages := h.packages.mono (Nat.le_succ _)
    comments := h.comments.insert hid
    next := Nat.succ_pos _ }

theorem register (h : Listed cfg db) {u : User} (hid : u.id = db.nextID) :
    Listed cfg { db with users := db.users ++ [u], nextID := db.nextID + 1 } :=
  { h with
    packages := h.packages.mono (Nat.le_succ _)
    comments := h.comments.mono (Nat.le_succ _)
    next := Nat.succ_pos _
    submitters := by
      intro b hb uid huid
      obtain ⟨u', hu', hid'⟩ := h.submitters b hb uid huid
      exact ⟨u', List.mem_append_left _ hu', hid'⟩
    userIDs := by
      refine GitUpdate.forall_append h.userIDs ?_
      rw [hid]
      exact h.next }

theorem addBase (h : Listed cfg db) {b : PackageBase} {u : User} (hu : u ∈ db.users)
    (hsubmitter : b.submitterUID = some u.id) :
    Listed cfg { db with
      packageBases := db.packageBases ++ [b], nextID := db.nextID + 1 } :=
  { h with
    packages := h.packages.mono (Nat.le_succ _)
    comments := h.comments.mono (Nat.le_succ _)
    next := Nat.succ_pos _
    packageBases := by
      intro p hp
      obtain ⟨b', hb', hid⟩ := h.packageBases p hp
      exact ⟨b', List.mem_append_left _ hb', hid⟩
    submitters := by
      refine GitUpdate.forall_append h.submitters fun uid huid => ?_
      exact ⟨u, hu, Option.some.inj (hsubmitter.symm.trans huid)⟩ }

theorem addPackage (h : Listed cfg db) {p : Package} (hid : p.id = db.nextID)
    (hname : ∀ q ∈ db.packages, cfg.sameName q.name p.name = false)
    (hbase : ∃ b ∈ db.packageBases, b.id = p.packageBaseID) :
    Listed cfg { db with packages := db.packages ++ [p], nextID := db.nextID + 1 } :=
  { h with
    packages := h.packages.insert hid
    packageNames := by
      rw [List.map_append, List.map_singleton]
      refine List.Nodup.append h.packageNames (List.nodup_singleton _) ?_
      intro k hk hk'
      obtain ⟨q, hq, rfl⟩ := List.mem_map.mp hk
      have hne := hname q hq
      simp only [List.mem_singleton] at hk'
      simp [Config.sameName, hk'] at hne
    packageBases := GitUpdate.forall_append h.packageBases hbase
    comments := h.comments.mono (Nat.le_succ _)
    next := Nat.succ_pos _ }

end Listed

theorem smallSite_listed : Listed siteConfig smallSite where
  packages := Table.Numbered.nil
  packageNames := by simp [smallSite]
  packageBases := by simp [smallSite]
  submitters := by
    intro b hb uid huid
    rw [List.mem_singleton.mp hb] at huid
    rw [← Option.some.inj huid]
    exact ⟨account 3 .user "carol", by decide, rfl⟩
  comments := Table.Numbered.nil
  notifications := by simp [smallSite]
  next := by decide
  userIDs := by decide

end

/-! ### The hook -/

namespace GitUpdate

open Txn Txn.Prog

/-- The base that is pushed to is there. -/
structure Standing (cfg : Config) (baseID : Nat) (t : Db) : Prop where
  listed : Listed cfg t
  base : HasBase baseID t

variable {cfg : Config} {baseID : Nat}

theorem Standing.next {t t' : Db} (h : Standing cfg baseID t) (hu : Untouched t t') :
    Standing cfg baseID t' :=
  ⟨h.listed.of_untouched hu, hu.hasBase h.base⟩

theorem standing_write {f : Db → Db} (hf : ∀ t, Untouched t (f t)) :
    Secures (Listed cfg) (Standing cfg baseID) (write f : Hook Unit)
      fun _ => Standing cfg baseID :=
  Secures.write fun t ht => ht.next (hf t)

theorem standing_insertUnique {α : Type} {taken : Db → Bool} {insert : Db → α × Db}
    (hf : ∀ t, Untouched t (insert t).2) :
    Secures (Listed cfg) (Standing cfg baseID) (insertUnique taken insert)
      fun _ => Standing cfg baseID :=
  Secures.constrained fun t ht _ => ht.next (hf t)

/-- The rows that hang off a package are in tables of their own. -/
theorem untouched_stores (cfg : Config) {t t' : Db} (h : Stores cfg t t')
    (hpackages : t'.packages = t.packages) : Untouched t t' := by
  cases h with
  | package p => simp at hpackages
  | license | group => exact ⟨rfl, rfl, rfl, rfl, rfl, Nat.le_succ _⟩
  | _ => exact ⟨rfl, rfl, rfl, rfl, rfl, Nat.le_refl _⟩

theorem standing_storePass (pkgID : Nat) (p : Pass) :
    Secures (Listed cfg) (Standing cfg baseID) (storePass pkgID p)
      fun _ => Standing cfg baseID := by
  have hexternal : Secures (Listed cfg) (Standing cfg baseID) (external : Hook Unit)
      fun _ => Standing cfg baseID := Secures.external fun _ ht => ht
  refine Secures.bind (Secures.forEach fun s _ => ?_) fun _ => ?_
  · exact standing_write fun t => untouched_stores cfg (.source _) rfl
  refine Secures.bind (Secures.forEach fun dt _ => Secures.bind hexternal fun _ =>
    Secures.forEach fun d _ => ?_) fun _ => ?_
  · exact standing_write fun t => untouched_stores cfg (.dependency _) rfl
  refine Secures.forEach fun rt _ => Secures.bind hexternal fun _ =>
    Secures.forEach fun r _ => ?_
  exact standing_write fun t => untouched_stores cfg (.relation _) rfl

theorem standing_storeNamed {lookup : Db → Option Nat} {insertName : Hook Nat}
    {insertLink : Nat → Hook Unit}
    (hname : Secures (Listed cfg) (Standing cfg baseID) insertName fun _ => Standing cfg baseID)
    (hlink : ∀ id, Secures (Listed cfg) (Standing cfg baseID) (insertLink id)
      fun _ => Standing cfg baseID) :
    Secures (Listed cfg) (Standing cfg baseID) (storeNamed lookup insertName insertLink)
      fun _ => Standing cfg baseID := by
  refine Secures.bind (R := fun _ => Standing cfg baseID) (Secures.query fun _ ht => ht)
    fun row => ?_
  cases row with
  | some id => exact hlink id
  | none =>
      refine Secures.bind hname fun id => ?_
      exact Secures.bind (R := fun _ => Standing cfg baseID)
        (Secures.commit fun _ ht => ⟨ht.listed, ht⟩) fun _ => hlink id

theorem standing_storeFields (d : PackageData) (pkgID : Nat) :
    Secures (Listed cfg) (Standing cfg baseID) (storeFields cfg d pkgID)
      fun _ => Standing cfg baseID := by
  refine Secures.bind (Secures.forEach fun p _ => standing_storePass pkgID p) fun _ => ?_
  refine Secures.bind (Secures.forEach fun name _ => standing_storeNamed ?_ fun id => ?_)
    fun _ => Secures.forEach fun name _ => standing_storeNamed ?_ fun id => ?_
  · exact standing_insertUnique fun t => untouched_stores cfg (.license _ rfl) rfl
  · exact standing_insertUnique fun t => untouched_stores cfg (.packageLicense _) rfl
  · exact standing_insertUnique fun t => untouched_stores cfg (.group _ rfl) rfl
  · exact standing_insertUnique fun t => untouched_stores cfg (.packageGroup _) rfl

theorem standing_storePackage (d : PackageData) :
    Secures (Listed cfg) (Standing cfg baseID) (storePackage cfg baseID d)
      fun _ => Standing cfg baseID := by
  refine Secures.bind (R := fun _ => Standing cfg baseID)
    (Secures.ofExcept fun _ _ ht _ => ht) fun version => ?_
  refine Secures.bind (R := fun _ => Standing cfg baseID) ?_ fun pkgID => ?_
  · refine Secures.constrained fun t ht hnew => ?_
    exact ⟨ht.listed.addPackage rfl (by simpa using hnew) ht.base, ht.base⟩
  exact Secures.bind (R := fun _ => Standing cfg baseID)
    (Secures.commit fun _ ht => ⟨ht.listed, ht⟩) fun _ => standing_storeFields d pkgID

theorem standing_clearPackages :
    Secures (Listed cfg) (Standing cfg baseID) (clearPackages baseID)
      fun _ => Standing cfg baseID := by
  have hrows : ∀ t : Db, Untouched t t := Untouched.refl
  refine Secures.bind (standing_write fun t => { hrows t with }) fun _ => ?_
  refine Secures.bind (standing_write fun t => { hrows t with }) fun _ => ?_
  refine Secures.bind (standing_write fun t => { hrows t with }) fun _ => ?_
  refine Secures.bind (standing_write fun t => { hrows t with }) fun _ => ?_
  refine Secures.bind (standing_write fun t => { hrows t with }) fun _ => ?_
  exact Secures.write fun t ht => ⟨ht.listed.deletePackages _, ht.base⟩

theorem standing_insertNotification (uid : Nat) :
    Secures (Listed cfg) (Standing cfg baseID) (insertNotification baseID uid)
      fun _ => Standing cfg baseID :=
  Secures.constrained fun _ ht hnew => ⟨ht.listed.notify hnew, ht.base⟩

theorem listed_saveMetadata (pkgbase user : String) (packages : List PackageData) (now : Nat) :
    Secures (Listed cfg) (Listed cfg) (saveMetadata cfg pkgbase user packages now)
      fun _ => Listed cfg := by
  refine Secures.bind (R := fun row t => Listed cfg t ∧ ∀ b, row = some b → HasBase b.id t)
    (Secures.query fun t ht => ⟨ht, fun b hb => ⟨b, List.mem_of_find?_eq_some hb, rfl⟩⟩)
    fun row => ?_
  cases row with
  | none => exact Secures.raise _
  | some base =>
      have hstanding : ∀ t, (Listed cfg t ∧ ∀ b, some base = some b → HasBase b.id t) →
          Standing cfg base.id t := fun t ht => ⟨ht.1, ht.2 base rfl⟩
      refine Secures.bind (R := fun _ => Standing cfg base.id)
        (Secures.query fun t ht => hstanding t ht) fun packager => ?_
      cases packager with
      | none => exact Secures.raise _
      | some u =>
          refine Secures.bind (standing_write fun t =>
            .updatePackageBase t base.id fun _ => ⟨rfl, rfl⟩) fun _ => ?_
          refine Secures.bind (standing_write fun t => .updatePackageBase t base.id fun b => ?_)
            fun _ => ?_
          · split <;> exact ⟨rfl, rfl⟩
          refine Secures.bind standing_clearPackages fun _ => ?_
          refine Secures.bind (Secures.forEach fun d _ => standing_storePackage d) fun _ => ?_
          refine Secures.bind (R := fun _ => Standing cfg base.id) ?_ fun _ =>
            Secures.commit fun _ ht => ⟨ht.listed, ht.listed⟩
          refine Secures.when (fun _ => ?_) fun _ ht => ht
          refine Secures.bind (R := fun _ => Standing cfg base.id)
            (Secures.query fun _ ht => ht) fun _ => ?_
          exact Secures.when (fun _ => standing_insertNotification u.id) fun _ ht => ht

theorem listed_createPkgbase (pkgbase user : String) (now : Nat) :
    Secures (Listed cfg) (Listed cfg) (createPkgbase cfg pkgbase user now)
      fun _ => Listed cfg := by
  refine Secures.bind (R := fun row t => Listed cfg t ∧ ∀ u, row = some u → u ∈ t.users)
    (Secures.query fun t ht => ⟨ht, fun u hu => List.mem_of_find?_eq_some hu⟩) fun row => ?_
  cases row with
  | none => exact Secures.raise _
  | some u =>
      refine Secures.bind (R := fun baseID => Standing cfg baseID) ?_ fun baseID => ?_
      · unfold insertPackageBase insertUnique
        refine Secures.constrained fun t ht _ => ⟨?_, ?_⟩
        · exact ht.1.addBase (ht.2 u rfl) rfl
        · exact ⟨_, List.mem_append_right _ (List.mem_singleton.mpr rfl), rfl⟩
      · exact Secures.bind (standing_insertNotification u.id) fun _ =>
          Secures.commit fun _ ht => ⟨ht.listed, ht.listed⟩

theorem listed_main (push : Push) :
    Secures (Listed cfg) (Listed cfg) (main cfg push) fun _ => Listed cfg := by
  refine Secures.bind (R := fun _ => Listed cfg) (Secures.query fun _ ht => ht) fun row => ?_
  refine Secures.bind (R := fun _ => Listed cfg) (Secures.query fun _ ht => ht) fun _ => ?_
  refine Secures.bind (R := fun _ => Listed cfg)
    (Secures.when (fun _ => secures_warnOrDie _ _) fun _ ht => ht) fun _ => ?_
  refine Secures.bind (R := fun _ => Listed cfg) (Secures.query fun _ ht => ht) fun _ => ?_
  refine Secures.bind (Secures.forEach fun d _ => secures_checkPackage _ _ _ _ d) fun _ => ?_
  refine Secures.bind (R := fun _ => Listed cfg)
    (Secures.when (fun _ => listed_createPkgbase _ _ _) fun _ ht => ht) fun _ => ?_
  exact Secures.bind (listed_saveMetadata _ _ _ _) fun _ => secures_publish _

/-- Whatever becomes of a push. -/
theorem listed_run {db : Db} (h : Listed cfg db) (push : Push) (faults : Nat → Option Failure) :
    Listed cfg ((main cfg push).run faults db).2 :=
  (listed_main push faults ⟨db, db, 0⟩ h h).1

/-- The hook has nothing to do with comments. -/
theorem packageComments_run (db : Db) (push : Push) (faults : Nat → Option Failure) :
    ((main cfg push).run faults db).2.packageComments = db.packageComments := by
  have hkept : KeptBy cfg push fun t => t.packageComments = db.packageComments := by
    refine ⟨fun hs h => ?_, fun _ h => h, fun h => h, fun _ _ _ h => h, fun _ _ _ _ h => h,
      fun _ _ h _ _ _ _ _ => h⟩
    cases hs <;> exact h
  exact run_of_keptBy hkept faults rfl

/-- Ids are only counted up. -/
theorem nextID_run (db : Db) (push : Push) (faults : Nat → Option Failure) :
    db.nextID ≤ ((main cfg push).run faults db).2.nextID := by
  have hkept : KeptBy cfg push fun t => db.nextID ≤ t.nextID := by
    refine ⟨fun hs h => ?_, fun _ h => h, fun h => h, fun _ _ _ h => h, fun _ _ _ _ h => h,
      fun _ _ h _ _ _ _ _ => Nat.le_succ_of_le h⟩
    cases hs with
    | package | license | group => exact Nat.le_succ_of_le h
    | _ => exact h
  exact run_of_keptBy hkept faults (Nat.le_refl _)

end GitUpdate

end Aurweb
