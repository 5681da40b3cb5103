/-
The tables of packages, whatever the site does.

Between two pushes packages are only ever deleted, with what hangs off them.
-/
import Aurweb.Proofs.HookFrame
import Aurweb.Proofs.SiteWrites

namespace Aurweb

open GitUpdate (Stocked)

variable {cfg : Config} {may : May} {db db' : Db}

theorem Stocked.of_tables (h : Stocked db) (htables : packageTables db' = packageTables db)
    (hnext : db.nextID ≤ db'.nextID) : Stocked db' := by
  have hk := h.keyed
  have hup : ∀ {n : Nat}, n < db.nextID → n < db'.nextID := fun hlt => Nat.lt_of_lt_of_le hlt hnext
  obtain ⟨hpackages, hsources, hdepends, hrelations, hlicenses, hgroups, hnames, hgnames⟩ :
      db'.packages = db.packages ∧ db'.packageSources = db.packageSources ∧
        db'.packageDepends = db.packageDepends ∧ db'.packageRelations = db.packageRelations ∧
        db'.packageLicenses = db.packageLicenses ∧ db'.packageGroups = db.packageGroups ∧
        db'.licenses = db.licenses ∧ db'.groups = db.groups := by
    simpa [packageTables] using htables
  refine ⟨⟨?_, ?_, ?_, ?_, ?_, ?_, ?_, ?_, ?_, ?_⟩, ?_⟩
  · rw [hpackages]
    exact fun p hp => hup (hk.packages p hp)
  · rw [hsources]
    exact fun r hr => hup (hk.sources r hr)
  · rw [hdepends]
    exact fun r hr => hup (hk.depends r hr)
  · rw [hrelations]
    exact fun r hr => hup (hk.relations r hr)
  · rw [hlicenses]
    exact fun r hr => (hk.packageLicenses r hr).imp hup hup
  · rw [hgroups]
    exact fun r hr => (hk.packageGroups r hr).imp hup hup
  · rw [hnames]
    exact hk.licensesNodup
  · rw [hnames]
    exact fun l hl => hup (hk.licenses l hl)
  · rw [hgnames]
    exact hk.groupsNodup
  · rw [hgnames]
    exact fun g hg => hup (hk.groups g hg)
  · rw [hpackages]
    exact h.ids

theorem Stocked.deletePackageBase (h : Stocked db) (id : Nat) : Stocked (db.deletePackageBase id) :=
  Stocked.of_tables (h.deletePackages (·.packageBaseID == id)) rfl (Nat.le_refl _)

theorem Write.stocked (hw : Write cfg may db db') (hwf : WellFormed cfg db) (h : Stocked db) :
    Stocked db' := by
  cases hw with
  | delete => exact Stocked.deletePackageBase h _
  | @merge pkgbase target =>
      have hmoved : Stocked (popupdate (moveRows db pkgbase target) target.id) :=
        Stocked.of_tables h rfl (Nat.le_refl _)
      exact Stocked.deletePackageBase hmoved pkgbase.id
  | push => exact (GitUpdate.framed_run h hwf.bases.lt _ _).stocked
  | register => exact Stocked.of_tables h rfl (Nat.le_succ _)
  | file => exact Stocked.of_tables h rfl (Nat.le_succ _)
  | side _ _ _ _ _ _ hnext hpackages => exact Stocked.of_tables h hpackages hnext
  | _ => exact Stocked.of_tables h rfl (Nat.le_refl _)

theorem stocked_step (hwf : WellFormed cfg db) (h : Stocked db) (op : Op) :
    Stocked (step cfg db op) := by
  have hboth : WellFormed cfg (step cfg db op) ∧ Stocked (step cfg db op) := by
    refine (writes_step hwf op).keeps (P := fun db => WellFormed cfg db ∧ Stocked db) ?_ ⟨hwf, h⟩
    intro db₁ db₂ hw hdb
    exact ⟨hw.wellFormed hdb.1, hw.stocked hdb.1 hdb.2⟩
  exact hboth.2

end Aurweb
