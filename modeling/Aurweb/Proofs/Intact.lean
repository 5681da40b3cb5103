/-
What every state of the site is.

The searches of the RPC and of the packages page, the listing and the archives are shown correct
of a database with unique names and with rows wherever a column points to one (`Catalogue`).  A
state that a run reaches is such a database: `Intact` has the keys and the references that the
operations keep, those of a push included, and what the searches are shown of follows from it.
-/
import Aurweb.Proofs.Comments
import Aurweb.Proofs.RpcSearch
import Aurweb.Proofs.Stock

namespace Aurweb

/-- The keys and the references of all tables. -/
structure Intact (cfg : Config) (db : Db) : Prop where
  wellFormed : WellFormed cfg db
  listed : Listed cfg db
  stocked : GitUpdate.Stocked db

namespace Intact

variable {cfg : Config} {db : Db}

theorem catalogue (h : Intact cfg db) : Search.Catalogue cfg db where
  packages := h.listed.packages.nodup
  packageNames := h.listed.packageNames
  packageBases := h.listed.packageBases
  bases := h.wellFormed.bases.nodup
  baseNames := h.wellFormed.baseNames
  users := h.wellFormed.users.nodup
  userIDs u hu := Nat.pos_iff_ne_zero.mp (h.listed.userIDs u hu)
  userNames := h.wellFormed.userNames
  submitters := h.listed.submitters
  comaintainers := h.wellFormed.comaintainerUsers
  votes := h.wellFormed.votes
  notifications := h.listed.notifications

theorem step (h : Intact cfg db) (op : Op) : Intact cfg (step cfg db op) where
  wellFormed := wellFormed_step h.wellFormed op
  listed := listed_step h.listed op
  stocked := stocked_step h.wellFormed h.stocked op

theorem exec (h : Intact cfg db) (ops : List Op) :
    Intact cfg (Run.exec (Aurweb.step cfg) db ops) := by
  induction ops generalizing db with
  | nil => exact h
  | cons op ops ih => exact ih (h.step op)

/-- However a push ends, and wherever it is cut off. -/
theorem push (h : Intact cfg db) (push : GitUpdate.Push) (faults : Nat → Option GitUpdate.Failure) :
    Intact cfg ((GitUpdate.main cfg push).run faults db).2 where
  wellFormed := run_of_keptBy (keptBy_wellFormed cfg push) faults h.wellFormed
  listed := GitUpdate.listed_run h.listed push faults
  stocked := (GitUpdate.framed_run h.stocked h.wellFormed.bases.lt push faults).stocked

end Intact

open Rpc (smallCatalogue)

theorem smallCatalogue_intact : Intact siteConfig smallCatalogue where
  wellFormed :=
    { bases := ⟨by decide, by decide⟩
      baseNames := by decide
      users := ⟨by decide, by decide⟩
      userNames := by decide
      requests := Table.Numbered.nil
      requestBases := by simp [smallCatalogue, smallSite]
      comaintainerBases := by decide
      comaintainerUsers := by decide
      voteBases := by simp [smallCatalogue, smallSite]
      votes := by decide }
  listed :=
    { packages := ⟨by decide, by decide⟩
      packageNames := by decide
      packageBases := by decide
      submitters := by decide
      comments := Table.Numbered.nil
      notifications := by decide
      next := by decide
      userIDs := by decide }
  stocked := by
    refine ⟨⟨?_, ?_, ?_, ?_, ?_, ?_, ?_, ?_, ?_, ?_⟩, ?_⟩ <;> decide

/-- `foo` is commented on, voted for, and deleted by a Package Maintainer. -/
def usedUp : List Op :=
  [.post 1 (10 * 1000000) (.comment "foo" "It does not build." true),
    .post 3 (20 * 1000000) (.vote "foo"),
    .post 2 (30 * 1000000) (.delete "foo" true "" "")]

end Aurweb
