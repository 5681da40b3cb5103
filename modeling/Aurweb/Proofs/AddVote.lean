/-
Against how many maintainers a proposal is counted.

The query that counts them asks whether `InactivityTS` is null, which it never is, so that those
who are marked inactive are counted as well; the one on the overview page asks for zero.
-/
import Aurweb.AddVote
import Aurweb.Proofs.WellFormed

namespace Aurweb.AddVote

variable {cfg : Config} {db : Db}

/-- A Package Maintainer, be they a developer or not. -/
def isMaintainer (u : User) : Bool := packageMaintainer.contains u.accountType

/-- The maintainers who are neither suspended nor marked inactive. -/
def active (db : Db) : List User :=
  db.users.filter fun u => isMaintainer u && !u.suspended && u.inactivityTS == 0

/-- Those who are marked inactive and not suspended. -/
def onLeave (db : Db) : List User :=
  db.users.filter fun u => isMaintainer u && !u.suspended && u.inactivityTS != 0

/-- **Who is counted**: the active maintainers, and those on leave. -/
theorem activePMs_eq (db : Db) : activePMs db = (active db).length + (onLeave db).length := by
  unfold activePMs active onLeave
  induction db.users with
  | nil => rfl
  | cons u users ih =>
      have hnull : (inactivityTS u != none) = true := rfl
      rw [List.filter_cons, List.filter_cons, List.filter_cons, hnull, Bool.and_true,
        Bool.and_comm (!u.suspended)]
      by_cases hcounted : (isMaintainer u && !u.suspended) = true
      · rw [show (packageMaintainer.contains u.accountType && !u.suspended) = true from hcounted,
          hcounted, Bool.true_and, Bool.true_and, if_pos rfl, List.length_cons, ih]
        by_cases hzero : u.inactivityTS = 0
        · rw [if_pos (beq_iff_eq.mpr hzero), if_neg (by simp [hzero]), List.length_cons]
          omega
        · rw [if_neg (by simpa using hzero), if_pos (bne_iff_ne.mpr hzero), List.length_cons]
          omega
      · rw [Bool.not_eq_true] at hcounted
        rw [show (packageMaintainer.contains u.accountType && !u.suspended) = false from hcounted,
          hcounted]
        exact ih

/-- The overview page counts the active ones, and the suspended ones with them. -/
theorem counts_eq (h : ∀ u ∈ db.users, isMaintainer u = true → u.suspended = false) :
    (populatePackageMaintainerCounts db).2 = (active db).length := by
  unfold populatePackageMaintainerCounts active
  dsimp only
  rw [List.filter_filter]
  congr 1
  refine List.filter_congr fun u hu => ?_
  have hzero : (inactivityTS u == none || inactivityTS u == some 0) = (u.inactivityTS == 0) := rfl
  rw [hzero, Bool.and_comm]
  by_cases hmaintainer : isMaintainer u = true
  · rw [h u hu hmaintainer, Bool.not_false, Bool.and_true]
    rfl
  · rw [Bool.not_eq_true] at hmaintainer
    rw [show packageMaintainer.contains u.accountType = false from hmaintainer, hmaintainer]
    rfl

theorem created_activeUsers {submitter : User} {user type agenda : String} {now : Nat}
    {r : Response} {db' : Db} {p : Proposal}
    (h : packageMaintainerAddvotePost cfg db submitter user type agenda now = (r, db', some p)) :
    p.activeUsers = activePMs db := by
  unfold packageMaintainerAddvotePost at h
  split at h
  · simp at h
  · split at h
    · simp at h
    · simp only [Prod.mk.injEq, Option.some.injEq] at h
      rw [← h.2.2]
      rfl

/-- The number of active maintainers, and the one of the overview page when no maintainer is
suspended. -/
structure CountsActive (db : Db) (activeUsers : Nat) : Prop where
  active : activeUsers = (active db).length
  overview : (∀ u ∈ db.users, isMaintainer u = true → u.suspended = false) →
    activeUsers = (populatePackageMaintainerCounts db).2

/--
**Against whom a proposal is counted**: against the active maintainers, and so against the number
on the overview page, just if no maintainer is on leave when it is made.
-/
theorem countsActive_iff (cfg : Config) (db : Db) (submitter : User) (user type agenda : String)
    (now : Nat) {r : Response} {db' : Db} {p : Proposal}
    (h : packageMaintainerAddvotePost cfg db submitter user type agenda now = (r, db', some p)) :
    CountsActive db p.activeUsers ↔
      ∀ u ∈ db.users, isMaintainer u = true → u.suspended = false → u.inactivityTS = 0 := by
  have hnone : onLeave db = [] ↔
      ∀ u ∈ db.users, isMaintainer u = true → u.suspended = false → u.inactivityTS = 0 := by
    rw [onLeave, List.filter_eq_nil_iff]
    refine forall₂_congr fun u _ => ?_
    simp
  rw [← hnone, created_activeUsers h]
  constructor
  · intro hcounts
    have hactive := hcounts.active
    rw [activePMs_eq] at hactive
    apply List.length_eq_zero_iff.mp
    omega
  · intro hempty
    have hactive : activePMs db = (active db).length := by
      rw [activePMs_eq, hempty, List.length_nil, Nat.add_zero]
    exact ⟨hactive, fun hsuspended => hactive.trans (counts_eq hsuspended).symm⟩

/-- `bob` proposes `alice`. -/
def aliceForMaintainer (db : Db) : Response × Db × Option Proposal :=
  packageMaintainerAddvotePost siteConfig db (account 2 .packageMaintainer "bob") "alice" "add_pm"
    "Alice packages foo." 100

theorem countsActive_iff_smallSite :
    ∃ p, (aliceForMaintainer smallSite).2.2 = some p ∧ p.activeUsers = 1 ∧
      CountsActive smallSite p.activeUsers := by
  have hcreated : aliceForMaintainer smallSite = (.redirect "/package-maintainer/5",
      (aliceForMaintainer smallSite).2.1, some (newProposal smallSite
        (account 2 .packageMaintainer "bob") "alice" "Alice packages foo." (7 * 24 * 60 * 60, 66)
        100)) := by
    decide +kernel
  refine ⟨_, congrArg (·.2.2) hcreated, by decide, ?_⟩
  exact (countsActive_iff _ _ _ _ _ _ _ hcreated).mpr (by decide)

/-- `dave`, who is a maintainer too, has marked himself inactive. -/
def daveOnLeave : Db :=
  { smallSite with
    users := smallSite.users ++ [{ account 5 .packageMaintainer "dave" with inactivityTS := 50 }]
    nextID := 6 }

/-- He is counted, and not on the overview page. -/
theorem not_countsActive_daveOnLeave :
    ∃ p, (aliceForMaintainer daveOnLeave).2.2 = some p ∧ p.activeUsers = 2 ∧
      (populatePackageMaintainerCounts daveOnLeave).2 = 1 ∧
      ¬CountsActive daveOnLeave p.activeUsers := by
  refine ⟨newProposal daveOnLeave (account 2 .packageMaintainer "bob") "alice"
    "Alice packages foo." (7 * 24 * 60 * 60, 66) 100, by decide +kernel, by decide, by decide, ?_⟩
  intro h
  exact absurd h.active (by decide)

end Aurweb.AddVote
