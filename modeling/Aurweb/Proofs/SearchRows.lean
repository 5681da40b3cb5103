/-
The rows that a package search starts from.

The keys of the schema make every join of `PackageSearch.__init__` and `_join_user` one that
finds a single row or none, so the query has one row for each package: `rowOf`.  Everything that
multiplies the rows comes after that, with the joins of `search_by`.
-/
import Aurweb.Search

namespace Aurweb.Search

/-- The primary keys, unique indices and foreign keys of the tables that are searched. -/
structure Catalogue (cfg : Config) (db : Db) : Prop where
  packages : (db.packages.map (·.id)).Nodup
  packageNames : (db.packages.map fun p => cfg.collate p.name).Nodup
  packageBases : ∀ p ∈ db.packages, ∃ b ∈ db.packageBases, b.id = p.packageBaseID
  bases : (db.packageBases.map (·.id)).Nodup
  baseNames : (db.packageBases.map fun b => cfg.collate b.name).Nodup
  users : (db.users.map (·.id)).Nodup
  /-- `AUTO_INCREMENT` begins with one. -/
  userIDs : ∀ u ∈ db.users, u.id ≠ 0
  userNames : (db.users.map fun u => cfg.collate u.username).Nodup
  submitters : ∀ b ∈ db.packageBases, ∀ uid, b.submitterUID = some uid →
    ∃ u ∈ db.users, u.id = uid
  comaintainers : ∀ c ∈ db.packageComaintainers, ∃ u ∈ db.users, u.id = c.usersID
  votes : (db.packageVotes.map fun v => (v.usersID, v.packageBaseID)).Nodup
  notifications : (db.packageNotifications.map fun n => (n.userID, n.packageBaseID)).Nodup

/-- The base of a package. -/
def baseOf (db : Db) (p : Package) : PackageBase :=
  (db.packageBases.find? (·.id == p.packageBaseID)).getD default

/-- The account a nullable column points to. -/
def accountOf (db : Db) (uid : Option Nat) : Option User :=
  db.users.find? fun u => some u.id == uid

/-- The one row of a package before anything is searched by. -/
def rowOf (db : Db) (p : Package) : Row where
  package := p
  base := baseOf db p
  user := accountOf db (baseOf db p).maintainerUID

/-- The same for a visitor of the site. -/
def visitorRow (db : Db) (uid : Nat) (p : Package) : Row :=
  { rowOf db p with
    vote := db.packageVotes.find? fun v =>
      v.packageBaseID == (baseOf db p).id && v.usersID == uid
    notification := db.packageNotifications.find? fun n =>
      n.packageBaseID == (baseOf db p).id && n.userID == uid }

namespace Catalogue

variable {cfg : Config} {db : Db}

theorem packages_nodup (h : Catalogue cfg db) : db.packages.Nodup := .of_map _ h.packages

theorem find?_base (h : Catalogue cfg db) {p : Package} (hp : p ∈ db.packages) :
    db.packageBases.find? (·.id == p.packageBaseID) = some (baseOf db p) := by
  obtain ⟨b, hb, hid⟩ := h.packageBases p hp
  cases hfind : db.packageBases.find? (·.id == p.packageBaseID) with
  | none => exact absurd (beq_iff_eq.mpr hid) (List.find?_eq_none.mp hfind b hb)
  | some b => rw [baseOf, hfind]; rfl

theorem baseOf_mem (h : Catalogue cfg db) {p : Package} (hp : p ∈ db.packages) :
    baseOf db p ∈ db.packageBases := List.mem_of_find?_eq_some (h.find?_base hp)

theorem baseOf_id (h : Catalogue cfg db) {p : Package} (hp : p ∈ db.packages) :
    (baseOf db p).id = p.packageBaseID := by
  have hid := List.find?_some (h.find?_base hp)
  exact eq_of_beq hid

theorem filter_accounts (h : Catalogue cfg db) (uid : Option Nat) :
    (db.users.filter fun u => some u.id == uid) = (accountOf db uid).toList := by
  apply Query.filter_eq_toList_find?
  apply Query.pairwise_of_key h.users
  intro a b ha hb
  exact Option.some.inj ((eq_of_beq ha).trans (eq_of_beq hb).symm)

/-- `db.query(Package).join(PackageBase)` has one row for each package. -/
theorem packages_eq (h : Catalogue cfg db) :
    PackageSearch.packages db = db.packages.map fun p => { package := p, base := baseOf db p } := by
  rw [PackageSearch.packages, List.map_eq_flatMap]
  refine List.flatMap_congr fun p hp => ?_
  have hone : db.packageBases.filter (·.id == p.packageBaseID) =
      (db.packageBases.find? (·.id == p.packageBaseID)).toList := by
    apply Query.filter_eq_toList_find?
    apply Query.pairwise_of_key h.bases
    intro a b ha hb
    exact (eq_of_beq ha).trans (eq_of_beq hb).symm
  rw [hone, h.find?_base hp]
  rfl

theorem joinUser_query (h : Catalogue cfg db) {s : PackageSearch} (hs : s.joinedUser = false) :
    (s.joinUser db).query =
      s.query.map fun r => { r with user := accountOf db r.base.maintainerUID } := by
  rw [PackageSearch.joinUser, if_neg (by simp [hs])]
  dsimp only
  rw [Query.outer_eq_map fun r _ => h.filter_accounts r.base.maintainerUID]

theorem init_query (h : Catalogue cfg db) :
    (RPCSearch.init db).query = db.packages.map (rowOf db) := by
  rw [RPCSearch.init, h.joinUser_query rfl]
  show ((PackageSearch.packages db).map _) = _
  rw [h.packages_eq, List.map_map]
  rfl

/-- The search of a visitor, with the maintainers joined. -/
theorem visitor_query (h : Catalogue cfg db) (uid : Nat) :
    ((PackageSearch.init db (some uid)).joinUser db).query = db.packages.map (visitorRow db uid) := by
  have hvotes : ∀ r : Row, (db.packageVotes.filter fun v =>
      v.packageBaseID == r.base.id && v.usersID == uid) = (db.packageVotes.find? fun v =>
        v.packageBaseID == r.base.id && v.usersID == uid).toList := by
    intro r
    apply Query.filter_eq_toList_find?
    apply Query.pairwise_of_key h.votes
    intro a b ha hb
    simp only [Bool.and_eq_true, beq_iff_eq] at ha hb
    rw [ha.1, ha.2, hb.1, hb.2]
  have hnotifications : ∀ r : Row, (db.packageNotifications.filter fun n =>
      n.packageBaseID == r.base.id && n.userID == uid) = (db.packageNotifications.find? fun n =>
        n.packageBaseID == r.base.id && n.userID == uid).toList := by
    intro r
    apply Query.filter_eq_toList_find?
    apply Query.pairwise_of_key h.notifications
    intro a b ha hb
    simp only [Bool.and_eq_true, beq_iff_eq] at ha hb
    rw [ha.1, ha.2, hb.1, hb.2]
  rw [h.joinUser_query rfl]
  simp only [PackageSearch.init]
  rw [Query.outer_eq_map fun r _ => hnotifications r, Query.outer_eq_map fun r _ => hvotes r,
    h.packages_eq]
  simp only [List.map_map]
  rfl

end Catalogue

end Aurweb.Search
