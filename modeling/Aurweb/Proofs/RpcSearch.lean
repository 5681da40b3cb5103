/-
What a search of the RPC returns.

`Gives` says of a query which packages it has rows of, however often, and that the rows carry the
base and the maintainer of their package.  Every callback of `search_by` is a filter, or a join
and a filter, so `Gives.filter` and `Gives.inner` settle them; `entities` then keeps one row for
each package, whatever the joins have made of it, and the limit and the union only decide
whether there are too many.
-/
import Aurweb.Proofs.WellFormed
import Aurweb.Rpc
import Aurweb.Proofs.SearchRows

namespace Aurweb.Rpc

open Search

/-! ### What is searched for -/

/-- An entry of the package with that name. -/
def hasDependency (d : Dbms) (db : Db) (depType : DependencyType) (arg : String) (p : Package) :
    Bool :=
  db.packageDepends.any fun dep =>
    dep.packageID == p.id && dep.depType == depType && d.cfg.sameName dep.depName arg

def hasRelation (d : Dbms) (db : Db) (relType : RelationType) (arg : String) (p : Package) :
    Bool :=
  db.packageRelations.any fun rel =>
    rel.packageID == p.id && rel.relType == relType && d.cfg.sameName rel.relName arg

/-- A package that the search is for. -/
def isMatch (d : Dbms) (db : Db) (by_ arg : String) (p : Package) : Bool :=
  match by_ with
  | "name-desc" => d.contains arg p.name || nullable p.description (d.contains arg)
  | "name" => d.contains arg p.name
  | "maintainer" =>
      if arg = "" then (baseOf db p).maintainerUID.isNone
      else
        db.users.any fun u =>
          d.cfg.sameName u.username arg && (baseOf db p).maintainerUID == some u.id
  | "submitter" =>
      db.users.any fun u => d.cfg.sameName u.username arg && (baseOf db p).submitterUID == some u.id
  | "comaintainers" =>
      db.users.any fun u => d.cfg.sameName u.username arg &&
        db.packageComaintainers.any fun c =>
          c.packageBaseID == p.packageBaseID && c.usersID == u.id
  | "keywords" =>
      db.packageKeywords.any fun k =>
        k.packageBaseID == p.packageBaseID && d.cfg.sameName k.keyword arg
  | "groups" =>
      db.packageGroups.any fun pg => pg.packageID == p.id &&
        db.groups.any fun g => g.id == pg.groupID && d.cfg.sameName g.name arg
  | "depends" => hasDependency d db .depends arg p
  | "makedepends" => hasDependency d db .makedepends arg p
  | "optdepends" => hasDependency d db .optdepends arg p
  | "checkdepends" => hasDependency d db .checkdepends arg p
  | "provides" => hasRelation d db .provides arg p || d.cfg.sameName p.name arg
  | "conflicts" => hasRelation d db .conflicts arg p
  | "replaces" => hasRelation d db .replaces arg p
  | _ => false

/-- The columns of a package. -/
def entityOf (db : Db) (p : Package) : Entity where
  id := p.id
  name := p.name
  version := p.version
  description := p.description
  url := p.url
  packageBaseID := p.packageBaseID
  packageBaseName := (baseOf db p).name
  numVotes := (baseOf db p).numVotes
  outOfDateTS := (baseOf db p).outOfDateTS
  submittedTS := (baseOf db p).submittedTS
  modifiedTS := (baseOf db p).modifiedTS
  maintainer := (accountOf db (baseOf db p).maintainerUID).map (·.username)
  submitter := (accountOf db (baseOf db p).submitterUID).map (·.username)

/-- The record of a package in the results of a search. -/
def recordOf (api : Api) (db : Db) (p : Package) : PackageData :=
  popSubmitter (getJsonData api (entityOf db p))

/-! ### The rows of a query -/

/-- The query has rows of just these packages. -/
structure Gives (db : Db) (rows : List Row) (P : Package → Bool) : Prop where
  package : ∀ r ∈ rows, r.package ∈ db.packages
  base : ∀ r ∈ rows, r.base = baseOf db r.package
  user : ∀ r ∈ rows, r.user = accountOf db (baseOf db r.package).maintainerUID
  mem : ∀ p ∈ db.packages, (∃ r ∈ rows, r.package = p) ↔ P p = true

variable {d : Dbms} {db : Db} {rows : List Row} {P : Package → Bool}

/-- One row for each package. -/
theorem gives_map {row : Package → Row} (hpackage : ∀ p, (row p).package = p)
    (hbase : ∀ p, (row p).base = baseOf db p)
    (huser : ∀ p, (row p).user = accountOf db (baseOf db p).maintainerUID) :
    Gives db (db.packages.map row) fun _ => true := by
  constructor
  · intro r hr
    obtain ⟨p, hp, rfl⟩ := List.mem_map.mp hr
    rwa [hpackage]
  · intro r hr
    obtain ⟨p, -, rfl⟩ := List.mem_map.mp hr
    rw [hpackage, hbase]
  · intro r hr
    obtain ⟨p, -, rfl⟩ := List.mem_map.mp hr
    rw [hpackage, huser]
  · intro p hp
    exact iff_of_true ⟨row p, List.mem_map_of_mem hp, hpackage p⟩ rfl

theorem gives_init (h : Catalogue d.cfg db) : Gives db (RPCSearch.init db).query fun _ => true := by
  rw [h.init_query]
  exact gives_map (fun _ => rfl) (fun _ => rfl) fun _ => rfl

namespace Gives

/-- Other rows of just these packages, when what they are said to be is the same. -/
theorem congr {Q : Package → Bool} (h : Gives db rows P) (hQ : ∀ p ∈ db.packages, P p = Q p) :
    Gives db rows Q where
  package := h.package
  base := h.base
  user := h.user
  mem p hp := by rw [← hQ p hp]; exact h.mem p hp

/-- A filter that asks about the package. -/
theorem filter (h : Gives db rows P) {q : Row → Bool} {Q : Package → Bool}
    (hq : ∀ r ∈ rows, q r = Q r.package) : Gives db (rows.filter q) fun p => P p && Q p where
  package r hr := h.package r (List.mem_of_mem_filter hr)
  base r hr := h.base r (List.mem_of_mem_filter hr)
  user r hr := h.user r (List.mem_of_mem_filter hr)
  mem p hp := by
    rw [Bool.and_eq_true, ← h.mem p hp]
    constructor
    · intro ⟨r, hr, hrp⟩
      obtain ⟨hmem, hqr⟩ := List.mem_filter.mp hr
      rw [hq r hmem, hrp] at hqr
      exact ⟨⟨r, hmem, hrp⟩, hqr⟩
    · intro ⟨⟨r, hr, hrp⟩, hQ⟩
      refine ⟨r, List.mem_filter.mpr ⟨hr, ?_⟩, hrp⟩
      rw [hq r hr, hrp]
      exact hQ

/-- A join, and a filter that asks about the row it has found. -/
theorem inner {β : Type*} (h : Gives db rows P) {found : Row → List β} {put : Row → β → Row}
    (hput : ∀ r x, (put r x).package = r.package ∧ (put r x).base = r.base ∧
      (put r x).user = r.user)
    {F : Package → List β} (hfound : ∀ r ∈ rows, found r = F r.package)
    {q : Row → Bool} {w : β → Bool} (hq : ∀ r x, q (put r x) = w x) :
    Gives db ((Query.inner found put rows).filter q) fun p => P p && (F p).any w := by
  have hrow : ∀ r ∈ (Query.inner found put rows).filter q, ∃ r₀ ∈ rows, ∃ x ∈ F r₀.package,
      w x = true ∧ put r₀ x = r := by
    intro r hr
    obtain ⟨hmem, hqr⟩ := List.mem_filter.mp hr
    obtain ⟨r₀, hr₀, x, hx, rfl⟩ := Query.mem_inner.mp hmem
    exact ⟨r₀, hr₀, x, hfound r₀ hr₀ ▸ hx, (hq r₀ x).symm.trans hqr, rfl⟩
  constructor
  · intro r hr
    obtain ⟨r₀, hr₀, x, -, -, rfl⟩ := hrow r hr
    rw [(hput r₀ x).1]
    exact h.package r₀ hr₀
  · intro r hr
    obtain ⟨r₀, hr₀, x, -, -, rfl⟩ := hrow r hr
    rw [(hput r₀ x).1, (hput r₀ x).2.1]
    exact h.base r₀ hr₀
  · intro r hr
    obtain ⟨r₀, hr₀, x, -, -, rfl⟩ := hrow r hr
    rw [(hput r₀ x).1, (hput r₀ x).2.2]
    exact h.user r₀ hr₀
  · intro p hp
    rw [Bool.and_eq_true, ← h.mem p hp, List.any_eq_true]
    constructor
    · intro ⟨r, hr, hrp⟩
      obtain ⟨r₀, hr₀, x, hx, hw, rfl⟩ := hrow r hr
      rw [(hput r₀ x).1] at hrp
      exact ⟨⟨r₀, hr₀, hrp⟩, x, hrp ▸ hx, hw⟩
    · intro ⟨⟨r, hr, hrp⟩, x, hx, hw⟩
      have hxr : x ∈ found r := by
        rw [hfound r hr, hrp]
        exact hx
      refine ⟨put r x, List.mem_filter.mpr ⟨?_, (hq r x).trans hw⟩, (hput r x).1.trans hrp⟩
      exact Query.mem_inner.mpr ⟨r, hr, x, hxr, rfl⟩

end Gives

/-! ### The callbacks -/

/-- The account that a name is of. -/
theorem uidNamed_eq_iff (h : Catalogue d.cfg db) {arg : String} {uid : Nat} (hne : uid ≠ 0) :
    PackageSearch.uidNamed d db arg = uid ↔
      ∃ u ∈ db.users, d.cfg.sameName u.username arg = true ∧ u.id = uid := by
  unfold PackageSearch.uidNamed
  cases hfind : db.users.find? fun u => d.cfg.sameName u.username arg with
  | none =>
      constructor
      · intro hzero
        exact absurd hzero.symm hne
      · intro ⟨u, hu, hname, _⟩
        exact absurd hname (List.find?_eq_none.mp hfind u hu)
  | some u =>
      have hu := List.mem_of_find?_eq_some hfind
      have hname := List.find?_some (p := fun u : User => d.cfg.sameName u.username arg) hfind
      constructor
      · intro hid
        exact ⟨u, hu, hname, hid⟩
      · intro ⟨u', hu', hname', hid⟩
        have hsame : d.cfg.collate u.username = d.cfg.collate u'.username :=
          (eq_of_beq hname).trans (eq_of_beq hname').symm
        rw [List.inj_on_of_nodup_map h.userNames hu hu' hsame]
        exact hid

theorem joinUser_init (db : Db) : (RPCSearch.init db).joinUser db = RPCSearch.init db := if_pos rfl

/-- A filter on the first rows. -/
theorem gives_filter (h : Catalogue d.cfg db) {q : Row → Bool} {Q : Package → Bool}
    (hq : ∀ p ∈ db.packages, q (rowOf db p) = Q p) :
    Gives db (((RPCSearch.init db).joinUser db).filter q).query Q := by
  have hinit : Gives db ((RPCSearch.init db).query.filter q) fun p => true && Q p := by
    apply (gives_init h).filter
    intro r hr
    rw [h.init_query] at hr
    obtain ⟨p, hp, rfl⟩ := List.mem_map.mp hr
    exact hq p hp
  rw [joinUser_init]
  exact hinit

/-- A join of the first rows and a filter on what is joined. -/
theorem gives_inner (h : Catalogue d.cfg db) {β : Type} {found : Row → List β}
    {put : Row → β → Row}
    (hput : ∀ r x, (put r x).package = r.package ∧ (put r x).base = r.base ∧
      (put r x).user = r.user)
    {q : Row → Bool} {w : β → Bool} (hq : ∀ r x, q (put r x) = w x) :
    Gives db ((Query.inner found put (RPCSearch.init db).query).filter q)
      fun p => (found (rowOf db p)).any w := by
  have hfound : ∀ r ∈ (RPCSearch.init db).query, found r = found (rowOf db r.package) := by
    intro r hr
    rw [h.init_query] at hr
    obtain ⟨p, -, rfl⟩ := List.mem_map.mp hr
    rfl
  exact (gives_init h).inner hput (F := fun p => found (rowOf db p)) hfound hq

/-! The joins of the callbacks. -/

theorem comaintainer_query (d : Dbms) (db : Db) (arg : String) :
    ((RPCSearch.init db).searchByComaintainer d db arg).query =
      (Query.inner (fun r : Row => db.packageComaintainers.filter (·.packageBaseID == r.base.id))
        (fun r c => { r with comaintainer := some c }) (RPCSearch.init db).query).filter
          fun r => r.comaintainer.any (·.usersID == PackageSearch.uidNamed d db arg) := by
  unfold PackageSearch.searchByComaintainer
  rw [joinUser_init]
  rfl

theorem keyword_query (d : Dbms) (db : Db) (arg : String) :
    (RPCSearch.searchByKeywords d db arg (RPCSearch.init db)).query =
      (Query.inner (fun r : Row => db.packageKeywords.filter (·.packageBaseID == r.base.id))
        (fun r k => { r with keyword := some k }) (RPCSearch.init db).query).filter
          fun r => r.keyword.any fun k => d.cfg.sameName k.keyword arg := rfl

theorem group_query (d : Dbms) (db : Db) (arg : String) :
    (RPCSearch.searchByGroups d db arg (RPCSearch.init db)).query =
      (Query.inner (fun r : Row =>
        (db.packageGroups.filter (·.packageID == r.package.id)).flatMap fun pg =>
          db.groups.filter (·.id == pg.groupID))
        (fun r g => { r with group := some g }) (RPCSearch.init db).query).filter
          fun r => r.group.any fun g => d.cfg.sameName g.name arg := rfl

theorem dependency_query (d : Dbms) (db : Db) (depType : DependencyType) (arg : String) :
    (RPCSearch.searchByDependency d db arg (RPCSearch.init db) depType).query =
      ((Query.inner (fun r : Row => db.packageDepends.filter (·.packageID == r.package.id))
        (fun r dep => { r with dependency := some dep }) (RPCSearch.init db).query).filter
          fun r => r.dependency.any (·.depType == depType)).filter
            fun r => r.dependency.any fun dep => d.cfg.sameName dep.depName arg := rfl

theorem relation_query (d : Dbms) (db : Db) (relType : RelationType) (arg : String) :
    (RPCSearch.searchByRelation d db arg (RPCSearch.init db) relType).query =
      ((Query.inner (fun r : Row => db.packageRelations.filter (·.packageID == r.package.id))
        (fun r rel => { r with relation := some rel }) (RPCSearch.init db).query).filter
          fun r => r.relation.any (·.relType == relType)).filter
            fun r => r.relation.any fun rel => d.cfg.sameName rel.relName arg := rfl

/-! The accounts that are named. -/

/-- Somebody of that name maintains the package. -/
def maintainedBy (d : Dbms) (db : Db) (arg : String) (p : Package) : Bool :=
  db.users.any fun u => d.cfg.sameName u.username arg && (baseOf db p).maintainerUID == some u.id

theorem any_accountOf (h : Catalogue d.cfg db) (arg : String) (uid : Option Nat) :
    ((accountOf db uid).any fun u => d.cfg.sameName u.username arg && some u.id == uid) =
      db.users.any fun u => d.cfg.sameName u.username arg && uid == some u.id := by
  rw [Bool.eq_iff_iff, List.any_eq_true]
  unfold accountOf
  cases hfind : db.users.find? fun u => some u.id == uid with
  | none =>
      refine iff_of_false (by simp) ?_
      intro ⟨u, hu, hboth⟩
      have huid := (Bool.and_eq_true_iff.mp hboth).2
      exact List.find?_eq_none.mp hfind u hu (beq_iff_eq.mpr (eq_of_beq huid).symm)
  | some u =>
      have hu := List.mem_of_find?_eq_some hfind
      have huid : some u.id = uid := by simpa using List.find?_some hfind
      rw [Option.any_some, ← huid, beq_self_eq_true, Bool.and_true]
      constructor
      · intro hname
        exact ⟨u, hu, by rw [hname, beq_self_eq_true]; rfl⟩
      · intro ⟨u', hu', hboth⟩
        obtain ⟨hname, hid⟩ := Bool.and_eq_true_iff.mp hboth
        rw [List.inj_on_of_nodup_map h.users hu hu' (Option.some.inj (eq_of_beq hid))]
        exact hname

theorem submitterUID_eq (h : Catalogue d.cfg db) (arg : String) {p : Package}
    (hp : p ∈ db.packages) :
    ((baseOf db p).submitterUID == some (PackageSearch.uidNamed d db arg)) =
      isMatch d db "submitter" arg p := by
  show _ = db.users.any fun u =>
    d.cfg.sameName u.username arg && (baseOf db p).submitterUID == some u.id
  rw [Bool.eq_iff_iff, List.any_eq_true, beq_iff_eq]
  cases huid : (baseOf db p).submitterUID with
  | none => simp
  | some uid =>
      obtain ⟨u, hu, hid⟩ := h.submitters _ (h.baseOf_mem hp) uid huid
      have hne : uid ≠ 0 := by
        rw [← hid]
        exact h.userIDs u hu
      rw [Option.some.injEq, eq_comm, uidNamed_eq_iff h hne]
      refine exists_congr fun u => and_congr_right fun _ => ?_
      rw [Bool.and_eq_true, beq_iff_eq, Option.some.injEq, eq_comm (a := uid)]

theorem any_comaintainers (h : Catalogue d.cfg db) (arg : String) (p : Package) :
    (db.packageComaintainers.any fun c =>
      c.packageBaseID == p.packageBaseID && c.usersID == PackageSearch.uidNamed d db arg) =
      isMatch d db "comaintainers" arg p := by
  show _ = db.users.any fun u => d.cfg.sameName u.username arg &&
    db.packageComaintainers.any fun c => c.packageBaseID == p.packageBaseID && c.usersID == u.id
  rw [Bool.eq_iff_iff]
  simp only [List.any_eq_true, Bool.and_eq_true, beq_iff_eq]
  constructor
  · intro ⟨c, hc, hbase, huid⟩
    obtain ⟨u, hu, hid⟩ := h.comaintainers c hc
    have hne : c.usersID ≠ 0 := hid ▸ h.userIDs u hu
    obtain ⟨u, hu, hname, hid⟩ := (uidNamed_eq_iff h hne).mp huid.symm
    exact ⟨u, hu, hname, c, hc, hbase, hid.symm⟩
  · intro ⟨u, hu, hname, c, hc, hbase, hid⟩
    have hne : c.usersID ≠ 0 := hid ▸ h.userIDs u hu
    exact ⟨c, hc, hbase, ((uidNamed_eq_iff h hne).mpr ⟨u, hu, hname, hid.symm⟩).symm⟩

theorem gives_maintainer (h : Catalogue d.cfg db) (arg : String) :
    Gives db ((RPCSearch.init db).searchByMaintainer d db arg).query
      fun p => isMatch d db "maintainer" arg p := by
  unfold PackageSearch.searchByMaintainer isMatch
  by_cases harg : arg = ""
  · simp only [if_pos harg, if_neg (not_not.mpr harg)]
    exact gives_filter h fun p _ => rfl
  simp only [if_neg harg, if_pos (show arg ≠ "" from harg)]
  apply gives_filter h
  intro p _
  exact any_accountOf h arg (baseOf db p).maintainerUID

theorem gives_submitter (h : Catalogue d.cfg db) (arg : String) :
    Gives db ((RPCSearch.init db).searchBySubmitter d db arg).query
      fun p => isMatch d db "submitter" arg p := by
  apply gives_filter h
  intro p hp
  exact submitterUID_eq h arg hp

theorem gives_comaintainers (h : Catalogue d.cfg db) (arg : String) :
    Gives db ((RPCSearch.init db).searchByComaintainer d db arg).query
      fun p => isMatch d db "comaintainers" arg p := by
  have hinner : Gives db ((RPCSearch.init db).searchByComaintainer d db arg).query fun p =>
      (db.packageComaintainers.filter (·.packageBaseID == (baseOf db p).id)).any
        (·.usersID == PackageSearch.uidNamed d db arg) := by
    rw [comaintainer_query]
    apply gives_inner h <;> intro _ _
    · exact ⟨rfl, rfl, rfl⟩
    · rfl
  apply hinner.congr
  intro p hp
  rw [List.any_filter, h.baseOf_id hp]
  exact any_comaintainers h arg p

theorem gives_keywords (h : Catalogue d.cfg db) (arg : String) :
    Gives db (RPCSearch.searchByKeywords d db arg (RPCSearch.init db)).query
      fun p => isMatch d db "keywords" arg p := by
  have hinner : Gives db (RPCSearch.searchByKeywords d db arg (RPCSearch.init db)).query fun p =>
      (db.packageKeywords.filter (·.packageBaseID == (baseOf db p).id)).any
        fun k => d.cfg.sameName k.keyword arg := by
    rw [keyword_query]
    apply gives_inner h <;> intro _ _
    · exact ⟨rfl, rfl, rfl⟩
    · rfl
  apply hinner.congr
  intro p hp
  rw [List.any_filter, h.baseOf_id hp]
  rfl

theorem gives_groups (h : Catalogue d.cfg db) (arg : String) :
    Gives db (RPCSearch.searchByGroups d db arg (RPCSearch.init db)).query
      fun p => isMatch d db "groups" arg p := by
  have hinner : Gives db (RPCSearch.searchByGroups d db arg (RPCSearch.init db)).query fun p =>
      ((db.packageGroups.filter (·.packageID == p.id)).flatMap fun pg =>
        db.groups.filter (·.id == pg.groupID)).any fun g => d.cfg.sameName g.name arg := by
    rw [group_query]
    apply gives_inner h <;> intro _ _
    · exact ⟨rfl, rfl, rfl⟩
    · rfl
  apply hinner.congr
  intro p _
  rw [List.any_flatMap, List.any_filter]
  simp only [List.any_filter]
  rfl

theorem gives_dependency (h : Catalogue d.cfg db) (depType : DependencyType) (arg : String) :
    Gives db (RPCSearch.searchByDependency d db arg (RPCSearch.init db) depType).query
      fun p => hasDependency d db depType arg p := by
  have hinner : Gives db (RPCSearch.searchByDependency d db arg (RPCSearch.init db) depType).query
      fun p => (db.packageDepends.filter (·.packageID == p.id)).any
        fun dep => d.cfg.sameName dep.depName arg && dep.depType == depType := by
    rw [dependency_query, List.filter_filter]
    apply gives_inner h <;> intro _ _
    · exact ⟨rfl, rfl, rfl⟩
    · rfl
  apply hinner.congr
  intro p _
  rw [List.any_filter]
  refine congrArg (List.any _) (funext fun dep => ?_)
  rw [Bool.and_assoc, Bool.and_comm (d.cfg.sameName dep.depName arg)]

theorem gives_relation (h : Catalogue d.cfg db) (relType : RelationType) (arg : String) :
    Gives db (RPCSearch.searchByRelation d db arg (RPCSearch.init db) relType).query
      fun p => hasRelation d db relType arg p := by
  have hinner : Gives db (RPCSearch.searchByRelation d db arg (RPCSearch.init db) relType).query
      fun p => (db.packageRelations.filter (·.packageID == p.id)).any
        fun rel => d.cfg.sameName rel.relName arg && rel.relType == relType := by
    rw [relation_query, List.filter_filter]
    apply gives_inner h <;> intro _ _
    · exact ⟨rfl, rfl, rfl⟩
    · rfl
  apply hinner.congr
  intro p _
  rw [List.any_filter]
  refine congrArg (List.any _) (funext fun rel => ?_)
  rw [Bool.and_assoc, Bool.and_comm (d.cfg.sameName rel.relName arg)]

/-- What each callback selects, before `provides` adds the packages with that name. -/
theorem searchBy_gives (h : Catalogue d.cfg db) {by_ : String} (hby : by_ ∈ exposedBys)
    (arg : String) :
    ∃ s, RPCSearch.searchBy d db (byAlias by_) arg (RPCSearch.init db) = .ok s ∧
      Gives db s.query fun p =>
        if by_ = "provides" then hasRelation d db .provides arg p else isMatch d db by_ arg p := by
  simp only [exposedBys, List.mem_cons, List.not_mem_nil, or_false] at hby
  rcases hby with rfl | rfl | rfl | rfl | rfl | rfl | rfl | rfl | rfl | rfl | rfl | rfl | rfl | rfl
  · exact ⟨_, rfl, gives_filter h fun p _ => rfl⟩
  · exact ⟨_, rfl, gives_filter h fun p _ => rfl⟩
  · exact ⟨_, rfl, gives_maintainer h arg⟩
  · exact ⟨_, rfl, gives_dependency h .depends arg⟩
  · exact ⟨_, rfl, gives_dependency h .makedepends arg⟩
  · exact ⟨_, rfl, gives_dependency h .optdepends arg⟩
  · exact ⟨_, rfl, gives_dependency h .checkdepends arg⟩
  · exact ⟨_, rfl, gives_relation h .provides arg⟩
  · exact ⟨_, rfl, gives_relation h .conflicts arg⟩
  · exact ⟨_, rfl, gives_relation h .replaces arg⟩
  · exact ⟨_, rfl, gives_groups h arg⟩
  · exact ⟨_, rfl, gives_submitter h arg⟩
  · exact ⟨_, rfl, gives_keywords h arg⟩
  · exact ⟨_, rfl, gives_comaintainers h arg⟩

/-! ### `entities` -/

namespace Gives

/-- One row for each package, whatever the joins have made of it. -/
theorem perm_groupBy {γ : Type} [DecidableEq γ] (h : Catalogue d.cfg db) {key : Package → γ}
    (hkey : (db.packages.map key).Nodup) (hg : Gives db rows P) :
    ((Query.groupBy (fun r => key r.package) rows).map (·.package)).Perm
      (db.packages.filter P) := by
  apply Query.perm_filter_of_mem h.packages_nodup
  · have honce := Query.nodup_map_groupBy (fun r : Row => key r.package) rows
    rw [show (fun r : Row => key r.package) = key ∘ fun r : Row => r.package from rfl,
      ← List.map_map] at honce
    exact .of_map _ honce
  · intro p
    constructor
    · intro hmem
      obtain ⟨r, hr, rfl⟩ := List.mem_map.mp hmem
      have hrow := (Query.groupBy_sublist _ _).mem hr
      have hp := hg.package r hrow
      exact ⟨hp, (hg.mem _ hp).mp ⟨r, hrow, rfl⟩⟩
    · intro ⟨hp, hP⟩
      obtain ⟨r, hr, rfl⟩ := (hg.mem p hp).mpr hP
      obtain ⟨r', hr', heq⟩ := Query.exists_mem_groupBy (fun r : Row => key r.package) hr
      have hp' := hg.package r' ((Query.groupBy_sublist _ _).mem hr')
      rw [← List.inj_on_of_nodup_map hkey hp' hp heq]
      exact List.mem_map_of_mem hr'

/-- A column more changes nothing. -/
theorem map {put : Row → Row} (hput : ∀ r, (put r).package = r.package ∧ (put r).base = r.base ∧
    (put r).user = r.user) (hg : Gives db rows P) : Gives db (rows.map put) P where
  package := by
    intro r hr
    obtain ⟨r₀, hr₀, rfl⟩ := List.mem_map.mp hr
    rw [(hput r₀).1]
    exact hg.package r₀ hr₀
  base := by
    intro r hr
    obtain ⟨r₀, hr₀, rfl⟩ := List.mem_map.mp hr
    rw [(hput r₀).1, (hput r₀).2.1]
    exact hg.base r₀ hr₀
  user := by
    intro r hr
    obtain ⟨r₀, hr₀, rfl⟩ := List.mem_map.mp hr
    rw [(hput r₀).1, (hput r₀).2.2]
    exact hg.user r₀ hr₀
  mem := by
    intro p hp
    rw [← hg.mem p hp]
    constructor
    · intro ⟨r, hr, hrp⟩
      obtain ⟨r₀, hr₀, rfl⟩ := List.mem_map.mp hr
      exact ⟨r₀, hr₀, (hput r₀).1.symm.trans hrp⟩
    · intro ⟨r, hr, hrp⟩
      exact ⟨put r, List.mem_map_of_mem hr, (hput r).1.trans hrp⟩

theorem perm_entities (h : Catalogue d.cfg db) (hg : Gives db rows P) :
    (entities db rows).Perm ((db.packages.filter P).map (entityOf db)) := by
  let rows' : List Row :=
    rows.map fun r => { r with submitter := accountOf db r.base.submitterUID }
  have hg' : Gives db rows' P := hg.map fun _ => ⟨rfl, rfl, rfl⟩
  have hquery : entities db rows =
      ((Query.groupBy (·.package.id) rows').map (·.package)).map (entityOf db) := by
    unfold entities
    rw [List.map_map, Query.outer_eq_map fun r _ => h.filter_accounts r.base.submitterUID]
    refine List.map_congr_left fun r hr => ?_
    obtain ⟨r₀, hr₀, rfl⟩ := List.mem_map.mp ((Query.groupBy_sublist _ _).mem hr)
    simp only [Function.comp_apply, entityOf, hg.base r₀ hr₀, hg.user r₀ hr₀]
  rw [hquery]
  exact (hg'.perm_groupBy h h.packages).map _

end Gives

theorem entityOf_injOn (h : Catalogue d.cfg db) {p q : Package} (hp : p ∈ db.packages)
    (hq : q ∈ db.packages) (heq : entityOf db p = entityOf db q) : p = q :=
  List.inj_on_of_nodup_map h.packages hp hq (congrArg Entity.id heq)

theorem nodup_entities (h : Catalogue d.cfg db) (P : Package → Bool) :
    ((db.packages.filter P).map (entityOf db)).Nodup := by
  refine List.Nodup.map_on ?_ (h.packages_nodup.filter P)
  intro p hp q hq heq
  exact entityOf_injOn h (List.mem_of_mem_filter hp) (List.mem_of_mem_filter hq) heq

/-! ### The limit -/

/-- What the handler has in hand before it counts: the matching packages, or too many. -/
def Within (max : Nat) (matching results : List Entity) : Prop :=
  if matching.length ≤ max then results.Perm matching else max < results.length

theorem within_take {max : Nat} {matching found : List Entity} (h : found.Perm matching) :
    Within max matching (found.take (max + 1)) := by
  have hlen := h.length_eq
  unfold Within
  split
  · next hle =>
      rw [List.take_of_length_le (by omega)]
      exact h
  · rw [List.length_take]
    omega

/-- The union comes after the limit: what the limit cuts off is too much in any case. -/
theorem within_union {max : Nat} {found found' : List Entity} {P P' : Package → Bool}
    (h : Catalogue d.cfg db) (hfound : found.Perm ((db.packages.filter P).map (entityOf db)))
    (hfound' : found'.Perm ((db.packages.filter P').map (entityOf db))) :
    Within max ((db.packages.filter fun p => P p || P' p).map (entityOf db))
      (Query.union (found.take (max + 1)) found') := by
  have hnodup : found.Nodup := hfound.nodup_iff.mpr (nodup_entities h P)
  have hsub : ((db.packages.filter P).map (entityOf db)).length ≤
      ((db.packages.filter fun p => P p || P' p).map (entityOf db)).length := by
    rw [List.length_map, List.length_map]
    apply List.Sublist.length_le
    apply List.monotone_filter_right
    intro p hp
    rw [hp, Bool.true_or]
  have hmem : ∀ e, e ∈ (db.packages.filter fun p => P p || P' p).map (entityOf db) ↔
      e ∈ found ∨ e ∈ found' := by
    intro e
    rw [hfound.mem_iff, hfound'.mem_iff]
    simp only [List.mem_map, List.mem_filter, Bool.or_eq_true]
    constructor
    · intro ⟨p, ⟨hp, hor⟩, he⟩
      exact hor.imp (fun hP => ⟨p, ⟨hp, hP⟩, he⟩) fun hP => ⟨p, ⟨hp, hP⟩, he⟩
    · intro hor
      rcases hor with ⟨p, ⟨hp, hP⟩, he⟩ | ⟨p, ⟨hp, hP⟩, he⟩
      · exact ⟨p, ⟨hp, .inl hP⟩, he⟩
      · exact ⟨p, ⟨hp, .inr hP⟩, he⟩
  have htake : (found.take (max + 1)).length ≤ (Query.union (found.take (max + 1)) found').length :=
    (List.subperm_of_subset (hnodup.sublist (List.take_sublist ..))
      fun e he => Query.mem_union.mpr (.inl he)).length_le
  rw [List.length_take] at htake
  have hlen := hfound.length_eq
  by_cases hcut : found.length ≤ max
  · rw [List.take_of_length_le (by omega)]
    have hperm : (Query.union found found').Perm
        ((db.packages.filter fun p => P p || P' p).map (entityOf db)) := by
      rw [List.perm_ext_iff_of_nodup (Query.nodup_union ..) (nodup_entities h _)]
      intro e
      rw [Query.mem_union, hmem]
    unfold Within
    split
    · exact hperm
    · rw [hperm.length_eq]
      omega
  · unfold Within
    rw [if_neg (by omega)]
    omega

/-! ### The answer -/

variable {api : Api}

theorem byAlias_eq_m_iff : ∀ by_ ∈ exposedBys, byAlias by_ = "m" ↔ by_ = "maintainer" := by decide

theorem byAlias_eq_provides_iff :
    ∀ by_ ∈ exposedBys, byAlias by_ = "provides" ↔ by_ = "provides" := by decide

theorem gives_exactName (h : Catalogue d.cfg db) (arg : String) :
    Gives db ((RPCSearch.init db).searchByExactName d db arg).query
      fun p => d.cfg.sameName p.name arg :=
  gives_filter h fun _ _ => rfl

theorem handleSearchType_within (h : Catalogue api.dbms.cfg db) {by_ : String}
    (hby : by_ ∈ exposedBys) (args : List String)
    (harg : by_ = "maintainer" ∨ 2 ≤ (args.headD "").length) :
    ∃ results, Within api.maxRpcResults
      ((db.packages.filter (isMatch api.dbms db by_ (args.headD ""))).map (entityOf db)) results ∧
      handleSearchType api db (byAlias by_) args =
        if results.length > api.maxRpcResults then
          .error (.rpcError "Too many package results.")
        else .ok (results.map fun e => popSubmitter (getJsonData api e)) := by
  obtain ⟨s, hs, hgives⟩ := searchBy_gives h hby (args.headD "")
  have hargs : ¬ (byAlias by_ ≠ "m" ∧ args = []) := by
    intro ⟨hm, hnil⟩
    rcases harg with rfl | hlen
    · exact hm rfl
    · simp [hnil] at hlen
  have hlen : ¬ (byAlias by_ ≠ "m" ∧ (args.headD "").length < 2) := by
    intro ⟨hm, hlt⟩
    rcases harg with rfl | hlen
    · exact hm rfl
    · omega
  unfold handleSearchType
  rw [if_neg hargs]
  simp only [if_neg hlen, hs]
  by_cases hprovides : by_ = "provides"
  · subst hprovides
    refine ⟨_, ?_, by rw [if_pos (show byAlias "provides" = "provides" from rfl)]⟩
    exact within_union h (hgives.perm_entities h) ((gives_exactName h _).perm_entities h)
  · have hne : byAlias by_ ≠ "provides" :=
      fun heq => hprovides ((byAlias_eq_provides_iff by_ hby).mp heq)
    refine ⟨_, ?_, by rw [if_neg hne]⟩
    simp only [if_neg hprovides] at hgives
    exact within_take (hgives.perm_entities h)

theorem verifyInputs_search {by_ : String} (hby : by_ ∈ exposedBys) :
    verifyInputs (some 5) (typeAlias (some "search")) by_ = .ok "search" := by
  simp only [verifyInputs, exposedVersions, List.mem_singleton, not_true_eq_false, if_false,
    not_not.mpr hby]
  rfl

/-- Each matching package is in the results once and nothing else is, unless there are too many
of them. -/
theorem handle_search (api : Api) (db : Db) (by_ : String) (args : List String)
    (h : Catalogue api.dbms.cfg db) (hby : by_ ∈ exposedBys)
    (harg : by_ = "maintainer" ∨ 2 ≤ (args.headD "").length) :
    let found := db.packages.filter (isMatch api.dbms db by_ (args.headD ""))
    (found.length ≤ api.maxRpcResults ∧ ∃ results,
      handle api db (some 5) (some "search") by_ args = .ok (.results (some 5) "search" results) ∧
      results.Perm (found.map (recordOf api db))) ∨
    (api.maxRpcResults < found.length ∧
      handle api db (some 5) (some "search") by_ args =
        .ok (.error (some 5) "Too many package results.")) := by
  intro found
  obtain ⟨results, hwithin, hsearch⟩ := handleSearchType_within h hby args harg
  have hhandle : handle api db (some 5) (some "search") by_ args =
      if results.length > api.maxRpcResults then .ok (.error (some 5) "Too many package results.")
      else .ok (.results (some 5) "search" (results.map fun e => popSubmitter (getJsonData api e))) := by
    rw [handle, verifyInputs_search hby]
    simp only [handleCallback, if_true, hsearch]
    split_ifs <;> rfl
  unfold Within at hwithin
  rw [List.length_map] at hwithin
  split_ifs at hwithin with hle
  · refine .inl ⟨hle, results.map fun e => popSubmitter (getJsonData api e), ?_, ?_⟩
    · rw [hhandle, if_neg]
      rw [hwithin.length_eq, List.length_map]
      omega
    · rw [show recordOf api db = (fun e => popSubmitter (getJsonData api e)) ∘ entityOf db from rfl,
        ← List.map_map]
      exact hwithin.map _
  · refine .inr ⟨Nat.lt_of_not_le hle, ?_⟩
    rw [hhandle, if_pos hwithin]

/-! ### A small catalogue

Two packages of one base, which `carol` maintains and `bob` comaintains.
-/

def plainDbms : Dbms where
  cfg := siteConfig
  like pattern value := value.toList.tails.any ((pattern.toList.drop 1).dropLast).isPrefixOf
  lower s := String.ofList (s.toList.map Char.toLower)
  strip s := String.ofList
    ((s.toList.dropWhile Char.isWhitespace).reverse.dropWhile Char.isWhitespace).reverse

def plainApi : Api where
  dbms := plainDbms
  maxRpcResults := 5000
  snapshotURI name := "/cgit/aur.git/snapshot/" ++ name ++ ".tar.gz"
  ratelimit := { requestLimit := 4000, windowLength := 86400 }
  cache := false
  others _ _ _ _ := .error (.exception "NotImplementedError")
  etag _ := ""
  int s := if s = ['5'] then some 5 else none
  int_five := rfl

def smallPackage (id : Nat) (name : String) : Package where
  id := id
  packageBaseID := 4
  name := name
  version := "1.0-1"
  description := none
  url := none

def smallCatalogue : Db :=
  { smallSite with
    packages := [smallPackage 5 "foo", smallPackage 6 "foo-docs"]
    packageDepends := [
      { packageID := 5, depType := .depends, depName := "glibc", depDesc := ""
        depCondition := "", depArch := none },
      { packageID := 5, depType := .depends, depName := "glibc", depDesc := ""
        depCondition := "", depArch := some "x86_64" }]
    packageComaintainers := [{ usersID := 2, packageBaseID := 4, priority := 1 }]
    nextID := 7 }

theorem smallCatalogue_catalogue : Catalogue siteConfig smallCatalogue where
  packages := by decide
  packageNames := by decide
  packageBases := by decide
  bases := by decide
  baseNames := by decide
  users := by decide
  userIDs := by decide
  userNames := by decide
  submitters := by decide
  comaintainers := by decide
  votes := by decide
  notifications := by decide

theorem handle_search_depends :
    let found := smallCatalogue.packages.filter
      (isMatch plainDbms smallCatalogue "depends" (["glibc"].headD ""))
    (found.length ≤ 5000 ∧ ∃ results,
      handle plainApi smallCatalogue (some 5) (some "search") "depends" ["glibc"] =
        .ok (.results (some 5) "search" results) ∧
      results.Perm (found.map (recordOf plainApi smallCatalogue))) ∨
    (5000 < found.length ∧
      handle plainApi smallCatalogue (some 5) (some "search") "depends" ["glibc"] =
        .ok (.error (some 5) "Too many package results.")) :=
  handle_search plainApi smallCatalogue "depends" ["glibc"] smallCatalogue_catalogue (by decide)
    (.inr (by decide))

end Aurweb.Rpc
