/-
What an operation can write.

`Write` lists the transactions of the site, each with what has to be the case for it:
who may do it, and what the state is like when it happens.  What a user may do is a
record of propositions, `May`, that an operation fills in.  Every operation is a chain of
writes, and every invariant of the site is a case analysis over `Write`.
-/
import Mathlib.Logic.Relation
import Aurweb.Lib.Transfer
import Aurweb.Proofs.GitUpdate
import Aurweb.Proofs.WellFormed

namespace Aurweb

/-- What the actor of an operation may do.  The last seven are what no operation should. -/
structure May where
  actor : Option Nat
  /-- Give an orphan a maintainer. -/
  adopt : Prop
  /-- Decide about a package base and who works on it. -/
  manage : Nat → Prop
  /-- Set its keywords. -/
  edit : Nat → Prop
  /-- Clear its out-of-date flag. -/
  clear : Nat → Prop
  /-- Delete an account. -/
  remove : Nat → Prop
  /-- Accept a request without closing it. -/
  accept : Prop
  /-- Close a request that is no longer pending. -/
  reclose : Prop
  /-- Leave comaintainers on a base that has no maintainer. -/
  stray : Prop
  /-- Delete a base that pending requests are about. -/
  desert : Prop
  /-- Delete votes without counting again. -/
  uncount : Prop
  /-- Have the maintainer of a base among its comaintainers. -/
  double : Prop
  /-- Give an orphan a maintainer while its adoption is still requested. -/
  overlook : Prop

/-! ### Requests -/

/-- Nothing happens to a request that is not pending; one that is stays as it is or is
closed with a time. -/
structure Settles (r r' : PackageRequest) : Prop where
  id : r'.id = r.id
  reqType : r'.reqType = r.reqType
  base : r'.packageBaseID = r.packageBaseID
  baseName : r'.packageBaseName = r.packageBaseName
  settled : r.status ≠ .pending → r' = r
  pending : r.status = .pending → r'.status = .pending ∧ r'.closedTS = r.closedTS ∨
    r'.status ≠ .pending ∧ r'.closedTS.isSome

/-- The request ends up closed, whatever it was. -/
structure Closes (r r' : PackageRequest) : Prop where
  id : r'.id = r.id
  reqType : r'.reqType = r.reqType
  base : r'.packageBaseID = r.packageBaseID
  baseName : r'.packageBaseName = r.packageBaseName
  status : r'.status ≠ .pending
  closedTS : r'.closedTS.isSome

/-- The adoption of the base is not asked for. -/
def Unrequested (db : Db) (baseID : Nat) : Prop :=
  ∀ r ∈ db.packageRequests, r.packageBaseID = some baseID → r.isPending .adoption = false

/-- A request as it can be filed: it is open, or was closed on the spot. -/
structure Filed (cfg : Config) (db : Db) (r : PackageRequest) : Prop where
  closedTS : r.status = .pending ∧ r.closedTS = none ∨ r.status ≠ .pending ∧ r.closedTS.isSome
  base : ∃ b ∈ db.packageBases, r.packageBaseID = some b.id ∧
    cfg.sameName r.packageBaseName b.name = true
  /-- An adoption is asked for once, and of an orphan. -/
  adoption : r.isPending .adoption = true → ∀ b ∈ db.packageBases, r.packageBaseID = some b.id →
    b.maintainerUID = none ∧ Unrequested db b.id

/-! ### Package bases -/

/-- A change of a base that is about neither its flag nor its votes. -/
structure KeepsBase (b b' : PackageBase) : Prop where
  id : b'.id = b.id
  name : b'.name = b.name
  maintainer : b'.maintainerUID = b.maintainerUID

/-- The number of votes a base has. -/
def votesOf (db : Db) (baseID : Nat) : Nat := db.packageVotes.countP (·.packageBaseID == baseID)

/-- The counter of a base is right. -/
def CountedAt (db : Db) (baseID : Nat) : Prop :=
  ∀ b ∈ db.packageBases, b.id = baseID → b.numVotes = votesOf db baseID

/-- The tables of packages and of what hangs off them. -/
def packageTables (db : Db) :=
  (db.packages, db.packageSources, db.packageDepends, db.packageRelations, db.packageLicenses,
    db.packageGroups, db.licenses, db.groups)

/-! ### Transactions -/

inductive Write (cfg : Config) (may : May) (db : Db) : Db → Prop
  | file {r : PackageRequest} (hfiled : Filed cfg db r) :
      Write cfg may db (insertRequest db r)
  | settle {rows : List PackageRequest}
      (h : List.Forall₂ Settles db.packageRequests rows) :
      Write cfg may db { db with packageRequests := rows }
  | reclose {id : Nat} {f : PackageRequest → PackageRequest} (hmay : may.reclose)
      (hf : ∀ r, Closes r (f r)) : Write cfg may db (updateRequests db (·.id == id) f)
  | accept {id : Nat} (hmay : may.accept)
      (hpending : ∀ r ∈ db.packageRequests, r.id = id → r.status = .pending) :
      Write cfg may db
        (updateRequests db (·.id == id) fun r => { r with status := .accepted })
  | engage {id uid : Nat}
      (h : may.adopt ∧ Unrequested db id ∨
        ∀ b ∈ db.packageBases, b.id = id → b.maintainerUID ≠ none)
      (hdouble : may.double ∨ ∀ c ∈ db.packageComaintainers, c.of id = true → c.usersID ≠ uid) :
      Write cfg may db (setMaintainer db id (some uid))
  | release {id : Nat} (h : may.stray ∨ ∀ c ∈ db.packageComaintainers, c.of id = false) :
      Write cfg may db (setMaintainer db id none)
  | leave {id uid : Nat}
      (hmay : may.manage id ∨ may.actor = some uid ∧ isComaintainer db id uid = true) :
      Write cfg may db (removeComaintainer db id uid)
  | staff {id : Nat} {rows : List PackageComaintainer} (hmay : may.manage id)
      (hother : (rows.filter fun c => !c.of id) =
        db.packageComaintainers.filter fun c => !c.of id)
      (hbase : ∃ b ∈ db.packageBases, b.id = id)
      (husers : ∀ c ∈ rows, c.of id = true → ∃ u ∈ db.users, u.id = c.usersID)
      (hstray : may.stray ∨ (∀ b ∈ db.packageBases, b.id = id → b.maintainerUID ≠ none) ∨
        ∀ c ∈ rows, c.of id = true → ∃ c₀ ∈ db.packageComaintainers, c₀.of id = true)
      (hdouble : may.double ∨ ∀ b ∈ db.packageBases, b.id = id → ∀ c ∈ rows, c.of id = true →
        b.maintainerUID = some c.usersID →
        ∃ c₀ ∈ db.packageComaintainers, c₀.of id = true ∧ c₀.usersID = c.usersID) :
      Write cfg may db { db with packageComaintainers := rows }
  | delete {id : Nat} (hmay : may.manage id)
      (hdesert : may.desert ∨ ∀ r ∈ db.packageRequests, r.packageBaseID = some id →
        r.status ≠ .pending) :
      Write cfg may db (db.deletePackageBase id)
  | merge {pkgbase target : PackageBase} (hmay : may.manage pkgbase.id)
      (hne : pkgbase.id ≠ target.id) (htarget : target ∈ db.packageBases)
      (hdesert : may.desert ∨ ∀ r ∈ db.packageRequests, r.packageBaseID = some pkgbase.id →
        r.status ≠ .pending) :
      Write cfg may db (retryMerge db pkgbase target)
  | account {uid : Nat} (hmay : may.remove uid)
      (hstray : may.stray ∨ ∀ b ∈ db.packageBases, b.maintainerUID = some uid →
        ∀ c ∈ db.packageComaintainers, c.of b.id = true → c.usersID = uid)
      (hvotes : may.uncount ∨ ∀ v ∈ db.packageVotes, v.usersID ≠ uid) :
      Write cfg may db (db.deleteUser uid)
  | mark {id : Nat} {f : PackageBase → PackageBase} (hf : ∀ b, KeepsBase b (f b))
      (hvotes : ∀ b, (f b).numVotes = b.numVotes)
      (hflag : ∀ b ∈ db.packageBases, b.id = id →
        may.clear id ∨ b.isOutOfDate = false ∨ f b = b) :
      Write cfg may db (db.updatePackageBase id f)
  | ballot {id : Nat} {votes : List PackageVote} {f : PackageBase → PackageBase}
      (hf : ∀ b, KeepsBase b (f b))
      (hflag : ∀ b, (f b).outOfDateTS = b.outOfDateTS ∧ (f b).flaggerUID = b.flaggerUID)
      (hbases : ∀ v ∈ votes, ∃ b ∈ db.packageBases, b.id = v.packageBaseID)
      (hunique : (votes.map fun v => (v.usersID, v.packageBaseID)).Nodup)
      (hother : (votes.filter fun v => v.packageBaseID != id) =
        db.packageVotes.filter fun v => v.packageBaseID != id)
      (hcount : CountedAt db id →
        CountedAt (Db.updatePackageBase { db with packageVotes := votes } id f) id) :
      Write cfg may db (Db.updatePackageBase { db with packageVotes := votes } id f)
  | keywords {id : Nat} {rows : List PackageKeyword} (hmay : may.edit id)
      (hother : (rows.filter fun r => r.packageBaseID != id) =
        db.packageKeywords.filter fun r => r.packageBaseID != id) :
      Write cfg may db { db with packageKeywords := rows }
  | register {u : User} (hid : u.id = db.nextID)
      (hname : ∀ u' ∈ db.users, cfg.sameName u'.username u.username = false) :
      Write cfg may db { db with users := db.users ++ [u], nextID := db.nextID + 1 }
  | users {rows : List User} (hids : rows.map (·.id) = db.users.map (·.id))
      (hnames : (rows.map fun u => cfg.collate u.username).Nodup) :
      Write cfg may db { db with users := rows }
  /-- None of the tables above. -/
  | side {db' : Db} (hbases : db'.packageBases = db.packageBases) (husers : db'.users = db.users)
      (hrequests : db'.packageRequests = db.packageRequests)
      (hcomaintainers : db'.packageComaintainers = db.packageComaintainers)
      (hvotes : db'.packageVotes = db.packageVotes)
      (hkeywords : db'.packageKeywords = db.packageKeywords) (hnext : db.nextID ≤ db'.nextID)
      (hpackages : packageTables db' = packageTables db) : Write cfg may db db'
  | push {p : GitUpdate.Push} {faults : Nat → Option GitUpdate.Failure}
      (haccess : ∀ b ∈ db.packageBases, cfg.sameName b.name p.pkgbase = true →
        may.adopt ∨ GitServe.hasWriteAccess cfg db p.pkgbase p.user = true)
      (hclear : ∀ b ∈ db.packageBases, cfg.sameName b.name p.pkgbase = true → may.clear b.id)
      (hdouble : may.double ∨ ∀ b ∈ db.packageBases, cfg.sameName b.name p.pkgbase = true →
        b.maintainerUID = none → ∀ u ∈ db.users, cfg.sameName u.username p.user = true →
          isComaintainer db b.id u.id = false)
      (hoverlook : may.overlook ∨ ∀ b ∈ db.packageBases, cfg.sameName b.name p.pkgbase = true →
        b.maintainerUID = none → Unrequested db b.id) :
      Write cfg may db ((GitUpdate.main cfg p).run faults db).2

/-- A chain of transactions. -/
abbrev Writes (cfg : Config) (may : May) : Db → Db → Prop :=
  Relation.ReflTransGen (Write cfg may)

theorem Writes.one {cfg : Config} {may : May} {db db' : Db} (h : Write cfg may db db') :
    Writes cfg may db db' :=
  Relation.ReflTransGen.single h

/-! ### What the schema promises -/

section

variable {cfg : Config} {may : May} {db : Db}

theorem baseKeys_updatePackageBase {id : Nat} {f : PackageBase → PackageBase}
    (hf : ∀ b, (f b).id = b.id ∧ (f b).name = b.name) :
    (db.updatePackageBase id f).baseKeys = db.baseKeys := by
  unfold Db.baseKeys Db.updatePackageBase
  exact Table.map_update (fun b => by rw [(hf b).1, (hf b).2]) db.packageBases

theorem KeepsBase.keys {f : PackageBase → PackageBase} (hf : ∀ b, KeepsBase b (f b)) :
    ∀ b, (f b).id = b.id ∧ (f b).name = b.name :=
  fun b => ⟨(hf b).id, (hf b).name⟩

theorem baseKeys_setMaintainer (db : Db) (id : Nat) (uid : Option Nat) :
    (setMaintainer db id uid).baseKeys = db.baseKeys :=
  baseKeys_updatePackageBase fun _ => ⟨rfl, rfl⟩

theorem requestKeys_updateRequests {p : PackageRequest → Bool}
    {f : PackageRequest → PackageRequest}
    (hf : ∀ r, (f r).id = r.id ∧ (f r).packageBaseID = r.packageBaseID ∧
      (f r).packageBaseName = r.packageBaseName) :
    (updateRequests db p f).requestKeys = db.requestKeys := by
  unfold Db.requestKeys updateRequests
  exact Table.map_update (fun r => by rw [(hf r).1, (hf r).2.1, (hf r).2.2]) db.packageRequests

theorem requestKeys_of_settles {rows : List PackageRequest}
    (h : List.Forall₂ Settles db.packageRequests rows) :
    Db.requestKeys { db with packageRequests := rows } = db.requestKeys := by
  unfold Db.requestKeys
  generalize db.packageRequests = t at h
  induction h with
  | nil => rfl
  | cons hr _ ih => simpa [hr.id, hr.base, hr.baseName] using ih

theorem WellFormed.insertRequest (h : WellFormed cfg db) {r : PackageRequest}
    (hbase : ∃ b ∈ db.packageBases, r.packageBaseID = some b.id ∧
      cfg.sameName r.packageBaseName b.name = true) : WellFormed cfg (insertRequest db r) where
  bases := h.bases.mono (Nat.le_succ _)
  baseNames := h.baseNames
  users := h.users.mono (Nat.le_succ _)
  userNames := h.userNames
  requests := h.requests.insert rfl
  requestBases r' hr' id hid := by
    rcases List.mem_append.mp hr' with hr' | hr'
    · exact h.requestBases r' hr' id hid
    · rw [List.mem_singleton.mp hr'] at hid ⊢
      obtain ⟨b, hb, hbid, hname⟩ := hbase
      have hsome : some b.id = some id := hbid.symm.trans hid
      exact ⟨b, hb, Option.some.inj hsome, hname⟩
  comaintainerBases := h.comaintainerBases
  comaintainerUsers := h.comaintainerUsers
  voteBases := h.voteBases
  votes := h.votes

/-- Comaintainers may be replaced by rows that point to bases and accounts. -/
theorem WellFormed.setComaintainers (h : WellFormed cfg db) {rows : List PackageComaintainer}
    (hbases : ∀ c ∈ rows, ∃ b ∈ db.packageBases, b.id = c.packageBaseID)
    (husers : ∀ c ∈ rows, ∃ u ∈ db.users, u.id = c.usersID) :
    WellFormed cfg { db with packageComaintainers := rows } :=
  { h with comaintainerBases := hbases, comaintainerUsers := husers }

/-- A deletion of rows that may leave nothing pointing at them. -/
theorem WellFormed.deletePackageBase (h : WellFormed cfg db) (id : Nat) :
    WellFormed cfg (db.deletePackageBase id) where
  bases := h.bases.sublist (Table.delete_sublist _ _)
  baseNames := h.baseNames.sublist ((Table.delete_sublist _ _).map _)
  users := h.users
  userNames := h.userNames
  requests := h.requests.of_map_eq (Table.map_update
    (f := fun r : PackageRequest => { r with packageBaseID := none }) (fun _ => rfl)
    db.packageRequests)
  requestBases r hr id' hid := by
    obtain ⟨r₀, hr₀, rfl⟩ := Table.mem_update.mp hr
    by_cases hgone : r₀.packageBaseID = some id
    · simp [hgone] at hid
    · simp only [beq_iff_eq, hgone, if_false] at hid ⊢
      obtain ⟨b, hb, rfl, hname⟩ := h.requestBases r₀ hr₀ id' hid
      refine ⟨b, Table.mem_delete.mpr ⟨hb, ?_⟩, rfl, hname⟩
      have hne : b.id ≠ id := by
        rintro rfl
        exact hgone hid
      simpa using hne
  comaintainerBases c hc := by
    obtain ⟨hc, hne⟩ := Table.mem_delete.mp hc
    obtain ⟨b, hb, hid⟩ := h.comaintainerBases c hc
    exact ⟨b, Table.mem_delete.mpr ⟨hb, by simpa [hid] using hne⟩, hid⟩
  comaintainerUsers c hc := h.comaintainerUsers c (Table.mem_delete.mp hc).1
  voteBases v hv := by
    obtain ⟨hv, hne⟩ := Table.mem_delete.mp hv
    obtain ⟨b, hb, hid⟩ := h.voteBases v hv
    exact ⟨b, Table.mem_delete.mpr ⟨hb, by simpa [hid] using hne⟩, hid⟩
  votes := h.votes.sublist ((Table.delete_sublist _ _).map _)

theorem WellFormed.deleteUser (h : WellFormed cfg db) (uid : Nat) :
    WellFormed cfg (db.deleteUser uid) where
  bases := h.bases.of_map_eq (by simp [Db.deleteUser])
  baseNames := by
    have hnames := h.baseNames
    simpa [Db.deleteUser, List.map_map, Function.comp_def] using hnames
  users := h.users.sublist (Table.delete_sublist _ _)
  userNames := h.userNames.sublist ((Table.delete_sublist _ _).map _)
  requests := h.requests.of_map_eq (by simp [Db.deleteUser])
  requestBases r hr id hid := by
    obtain ⟨r₀, hr₀, rfl⟩ := List.mem_map.mp hr
    obtain ⟨b, hb, hbid, hname⟩ := h.requestBases r₀ hr₀ id hid
    exact ⟨_, List.mem_map_of_mem hb, hbid, hname⟩
  comaintainerBases c hc := by
    obtain ⟨b, hb, hid⟩ := h.comaintainerBases c (Table.mem_delete.mp hc).1
    exact ⟨_, List.mem_map_of_mem hb, hid⟩
  comaintainerUsers c hc := by
    obtain ⟨hc, hne⟩ := Table.mem_delete.mp hc
    obtain ⟨u, hu, hid⟩ := h.comaintainerUsers c hc
    exact ⟨u, Table.mem_delete.mpr ⟨hu, by simpa [hid] using hne⟩, hid⟩
  voteBases v hv := by
    obtain ⟨b, hb, hid⟩ := h.voteBases v (Table.mem_delete.mp hv).1
    exact ⟨_, List.mem_map_of_mem hb, hid⟩
  votes := h.votes.sublist ((Table.delete_sublist _ _).map _)

/-- A vote is moved only to where its voter has none, so no two become one. -/
theorem voteKeys_moveRows (h : WellFormed cfg db) (pkgbase target : PackageBase) :
    (moveRows db pkgbase target).voteKeys.Nodup := by
  have hunique : Transfer.Unique PackageVote.usersID PackageVote.packageBaseID db.packageVotes :=
    h.votes
  have hmoved : Transfer.Unique PackageVote.usersID PackageVote.packageBaseID
      (Transfer.moved PackageVote.usersID PackageVote.packageBaseID
        (fun v => { v with packageBaseID := target.id }) pkgbase.id target.id db.packageVotes) :=
    hunique.moved (fun _ => rfl) fun _ => rfl
  exact hmoved

/-- Votes may be replaced, and a counter with them. -/
theorem WellFormed.setVotes (h : WellFormed cfg db) {id : Nat} {votes : List PackageVote}
    {f : PackageBase → PackageBase} (hf : ∀ b, KeepsBase b (f b))
    (hbases : ∀ v ∈ votes, ∃ b ∈ db.packageBases, b.id = v.packageBaseID)
    (hunique : (votes.map fun v => (v.usersID, v.packageBaseID)).Nodup) :
    WellFormed cfg (Db.updatePackageBase { db with packageVotes := votes } id f) := by
  have hvoted : WellFormed cfg { db with packageVotes := votes } :=
    { h with voteBases := hbases, votes := hunique }
  exact hvoted.congr (baseKeys_updatePackageBase (KeepsBase.keys hf)) rfl rfl rfl rfl
    (Nat.le_refl _)

theorem WellFormed.retryMerge (h : WellFormed cfg db) (pkgbase : PackageBase)
    {target : PackageBase} (htarget : target ∈ db.packageBases) :
    WellFormed cfg (retryMerge db pkgbase target) := by
  have hmoved : WellFormed cfg (popupdate (moveRows db pkgbase target) target.id) := by
    have hvoted : WellFormed cfg { db with
        packageVotes := (moveRows db pkgbase target).packageVotes } := by
      refine { h with voteBases := ?_, votes := voteKeys_moveRows h pkgbase target }
      intro v hv
      obtain ⟨v₀, hv₀, rfl⟩ := Table.mem_update.mp hv
      split
      · exact ⟨target, htarget, rfl⟩
      · exact h.voteBases v₀ hv₀
    refine hvoted.congr ?_ rfl rfl rfl rfl (Nat.le_refl _)
    exact baseKeys_updatePackageBase fun _ => ⟨rfl, rfl⟩
  exact hmoved.deletePackageBase pkgbase.id

theorem WellFormed.register (h : WellFormed cfg db) {u : User} (hid : u.id = db.nextID)
    (hname : ∀ u' ∈ db.users, cfg.sameName u'.username u.username = false) :
    WellFormed cfg { db with users := db.users ++ [u], nextID := db.nextID + 1 } where
  bases := h.bases.mono (Nat.le_succ _)
  baseNames := h.baseNames
  users := h.users.insert hid
  userNames := by
    rw [List.map_append, List.map_singleton]
    refine List.Nodup.append h.userNames (List.nodup_singleton _) ?_
    intro k hk hk'
    obtain ⟨u', hu', rfl⟩ := List.mem_map.mp hk
    have hne := hname u' hu'
    simp only [List.mem_singleton] at hk'
    simp [Config.sameName, hk'] at hne
  requests := h.requests.mono (Nat.le_succ _)
  requestBases := h.requestBases
  comaintainerBases := h.comaintainerBases
  comaintainerUsers c hc := by
    obtain ⟨u', hu', hid'⟩ := h.comaintainerUsers c hc
    exact ⟨u', List.mem_append_left _ hu', hid'⟩
  voteBases := h.voteBases
  votes := h.votes

theorem WellFormed.setUsers (h : WellFormed cfg db) {rows : List User}
    (hids : rows.map (·.id) = db.users.map (·.id))
    (hnames : (rows.map fun u => cfg.collate u.username).Nodup) :
    WellFormed cfg { db with users := rows } := by
  refine { h with users := h.users.of_map_eq hids, userNames := hnames, comaintainerUsers := ?_ }
  intro c hc
  obtain ⟨u, hu, hid⟩ := h.comaintainerUsers c hc
  have hmem : u.id ∈ rows.map (·.id) := hids ▸ List.mem_map_of_mem hu
  obtain ⟨u', hu', hid'⟩ := List.mem_map.mp hmem
  exact ⟨u', hu', hid'.trans hid⟩

/-! ### The hook -/

theorem baseKeys_touchBase (baseID uid now : Nat) (db : Db) :
    (GitUpdate.touchBase baseID uid now db).baseKeys = db.baseKeys := by
  refine baseKeys_updatePackageBase fun b => ?_
  exact ⟨rfl, rfl⟩

theorem baseKeys_takeOver (baseID uid : Nat) (db : Db) :
    (GitUpdate.takeOver baseID uid db).baseKeys = db.baseKeys := by
  refine baseKeys_updatePackageBase fun b => ?_
  by_cases hm : b.maintainerUID = none <;> simp [hm]

theorem WellFormed.addBase (h : WellFormed cfg db) {b : PackageBase} (hid : b.id = db.nextID)
    (hname : ∀ b' ∈ db.packageBases, cfg.sameName b'.name b.name = false) :
    WellFormed cfg { db with packageBases := db.packageBases ++ [b], nextID := db.nextID + 1 } where
  bases := h.bases.insert hid
  baseNames := by
    rw [List.map_append, List.map_singleton]
    refine List.Nodup.append h.baseNames (List.nodup_singleton _) ?_
    intro k hk hk'
    obtain ⟨b', hb', rfl⟩ := List.mem_map.mp hk
    have hne := hname b' hb'
    simp only [List.mem_singleton] at hk'
    simp [Config.sameName, hk'] at hne
  users := h.users.mono (Nat.le_succ _)
  userNames := h.userNames
  requests := h.requests.mono (Nat.le_succ _)
  requestBases r hr id hid' := by
    obtain ⟨b', hb', hrest⟩ := h.requestBases r hr id hid'
    exact ⟨b', List.mem_append_left _ hb', hrest⟩
  comaintainerBases c hc := by
    obtain ⟨b', hb', hid'⟩ := h.comaintainerBases c hc
    exact ⟨b', List.mem_append_left _ hb', hid'⟩
  comaintainerUsers := h.comaintainerUsers
  voteBases v hv := by
    obtain ⟨b', hb', hid'⟩ := h.voteBases v hv
    exact ⟨b', List.mem_append_left _ hb', hid'⟩
  votes := h.votes

theorem keptBy_wellFormed (cfg : Config) (p : GitUpdate.Push) :
    GitUpdate.KeptBy cfg p (WellFormed cfg) where
  stores hs h := by
    cases hs <;> exact h.congr rfl rfl rfl rfl rfl (by first | exact Nat.le_refl _ | exact Nat.le_succ _)
  clear _ h := h.congr rfl rfl rfl rfl rfl (Nat.le_refl _)
  notify h := h.congr rfl rfl rfl rfl rfl (Nat.le_refl _)
  touch uid _ _ h := h.congr (baseKeys_touchBase _ uid p.now _) rfl rfl rfl rfl (Nat.le_refl _)
  takeOver _ _ _ _ h := h.congr (baseKeys_takeOver _ _ _) rfl rfl rfl rfl (Nat.le_refl _)
  create _ _ h hnone hid hname _ _ := h.addBase hid (by simpa [hname] using hnone)

/-- Whatever the hook does, and wherever it fails. -/
theorem run_of_keptBy {P : Db → Prop} {p : GitUpdate.Push} (h : GitUpdate.KeptBy cfg p P)
    (faults : Nat → Option GitUpdate.Failure) (hP : P db) :
    P ((GitUpdate.main cfg p).run faults db).2 :=
  (h.main faults ⟨db, db, 0⟩ hP hP).1

/-! ### Every write -/

theorem Write.wellFormed {db' : Db} (hw : Write cfg may db db') (h : WellFormed cfg db) :
    WellFormed cfg db' := by
  cases hw with
  | file hfiled => exact h.insertRequest hfiled.base
  | settle hrows =>
      exact h.congr rfl rfl (requestKeys_of_settles hrows) rfl rfl (Nat.le_refl _)
  | reclose _ hf =>
      exact h.congr rfl rfl
        (requestKeys_updateRequests fun r => ⟨(hf r).id, (hf r).base, (hf r).baseName⟩) rfl rfl
        (Nat.le_refl _)
  | accept =>
      exact h.congr rfl rfl (requestKeys_updateRequests fun _ => ⟨rfl, rfl, rfl⟩) rfl rfl
        (Nat.le_refl _)
  | engage | release =>
      exact h.congr (baseKeys_setMaintainer _ _ _) rfl rfl rfl rfl (Nat.le_refl _)
  | leave =>
      refine h.setComaintainers (fun c hc => ?_) fun c hc => ?_
      · obtain ⟨c₀, hc₀, rfl⟩ := Table.mem_update.mp (Table.mem_delete.mp hc).1
        have hbase := h.comaintainerBases c₀ hc₀
        split <;> exact hbase
      · obtain ⟨c₀, hc₀, rfl⟩ := Table.mem_update.mp (Table.mem_delete.mp hc).1
        have huser := h.comaintainerUsers c₀ hc₀
        split <;> exact huser
  | @staff id rows _ hother hbase husers =>
      have hold : ∀ c ∈ rows, c.of id = false → c ∈ db.packageComaintainers := by
        intro c hc hof
        have hmem : c ∈ rows.filter fun c => !c.of id := List.mem_filter.mpr ⟨hc, by simp [hof]⟩
        rw [hother] at hmem
        exact (List.mem_filter.mp hmem).1
      refine h.setComaintainers (fun c hc => ?_) fun c hc => ?_
      · cases hof : c.of id with
        | true =>
            obtain ⟨b, hb, rfl⟩ := hbase
            exact ⟨b, hb, (beq_iff_eq.mp hof).symm⟩
        | false => exact h.comaintainerBases c (hold c hc hof)
      · cases hof : c.of id with
        | true => exact husers c hc hof
        | false => exact h.comaintainerUsers c (hold c hc hof)
  | delete => exact h.deletePackageBase _
  | merge _ _ htarget => exact h.retryMerge _ htarget
  | account => exact h.deleteUser _
  | mark hf =>
      exact h.congr (baseKeys_updatePackageBase (KeepsBase.keys hf)) rfl rfl rfl rfl (Nat.le_refl _)
  | ballot hf _ hbases hunique => exact h.setVotes hf hbases hunique
  | keywords => exact h.congr rfl rfl rfl rfl rfl (Nat.le_refl _)
  | register hid hname => exact h.register hid hname
  | users hids hnames => exact h.setUsers hids hnames
  | side hbases husers hrequests hcomaintainers hvotes _ hnext =>
      refine h.congr ?_ ?_ ?_ ?_ ?_ hnext
      · rw [Db.baseKeys, hbases, Db.baseKeys]
      · rw [Db.userKeys, husers, Db.userKeys]
      · rw [Db.requestKeys, hrequests, Db.requestKeys]
      · rw [Db.comaintainerKeys, hcomaintainers, Db.comaintainerKeys]
      · rw [Db.voteKeys, hvotes, Db.voteKeys]
  | push => exact run_of_keptBy (keptBy_wellFormed cfg _) _ h

end

/-- What every write keeps, a chain keeps. -/
theorem Writes.keeps {cfg : Config} {may : May} {P : Db → Prop}
    (hstep : ∀ db db', Write cfg may db db' → P db → P db') {db db' : Db}
    (h : Writes cfg may db db') (hP : P db) : P db' := by
  induction h with
  | refl => exact hP
  | tail _ hw ih => exact hstep _ _ hw ih

/-- What every write respects, a chain respects, if it composes. -/
theorem Writes.rel {cfg : Config} {may : May} {R : Db → Db → Prop} (hrefl : ∀ db, R db db)
    (htrans : ∀ {a b c}, R a b → R b c → R a c)
    (hstep : ∀ {db db'}, Write cfg may db db' → R db db') {db db' : Db}
    (h : Writes cfg may db db') : R db db' := by
  induction h with
  | refl => exact hrefl db
  | tail _ hw ih => exact htrans ih (hstep hw)

end Aurweb
