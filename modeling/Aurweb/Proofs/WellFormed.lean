/-
What the schema promises of every state: keys are unique and rows that point somewhere
point to a row.

`WellFormed` looks at the columns that identify a row and at nothing else, so most
statements keep it because they keep those columns: that is `WellFormed.congr`.  The
statements that insert or delete get a lemma each.
-/
import Aurweb.Site

namespace Aurweb

/-! ### The columns that identify a row -/

namespace Db

def baseKeys (db : Db) : List (Nat × String) := db.packageBases.map fun b => (b.id, b.name)

def userKeys (db : Db) : List (Nat × String) := db.users.map fun u => (u.id, u.username)

def requestKeys (db : Db) : List (Nat × Option Nat × String) :=
  db.packageRequests.map fun r => (r.id, r.packageBaseID, r.packageBaseName)

def comaintainerKeys (db : Db) : List (Nat × Nat) :=
  db.packageComaintainers.map fun c => (c.usersID, c.packageBaseID)

def voteKeys (db : Db) : List (Nat × Nat) :=
  db.packageVotes.map fun v => (v.usersID, v.packageBaseID)

end Db

/-- The primary keys, unique indices and foreign keys of the tables the site model writes. -/
structure WellFormed (cfg : Config) (db : Db) : Prop where
  bases : Table.Numbered (·.id) db.nextID db.packageBases
  baseNames : (db.packageBases.map fun b => cfg.collate b.name).Nodup
  users : Table.Numbered (·.id) db.nextID db.users
  userNames : (db.users.map fun u => cfg.collate u.username).Nodup
  requests : Table.Numbered (·.id) db.nextID db.packageRequests
  /-- A request goes by the name of its base. -/
  requestBases : ∀ r ∈ db.packageRequests, ∀ id, r.packageBaseID = some id →
    ∃ b ∈ db.packageBases, b.id = id ∧ cfg.sameName r.packageBaseName b.name = true
  comaintainerBases : ∀ c ∈ db.packageComaintainers, ∃ b ∈ db.packageBases, b.id = c.packageBaseID
  comaintainerUsers : ∀ c ∈ db.packageComaintainers, ∃ u ∈ db.users, u.id = c.usersID
  voteBases : ∀ v ∈ db.packageVotes, ∃ b ∈ db.packageBases, b.id = v.packageBaseID
  votes : db.voteKeys.Nodup

/-! ### Columns and rows -/

private theorem numbered_of_keys {ρ β : Type} {key : ρ → Nat} {row : ρ → Nat × β}
    (hkey : ∀ r, (row r).1 = key r) {t t' : List ρ} {n n' : Nat} (hle : n ≤ n')
    (heq : t'.map row = t.map row) (h : Table.Numbered key n t) : Table.Numbered key n' t' := by
  have hcol : t'.map key = t.map key := by
    have hfst := congrArg (List.map Prod.fst) heq
    simpa [List.map_map, Function.comp_def, hkey] using hfst
  exact (h.of_map_eq hcol).mono hle

private theorem exists_of_keys {ρ β : Type} {row : ρ → β} {t t' : List ρ}
    (heq : t'.map row = t.map row) {r : ρ} (hr : r ∈ t') : ∃ r₀ ∈ t, row r₀ = row r := by
  have hmem : row r ∈ t.map row := heq ▸ List.mem_map_of_mem hr
  exact List.mem_map.mp hmem

private theorem names_of_keys {ρ : Type} {row : ρ → Nat × String} {cfg : Config}
    {name : ρ → String} (hname : ∀ r, (row r).2 = name r) {t t' : List ρ}
    (heq : t'.map row = t.map row) :
    (t'.map fun r => cfg.collate (name r)) = t.map fun r => cfg.collate (name r) := by
  have hsnd := congrArg (List.map fun k => cfg.collate k.2) heq
  simpa [List.map_map, Function.comp_def, hname] using hsnd

section

variable {cfg : Config} {db db' : Db}

/-- What keeps the identifying columns keeps the schema's promises. -/
theorem WellFormed.congr (h : WellFormed cfg db) (hb : db'.baseKeys = db.baseKeys)
    (hu : db'.userKeys = db.userKeys) (hr : db'.requestKeys = db.requestKeys)
    (hc : db'.comaintainerKeys = db.comaintainerKeys) (hv : db'.voteKeys = db.voteKeys)
    (hn : db.nextID ≤ db'.nextID) : WellFormed cfg db' where
  bases := numbered_of_keys (fun _ => rfl) hn hb h.bases
  baseNames := (names_of_keys (fun _ => rfl) hb).symm ▸ h.baseNames
  users := numbered_of_keys (fun _ => rfl) hn hu h.users
  userNames := (names_of_keys (fun _ => rfl) hu).symm ▸ h.userNames
  requests := numbered_of_keys (fun _ => rfl) hn hr h.requests
  requestBases r hr' id hid := by
    obtain ⟨r₀, hr₀, hrow⟩ := exists_of_keys hr hr'
    obtain ⟨-, hbase, hname⟩ : r₀.id = r.id ∧ r₀.packageBaseID = r.packageBaseID ∧
        r₀.packageBaseName = r.packageBaseName := by simpa using hrow
    obtain ⟨b₀, hb₀, rfl, hsame⟩ := h.requestBases r₀ hr₀ id (hbase.trans hid)
    obtain ⟨b, hb', hbrow⟩ := exists_of_keys hb.symm hb₀
    obtain ⟨hbid, hbname⟩ : b.id = b₀.id ∧ b.name = b₀.name := by simpa using hbrow
    exact ⟨b, hb', hbid, by rw [hbname, ← hname]; exact hsame⟩
  comaintainerBases c hc' := by
    obtain ⟨c₀, hc₀, hrow⟩ := exists_of_keys hc hc'
    obtain ⟨b₀, hb₀, hid⟩ := h.comaintainerBases c₀ hc₀
    obtain ⟨b, hb', hbrow⟩ := exists_of_keys hb.symm hb₀
    exact ⟨b, hb', by rw [(Prod.mk.inj hbrow).1, hid, (Prod.mk.inj hrow).2]⟩
  comaintainerUsers c hc' := by
    obtain ⟨c₀, hc₀, hrow⟩ := exists_of_keys hc hc'
    obtain ⟨u₀, hu₀, hid⟩ := h.comaintainerUsers c₀ hc₀
    obtain ⟨u, hu', hurow⟩ := exists_of_keys hu.symm hu₀
    exact ⟨u, hu', by rw [(Prod.mk.inj hurow).1, hid, (Prod.mk.inj hrow).1]⟩
  voteBases v hv' := by
    obtain ⟨v₀, hv₀, hrow⟩ := exists_of_keys hv hv'
    obtain ⟨b₀, hb₀, hid⟩ := h.voteBases v₀ hv₀
    obtain ⟨b, hb', hbrow⟩ := exists_of_keys hb.symm hb₀
    exact ⟨b, hb', by rw [(Prod.mk.inj hbrow).1, hid, (Prod.mk.inj hrow).2]⟩
  votes := hv ▸ h.votes

/-! ### Looking rows up -/

theorem WellFormed.base_eq (h : WellFormed cfg db) {a b : PackageBase} (ha : a ∈ db.packageBases)
    (hb : b ∈ db.packageBases) (hid : a.id = b.id) : a = b :=
  h.bases.eq_of_key ha hb hid

theorem WellFormed.base_eq_of_name (h : WellFormed cfg db) {a b : PackageBase}
    (ha : a ∈ db.packageBases) (hb : b ∈ db.packageBases)
    (hname : cfg.sameName a.name b.name = true) : a = b :=
  List.inj_on_of_nodup_map h.baseNames ha hb (eq_of_beq hname)

theorem WellFormed.user_eq_of_name (h : WellFormed cfg db) {a b : User} (ha : a ∈ db.users)
    (hb : b ∈ db.users) (hname : cfg.sameName a.username b.username = true) : a = b :=
  List.inj_on_of_nodup_map h.userNames ha hb (eq_of_beq hname)

theorem baseNamed_mem {name : String} {b : PackageBase} (h : baseNamed cfg db name = some b) :
    b ∈ db.packageBases ∧ cfg.sameName b.name name = true := by
  have hname := List.find?_some h
  exact ⟨List.mem_of_find?_eq_some h, hname⟩

theorem userNamed_mem {name : String} {u : User} (h : userNamed cfg db name = some u) :
    u ∈ db.users ∧ cfg.sameName u.username name = true := by
  have hname := List.find?_some h
  exact ⟨List.mem_of_find?_eq_some h, hname⟩

theorem Config.sameName_refl (cfg : Config) (a : String) : cfg.sameName a a = true := by
  simp [Config.sameName]

theorem Config.sameName_symm {cfg : Config} {a b : String} (h : cfg.sameName a b = true) :
    cfg.sameName b a = true :=
  beq_iff_eq.mpr (beq_iff_eq.mp h).symm

theorem Config.sameName_trans {cfg : Config} {a b c : String} (h : cfg.sameName a b = true)
    (h' : cfg.sameName b c = true) : cfg.sameName a c = true := by
  simp only [Config.sameName, beq_iff_eq] at *
  exact h.trans h'

end

/-! ### A small site

One package base, flagged out of date long ago: the state most of the runs below start from.
-/

/-- The defaults, on a database that compares names as they are. -/
def siteConfig : Config := Config.defaults id fun _ => true

def account (id : Nat) (accountType : AccountType) (username : String) : User where
  id := id
  accountType := accountType
  suspended := false
  emailVerified := true
  emailVerificationToken := none
  emailVerificationExpiry := none
  username := username
  email := username ++ "@example.org"
  lastLogin := 0
  lastSSHLogin := 0
  lastSSHLoginIPAddress := none
  inactivityTS := 0
  registrationTS := 0

/-- `carol` maintains `foo`, `bob` is a Package Maintainer, and `alice` a user. -/
def smallSite : Db where
  users := [account 1 .user "alice", account 2 .packageMaintainer "bob", account 3 .user "carol"]
  packageBases := [
    { id := 4, name := "foo", numVotes := 0, outOfDateTS := some 1, flaggerComment := "old"
      submittedTS := 1, modifiedTS := 1, flaggerUID := some 2, submitterUID := some 3
      maintainerUID := some 3, packagerUID := some 3 }]
  nextID := 5

theorem smallSite_wellFormed : WellFormed siteConfig smallSite where
  bases := ⟨by decide, by decide⟩
  baseNames := by decide
  users := ⟨by decide, by decide⟩
  userNames := by decide
  requests := Table.Numbered.nil
  requestBases := by simp [smallSite]
  comaintainerBases := by simp [smallSite]
  comaintainerUsers := by simp [smallSite]
  voteBases := by simp [smallSite]
  votes := by simp [smallSite, Db.voteKeys]

end Aurweb
