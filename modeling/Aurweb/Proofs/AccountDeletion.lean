/-
What the deletion of an account takes with it.

`owns_content` is the filter of the script, and the fourteen columns it lists are all that
a deletion would cascade from or clear: the three tables it leaves out hold nothing but
registration's own rows.  An account that passes it therefore goes alone, and as none of
the columns changes when others go, so does every account of every batch.  The page has no
such filter.  What keeps the rows of others there is that a deleter is cleared before the
row of the account goes, and that an account with a proposal or a vote is not deleted.
-/
import Aurweb.AccountDeletion
import Aurweb.Proofs.Accounts
import Aurweb.Proofs.WellFormed

namespace Aurweb.AccountDeletion

/-! ### The script -/

/-- The accounts are gone, with their terms, sessions and keys, and nothing else is
different. -/
def Database.without (d : Database) (uids : List Nat) : Database where
  db := { d.db with
    users := Table.delete (uids.contains ·.id) d.db.users
    acceptedTerms := Table.delete (uids.contains ·.usersID) d.db.acceptedTerms }
  sessions := Table.delete (uids.contains ·.usersID) d.sessions
  sshPubKeys := Table.delete (uids.contains ·.userID) d.sshPubKeys

theorem delete_contains_nil {ρ : Type} (key : ρ → Nat) (t : List ρ) :
    Table.delete (([] : List Nat).contains <| key ·) t = t :=
  Table.delete_eq_self fun _ _ => rfl

theorem delete_contains_append {ρ : Type} (key : ρ → Nat) (us vs : List Nat) (t : List ρ) :
    Table.delete (vs.contains <| key ·) (Table.delete (us.contains <| key ·) t) =
      Table.delete ((us ++ vs).contains <| key ·) t := by
  unfold Table.delete
  rw [List.filter_filter]
  refine List.filter_congr fun r _ => ?_
  simp [Bool.and_comm]

theorem delete_contains_singleton {ρ : Type} (key : ρ → Nat) (uid : Nat) (t : List ρ) :
    Table.delete (key · == uid) t = Table.delete ([uid].contains <| key ·) t := by
  unfold Table.delete
  refine List.filter_congr fun r _ => ?_
  by_cases hid : key r = uid <;> simp [hid]

theorem Database.without_nil (d : Database) : d.without [] = d := by
  simp only [Database.without, delete_contains_nil]

theorem Database.without_append (d : Database) (us vs : List Nat) :
    (d.without us).without vs = d.without (us ++ vs) := by
  simp only [Database.without, delete_contains_append]

theorem map_setNull {ρ : Type} {f : ρ → ρ} {t : List ρ} (h : ∀ r ∈ t, f r = r) : t.map f = t := by
  rw [List.map_congr_left h, List.map_id']

theorem setNull_of_ne {uid : Nat} {column : Option Nat} (h : column ≠ some uid) :
    Db.setNull uid column = column :=
  if_neg h

/-- No listed column refers to the account. -/
structure Unmentioned (db : Db) (uid : Nat) : Prop where
  comments : ∀ c ∈ db.packageComments,
    c.usersID ≠ some uid ∧ c.editedUsersID ≠ some uid ∧ c.delUsersID ≠ some uid
  bases : ∀ b ∈ db.packageBases, b.maintainerUID ≠ some uid ∧ b.submitterUID ≠ some uid ∧
    b.packagerUID ≠ some uid ∧ b.flaggerUID ≠ some uid
  votes : ∀ v ∈ db.packageVotes, v.usersID ≠ uid
  comaintainers : ∀ c ∈ db.packageComaintainers, c.usersID ≠ uid
  requests : ∀ r ∈ db.packageRequests, r.usersID ≠ some uid ∧ r.closedUID ≠ some uid
  notifications : ∀ n ∈ db.packageNotifications, n.userID ≠ uid
  proposals : ∀ v ∈ db.voteInfo, v.submitterID ≠ uid
  ballots : ∀ v ∈ db.votes, v.userID ≠ uid

theorem unmentioned_of_not_ownsContent {db : Db} {uid : Nat} (h : ownsContent db uid = false) :
    Unmentioned db uid := by
  simp only [ownsContent, contentColumns, List.any_cons, List.any_nil, Bool.or_false,
    Bool.or_eq_false_iff, List.contains_eq_mem, decide_eq_false_iff_not, List.mem_map,
    Option.some.injEq, not_exists, not_and] at h
  obtain ⟨hauthor, heditor, hdeleter, hmaintainer, hsubmitter, hpackager, hflagger, hvotes, hco,
    hrequester, hcloser, hnotif, hproposals, hballots⟩ := h
  exact ⟨fun c hc => ⟨hauthor c hc, heditor c hc, hdeleter c hc⟩,
    fun b hb => ⟨hmaintainer b hb, hsubmitter b hb, hpackager b hb, hflagger b hb⟩, hvotes, hco,
    fun r hr => ⟨hrequester r hr, hcloser r hr⟩, hnotif, hproposals, hballots⟩

/-- **The filter covers the foreign keys**: an account without content goes alone. -/
theorem deleteUser_of_unmentioned {d : Database} {uid : Nat} (h : Unmentioned d.db uid) :
    d.deleteUser uid = d.without [uid] := by
  have hbases : d.db.packageBases.map (fun b =>
      { b with
        flaggerUID := Db.setNull uid b.flaggerUID
        submitterUID := Db.setNull uid b.submitterUID
        maintainerUID := Db.setNull uid b.maintainerUID
        packagerUID := Db.setNull uid b.packagerUID }) = d.db.packageBases := by
    refine map_setNull fun b hb => ?_
    obtain ⟨hm, hs, hp, hf⟩ := h.bases b hb
    rw [setNull_of_ne hm, setNull_of_ne hs, setNull_of_ne hp, setNull_of_ne hf]
  have hkept : Table.delete (·.delUsersID == some uid) d.db.packageComments =
      d.db.packageComments :=
    Table.delete_eq_self fun c hc => beq_false_of_ne (h.comments c hc).2.2
  have hcomments : d.db.packageComments.map (fun c =>
      { c with
        usersID := Db.setNull uid c.usersID
        editedUsersID := Db.setNull uid c.editedUsersID }) = d.db.packageComments := by
    refine map_setNull fun c hc => ?_
    obtain ⟨ha, he, -⟩ := h.comments c hc
    rw [setNull_of_ne ha, setNull_of_ne he]
  have hrequests : d.db.packageRequests.map (fun r =>
      { r with
        usersID := Db.setNull uid r.usersID
        closedUID := Db.setNull uid r.closedUID }) = d.db.packageRequests := by
    refine map_setNull fun r hr => ?_
    obtain ⟨hu, hc⟩ := h.requests r hr
    rw [setNull_of_ne hu, setNull_of_ne hc]
  have hgone : ∀ id, (d.db.voteInfo.any fun v => v.id == id && v.submitterID == uid) = false := by
    intro id
    refine List.any_eq_false.mpr fun v hv => ?_
    simp [h.proposals v hv]
  have hballots : Table.delete (fun v => v.userID == uid ||
      d.db.voteInfo.any fun w => w.id == v.voteID && w.submitterID == uid) d.db.votes =
        d.db.votes := by
    refine Table.delete_eq_self fun v hv => ?_
    rw [hgone, Bool.or_false]
    exact beq_false_of_ne (h.ballots v hv)
  have hvotes : Table.delete (·.usersID == uid) d.db.packageVotes = d.db.packageVotes :=
    Table.delete_eq_self fun v hv => beq_false_of_ne (h.votes v hv)
  have hco : Table.delete (·.usersID == uid) d.db.packageComaintainers =
      d.db.packageComaintainers :=
    Table.delete_eq_self fun c hc => beq_false_of_ne (h.comaintainers c hc)
  have hnotifs : Table.delete (·.userID == uid) d.db.packageNotifications =
      d.db.packageNotifications :=
    Table.delete_eq_self fun n hn => beq_false_of_ne (h.notifications n hn)
  have hproposals : Table.delete (·.submitterID == uid) d.db.voteInfo = d.db.voteInfo :=
    Table.delete_eq_self fun v hv => beq_false_of_ne (h.proposals v hv)
  simp only [Database.deleteUser, Db.deleteUser, Database.without, hbases, hkept, hcomments,
    hrequests, hballots, hvotes, hco, hnotifs, hproposals, delete_contains_singleton]

theorem Unmentioned.without {d : Database} {uid : Nat} (h : Unmentioned d.db uid)
    (uids : List Nat) : Unmentioned (d.without uids).db uid :=
  ⟨h.comments, h.bases, h.votes, h.comaintainers, h.requests, h.notifications, h.proposals,
    h.ballots⟩

/-- One statement deletes the accounts of its batch, and they go alone. -/
theorem deleteUsers_of_unmentioned {batch : List Nat} {d : Database}
    (h : ∀ uid ∈ batch, Unmentioned d.db uid) : d.deleteUsers batch = d.without batch := by
  induction batch generalizing d with
  | nil => exact d.without_nil.symm
  | cons uid batch ih =>
      show (d.deleteUser uid).deleteUsers batch = _
      rw [deleteUser_of_unmentioned (h uid (by simp)),
        ih fun v hv => (h v (by simp [hv])).without [uid], Database.without_append]
      rfl

/-- The batches add up to the list they are cut from. -/
theorem deleteBatches_of_unmentioned {uids : List Nat} {d : Database} {deleted : Nat}
    (h : ∀ uid ∈ uids, Unmentioned d.db uid) :
    (deleteBatches d deleted uids).2 = d.without uids := by
  induction d, deleted, uids using deleteBatches.induct with
  | case1 d deleted =>
      rw [deleteBatches, Database.without_nil]
  | case2 d deleted uid uids batch ih =>
      have hbatch : d.deleteUsers batch = d.without batch :=
        deleteUsers_of_unmentioned fun v hv => h v (List.mem_of_mem_take hv)
      rw [deleteBatches]
      show (deleteBatches (d.deleteUsers batch) _ _).2 = _
      rw [hbatch] at ih ⊢
      rw [ih fun v hv => (h v (List.mem_of_mem_drop hv)).without batch, Database.without_append,
        List.take_append_drop]

theorem unmentioned_of_expired {cfg : Config} {db : Db} {now uid : Nat}
    (h : uid ∈ AccountMaint.expired cfg db now) : Unmentioned db uid := by
  obtain ⟨u, hu, rfl⟩ := List.mem_map.mp h
  have hdoomed := (List.mem_filter.mp hu).2
  simp only [AccountMaint.doomed, Bool.and_eq_true, Bool.not_eq_true'] at hdoomed
  exact unmentioned_of_not_ownsContent hdoomed.1.2

/--
**The script takes nothing but what registration made**: from every database a run of its
deletion arrives at the same one without the accounts it has selected and their sessions,
accepted terms and keys, and that is so because an account that the filter lets through is
referred to from nowhere else.
-/
theorem delete_takes_registrations (cfg : Config) (d : Database) (now : Nat) (dryRun : Bool) :
    (∀ uid, ownsContent d.db uid = false → d.deleteUser uid = d.without [uid]) ∧
      (delete cfg d now dryRun).2 =
        d.without (if dryRun then [] else AccountMaint.expired cfg d.db now) := by
  refine ⟨fun uid huid => deleteUser_of_unmentioned (unmentioned_of_not_ownsContent huid), ?_⟩
  unfold delete
  cases dryRun with
  | true => exact d.without_nil.symm
  | false => exact deleteBatches_of_unmentioned fun uid huid => unmentioned_of_expired huid

/-! ### The page -/

/-- A comment, without the account. -/
def forgetInComment (uid : Nat) (c : PackageComment) : PackageComment :=
  { c with
    usersID := Db.setNull uid c.usersID
    editedUsersID := Db.setNull uid c.editedUsersID
    delUsersID := Db.setNull uid c.delUsersID }

/-- A package base, without the account. -/
def forgetInBase (uid : Nat) (b : PackageBase) : PackageBase :=
  { b with
    flaggerUID := Db.setNull uid b.flaggerUID
    submitterUID := Db.setNull uid b.submitterUID
    maintainerUID := Db.setNull uid b.maintainerUID
    packagerUID := Db.setNull uid b.packagerUID }

/-- A request, without the account. -/
def forgetInRequest (uid : Nat) (r : PackageRequest) : PackageRequest :=
  { r with usersID := Db.setNull uid r.usersID, closedUID := Db.setNull uid r.closedUID }

/-- Everything but the account and what is its own survives: comments, package bases and
requests are all there, at most with a reference cleared, votes, comaintainers, notifications,
sessions and keys are those of everyone else, and what is not listed, with the packages, the
proposals and the votes on them, is as it was. -/
structure SparesOthers (uid : Nat) (d d' : Database) : Prop where
  users : d'.db.users = Table.delete (·.id == uid) d.db.users
  comments : d'.db.packageComments = d.db.packageComments.map (forgetInComment uid)
  bases : d'.db.packageBases = d.db.packageBases.map (forgetInBase uid)
  requests : d'.db.packageRequests = d.db.packageRequests.map (forgetInRequest uid)
  votes : d'.db.packageVotes = Table.delete (·.usersID == uid) d.db.packageVotes
  comaintainers :
    d'.db.packageComaintainers = Table.delete (·.usersID == uid) d.db.packageComaintainers
  notifications :
    d'.db.packageNotifications = Table.delete (·.userID == uid) d.db.packageNotifications
  rest : d'.db = { d.db with
    users := d'.db.users
    packageComments := d'.db.packageComments
    packageBases := d'.db.packageBases
    packageRequests := d'.db.packageRequests
    packageVotes := d'.db.packageVotes
    packageComaintainers := d'.db.packageComaintainers
    packageNotifications := d'.db.packageNotifications }
  sessions : d'.sessions = Table.delete (·.usersID == uid) d.sessions
  sshPubKeys : d'.sshPubKeys = Table.delete (·.userID == uid) d.sshPubKeys

/-- What the route has checked by the time it deletes. -/
theorem accountDeleteCheck_ok {cfg : Config} {db : Db} {user target : User} {name : String}
    {confirm validPassword : Bool}
    (h : accountDeleteCheck cfg db user name confirm validPassword = .ok target) :
    userNamed cfg db name = some target ∧
      hasCredential user .accountEdit [some target.id] = true ∧
      (∀ v ∈ db.votes, v.userID ≠ target.id) ∧
      (∀ v ∈ db.voteInfo, v.submitterID ≠ target.id) ∧
      ∀ t ∈ db.acceptedTerms, t.usersID ≠ target.id := by
  unfold accountDeleteCheck at h
  split at h
  · exact absurd h (by simp)
  rename_i u hu
  split at h
  · exact absurd h (by simp)
  rename_i hcred
  split at h
  · exact absurd h (by simp)
  split at h
  · exact absurd h (by simp)
  split at h
  · exact absurd h (by simp)
  rename_i hvotes
  split at h
  · exact absurd h (by simp)
  rename_i hrest
  obtain rfl := Except.ok.inj h
  simp only [Bool.or_eq_true, List.any_eq_true, beq_iff_eq, not_or, not_exists, not_and]
    at hvotes hrest
  exact ⟨hu, by simpa using hcred, hvotes, hrest.1, hrest.2⟩

/-- A comment whose deleter has been cleared stays. -/
theorem comments_deleteAccount (db : Db) (uid : Nat) :
    (deleteAccount db uid).packageComments = db.packageComments.map (forgetInComment uid) := by
  have hcleared : ∀ c ∈ Table.update (·.delUsersID == some uid)
      (fun c => { c with delUsersID := none }) db.packageComments,
      (c.delUsersID == some uid) = false := by
    intro c hc
    obtain ⟨c₀, -, rfl⟩ := Table.mem_update.mp hc
    split
    · rfl
    · rename_i hother
      exact Bool.eq_false_iff.mpr hother
  show (Table.delete (·.delUsersID == some uid) (Table.update _ _ db.packageComments)).map _ = _
  rw [Table.delete_eq_self hcleared, Table.update, List.map_map]
  refine List.map_congr_left fun c _ => ?_
  by_cases hdel : c.delUsersID = some uid <;>
    simp [forgetInComment, Db.setNull, hdel]

theorem deleteAccount_spares {d : Database} {uid : Nat}
    (hvotes : ∀ v ∈ d.db.votes, v.userID ≠ uid)
    (hproposals : ∀ v ∈ d.db.voteInfo, v.submitterID ≠ uid)
    (hterms : ∀ t ∈ d.db.acceptedTerms, t.usersID ≠ uid) :
    SparesOthers uid d (d.deleteAccount uid) where
  users := rfl
  comments := comments_deleteAccount d.db uid
  bases := rfl
  requests := rfl
  votes := rfl
  comaintainers := rfl
  notifications := rfl
  rest := by
    have hkept : (deleteAccount d.db uid).voteInfo = d.db.voteInfo :=
      Table.delete_eq_self fun v hv => beq_false_of_ne (hproposals v hv)
    have hballots : (deleteAccount d.db uid).votes = d.db.votes := by
      refine Table.delete_eq_self fun v hv => ?_
      rw [Bool.or_eq_false_iff]
      refine ⟨beq_false_of_ne (hvotes v hv), List.any_eq_false.mpr fun w hw => ?_⟩
      simp [hproposals w hw]
    have haccepted : (deleteAccount d.db uid).acceptedTerms = d.db.acceptedTerms :=
      Table.delete_eq_self fun t ht => beq_false_of_ne (hterms t ht)
    show deleteAccount d.db uid = { d.db with
      users := (deleteAccount d.db uid).users
      packageComments := (deleteAccount d.db uid).packageComments
      packageBases := (deleteAccount d.db uid).packageBases
      packageRequests := (deleteAccount d.db uid).packageRequests
      packageVotes := (deleteAccount d.db uid).packageVotes
      packageComaintainers := (deleteAccount d.db uid).packageComaintainers
      packageNotifications := (deleteAccount d.db uid).packageNotifications }
    dsimp only
    rw [← hkept, ← hballots, ← haccepted]
    rfl
  sessions := rfl
  sshPubKeys := rfl

/--
**The page takes nothing that is somebody else's.**  A submission changes nothing, or the
account it names, which the visitor may edit, is gone with what is its own, and every row of
others is there, at most with a reference to the account cleared.
-/
theorem accountDeletePost_spares (cfg : Config) (d : Database) (user : User) (name : String)
    (confirm validPassword : Bool) :
    (accountDeletePost cfg d user name confirm validPassword).2 = d ∨
      ∃ target ∈ d.db.users, cfg.sameName target.username name = true ∧
        hasCredential user .accountEdit [some target.id] = true ∧
        SparesOthers target.id d (accountDeletePost cfg d user name confirm validPassword).2 := by
  unfold accountDeletePost
  split
  · exact Or.inl rfl
  rename_i target hcheck
  obtain ⟨hnamed, hcred, hvotes, hproposals, hterms⟩ := accountDeleteCheck_ok hcheck
  obtain ⟨hmem, hname⟩ := userNamed_mem hnamed
  exact Or.inr ⟨target, hmem, hname, hcred, deleteAccount_spares hvotes hproposals hterms⟩

end Aurweb.AccountDeletion
