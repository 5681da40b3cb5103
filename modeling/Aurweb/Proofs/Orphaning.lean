/-
Orphan requests that are granted on the spot.

Somebody who disowns a base in answer to an orphan request leaves nothing behind: no
maintainer, no comaintainers, and none of the orphan requests.  The route that files a
request grants it by itself for a base that was flagged long ago, with statements of its
own.  They forget the comaintainers and the other requests, and they forget the closing
time of the very request they accept, which is why the two never end in the same state.
-/
import Aurweb.Proofs.Disowning

namespace Aurweb

/-- What an accepted orphan request leaves: nobody works on the base, and whoever asked for
that has been answered. -/
structure Released (db db' : Db) (b : PackageBase) : Prop where
  maintainer : (custody db' b.id).maintainer = none
  line : (custody db' b.id).line = []
  closed : ∀ r ∈ db'.packageRequests, r.id ∈ orphanRequests db b →
    r.status ≠ .pending ∧ r.closedTS.isSome

/-- A base and the requests, without who closed a request, when, and with which comment. -/
structure Settlement where
  maintainer : Option Nat
  line : List Nat
  /-- Whether it has a closing time is the last column. -/
  requests : List (Nat × RequestStatus × Bool)
  deriving DecidableEq

def settlement (db : Db) (id : Nat) : Settlement where
  maintainer := (custody db id).maintainer
  line := (custody db id).line
  requests := db.packageRequests.map fun r => (r.id, r.status, r.closedTS.isSome)

section

variable {cfg : Config} {db : Db} {user : User} {b : PackageBase} {now : Nat}

/-- Somebody who does not work on the base answers its orphan requests. -/
theorem released_of_disown (hwf : WellFormed cfg db) {name : String}
    (hnamed : baseNamed cfg db name = some b) (hm : b.maintainerUID ≠ some user.id)
    (hco : ¬isComaintainer db b.id user.id = true) (hel : user.isElevated = true)
    (hdue : verifyOrphanRequest cfg db b now = true) {comments : String}
    (hcomment : optionalComment cfg comments = .ok ()) (next : String) :
    Released db (pkgbaseDisownPost cfg db user name comments true next now).2 b := by
  have hcred : hasCredential user .pkgbaseDisown
      (b.maintainerUID :: comaintainerIDs db b.id) = true := by
    by_contra hdenied
    exact (strange_of_denied hdenied).2.2 hel
  obtain ⟨commented, hwf', hcolumns, heq⟩ :=
    pkgbaseDisownPost_snd hwf hnamed hcomment next now hcred
  have hb := (baseNamed_mem hnamed).1
  have hdue' := (verifyOrphanRequest_congr hcolumns b).trans hdue
  obtain ⟨rows, hrequest, -, hclosed⟩ := handleRequest_orphan hwf' user hb hdue'
  have hafter : (pkgbaseDisownPost cfg db user name comments true next now).2 =
      orphan { db with packageRequests := rows } b.id := by
    rw [heq]
    unfold pkgbaseDisownInstance
    rw [if_neg hm]
    rw [if_neg (show ¬isComaintainer { db with packageRequests := commented } b.id user.id = true
      from hco)]
    rw [if_pos ((hasCredential_elevated rfl).trans hel), hrequest]
    rfl
  have hrow := packageBase?_of_mem hwf hb
  have hrow' : Db.packageBase? { db with packageRequests := rows } b.id = some b := hrow
  rw [hafter]
  constructor
  · rw [custody_orphan hrow']
    rfl
  · rw [custody_orphan hrow']
    rfl
  · intro r hr hid
    rw [← orphanRequests_congr hcolumns] at hid
    exact hclosed r hr hid

/-- All that a request granted on the spot does to the base and the requests. -/
theorem custody_autoOrphan (hb : db.packageBase? b.id = some b) (reqID : Nat) :
    custody (autoOrphan db b.id reqID) b.id =
      { custody db b.id with maintainer := none }.settle {reqID} := by
  have hmaintainer : (custody (setMaintainer db b.id none) b.id).maintainer = none := by
    rw [custody_setMaintainer hb]
  have hpending : pendingIDs (autoOrphan db b.id reqID) = pendingIDs db \ {reqID} :=
    pendingIDs_update reqID fun r => ⟨rfl, by simp⟩
  exact Custody.ext hmaintainer rfl hpending

theorem pkgbaseRequestPost_autoOrphan {name type : String} {mergeInto : Option String}
    {comments : String} (user : User)
    (h : AutoOrphans cfg db name type mergeInto comments now b) :
    (pkgbaseRequestPost cfg db user name type mergeInto comments now).2 =
      autoOrphan (insertRequest db (newRequest .orphan user b mergeInto comments "" now)) b.id
        db.nextID := by
  obtain ⟨hcheck, hflagged⟩ := h
  unfold pkgbaseRequestPost
  simp only [hcheck]
  rw [if_pos ⟨trivial, hflagged⟩]

/-- The request that is granted on the spot: accepted, and without a closing time. -/
theorem granted_of_autoOrphans {name type : String} {mergeInto : Option String}
    {comments : String} (user : User)
    (h : AutoOrphans cfg db name type mergeInto comments now b) :
    ∃ r ∈ (pkgbaseRequestPost cfg db user name type mergeInto comments now).2.packageRequests,
      r.id = db.nextID ∧ r.status = .accepted ∧ r.closedTS = none := by
  rw [pkgbaseRequestPost_autoOrphan user h]
  generalize hfiled : newRequest .orphan user b mergeInto comments "" now = filed
  have hmem : { filed with id := db.nextID } ∈
      (setMaintainer (insertRequest db filed) b.id none).packageRequests :=
    List.mem_append_right _ (List.mem_singleton.mpr rfl)
  refine ⟨_, Table.mem_update.mpr ⟨_, hmem, rfl⟩, ?_⟩
  rw [if_pos (beq_self_eq_true _), ← hfiled]
  exact ⟨rfl, rfl, rfl⟩

/-- An orphan request is one of the pending ones as soon as it is filed. -/
theorem mem_orphanRequests_filed (db : Db) (user : User) (b : PackageBase)
    (mergeInto : Option String) (comments : String) (now : Nat) :
    db.nextID ∈ orphanRequests
      (insertRequest db (newRequest .orphan user b mergeInto comments "" now)) b := by
  unfold orphanRequests
  refine List.mem_toFinset.mpr (List.mem_map.mpr ⟨_, List.mem_filter.mpr
    ⟨List.mem_append_right _ (List.mem_singleton.mpr rfl), ?_⟩, rfl⟩)
  simp [newRequest, PackageRequest.concerns, PackageRequest.isPending]

theorem wellFormed_filed (hwf : WellFormed cfg db) (hb : b ∈ db.packageBases) (user : User)
    (mergeInto : Option String) (comments : String) (now : Nat) :
    WellFormed cfg (insertRequest db (newRequest .orphan user b mergeInto comments "" now)) := by
  have hfiled : Writes cfg (scriptMay fun _ => False) db
      (insertRequest db (newRequest .orphan user b mergeInto comments "" now)) :=
    file_writes (Present.of_mem hb) mergeInto comments "" nofun
  exact hfiled.wellFormed hwf

/-- A request without a closing time has not been answered. -/
theorem Released.closed_ne {filed db' : Db} (h : Released filed db' b) {r : PackageRequest}
    (hr : r ∈ db'.packageRequests) (hrequested : r.id ∈ orphanRequests filed b) :
    r.closedTS.isSome ≠ false := by
  rw [(h.closed r hr hrequested).2]
  exact nofun

/-- The closing time of one request tells the two apart. -/
theorem settlement_ne {filed granted answered : Db} (h : Released filed answered b)
    {r : PackageRequest} (hr : r ∈ granted.packageRequests)
    (hrequested : r.id ∈ orphanRequests filed b) (hopen : r.closedTS = none) :
    settlement granted b.id ≠ settlement answered b.id := by
  intro heq
  have hrow : (r.id, r.status, r.closedTS.isSome) ∈ (settlement granted b.id).requests :=
    List.mem_map.mpr ⟨r, hr, rfl⟩
  rw [heq] at hrow
  obtain ⟨r', hr', hcolumns⟩ := List.mem_map.mp hrow
  have hid : r'.id = r.id := congrArg (·.1) hcolumns
  have hopen' : r'.closedTS.isSome = r.closedTS.isSome := congrArg (·.2.2) hcolumns
  rw [hopen] at hopen'
  exact h.closed_ne hr' (hid ▸ hrequested) hopen'

/--
**A request that is granted on the spot never ends like one that is answered.**  On every base
that was flagged long enough ago, an elevated account that does not work on it and disowns it
once the request is due leaves it released; the route that grants the request keeps the
comaintainers and the other requests, and gives its own no closing time.
-/
theorem not_released_on_the_spot (cfg : Config) (db : Db) (user : User) (name type : String)
    (mergeInto : Option String) (comments : String) (now : Nat) (b : PackageBase)
    (hwf : WellFormed cfg db) (h : AutoOrphans cfg db name type mergeInto comments now b) :
    let filed := insertRequest db (newRequest .orphan user b mergeInto comments "" now)
    let granted := (pkgbaseRequestPost cfg db user name type mergeInto comments now).2
    custody granted b.id = { custody filed b.id with maintainer := none }.settle {db.nextID} ∧
      ¬Released filed granted b ∧
      ∀ (pm : User) (closing next : String) (later : Nat), pm.isElevated = true →
        b.maintainerUID ≠ some pm.id → ¬isComaintainer db b.id pm.id = true →
        verifyOrphanRequest cfg filed b later = true → optionalComment cfg closing = .ok () →
        let answered := (pkgbaseDisownPost cfg filed pm name closing true next later).2
        Released filed answered b ∧ settlement granted b.id ≠ settlement answered b.id := by
  intro filed granted
  obtain ⟨r, hr, hid, -, hopen⟩ := granted_of_autoOrphans user h
  have hnamed := (requestCheck_ok h.1).1
  have hb := (baseNamed_mem hnamed).1
  have hwf' : WellFormed cfg filed := wellFormed_filed hwf hb user mergeInto comments now
  have hrequested : r.id ∈ orphanRequests filed b := by
    rw [hid]
    exact mem_orphanRequests_filed db user b mergeInto comments now
  refine ⟨?_, ?_, ?_⟩
  · show custody (pkgbaseRequestPost cfg db user name type mergeInto comments now).2 b.id = _
    rw [pkgbaseRequestPost_autoOrphan user h]
    exact custody_autoOrphan (packageBase?_of_mem hwf' hb) db.nextID
  · intro hreleased
    exact hreleased.closed_ne hr hrequested (by rw [hopen]; rfl)
  · intro pm closing next later hel hm hco hdue hcomment answered
    have hreleased : Released filed answered b :=
      released_of_disown hwf' hnamed hm hco hel hdue hcomment next
    exact ⟨hreleased, settlement_ne hreleased hr hrequested hopen⟩

end

/-- `foo`, which `carol` maintains. -/
def fooBase : PackageBase := smallSite.packageBases.head (by simp [smallSite])

/-- The second time that `alice`, who works on `foo` herself, asks for it to be orphaned. -/
def askedAgain : Db := insertRequest sharedSite
  (newRequest .orphan (account 1 .user "alice") fooBase none "no updates" "" 17280000)

/-- `bob` answers a month later. -/
theorem not_released_on_the_spot_bob :
    let granted := (pkgbaseRequestPost siteConfig sharedSite (account 1 .user "alice") "foo"
      "orphan" none "no updates" 17280000).2
    let answered := (pkgbaseDisownPost siteConfig askedAgain (account 2 .packageMaintainer "bob")
      "foo" "" true "" 20000000).2
    ¬Released askedAgain granted fooBase ∧ Released askedAgain answered fooBase ∧
      settlement granted 4 ≠ settlement answered 4 := by
  have hwf : WellFormed siteConfig sharedSite := wellFormed_exec smallSite_wellFormed _
  obtain ⟨-, hgranted, hanswered⟩ := not_released_on_the_spot siteConfig sharedSite
    (account 1 .user "alice") "foo" "orphan" none "no updates" 17280000 fooBase hwf
    ⟨by decide +kernel, by decide +kernel⟩
  exact ⟨hgranted, hanswered (account 2 .packageMaintainer "bob") "" "" 20000000
    (by decide +kernel) (by decide +kernel) (by decide +kernel) (by decide +kernel) rfl⟩

theorem settlement_differs_bob :
    settlement (pkgbaseRequestPost siteConfig sharedSite (account 1 .user "alice") "foo" "orphan"
        none "no updates" 17280000).2 4 ≠
      settlement (pkgbaseDisownPost siteConfig askedAgain (account 2 .packageMaintainer "bob")
        "foo" "" true "" 20000000).2 4 := by
  decide +kernel

end Aurweb
