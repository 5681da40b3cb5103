/-
Overlapping votes and the counter.

A commit that still finds what its check found is one of the transactions the site is made
of, and leaves the counter right.  So does every commit on the web, whatever it finds, and
a vote over SSH, which the unique index turns away.  That leaves the commit of an unvote
over SSH whose row has gone: it takes one from the counter and nothing from the table.
-/
import Aurweb.VoteRequests
import Aurweb.Proofs.Votes

namespace Aurweb.VoteRequests

variable {cfg : Config} {db : Db}

/-- With nothing in between, a request does what the route or the command does. -/
theorem handle_eq (cfg : Config) (db : Db) (now : Nat) (r : Request) :
    handle cfg db now r = ((check cfg db r).map (commit db now)).getD db := by
  cases r with
  | web action uid name =>
      cases hu : db.user? uid with
      | none => simp [handle, check, hu]
      | some user =>
          cases hbase : baseNamed cfg db name with
          | none =>
              cases action <;>
                simp [handle, check, hu, pkgbaseVote, pkgbaseUnvote, getPkgOrBase, hbase]
          | some base =>
              cases action <;> by_cases hcred : hasCredential user .pkgbaseVote [] = true <;>
                by_cases hvoted : hasPackageVote db base.id user.id = true <;>
                simp [handle, check, hu, pkgbaseVote, pkgbaseUnvote, getPkgOrBase, hbase, hcred,
                  hvoted, Action.allowed, commit]
  | ssh action user pkgbase =>
      cases hbase : baseNamed cfg db pkgbase with
      | none =>
          cases action <;>
            simp [handle, check, GitServe.pkgbaseVote, GitServe.pkgbaseUnvote,
              GitServe.withPkgbase, hbase, GitServe.failed]
      | some base =>
          cases huser : userNamed cfg db user with
          | none =>
              cases action <;>
                simp [handle, check, GitServe.pkgbaseVote, GitServe.pkgbaseUnvote,
                  GitServe.withPkgbase, hbase, GitServe.withUser, huser]
          | some u =>
              cases action <;> by_cases hvoted : hasPackageVote db base.id u.id = true <;>
                simp [handle, check, GitServe.pkgbaseVote, GitServe.pkgbaseUnvote,
                  GitServe.withPkgbase, hbase, GitServe.withUser, huser, hvoted, GitServe.failed,
                  Action.allowed, commit]

/-! ### One commit -/

/-- An unvote over SSH whose row has gone since it was checked. -/
def Ballot.Misses (b : Ballot) (db : Db) : Prop :=
  b.interface = .ssh ∧ b.action = .unvote ∧ hasPackageVote db b.baseID b.uid = false

/-- A commit that takes one from a counter that is zero. -/
def Ballot.Underflows (b : Ballot) (db : Db) : Prop :=
  b.interface = .ssh ∧ b.action = .unvote ∧ GitServe.underflows db b.baseID = true

theorem baseKeys_commit (db : Db) (now : Nat) (b : Ballot) :
    (commit db now b).baseKeys = db.baseKeys := by
  unfold commit GitServe.commitVote GitServe.commitUnvote
  repeat' split
  all_goals first | rfl | exact baseKeys_updatePackageBase fun _ => ⟨rfl, rfl⟩

theorem commit_writes {may : May} (hwf : WellFormed cfg db) {b : Ballot} {base : PackageBase}
    (hbase : base ∈ db.packageBases) (hid : base.id = b.baseID) (hfound : ¬b.Misses db)
    (now : Nat) : Writes cfg may db (commit db now b) := by
  unfold commit
  split
  · rw [← hid]
    exact GitServe.commitVote_writes hwf hbase b.uid now
  · rename_i hssh hunvote
    refine GitServe.commitUnvote_writes hwf b.baseID b.uid ?_
    by_contra hnone
    exact hfound ⟨hssh, hunvote, by simpa using hnone⟩
  · split
    · exact Relation.ReflTransGen.refl
    · rename_i hnone
      rw [Bool.not_eq_true, ← hid] at hnone
      rw [← hid]
      obtain ⟨hbases, hunique, hother⟩ := insertVote_ok hwf hbase now hnone
      exact popupdate_writes hbases hunique hother
  · obtain ⟨hbases, hunique, hother⟩ := deleteVotes_ok hwf b.baseID b.uid
    exact popupdate_writes hbases hunique hother

theorem counted_commit (hwf : WellFormed cfg db) (h : Counted db) {b : Ballot}
    {base : PackageBase} (hbase : base ∈ db.packageBases) (hid : base.id = b.baseID)
    (hfound : ¬b.Misses db) (now : Nat) :
    WellFormed cfg (commit db now b) ∧ Counted (commit db now b) := by
  have hw : Writes cfg (scriptMay fun _ => False) db (commit db now b) :=
    commit_writes hwf hbase hid hfound now
  refine hw.keeps (P := fun db => WellFormed cfg db ∧ Counted db) ?_ ⟨hwf, h⟩
  intro db₁ db₂ hw hold
  exact ⟨hw.wellFormed hold.1, hold.2.write id hold.1 hw⟩

theorem not_underflows (h : Counted db) {b : Ballot}
    (hfound : ¬b.Misses db) : ¬b.Underflows db := by
  rintro ⟨hssh, hunvote, hzero⟩
  obtain ⟨base, hbase, hcond⟩ := List.any_eq_true.mp hzero
  simp only [Bool.and_eq_true, beq_iff_eq] at hcond
  have hnone : votesOf db base.id = 0 := (h base hbase).symm.trans hcond.2
  refine hfound ⟨hssh, hunvote, List.any_eq_false.mpr fun v hv hvoted => ?_⟩
  have hcount := List.countP_eq_zero.mp hnone v hv
  simp only [Bool.and_eq_true, beq_iff_eq] at hvoted
  exact hcount (by simp [hvoted.1, hcond.1])

/-- The counter is one short afterwards, if it is not below zero. -/
theorem not_counted_of_misses (h : Counted db) {b : Ballot} {base : PackageBase}
    (hbase : base ∈ db.packageBases) (hid : base.id = b.baseID) (hmiss : b.Misses db)
    (hroom : ¬b.Underflows db) (now : Nat) : ¬Counted (commit db now b) := by
  obtain ⟨hssh, hunvote, hnone⟩ := hmiss
  have hfull : GitServe.underflows db b.baseID = false := by
    by_contra hzero
    exact hroom ⟨hssh, hunvote, by simpa using hzero⟩
  have hpos : base.numVotes ≠ 0 := by
    intro hzero
    have hany := List.any_eq_false.mp hfull base hbase
    simp [hid, hzero] at hany
  intro hcounted
  unfold commit at hcounted
  simp only [hssh, hunvote, GitServe.commitUnvote, hfull, Bool.false_eq_true, if_false] at hcounted
  have hsame : Table.delete (fun v => v.packageBaseID == b.baseID && v.usersID == b.uid)
      db.packageVotes = db.packageVotes :=
    Table.delete_eq_self fun v hv => by simpa using List.any_eq_false.mp hnone v hv
  have hnow := hcounted _ (Table.mem_update.mpr ⟨base, hbase, rfl⟩)
  have hbefore := h base hbase
  simp only [hid, beq_self_eq_true, if_true, votesOf, GitServe.finished, Db.updatePackageBase,
    hsame] at hnow hbefore
  omega

/-! ### Every run -/

/-- Every counter is right, and every ballot is about a base that is there. -/
structure Sound (cfg : Config) (s : Polls) : Prop where
  wellFormed : WellFormed cfg s.db
  counted : Counted s.db
  bases : ∀ b ∈ s.inFlight, ∃ base ∈ s.db.packageBases, base.id = b.baseID

/-- The event is the commit of a ballot that `P` holds of. -/
def Commits (P : Ballot → Db → Prop) (s : Polls) : Event → Prop
  | .check _ => False
  | .commit i _ => ∃ b, s.inFlight[i]? = some b ∧ P b s.db

theorem check_base {r : Request} {b : Ballot} (h : check cfg db r = some b) :
    ∃ base ∈ db.packageBases, base.id = b.baseID := by
  cases r with
  | web action uid name =>
      simp only [check] at h
      split at h
      · rename_i user base _ hbase
        split at h
        · obtain rfl := Option.some.inj h
          exact ⟨base, (baseNamed_mem hbase).1, rfl⟩
        · cases h
      · cases h
  | ssh action user pkgbase =>
      simp only [check] at h
      split at h
      · rename_i base u hbase _
        split at h
        · obtain rfl := Option.some.inj h
          exact ⟨base, (baseNamed_mem hbase).1, rfl⟩
        · cases h
      · cases h

theorem sound_step {s : Polls} {e : Event} (h : Sound cfg s)
    (hfound : ¬Commits Ballot.Misses s e) : Sound cfg (step cfg s e) := by
  cases e with
  | check r =>
      unfold step
      simp only
      cases hchecked : check cfg s.db r with
      | none => exact h
      | some b =>
          refine ⟨h.wellFormed, h.counted, fun b' hb' => ?_⟩
          rcases List.mem_append.mp hb' with hb' | hb'
          · exact h.bases b' hb'
          · rw [List.mem_singleton.mp hb']
            exact check_base hchecked
  | commit i now =>
      unfold step
      simp only
      cases hi : s.inFlight[i]? with
      | none => exact h
      | some b =>
          obtain ⟨base, hbase, hid⟩ := h.bases b (List.mem_of_getElem? hi)
          obtain ⟨hwf, hcounted⟩ := counted_commit h.wellFormed h.counted hbase hid
            (fun hmiss => hfound ⟨b, hi, hmiss⟩) now
          refine ⟨hwf, hcounted, fun b' hb' => ?_⟩
          obtain ⟨base', hbase', hid'⟩ := h.bases b' (List.mem_of_mem_eraseIdx hb')
          have hkey : (base'.id, base'.name) ∈ (commit s.db now b).baseKeys := by
            rw [baseKeys_commit]
            exact List.mem_map_of_mem hbase'
          obtain ⟨base'', hbase'', heq⟩ := List.mem_map.mp hkey
          exact ⟨base'', hbase'', (Prod.mk.inj heq).1.trans hid'⟩

theorem sound_step_iff {s : Polls} {e : Event} (h : Sound cfg s) :
    (¬Commits Ballot.Underflows s e ∧ Counted (step cfg s e).db) ↔
      ¬Commits Ballot.Misses s e := by
  constructor
  · rintro ⟨hroom, hcounted⟩ hmisses
    cases e with
    | check r => exact hmisses
    | commit i now =>
        obtain ⟨b, hi, hmiss⟩ := hmisses
        obtain ⟨base, hbase, hid⟩ := h.bases b (List.mem_of_getElem? hi)
        have hstep : (step cfg s (.commit i now)).db = commit s.db now b := by
          simp only [step, hi]
        rw [hstep] at hcounted
        exact not_counted_of_misses h.counted hbase hid hmiss
          (fun hunder => hroom ⟨b, hi, hunder⟩) now hcounted
  · intro hfound
    refine ⟨fun hunder => ?_, (sound_step h hfound).counted⟩
    cases e with
    | check r => exact hunder
    | commit i now =>
        obtain ⟨b, hi, hunder⟩ := hunder
        exact not_underflows h.counted (fun hmiss => hfound ⟨b, hi, hmiss⟩) hunder

/--
**Overlapping votes are counted**, and no counter goes below zero, exactly when no unvote
over SSH commits after its row has gone: the counters are then right in every state, and so
they are whenever all requests have finished.
-/
theorem counted_iff_found (cfg : Config) (s : Polls) (es : List Event) (h : Sound cfg s) :
    (Run.Along (step cfg) (fun s => Counted s.db) s es ∧
        Run.Guarded (step cfg) (fun s e => ¬Commits Ballot.Underflows s e) s es) ↔
      Run.Guarded (step cfg) (fun s e => ¬Commits Ballot.Misses s e) s es := by
  induction es generalizing s with
  | nil => simpa using h.counted
  | cons e es ih =>
      constructor
      · rintro ⟨⟨-, hcounted⟩, hroom, hrooms⟩
        have hfound := (sound_step_iff h).mp ⟨hroom, hcounted.head⟩
        exact ⟨hfound, (ih _ (sound_step h hfound)).mp ⟨hcounted, hrooms⟩⟩
      · rintro ⟨hfound, hrest⟩
        obtain ⟨hcounted, hrooms⟩ := (ih _ (sound_step h hfound)).mpr hrest
        exact ⟨⟨h.counted, hcounted⟩, ((sound_step_iff h).mpr hfound).1, hrooms⟩

/-- `alice` and `bob` vote for `foo`, each over another interface. -/
def bothVote : List Event :=
  [.check (.ssh .vote "alice" "foo"), .check (.web .vote 2 "foo"), .commit 1 10, .commit 0 11]

theorem sound_smallSite : Sound siteConfig { db := smallSite, inFlight := [] } :=
  ⟨smallSite_wellFormed, by decide, by simp⟩

theorem counted_iff_found_bothVote :
    (Run.Along (step siteConfig) (fun s => Counted s.db) { db := smallSite, inFlight := [] }
          bothVote ∧
        Run.Guarded (step siteConfig) (fun s e => ¬Commits Ballot.Underflows s e)
          { db := smallSite, inFlight := [] } bothVote) ↔
      Run.Guarded (step siteConfig) (fun s e => ¬Commits Ballot.Misses s e)
        { db := smallSite, inFlight := [] } bothVote :=
  counted_iff_found siteConfig _ bothVote sound_smallSite

/-- `alice` takes her vote back twice at once. -/
def unvoteTwice : List Event :=
  [.check (.ssh .unvote "alice" "foo"), .check (.ssh .unvote "alice" "foo"), .commit 0 12,
    .commit 0 13]

/-- Two votes are counted and one row is left, with a counter of zero. -/
theorem unvoted_twice :
    let finished := Run.exec (step siteConfig) { db := smallSite, inFlight := [] }
      (bothVote ++ unvoteTwice)
    finished.inFlight = [] ∧ finished.db.packageBases.map (·.numVotes) = [0] ∧
      votesOf finished.db 4 = 1 := by
  decide +kernel

end Aurweb.VoteRequests
