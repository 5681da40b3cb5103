/-
What a proposal's tallies can be relied on for.

Two properties of the vote page, and for both the exact condition under which the
handler provides it.  A vote that has ended keeps its record exactly when no eligible
voter submits the form any more, since the POST handler never asks whether the vote
is still running.  The tallies add up to the number of votes, one per user, exactly
when every commit still finds the tally it read and no vote of its user, since the
check and the write are not one step.

Both come from the same two facts: `proposalCheck_ok` says when a request gets
through, and `proposalCommit` is the only write.
-/
import Aurweb.Proposals
import Mathlib.Data.List.Nodup

namespace Aurweb.Proposals

/-! ### When a request gets through -/

theorem pmListVotes_of_pmVote {user : User} (h : hasCredential user .pmVote [] = true) :
    hasCredential user .pmListVotes [] = true := by
  rcases user with ⟨_, accountType⟩
  cases accountType <;> simp_all [hasCredential, credFilters, packageMaintainer,
    packageMaintainerOrDev]

/-- The request would be counted: its user may vote, is not the subject, has not voted
yet and chose one of the three decisions. -/
def casts (db : Db) (r : VoteRequest) : Bool :=
  match db.user? r.userID, voteInfo? db r.proposal with
  | some user, some v =>
      hasCredential user .pmVote [] && v.user != user.username &&
        !hasVoted db user.id r.proposal && (Decision.ofString r.decision).isSome
  | _, _ => false

/-- **What passes the checks**, and what it carries into the transaction. -/
theorem proposalCheck_ok {db : Db} {user : User} {proposal now : Nat} {decision : String}
    {b : Ballot} :
    proposalCheck db user proposal decision now = .ok b ↔
      ∃ v d, voteInfo? db proposal = some v ∧ hasCredential user .pmVote [] = true ∧
        v.user ≠ user.username ∧ hasVoted db user.id proposal = false ∧
        Decision.ofString decision = some d ∧
        b = { userID := user.id, proposal, decision := d, read := tally v d } := by
  unfold proposalCheck
  by_cases hlist : hasCredential user .pmListVotes [] = true
  · cases hv : voteInfo? db proposal with
    | none => simp [hlist]
    | some v =>
        by_cases hvote : hasCredential user .pmVote [] = true
        · by_cases hsub : v.user = user.username
          · simp [hlist, hvote, hsub]
          · by_cases hvoted : hasVoted db user.id proposal = true
            · simp [hlist, hvote, hsub, hvoted]
            · cases hd : Decision.ofString decision with
              | none => simp [hlist, hvote, hsub, hvoted]
              | some d => simp [hlist, hvote, hsub, hvoted, eq_comm]
        · simp [hlist, hvote]
  · have hvote : hasCredential user .pmVote [] = false := by
      by_contra hc
      exact hlist (pmListVotes_of_pmVote (by simpa using hc))
    simp [hlist, hvote]

theorem casts_iff {db : Db} {r : VoteRequest} :
    casts db r = true ↔ ∃ user b, db.user? r.userID = some user ∧
      proposalCheck db user r.proposal r.decision r.now = .ok b := by
  unfold casts
  cases hu : db.user? r.userID with
  | none => simp
  | some user =>
      cases hv : voteInfo? db r.proposal with
      | none => simp [proposalCheck_ok, hv]
      | some v =>
          cases hd : Decision.ofString r.decision <;>
            simp [proposalCheck_ok, hv, hd, and_assoc]

/-- A request that is not counted writes nothing. -/
theorem post_of_not_casts {db : Db} {r : VoteRequest} (h : casts db r = false) :
    post db r = db := by
  unfold post
  cases hu : db.user? r.userID with
  | none => rfl
  | some user =>
      cases hc : proposalCheck db user r.proposal r.decision r.now with
      | error e => simp [packageMaintainerProposalPost, hc]
      | ok b =>
          have : casts db r = true := casts_iff.mpr ⟨user, b, hu, hc⟩
          simp [this] at h

/-- A request that is counted appends its vote. -/
theorem post_of_casts {db : Db} {r : VoteRequest} (h : casts db r = true) :
    ∃ b : Ballot, b.proposal = r.proposal ∧
      (voteInfo? db b.proposal).isSome = true ∧ (db.user? b.userID).isSome = true ∧
      post db r = proposalCommit db b := by
  obtain ⟨user, b, hu, hc⟩ := casts_iff.mp h
  have hpost : post db r = proposalCommit db b := by
    simp [post, hu, packageMaintainerProposalPost, hc]
  obtain ⟨v, d, hv, -, -, -, -, rfl⟩ := proposalCheck_ok.mp hc
  have hid : user.id = r.userID := (Db.user?_mem hu).2
  exact ⟨_, rfl, by simp [hv], by simp [hid, hu], hpost⟩

/-! ### What the write does -/

@[simp] theorem setTally_id (v : VoteInfo) (n : Nat) (d : Decision) :
    (setTally v n d).id = v.id := by
  cases d <;> rfl

/-- Replacing one tally changes the total by the difference. -/
theorem totalVotes_setTally (v : VoteInfo) (n : Nat) (d : Decision) :
    totalVotes (setTally v n d) + tally v d = totalVotes v + n := by
  cases d <;> simp [setTally, totalVotes, tally] <;> omega

theorem proposalCommit_eq {db : Db} {b : Ballot} (hv : (voteInfo? db b.proposal).isSome = true)
    (hu : (db.user? b.userID).isSome = true) :
    proposalCommit db b =
      { db with
        voteInfo := Table.update (·.id == b.proposal)
          (fun v => setTally v (b.read + 1) b.decision) db.voteInfo
        votes := db.votes ++ [{ voteID := b.proposal, userID := b.userID }] } := by
  simp [proposalCommit, hv, hu]

/-- The `Vote` rows of a proposal. -/
def votesFor (db : Db) (proposal : Nat) : List Vote :=
  db.votes.filter (·.voteID == proposal)

theorem votesFor_commit {db : Db} {b : Ballot} (hv : (voteInfo? db b.proposal).isSome = true)
    (hu : (db.user? b.userID).isSome = true) (proposal : Nat) :
    votesFor (proposalCommit db b) proposal =
      votesFor db proposal ++
        if b.proposal = proposal then [{ voteID := b.proposal, userID := b.userID }] else [] := by
  rw [proposalCommit_eq hv hu]
  by_cases hp : b.proposal = proposal <;> simp [votesFor, hp]

theorem filter_voteInfo_commit {db : Db} {b : Ballot} {proposal : Nat}
    (h : b.proposal ≠ proposal) :
    (proposalCommit db b).voteInfo.filter (·.id == proposal) =
      db.voteInfo.filter (·.id == proposal) := by
  unfold proposalCommit
  split
  · rw [Table.update, List.filter_map]
    have hfun : ((fun v : VoteInfo => v.id == proposal) ∘ fun v =>
        if (v.id == b.proposal) = true then setTally v (b.read + 1) b.decision else v)
        = fun v => v.id == proposal := by
      funext v
      by_cases hv : v.id = b.proposal <;> simp [hv]
    rw [hfun]
    refine (List.map_congr_left fun v hv => ?_).trans (List.map_id _)
    have hid : v.id = proposal := by simpa using (List.mem_filter.mp hv).2
    have hne : ¬v.id = b.proposal := fun hc => h (hc ▸ hid)
    simp [hne]
  · rfl

/-! ### A vote that has ended -/

/-- The rows a proposal's outcome is read from. -/
def Unchanged (db : Db) (proposal : Nat) (db' : Db) : Prop :=
  db'.voteInfo.filter (·.id == proposal) = db.voteInfo.filter (·.id == proposal) ∧
    votesFor db' proposal = votesFor db proposal

instance (db : Db) (proposal : Nat) : DecidablePred (Unchanged db proposal) := fun _ =>
  inferInstanceAs (Decidable (_ ∧ _))

/--
From any moment on after which every request comes at `endTS` or later, the
proposal's tallies and votes stay what they are at that moment.
-/
def StaysClosed (db : Db) (proposal endTS : Nat) (rs : List VoteRequest) : Prop :=
  ∀ pre post', rs = pre ++ post' → (∀ r ∈ post', endTS ≤ r.now) →
    Run.Along post (Unchanged (Run.exec post db pre) proposal) (Run.exec post db pre) post'

/-- One step: a request keeps the record exactly when it is not counted there. -/
theorem unchanged_post_iff {db₀ db : Db} {proposal : Nat} {r : VoteRequest}
    (h : Unchanged db₀ proposal db) :
    Unchanged db₀ proposal (post db r) ↔ ¬(r.proposal = proposal ∧ casts db r = true) := by
  by_cases hc : casts db r = true
  · obtain ⟨b, hb, hv, hu, hpost⟩ := post_of_casts hc
    rw [hpost, ← hb]
    by_cases hp : b.proposal = proposal
    · have hne : votesFor (proposalCommit db b) proposal ≠ votesFor db₀ proposal := by
        rw [votesFor_commit hv hu, if_pos hp, ← h.2]
        intro heq
        have := congrArg List.length heq
        simp at this
      exact ⟨fun hun => absurd hun.2 hne, fun hn => absurd ⟨hp, hc⟩ hn⟩
    · have hun : Unchanged db₀ proposal (proposalCommit db b) := by
        refine ⟨(filter_voteInfo_commit hp).trans h.1, ?_⟩
        rw [votesFor_commit hv hu, if_neg hp, List.append_nil]
        exact h.2
      exact ⟨fun _ hn => hp hn.1, fun _ => hun⟩
  · rw [post_of_not_casts (by simpa using hc)]
    exact ⟨fun _ hn => hc hn.2, fun _ => h⟩

theorem along_unchanged_iff {db₀ db : Db} {proposal : Nat} {rs : List VoteRequest}
    (h : Unchanged db₀ proposal db) :
    Run.Along post (Unchanged db₀ proposal) db rs ↔
      Run.Guarded post (fun s r => ¬(r.proposal = proposal ∧ casts s r = true)) db rs :=
  Run.along_iff_guarded (fun _ _ hs => unchanged_post_iff hs) h

/--
**An ended vote stays as it is exactly when no request at or after its end would be
counted.**  Requests arrive in the order of their times.
-/
theorem staysClosed_iff (db : Db) (proposal endTS : Nat) (rs : List VoteRequest)
    (hsorted : rs.Pairwise fun r r' => r.now ≤ r'.now) :
    StaysClosed db proposal endTS rs ↔
      Run.Guarded post
        (fun s r => endTS ≤ r.now → ¬(r.proposal = proposal ∧ casts s r = true)) db rs := by
  constructor
  · intro h
    induction rs generalizing db with
    | nil => trivial
    | cons r rs ih =>
        rw [List.pairwise_cons] at hsorted
        refine ⟨fun hend => ?_, ih _ hsorted.2 fun pre post' heq hlate => ?_⟩
        · have hall : ∀ r' ∈ r :: rs, endTS ≤ r'.now := by
            intro r' hr'
            rcases List.mem_cons.mp hr' with rfl | hr'
            · exact hend
            · exact Nat.le_trans hend (hsorted.1 r' hr')
          have halong := h [] (r :: rs) rfl hall
          exact ((along_unchanged_iff ⟨rfl, rfl⟩).mp halong).1
        · exact h (r :: pre) post' (by rw [heq]; rfl) hlate
  · rintro hg pre post' rfl hlate
    refine (along_unchanged_iff ⟨rfl, rfl⟩).mpr ?_
    have hpost := (Run.Guarded.append.mp hg).2
    clear hg hsorted
    induction post' generalizing pre with
    | nil => trivial
    | cons r rs ih =>
        refine ⟨hpost.1 (hlate r (by simp)), ?_⟩
        have := ih (pre ++ [r]) (fun r' hr' => hlate r' (by simp [hr']))
          (by simpa [Run.exec_append] using hpost.2)
        simpa [Run.exec_append] using this

/-- One Package Maintainer, and a proposal about someone else that ended at time 10. -/
def endedDb : Db where
  users := [{ (default : User) with id := 1, accountType := .packageMaintainer, username := "pm" }]
  voteInfo := [{ (default : VoteInfo) with id := 7, user := "candidate", endTS := 10 }]

theorem staysClosed_iff_endedDb :
    StaysClosed endedDb 7 10 [⟨1, 7, "Yes", 9⟩, ⟨1, 7, "No", 20⟩] ↔
      Run.Guarded post
        (fun s r => 10 ≤ r.now → ¬(r.proposal = 7 ∧ casts s r = true)) endedDb
        [⟨1, 7, "Yes", 9⟩, ⟨1, 7, "No", 20⟩] :=
  staysClosed_iff endedDb 7 10 _ (by decide)

/-- Ten seconds after its end the proposal still counts a vote. -/
theorem late_vote_counted : ¬StaysClosed endedDb 7 10 [⟨1, 7, "Yes", 20⟩] := by
  intro h
  have halong := h [] _ rfl (by decide)
  revert halong
  decide

/-! ### Two requests at once -/

/-- The tallies of every proposal add up to its votes, and no user has two of them. -/
def Sound (s : Polls) : Prop :=
  ∀ v ∈ s.db.voteInfo, totalVotes v = (votesFor s.db v.id).length ∧
    ((votesFor s.db v.id).map (·.userID)).Nodup

instance : DecidablePred Sound := fun s =>
  inferInstanceAs (Decidable (∀ v ∈ s.db.voteInfo, _))

/-- `VoteInfo.ID` is a primary key. -/
def Keyed (db : Db) : Prop := (db.voteInfo.map (·.id)).Nodup

instance : DecidablePred Keyed := fun db =>
  inferInstanceAs (Decidable (db.voteInfo.map (·.id)).Nodup)

/--
The commit finds what its request read: the tally of the chosen decision is still the
one it will add one to, and its user still has no vote on the proposal.
-/
def Fresh (s : Polls) : Event → Prop
  | .check _ => True
  | .commit i => ∀ b ∈ s.inFlight[i]?, ∀ v ∈ voteInfo? s.db b.proposal,
      (s.db.user? b.userID).isSome = true →
        tally v b.decision = b.read ∧ hasVoted s.db b.userID b.proposal = false

theorem voteInfo?_eq_some {db : Db} (hkey : Keyed db) {v : VoteInfo} {proposal : Nat} :
    voteInfo? db proposal = some v ↔ v ∈ db.voteInfo ∧ v.id = proposal := by
  constructor
  · intro h
    exact ⟨List.mem_of_find?_eq_some h, by simpa using List.find?_some h⟩
  · rintro ⟨hmem, rfl⟩
    exact Table.find?_key hkey hmem

theorem hasVoted_iff {db : Db} {uid proposal : Nat} :
    hasVoted db uid proposal = true ↔ uid ∈ (votesFor db proposal).map (·.userID) := by
  constructor
  · intro h
    obtain ⟨v, hv, huser, hid⟩ : ∃ v ∈ db.votes, v.userID = uid ∧ v.voteID = proposal := by
      simpa [hasVoted] using h
    exact List.mem_map.mpr ⟨v, by simp [votesFor, hv, hid], huser⟩
  · intro h
    obtain ⟨v, hv, huser⟩ := List.mem_map.mp h
    obtain ⟨hmem, hid⟩ : v ∈ db.votes ∧ v.voteID = proposal := by simpa [votesFor] using hv
    simpa [hasVoted] using ⟨v, hmem, huser, hid⟩

theorem keyed_commit {db : Db} (h : Keyed db) (b : Ballot) : Keyed (proposalCommit db b) := by
  unfold proposalCommit
  split
  · show ((Table.update _ _ db.voteInfo).map (·.id)).Nodup
    rw [Table.map_update (fun v => setTally_id v _ _)]
    exact h
  · exact h

/-- A commit keeps the tallies sound exactly when it finds what its request read. -/
theorem sound_commit_iff {db : Db} (hkey : Keyed db) {l : List Ballot} (l' : List Ballot)
    (hs : Sound ⟨db, l⟩) {b : Ballot} :
    Sound ⟨proposalCommit db b, l'⟩ ↔ ∀ v ∈ voteInfo? db b.proposal,
      (db.user? b.userID).isSome = true →
        tally v b.decision = b.read ∧ hasVoted db b.userID b.proposal = false := by
  cases hv : voteInfo? db b.proposal with
  | none => simpa [proposalCommit, hv, Sound] using hs
  | some v =>
      by_cases hu : (db.user? b.userID).isSome = true
      · obtain ⟨hmem, hid⟩ := (voteInfo?_eq_some hkey).mp hv
        have htotal : totalVotes v = (votesFor db b.proposal).length := hid ▸ (hs v hmem).1
        have hnodup : ((votesFor db b.proposal).map (·.userID)).Nodup := hid ▸ (hs v hmem).2
        have hvotes := votesFor_commit (by simp [hv]) hu
        have hset := totalVotes_setTally v (b.read + 1) b.decision
        -- the votes of the proposal gain one row, of the ballot's user
        have hown := hvotes b.proposal
        rw [if_pos rfl] at hown
        constructor
        · intro hafter w hw _
          obtain rfl : v = w := by simpa using hw
          have hmem' : setTally v (b.read + 1) b.decision ∈ (proposalCommit db b).voteInfo := by
            rw [proposalCommit_eq (by simp [hv]) hu]
            exact Table.mem_update.mpr ⟨v, hmem, by simp [hid]⟩
          obtain ⟨htotal', hnodup'⟩ := hafter _ hmem'
          simp only [setTally_id, hid, hown, List.length_append, List.length_singleton,
            List.map_append, List.map_cons, List.map_nil] at htotal' hnodup'
          refine ⟨by omega, ?_⟩
          rw [List.nodup_append] at hnodup'
          by_contra hvoted
          exact hnodup'.2.2 b.userID (hasVoted_iff.mp (by simpa using hvoted)) b.userID
            (by simp) rfl
        · intro hfresh w hw
          obtain ⟨htally, hnot⟩ := hfresh v rfl hu
          rw [proposalCommit_eq (by simp [hv]) hu] at hw
          obtain ⟨w₀, hw₀, rfl⟩ := Table.mem_update.mp hw
          by_cases hw₀id : w₀.id = b.proposal
          · obtain rfl : v = w₀ := by
              have := (voteInfo?_eq_some hkey).mpr ⟨hw₀, hw₀id⟩
              simpa [hv] using this
            have hnotmem : b.userID ∉ (votesFor db b.proposal).map (·.userID) := by
              intro hc
              simp [hasVoted_iff.mpr hc] at hnot
            simp only [hw₀id, beq_self_eq_true, if_true, setTally_id, hown, List.length_append,
              List.length_singleton, List.map_append, List.map_cons, List.map_nil]
            refine ⟨by omega, List.nodup_append.mpr ⟨hnodup, by simp, ?_⟩⟩
            rintro x hx y hy rfl
            exact hnotmem ((List.mem_singleton.mp hy) ▸ hx)
          · have hother := hvotes w₀.id
            rw [if_neg (fun hc => hw₀id hc.symm), List.append_nil] at hother
            simpa [hw₀id, hother] using hs w₀ hw₀
      · simpa [proposalCommit, hu, Sound] using hs

theorem keyed_step {s : Polls} (h : Keyed s.db) (e : Event) : Keyed (step s e).db := by
  cases e with
  | check r =>
      simp only [step]
      split
      · exact h
      · split <;> exact h
  | commit i =>
      simp only [step]
      split
      · exact h
      · exact keyed_commit h _

theorem keyed_exec {s : Polls} (h : Keyed s.db) (es : List Event) :
    Keyed (Run.exec step s es).db := by
  induction es generalizing s with
  | nil => exact h
  | cons e es ih => exact ih (keyed_step h e)

theorem sound_step_iff {s : Polls} (hkey : Keyed s.db) (hs : Sound s) (e : Event) :
    Sound (step s e) ↔ Fresh s e := by
  cases e with
  | check r =>
      have hsame : (step s (.check r)).db = s.db := by
        simp only [step]
        split
        · rfl
        · split <;> rfl
      have : Sound (step s (.check r)) := by
        unfold Sound
        rw [hsame]
        exact hs
      exact ⟨fun _ => trivial, fun _ => this⟩
  | commit i =>
      cases hb : s.inFlight[i]? with
      | none => simpa [step, Fresh, hb] using hs
      | some b =>
          have := sound_commit_iff hkey (s.inFlight.eraseIdx i) hs (b := b)
          simpa [step, Fresh, hb] using this

/--
**The tallies count the votes, one per user, in every state a run visits exactly when
every commit of the run is fresh.**
-/
theorem sound_iff_fresh (s : Polls) (es : List Event) (hkey : Keyed s.db) (hs : Sound s) :
    Run.Along step Sound s es ↔ Run.Guarded step Fresh s es := by
  have hstep : ∀ s e, Keyed s.db ∧ Sound s →
      ((Keyed (step s e).db ∧ Sound (step s e)) ↔ Fresh s e) := by
    intro s e h
    exact (and_iff_right (keyed_step h.1 e)).trans (sound_step_iff h.1 h.2 e)
  have hiff : Run.Along step (fun s => Keyed s.db ∧ Sound s) s es ↔ Run.Guarded step Fresh s es :=
    Run.along_iff_guarded hstep ⟨hkey, hs⟩
  rw [← hiff, Run.along_iff_visited, Run.along_iff_visited]
  exact forall₃_congr fun pre _ _ => (and_iff_right (keyed_exec hkey pre)).symm

/-- Two Package Maintainers and one running proposal nobody has voted on. -/
def twoVoters : Polls where
  db :=
    { users := [{ (default : User) with id := 1, accountType := .packageMaintainer, username := "a" },
        { (default : User) with id := 2, accountType := .packageMaintainer, username := "b" }]
      voteInfo := [{ (default : VoteInfo) with id := 7, user := "candidate", endTS := 10 }] }
  inFlight := []

theorem sound_iff_fresh_twoVoters :
    Run.Along step Sound twoVoters [.check ⟨1, 7, "Yes", 1⟩, .commit 0] ↔
      Run.Guarded step Fresh twoVoters [.check ⟨1, 7, "Yes", 1⟩, .commit 0] :=
  sound_iff_fresh twoVoters _ (by decide) (by decide)

/-- Both voters read the tally before either commits: one of the two votes is lost. -/
theorem overlapping_votes_lost :
    ¬Run.Along step Sound twoVoters
      [.check ⟨1, 7, "Yes", 1⟩, .check ⟨2, 7, "Yes", 1⟩, .commit 0, .commit 0] := by
  decide

end Aurweb.Proposals
