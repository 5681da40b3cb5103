/-
What the popularity on a page says about the votes.

The columns are written now and then, the votes change in between, and a page shows the columns
aged to the day.  Nothing in between matters: since votes fade together, what a page shows is
what the votes of one moment are worth today, whatever has been updated how often since.
`ScoredAt` says that of two columns and a moment; an event either is the next such moment of a
package base or leaves its columns alone, and the job sees to it that the moment is no older
than its interval.
-/
import Aurweb.Lib.Run
import Aurweb.Popularity
import Aurweb.Proofs.RouterWrites

namespace Aurweb.Popularity

open Decay (total Fading)

/-- When the votes of a package base were cast. -/
def marks (db : Db) (id : Nat) : List Int := (votes db id).map fun v => (v.voteTS : Int)

/-! ### The tables -/

/-- Votes are for rows that are there, and ids are new. -/
structure Kept (db : Db) : Prop where
  bases : ∀ b ∈ db.packageBases, b.id < db.nextID
  votes : ∀ v ∈ db.packageVotes, ∃ b ∈ db.packageBases, b.id = v.packageBaseID

theorem marks_of_fresh {db : Db} (h : Kept db) : marks db db.nextID = [] := by
  unfold marks votes
  rw [List.map_eq_nil_iff, List.filter_eq_nil_iff]
  intro v hv
  obtain ⟨b, hb, hid⟩ := h.votes v hv
  have hlt := h.bases b hb
  simp only [beq_iff_eq]
  omega

theorem packageBase?_mem {db : Db} {id : Nat} {b : PackageBase} (h : db.packageBase? id = some b) :
    b ∈ db.packageBases ∧ b.id = id :=
  ⟨List.mem_of_find?_eq_some h, by simpa using List.find?_some h⟩

section

variable {db db' : Db} {now : Nat}

/-- Statements that leave the ids of package bases as they are. -/
theorem Kept.congr (h : Kept db) (hids : db'.packageBases.map (·.id) = db.packageBases.map (·.id))
    (hnext : db'.nextID = db.nextID)
    (hvotes : ∀ v ∈ db'.packageVotes, ∃ b ∈ db.packageBases, b.id = v.packageBaseID) :
    Kept db' where
  bases b hb := by
    obtain ⟨b₀, hb₀, hid⟩ := List.mem_map.mp (hids ▸ List.mem_map_of_mem hb)
    rw [← hid, hnext]
    exact h.bases b₀ hb₀
  votes v hv := by
    obtain ⟨b₀, hb₀, hid⟩ := hvotes v hv
    obtain ⟨b, hb, hsame⟩ := List.mem_map.mp (hids.symm ▸ List.mem_map_of_mem hb₀)
    exact ⟨b, hb, hsame.trans hid⟩

theorem Kept.pointsToRows (h : Kept db) {baseID uid : Nat} {vote : PackageVote}
    (hrows : pointsToRows db baseID uid = true) (hvote : vote.packageBaseID = baseID) :
    ∀ v ∈ db.packageVotes ++ [vote], ∃ b ∈ db.packageBases, b.id = v.packageBaseID := by
  intro v hv
  rcases List.mem_append.mp hv with hv | hv
  · exact h.votes v hv
  · obtain rfl := List.mem_singleton.mp hv
    obtain ⟨b, hb⟩ := Option.isSome_iff_exists.mp (Bool.and_eq_true_iff.mp hrows).1
    obtain ⟨hmem, hid⟩ := packageBase?_mem hb
    exact ⟨b, hmem, hid.trans hvote.symm⟩

theorem Kept.deletedVotes (h : Kept db) (p : PackageVote → Bool) :
    ∀ v ∈ Table.delete p db.packageVotes, ∃ b ∈ db.packageBases, b.id = v.packageBaseID :=
  fun v hv => h.votes v (Table.mem_delete.mp hv).1

theorem Kept.moveRows (h : Kept db) {pkgbase target : PackageBase}
    (htarget : target ∈ db.packageBases) : Kept (moveRows db pkgbase target) := by
  refine h.congr rfl rfl fun v hv => ?_
  obtain ⟨v₀, hv₀, rfl⟩ := Table.mem_update.mp hv
  split
  · exact ⟨target, htarget, rfl⟩
  · exact h.votes v₀ hv₀

theorem Kept.deletePackageBase (h : Kept db) (id : Nat) : Kept (db.deletePackageBase id) where
  bases b hb := h.bases b (Table.mem_delete.mp hb).1
  votes v hv := by
    obtain ⟨hv, hne⟩ := Table.mem_delete.mp hv
    obtain ⟨b, hb, hid⟩ := h.votes v hv
    exact ⟨b, Table.mem_delete.mpr ⟨hb, by rw [hid]; exact hne⟩, hid⟩

theorem Kept.deleteUser (h : Kept db) (uid : Nat) : Kept (db.deleteUser uid) := by
  refine h.congr ?_ rfl (h.deletedVotes _)
  exact List.map_map.trans rfl

theorem Kept.submit (h : Kept db) (row : PackageBase) : Kept (tables db now (.submit row)) where
  bases b hb := by
    rcases List.mem_append.mp hb with hb | hb
    · exact Nat.lt_succ_of_lt (h.bases b hb)
    · rw [List.mem_singleton.mp hb]
      exact Nat.lt_succ_self _
  votes v hv := by
    obtain ⟨b, hb, hid⟩ := h.votes v hv
    exact ⟨b, List.mem_append_left _ hb, hid⟩

theorem Kept.tables (h : Kept db) (now : Nat) (change : Change) : Kept (tables db now change) := by
  cases change with
  | vote baseID uid =>
      simp only [Popularity.tables]
      split
      · rename_i hrows
        exact h.congr rfl rfl (h.pointsToRows (Bool.and_eq_true_iff.mp hrows).1 rfl)
      · exact h
  | unvote => exact h.congr rfl rfl (h.deletedVotes _)
  | sshVote baseID uid =>
      simp only [Popularity.tables, GitServe.commitVote]
      split
      · rename_i hrows
        split
        · exact h
        · simp only [GitServe.finished, Db.updatePackageBase]
          refine h.congr (Table.map_update ?_ _) rfl (h.pointsToRows hrows ?_)
          · exact fun _ => rfl
          · rfl
      · exact h
  | sshUnvote =>
      simp only [Popularity.tables, GitServe.commitUnvote]
      split
      · exact h
      · simp only [GitServe.finished, Db.updatePackageBase]
        refine h.congr (Table.map_update ?_ _) rfl (h.deletedVotes _)
        exact fun _ => rfl
  | moveRows baseID targetID =>
      simp only [Popularity.tables]
      split
      · rename_i htarget
        exact h.moveRows (packageBase?_mem htarget).1
      · exact h
  | deleteBase id => exact h.deletePackageBase id
  | deleteUser uid => exact h.deleteUser uid
  | submit row => exact h.submit row
  | runSingle | runVariable => exact h

/-- Package bases come by submission. -/
theorem ids_tables {change : Change} (hnew : ∀ row, change ≠ .submit row) :
    ((tables db now change).packageBases.map (·.id)).Sublist (db.packageBases.map (·.id)) := by
  cases change with
  | vote baseID uid =>
      simp only [tables]
      split <;> exact List.Sublist.refl _
  | sshVote baseID uid =>
      simp only [tables, GitServe.commitVote]
      split
      · split
        · exact List.Sublist.refl _
        · simp only [GitServe.finished, Db.updatePackageBase]
          rw [Table.map_update]
          exact fun _ => rfl
      · exact List.Sublist.refl _
  | sshUnvote =>
      simp only [tables, GitServe.commitUnvote]
      split
      · exact List.Sublist.refl _
      · simp only [GitServe.finished, Db.updatePackageBase]
        rw [Table.map_update]
        exact fun _ => rfl
  | moveRows baseID targetID =>
      simp only [tables]
      split <;> exact List.Sublist.refl _
  | deleteBase id => exact (Table.delete_sublist _ _).map _
  | deleteUser uid =>
      have hsame : (db.deleteUser uid).packageBases.map (·.id) = db.packageBases.map (·.id) :=
        List.map_map.trans rfl
      exact hsame ▸ List.Sublist.refl _
  | submit row => exact (hnew row rfl).elim
  | unvote | runSingle | runVariable => exact List.Sublist.refl _

theorem base_of_tables {change : Change} (hnew : ∀ row, change ≠ .submit row) {b : PackageBase}
    (hb : b ∈ (tables db now change).packageBases) : ∃ b₀ ∈ db.packageBases, b₀.id = b.id :=
  List.mem_map.mp ((ids_tables hnew).subset (List.mem_map_of_mem hb))

end

/-! ### The events -/

section

variable {K : Type} [Field K] {math : Arithmetic K} {interval : Int} {st : State K}

theorem exec_snoc (math : Arithmetic K) (interval : Int) (st : State K) (es : List Event)
    (e : Event) : Run.exec (step math interval) st (es ++ [e]) =
      step math interval (Run.exec (step math interval) st es) e := by
  rw [Run.exec_append]
  rfl

/-- An event is an update of some package bases, or a transaction of another program. -/
theorem step_cases (math : Arithmetic K) (interval : Int) (st : State K) (e : Event) :
    (∃ pkgbases, step math interval st e = runVariable math interval st pkgbases e.now ∧
      (e.change = .runVariable → pkgbases = [])) ∨
    (step math interval st e = ⟨tables st.db e.now e.change, columns st e.change⟩ ∧
      e.change ≠ .runVariable) := by
  obtain ⟨now, change⟩ := e
  cases change with
  | runSingle id => exact Or.inl ⟨[id], rfl, by simp⟩
  | runVariable => exact Or.inl ⟨[], rfl, fun _ => rfl⟩
  | _ => exact Or.inr ⟨rfl, by simp⟩

theorem Kept.runVariable {st : State K} (h : Kept st.db) (pkgbases : List Nat) (now : Int) :
    Kept (runVariable math interval st pkgbases now).db := by
  refine h.congr (Table.map_update ?_ _) rfl h.votes
  exact fun _ => rfl

theorem kept_exec (hkept : Kept st.db) (es : List Event) :
    Kept (Run.exec (step math interval) st es).db := by
  induction es using List.reverseRecOn with
  | nil => exact hkept
  | append_singleton es e ih =>
      rw [exec_snoc]
      rcases step_cases math interval (Run.exec (step math interval) st es) e with
        ⟨pkgbases, hstep, -⟩ | ⟨hstep, -⟩
      · rw [hstep]
        exact ih.runVariable pkgbases _
      · rw [hstep]
        exact ih.tables _ _

/-- An update writes the columns of the rows it finds, and no others. -/
theorem runVariable_score (math : Arithmetic K) (interval : Int) (pkgbases : List Nat) (now : Int)
    {id : Nat} (hb : ∃ b ∈ st.db.packageBases, b.id = id) :
    (runVariable math interval st pkgbases now).score id =
      if updates interval st pkgbases now id = true then
        ⟨math.column (popSubq math st.db now id), now⟩
      else st.score id := by
  obtain ⟨b, hb, hid⟩ := hb
  have hany : st.db.packageBases.any (·.id == id) = true :=
    List.any_eq_true.mpr ⟨b, hb, by simp [hid]⟩
  simp only [Popularity.runVariable, hany, Bool.true_and]

/-- The votes are as they were when the columns were written. -/
theorem marks_runVariable {pkgbases : List Nat} {now : Int} (id : Nat) :
    marks (runVariable math interval st pkgbases now).db id = marks st.db id := rfl

/-- `run_single` counts like the `popupdate` of the site. -/
theorem runSingle_db (math : Arithmetic K) (interval : Int) (st : State K) (id : Nat) (now : Int) :
    (runSingle math interval st id now).db = popupdate st.db id := by
  simp only [runSingle, runVariable, popupdate, Db.updatePackageBase, Table.update]
  congr 1
  refine List.map_congr_left fun b _ => ?_
  by_cases hid : b.id = id
  · simp [updates, hid]
  · simp [updates, hid]

/-- A vote on the web is two of the events. -/
theorem pkgbaseVote_events {cfg : Config} {st : State K} {user : User} {name : String} {now : Nat}
    {b : PackageBase} (hb : baseNamed cfg st.db name = some b)
    (hrows : pointsToRows st.db b.id user.id = true)
    (hvote : hasCredential user .pkgbaseVote [] && !hasPackageVote st.db b.id user.id) :
    (pkgbaseVote cfg st.db user name now).2 =
      (Run.exec (step math interval) st
        [⟨now, .vote b.id user.id⟩, ⟨now, .runSingle b.id⟩]).db := by
  have hnone : (!hasPackageVote st.db b.id user.id) = true := (Bool.and_eq_true_iff.mp hvote).2
  simp only [Run.exec_cons, Run.exec_nil, step, runSingle_db, tables, hrows, hnone, Bool.and_self,
    if_true]
  simp only [pkgbaseVote, getPkgOrBase, hb, hvote, if_true]

theorem pkgbaseUnvote_events {cfg : Config} {st : State K} {user : User} {name : String}
    {now : Nat} {b : PackageBase} (hb : baseNamed cfg st.db name = some b)
    (hvote : hasCredential user .pkgbaseVote [] && hasPackageVote st.db b.id user.id) :
    (pkgbaseUnvote cfg st.db user name).2 =
      (Run.exec (step math interval) st
        [⟨now, .unvote b.id user.id⟩, ⟨now, .runSingle b.id⟩]).db := by
  simp only [Run.exec_cons, Run.exec_nil, step, runSingle_db, tables]
  simp only [pkgbaseUnvote, getPkgOrBase, hb, hvote, if_true]

/-- A merge is three of them. -/
theorem retryMerge_events {st : State K} {pkgbase target : PackageBase} {now : Nat}
    (hb : st.db.packageBase? pkgbase.id = some pkgbase)
    (htarget : st.db.packageBase? target.id = some target) :
    retryMerge st.db pkgbase target =
      (Run.exec (step math interval) st
        [⟨now, .moveRows pkgbase.id target.id⟩, ⟨now, .runSingle target.id⟩,
          ⟨now, .deleteBase pkgbase.id⟩]).db := by
  simp only [Run.exec_cons, Run.exec_nil, step, runSingle_db, tables, hb, htarget]
  rfl

end

/-! ### The columns -/

section

variable {K : Type} [Field K] [LinearOrder K] {w : Int → K} {math : Arithmetic K} {δ ε : K}
  {interval : Int} {st : State K} {es : List Event} {e : Event}

/-- The columns tell what votes cast at `marks` were worth at `u`; a new row tells that there
were none. -/
structure ScoredAt (w : Int → K) (δ ε : K) (score : Score K) (u : Int) (marks : List Int) :
    Prop where
  close : |score.popularity - total w u marks| ≤ marks.length * δ + ε
  since : score.popularityUpdated = u ∨ score = Score.unset ∧ marks = []

/-- The columns of a package base go back to one moment of the run, and the job has not come by
since without finding it recent. -/
def Traced (w : Int → K) (math : Arithmetic K) (δ ε : K) (interval : Int) (st : State K)
    (es : List Event) (id : Nat) : Prop :=
  ∃ pre e post, es = pre ++ e :: post ∧
    (∀ r ∈ es, r.change = .runVariable → (r.now : Int) ≤ e.now + interval) ∧
    ScoredAt w δ ε ((Run.exec (step math interval) st es).score id) e.now
      (marks (Run.exec (step math interval) st (pre ++ [e])).db id)

/-- The event is the moment. -/
theorem traced_now {es : List Event} {e : Event} {id : Nat} (hinterval : 0 ≤ interval)
    (hsorted : ∀ r ∈ es, r.now ≤ e.now)
    (hscored : ScoredAt w δ ε
      ((step math interval (Run.exec (step math interval) st es) e).score id) e.now
      (marks (step math interval (Run.exec (step math interval) st es) e).db id)) :
    Traced w math δ ε interval st (es ++ [e]) id := by
  refine ⟨es, e, [], rfl, ?_, ?_⟩
  · intro r hr _
    have hle : r.now ≤ e.now := by
      rcases List.mem_append.mp hr with hr | hr
      · exact hsorted r hr
      · rw [List.mem_singleton.mp hr]
    omega
  · rw [exec_snoc]
    exact hscored

/-- The event leaves the columns alone. -/
theorem Traced.later {es : List Event} {e : Event} {id : Nat}
    (h : Traced w math δ ε interval st es id)
    (hsame : (step math interval (Run.exec (step math interval) st es) e).score id =
      (Run.exec (step math interval) st es).score id)
    (hrun : e.change = .runVariable → (e.now : Int) - interval <
      ((Run.exec (step math interval) st es).score id).popularityUpdated) :
    Traced w math δ ε interval st (es ++ [e]) id := by
  obtain ⟨pre, e₀, post, rfl, hrecent, hscored⟩ := h
  refine ⟨pre, e₀, post ++ [e], by simp, ?_, ?_⟩
  · intro r hr hjob
    rcases List.mem_append.mp hr with hr | hr
    · exact hrecent r hr hjob
    · rw [List.mem_singleton.mp hr] at hjob ⊢
      have hnot := hrun hjob
      rcases hscored.since with hu | ⟨hunset, -⟩
      · omega
      · rw [hunset] at hnot
        simp only [Score.unset] at hnot
        omega
  · rw [exec_snoc, hsame]
    exact hscored

/-- Every package base is traced. -/
def AllTraced (w : Int → K) (math : Arithmetic K) (δ ε : K) (interval : Int) (st : State K)
    (es : List Event) : Prop :=
  ∀ b ∈ (Run.exec (step math interval) st es).db.packageBases,
    Traced w math δ ε interval st es b.id

/-- Whatever else happens leaves the columns alone. -/
theorem AllTraced.other (h : AllTraced w math δ ε interval st es)
    (hstep : step math interval (Run.exec (step math interval) st es) e =
      ⟨tables (Run.exec (step math interval) st es).db e.now e.change,
        columns (Run.exec (step math interval) st es) e.change⟩)
    (hjob : e.change ≠ .runVariable) (hnew : ∀ row, e.change ≠ .submit row) :
    AllTraced w math δ ε interval st (es ++ [e]) := by
  intro b hb
  rw [exec_snoc, hstep] at hb
  obtain ⟨b₀, hb₀, hid⟩ := base_of_tables hnew hb
  refine (hid ▸ h b₀ hb₀).later ?_ fun hrun => absurd hrun hjob
  rw [hstep]
  unfold columns
  split
  · rename_i row hrow
    exact absurd hrow (hnew row)
  · rfl

variable [IsStrictOrderedRing K]

/-- What an update stores is the sum of the votes there are. -/
theorem scoredAt_update (hpow : ∀ s, |math.pow s - w s| ≤ δ)
    (hcolumn : ∀ x, |math.column x - x| ≤ ε) (db : Db) (now : Int) (id : Nat) :
    ScoredAt w δ ε ⟨math.column (popSubq math db now id), now⟩ now (marks db id) where
  close := by
    have hsum : |popSubq math db now id - total w now (marks db id)| ≤
        (marks db id).length * δ := by
      have hclose := Decay.total_close hpow now (marks db id)
      rw [marks, List.map_map] at hclose
      exact hclose
    calc |math.column (popSubq math db now id) - total w now (marks db id)|
        = |(math.column (popSubq math db now id) - popSubq math db now id) +
            (popSubq math db now id - total w now (marks db id))| := by rw [sub_add_sub_cancel]
      _ ≤ ε + (marks db id).length * δ := (abs_add_le _ _).trans (add_le_add (hcolumn _) hsum)
      _ = (marks db id).length * δ + ε := add_comm _ _
  since := Or.inl rfl

theorem scoredAt_unset (hε : 0 ≤ ε) (u : Int) : ScoredAt w δ ε Score.unset u [] where
  close := by simpa [Score.unset, total] using hε
  since := Or.inr ⟨rfl, rfl⟩

/-- Such columns show, at any later time, what those votes are worth then. -/
theorem ScoredAt.shows {score : Score K} {u t : Int} {marks : List Int}
    (h : ScoredAt w δ ε score u marks) (hw : Fading w 86400 (98 / 100)) (hut : u ≤ t) :
    total w t marks - (marks.length * δ + ε) ≤ popularity score t ∧
      popularity score t ≤ total w t marks / (98 / 100) + (marks.length * δ + ε) := by
  rcases h.since with hu | ⟨rfl, rfl⟩
  · unfold popularity popularityDecay
    rw [hu]
    exact ⟨hw.aged_lower hut h.close, hw.aged_upper hut h.close⟩
  · have herr := (abs_nonneg _).trans h.close
    simp only [List.length_nil, Nat.cast_zero, zero_mul, zero_add] at herr
    simpa [popularity, Score.unset, total] using herr

/-! ### A run -/

/-- An update starts anew with the package bases it finds. -/
theorem AllTraced.update (h : AllTraced w math δ ε interval st es)
    (hpow : ∀ s, |math.pow s - w s| ≤ δ) (hcolumn : ∀ x, |math.column x - x| ≤ ε)
    (hinterval : 0 ≤ interval) (hlast : ∀ r ∈ es, r.now ≤ e.now) {pkgbases : List Nat}
    (hstep : step math interval (Run.exec (step math interval) st es) e =
      runVariable math interval (Run.exec (step math interval) st es) pkgbases e.now)
    (hjob : e.change = .runVariable → pkgbases = []) :
    AllTraced w math δ ε interval st (es ++ [e]) := by
  intro b hb
  rw [exec_snoc, hstep] at hb
  obtain ⟨b₀, hb₀, hid⟩ : ∃ b₀ ∈ (Run.exec (step math interval) st es).db.packageBases,
      b₀.id = b.id := by
    obtain ⟨b₀, hb₀, rfl⟩ := Table.mem_update.mp hb
    refine ⟨b₀, hb₀, ?_⟩
    split <;> rfl
  have hscore := runVariable_score math interval pkgbases e.now ⟨b₀, hb₀, hid⟩
  by_cases hup : updates interval (Run.exec (step math interval) st es) pkgbases e.now b.id
  · refine traced_now hinterval hlast ?_
    rw [hstep, hscore, if_pos hup, marks_runVariable]
    exact scoredAt_update hpow hcolumn _ _ _
  · refine (hid ▸ h b₀ hb₀).later ?_ fun hrun => ?_
    · rw [hstep, hscore, if_neg hup]
    · rw [hjob hrun] at hup
      simpa [updates] using hup

/-- A submission starts with a package base that nobody has voted for. -/
theorem AllTraced.submit (h : AllTraced w math δ ε interval st es) (hε : 0 ≤ ε)
    (hinterval : 0 ≤ interval) (hlast : ∀ r ∈ es, r.now ≤ e.now)
    (hkept : Kept (Run.exec (step math interval) st es).db) {row : PackageBase}
    (hrow : e.change = .submit row) : AllTraced w math δ ε interval st (es ++ [e]) := by
  have hstep : step math interval (Run.exec (step math interval) st es) e =
      ⟨tables (Run.exec (step math interval) st es).db e.now (.submit row),
        columns (Run.exec (step math interval) st es) (.submit row)⟩ := by
    unfold step
    rw [hrow]
  intro b hb
  rw [exec_snoc, hstep] at hb
  rcases List.mem_append.mp hb with hb | hb
  · refine (h b hb).later ?_ fun hrun => by simp [hrow] at hrun
    rw [hstep]
    exact Function.update_of_ne (hkept.bases b hb).ne _ _
  · have hid : b.id = (Run.exec (step math interval) st es).db.nextID := by
      rw [List.mem_singleton.mp hb]
    have hmarks : marks (tables (Run.exec (step math interval) st es).db e.now
        (.submit row)) (Run.exec (step math interval) st es).db.nextID = [] :=
      marks_of_fresh hkept
    refine traced_now hinterval hlast ?_
    rw [hstep, hid]
    simp only [columns, Function.update_self]
    rw [hmarks]
    exact scoredAt_unset hε _

theorem allTraced (hpow : ∀ s, |math.pow s - w s| ≤ δ) (hcolumn : ∀ x, |math.column x - x| ≤ ε)
    (hinterval : 0 ≤ interval) (hkept : Kept st.db) (hnone : st.db.packageBases = [])
    (hsorted : es.Pairwise fun e e' => e.now ≤ e'.now) : AllTraced w math δ ε interval st es := by
  induction es using List.reverseRecOn with
  | nil => simp [AllTraced, hnone]
  | append_singleton es e ih =>
      obtain ⟨hsorted, -, hlast⟩ := List.pairwise_append.mp hsorted
      have hlast : ∀ r ∈ es, r.now ≤ e.now := fun r hr => hlast r hr e (by simp)
      have hold := ih hsorted
      rcases step_cases math interval (Run.exec (step math interval) st es) e with
        ⟨pkgbases, hstep, hjob⟩ | ⟨hstep, hjob⟩
      · exact hold.update hpow hcolumn hinterval hlast hstep hjob
      · by_cases hnew : ∃ row, e.change = .submit row
        · obtain ⟨row, hrow⟩ := hnew
          exact hold.submit ((abs_nonneg _).trans (hcolumn 0)) hinterval hlast
            (kept_exec hkept es) hrow
        · exact hold.other hstep hjob fun row hrow => hnew ⟨row, hrow⟩

end

/--
**What a page shows is what the votes of one moment are worth.**  Whatever the history of votes
(cast and withdrawn on either interface, moved by a merge, gone with an account or a package
base) and of updates, the popularity shown for a package base at `t` is the value at `t` of the
votes it had after one of the events, except for less than a day's fading and for what numbers
are rounded by; and that event is at most an interval older than any run of the job.
-/
theorem popularity_of_run {K : Type} [Field K] [LinearOrder K] [IsStrictOrderedRing K]
    {w : Int → K} {math : Arithmetic K} {δ ε : K} {interval : Int}
    (hw : Fading w 86400 (98 / 100)) (hpow : ∀ s, |math.pow s - w s| ≤ δ)
    (hcolumn : ∀ x, |math.column x - x| ≤ ε) (hinterval : 0 ≤ interval) {st : State K}
    (hbases : st.db.packageBases = []) (hvotes : st.db.packageVotes = []) {es : List Event}
    (hsorted : es.Pairwise fun e e' => e.now ≤ e'.now) {b : PackageBase}
    (hb : b ∈ (Run.exec (step math interval) st es).db.packageBases) {t : Int}
    (ht : ∀ e ∈ es, (e.now : Int) ≤ t) :
    ∃ pre e post, es = pre ++ e :: post ∧
      (∀ r ∈ es, r.change = .runVariable → (r.now : Int) ≤ e.now + interval) ∧
      let cast := marks (Run.exec (step math interval) st (pre ++ [e])).db b.id
      let shown := popularity ((Run.exec (step math interval) st es).score b.id) t
      total w t cast - (cast.length * δ + ε) ≤ shown ∧
        shown ≤ total w t cast / (98 / 100) + (cast.length * δ + ε) := by
  have hkept : Kept st.db := ⟨by simp [hbases], by simp [hvotes]⟩
  obtain ⟨pre, e, post, rfl, hrecent, hscored⟩ :=
    allTraced hpow hcolumn hinterval hkept hbases hsorted b hb
  exact ⟨pre, e, post, rfl, hrecent, hscored.shows hw (ht e (by simp))⟩

/-! ### One vote -/

theorem column_close (x : ℝ) : |decimals.column x - x| ≤ 1 / 2 / 10 ^ 6 := by
  have hround : |x * 10 ^ 6 - round (x * 10 ^ 6)| ≤ 1 / 2 := abs_sub_round _
  have hscaled : decimals.column x - x = -(x * 10 ^ 6 - round (x * 10 ^ 6)) / 10 ^ 6 := by
    simp only [decimals]
    ring
  rw [hscaled, abs_div, abs_neg, abs_of_pos (by norm_num : (0 : ℝ) < 10 ^ 6)]
  exact div_le_div_of_nonneg_right hround (by norm_num)

/-- `alice` has an account, and there are no package bases yet. -/
noncomputable def emptySite : State ℝ where
  db := { users := [account 1 .user "alice"], nextID := 2 }
  score _ := Score.unset

def foo : PackageBase :=
  { id := 2, name := "foo", numVotes := 0, outOfDateTS := none, flaggerComment := ""
    submittedTS := 0, modifiedTS := 0, flaggerUID := none, submitterUID := some 1
    maintainerUID := some 1, packagerUID := some 1 }

/-- `foo` is submitted and voted for, and the job comes by. -/
def oneVote : List Event :=
  [⟨0, .submit foo⟩, ⟨10, .vote 2 1⟩, ⟨10, .runSingle 2⟩, ⟨700000, .runVariable⟩]

theorem popularity_of_run_oneVote :
    ∃ pre e post, oneVote = pre ++ e :: post ∧
      (∀ r ∈ oneVote, r.change = .runVariable → (r.now : Int) ≤ e.now + 604800) ∧
      let cast := marks (Run.exec (step decimals 604800) emptySite (pre ++ [e])).db 2
      let shown := popularity ((Run.exec (step decimals 604800) emptySite oneVote).score 2) 900000
      total decimals.pow 900000 cast - (cast.length * 0 + 1 / 2 / 10 ^ 6) ≤ shown ∧
        shown ≤ total decimals.pow 900000 cast / (98 / 100) +
          (cast.length * 0 + 1 / 2 / 10 ^ 6) := by
  have hw : Fading decimals.pow 86400 (98 / 100) :=
    Decay.fading_rpow (by decide) (by norm_num) (by norm_num)
  have hmem : { foo with numVotes := 1 } ∈
      (Run.exec (step decimals 604800) emptySite oneVote).db.packageBases := by
    exact List.mem_singleton.mpr rfl
  exact popularity_of_run hw (by simp) column_close (by decide) rfl rfl (by decide) hmem
    (by decide)

end Aurweb.Popularity
