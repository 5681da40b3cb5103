/-
The commits of the archive repositories.

The names of a spec's files do not depend on the database, so a repository is always `Within`
them, and a run that is not interrupted finds a difference exactly when its outputs are not the
tree of the last commit, or when an interrupted run has left the index behind.  So a commit is
always the outputs of one run, never a mixture, and no change is missing (`commits_of_runs`).
-/
import Aurweb.GitArchive
import Aurweb.Proofs.RpcSearch

namespace Aurweb.GitArchive

open Snapshots (Repo Within)

/-! ### Outputs -/

/-- The files of a spec. -/
def fileNames : Spec → List String
  | .metadata => ["pkgname.json", "pkgbase.json"]
  | .pkgbases => ["pkgbase.json"]
  | .pkgnames => ["pkgname.json"]
  | .users => ["users.json"]

theorem names_generate (s : Settings) (run : Run) (spec : Spec) :
    (generate s run spec).map (·.1) = fileNames spec := by
  cases spec <;> rfl

theorem nodup_fileNames (spec : Spec) : (fileNames spec).Nodup := by
  cases spec <;> decide

theorem generate_ne_nil (s : Settings) (run : Run) (spec : Spec) : generate s run spec ≠ [] := by
  cases spec <;> exact List.cons_ne_nil _ _

theorem names_written (outputs : List (String × Bytes)) (stop : Stop) :
    (written outputs stop).map (·.1) <+: outputs.map (·.1) := by
  cases stop with
  | never => exact List.prefix_refl _
  | staged => exact List.prefix_refl _
  | writing done bytes =>
      have hsplit : outputs.map (·.1) =
          (outputs.take done).map (·.1) ++ (outputs.drop done).map (·.1) := by
        rw [← List.map_append, List.take_append_drop]
      rw [written, List.map_append, hsplit]
      refine List.prefix_append_right_inj _ |>.mpr ?_
      cases outputs.drop done with
      | nil => exact List.prefix_refl _
      | cons output rest =>
          rw [List.map_cons]
          exact List.cons_prefix_cons.mpr ⟨rfl, List.nil_prefix⟩

/-! ### One run -/

section

variable {names : List String} {outputs : List (String × Bytes)} {repo : Repo String Bytes}
  {stop : Stop}

theorem within_update (hnodup : names.Nodup) (houtputs : outputs.map (·.1) = names)
    (h : Within names repo) (stop : Stop) : Within names (update outputs stop repo) := by
  have hwrite : Within names (repo.write (written outputs stop)) :=
    h.write hnodup (houtputs ▸ names_written outputs stop)
  have hupdate : Within names (updateRepository stop (repo.write (written outputs stop))) := by
    unfold updateRepository
    dsimp only
    split
    · split
      · exact hwrite.addAll
      · exact hwrite.addAll.commit
    · exact hwrite
  cases stop with
  | never => exact hupdate
  | staged => exact hupdate
  | writing done bytes => exact hwrite

/-- An interrupted run commits nothing. -/
theorem commits_interrupted (hstop : stop ≠ .never) :
    (update outputs stop repo).commits = repo.commits := by
  cases stop with
  | never => exact absurd rfl hstop
  | writing done bytes => rfl
  | staged =>
      simp only [update, updateRepository, if_true]
      split
      · rfl
      · rfl

/-- A complete run leaves its outputs in the index and the last commit, where it finds anything to
commit and where it does not. -/
theorem update_never (hnodup : names.Nodup) (houtputs : outputs.map (·.1) = names)
    (h : Within names repo) :
    (repo.index = outputs ∧ repo.head = outputs ∧
      update outputs .never repo = { repo with worktree := outputs }) ∨
    (¬ (repo.index = outputs ∧ repo.head = outputs) ∧
      update outputs .never repo = ⟨outputs, outputs, repo.commits ++ [outputs]⟩) := by
  have hworktree : (repo.write outputs).worktree = outputs :=
    Within.worktree_write (houtputs ▸ hnodup) (houtputs ▸ h)
  have hwrite : repo.write outputs = { repo with worktree := outputs } := by
    show { repo with worktree := (repo.write outputs).worktree } = _
    rw [hworktree]
  have hwithin : Within names (repo.write outputs) :=
    h.write hnodup (houtputs ▸ List.prefix_refl _)
  have hstatus : (repo.write outputs).status = [] ↔ repo.index = outputs ∧ repo.head = outputs := by
    have hiff := hwithin.status_eq_nil hnodup
    rw [hworktree] at hiff
    exact hiff
  have hupdate : update outputs .never repo =
      if (repo.write outputs).status ≠ [] then (repo.write outputs).addAll.commit
      else repo.write outputs := by
    simp [update, updateRepository, written]
  rw [hupdate]
  by_cases hsame : repo.index = outputs ∧ repo.head = outputs
  · refine Or.inl ⟨hsame.1, hsame.2, ?_⟩
    rw [if_neg (not_not.mpr (hstatus.mpr hsame)), hwrite]
  · refine Or.inr ⟨hsame, ?_⟩
    rw [if_pos fun h => hsame (hstatus.mp h), hwrite]
    rfl

end

/-! ### All of the runs -/

section

variable (s : Settings) (jobs : List (Spec × Run × Stop)) (spec : Spec)

/-- The jobs of a spec. -/
def jobsOf : List (Spec × Run × Stop) := jobs.filter fun job => job.1 = spec

/-- What the complete runs of a spec have generated. -/
def completed : List (List (String × Bytes)) :=
  ((jobsOf jobs spec).filter fun job => job.2.2 = .never).map fun job => generate s job.2.1 spec

end

variable {s : Settings} {spec : Spec}

theorem repos_concat (jobs : List (Spec × Run × Stop)) (job : Spec × Run × Stop) :
    repos s (jobs ++ [job]) = main s (repos s jobs) job := by
  rw [repos, List.foldl_concat]
  rfl

theorem main_same (repos : String → Repo String Bytes) (run : Run) (stop : Stop) :
    main s repos (spec, run, stop) (s.repo spec) =
      update (generate s run spec) stop (repos (s.repo spec)) := Function.update_self ..

theorem main_other (hrepo : Function.Injective s.repo) (repos : String → Repo String Bytes)
    {job : Spec × Run × Stop} (hspec : job.1 ≠ spec) :
    main s repos job (s.repo spec) = repos (s.repo spec) :=
  Function.update_of_ne (fun h => hspec (hrepo h).symm) ..

/-- A repository against the outputs of its spec's complete runs. -/
structure Archived (names : List String) (outputs : List (List (String × Bytes)))
    (repo : Repo String Bytes) : Prop where
  within : Within names repo
  commits : repo.commits.Sublist outputs
  last : repo.commits.getLast? = outputs.getLast?
  changes : repo.commits.destutter (· ≠ ·) = outputs.destutter (· ≠ ·)

/-- When no run was interrupted, nothing is staged or written that is not committed. -/
structure Settled (repo : Repo String Bytes) : Prop where
  index : repo.index = repo.head
  chain : repo.commits.destutter (· ≠ ·) = repo.commits

section

variable {names : List String} {outputs : List (List (String × Bytes))}
  {output : List (String × Bytes)} {repo : Repo String Bytes} {stop : Stop}

theorem head_eq_iff (houtput : output ≠ []) :
    repo.head = output ↔ repo.commits.getLast? = some output := by
  unfold Repo.head
  cases repo.commits.getLast? with
  | none =>
      constructor
      · exact fun h => absurd h.symm houtput
      · intro h
        cases h
  | some tree =>
      rw [Option.getD_some, Option.some.injEq]

theorem Archived.interrupted (h : Archived names outputs repo) (hnodup : names.Nodup)
    (houtput : output.map (·.1) = names) (hstop : stop ≠ .never) :
    Archived names outputs (update output stop repo) := by
  have hcommits : (update output stop repo).commits = repo.commits := commits_interrupted hstop
  refine ⟨within_update hnodup houtput h.within stop, ?_, ?_, ?_⟩
  · exact hcommits ▸ h.commits
  · exact hcommits ▸ h.last
  · exact hcommits ▸ h.changes

theorem Archived.complete (h : Archived names outputs repo) (hnodup : names.Nodup)
    (houtput : output.map (·.1) = names) (hne : output ≠ []) :
    Archived names (outputs ++ [output]) (update output .never repo) := by
  have hwithin := within_update hnodup houtput h.within .never
  rcases update_never hnodup houtput h.within with ⟨-, hhead, heq⟩ | ⟨-, heq⟩
  · have hcommits : (update output .never repo).commits = repo.commits := by rw [heq]
    have hlast : repo.commits.getLast? = some output := (head_eq_iff hne).mp hhead
    refine ⟨hwithin, ?_, ?_, ?_⟩
    · rw [hcommits]
      exact h.commits.trans (List.sublist_append_left _ _)
    · rw [hcommits, hlast, List.getLast?_concat]
    · rw [hcommits, Snapshots.destutter_concat, ← h.last, if_pos hlast, h.changes]
  · have hcommits : (update output .never repo).commits = repo.commits ++ [output] := by rw [heq]
    refine ⟨hwithin, ?_, ?_, ?_⟩
    · rw [hcommits]
      exact h.commits.append (List.Sublist.refl _)
    · rw [hcommits, List.getLast?_concat, List.getLast?_concat]
    · rw [hcommits, Snapshots.destutter_concat, Snapshots.destutter_concat, h.last, h.changes]

theorem Settled.complete (h : Settled repo) (hwithin : Within names repo) (hnodup : names.Nodup)
    (houtput : output.map (·.1) = names) (hne : output ≠ []) :
    Settled (update output .never repo) := by
  rcases update_never hnodup houtput hwithin with ⟨-, -, heq⟩ | ⟨hdiffer, heq⟩
  · rw [heq]
    exact ⟨h.index, h.chain⟩
  · have hlast : repo.commits.getLast? ≠ some output := by
      intro hlast
      have hhead := (head_eq_iff hne).mpr hlast
      exact hdiffer ⟨h.index.trans hhead, hhead⟩
    rw [heq]
    refine ⟨?_, ?_⟩
    · simp [Repo.head]
    · show (repo.commits ++ [output]).destutter (· ≠ ·) = _
      rw [Snapshots.destutter_concat, if_neg hlast, h.chain]

end

theorem jobsOf_concat (jobs : List (Spec × Run × Stop)) (job : Spec × Run × Stop) :
    jobsOf (jobs ++ [job]) spec =
      if job.1 = spec then jobsOf jobs spec ++ [job] else jobsOf jobs spec := by
  unfold jobsOf
  rw [List.filter_append]
  by_cases hspec : job.1 = spec
  · simp [hspec]
  · simp [hspec]

theorem archived_repos (hrepo : Function.Injective s.repo) (jobs : List (Spec × Run × Stop)) :
    Archived (fileNames spec) (completed s jobs spec) (repos s jobs (s.repo spec)) := by
  induction jobs using List.reverseRecOn with
  | nil =>
      refine ⟨Within.initial, ?_, ?_, ?_⟩
      · exact List.Sublist.refl _
      · rfl
      · rfl
  | append_singleton jobs job ih =>
      obtain ⟨spec', run, stop⟩ := job
      rw [repos_concat, completed, jobsOf_concat]
      by_cases hspec : spec' = spec
      · subst hspec
        rw [if_pos rfl, List.filter_append, List.map_append, main_same]
        by_cases hstop : stop = .never
        · subst hstop
          exact ih.complete (nodup_fileNames _) (names_generate s run _) (generate_ne_nil s run _)
        · rw [List.filter_cons_of_neg (by simpa using hstop), List.filter_nil, List.map_nil,
            List.append_nil]
          exact ih.interrupted (nodup_fileNames _) (names_generate s run _) hstop
      · rw [if_neg hspec, main_other hrepo _ hspec]
        exact ih

theorem settled_repos (hrepo : Function.Injective s.repo) (jobs : List (Spec × Run × Stop))
    (hstops : ∀ job ∈ jobsOf jobs spec, job.2.2 = .never) :
    Settled (repos s jobs (s.repo spec)) := by
  induction jobs using List.reverseRecOn with
  | nil => exact ⟨rfl, rfl⟩
  | append_singleton jobs job ih =>
      obtain ⟨spec', run, stop⟩ := job
      rw [jobsOf_concat] at hstops
      rw [repos_concat]
      by_cases hspec : spec' = spec
      · subst hspec
        rw [if_pos rfl] at hstops
        have hstop : stop = .never := hstops _ (List.mem_append_right _ (List.mem_singleton_self _))
        rw [main_same, hstop]
        exact (ih fun job hjob => hstops job (List.mem_append_left _ hjob)).complete
          (archived_repos hrepo jobs).within (nodup_fileNames _) (names_generate s run _)
          (generate_ne_nil s run _)
      · rw [if_neg hspec] at hstops
        rw [main_other hrepo _ hspec]
        exact ih hstops

/-- However the runs of the specs follow each other and wherever they are interrupted, the commits
in the repository of a spec are the outputs of complete runs of it, whole and in their order, and
the last commit is what the last complete run generated.  Every change from one complete run to
the next is there, and without an interrupted run nothing else is. -/
theorem commits_of_runs (hrepo : Function.Injective s.repo) (jobs : List (Spec × Run × Stop))
    (spec : Spec) :
    let commits := (repos s jobs (s.repo spec)).commits
    let outputs := completed s jobs spec
    commits.Sublist outputs ∧ commits.getLast? = outputs.getLast? ∧
      commits.destutter (· ≠ ·) = outputs.destutter (· ≠ ·) ∧
      ((∀ job ∈ jobsOf jobs spec, job.2.2 = .never) → commits = outputs.destutter (· ≠ ·)) := by
  have harchived : Archived (fileNames spec) (completed s jobs spec) (repos s jobs (s.repo spec)) :=
    archived_repos hrepo jobs
  refine ⟨harchived.commits, harchived.last, harchived.changes, ?_⟩
  intro hstops
  rw [← harchived.changes, (settled_repos hrepo jobs hstops).chain]

/-! ### A run that is interrupted -/

def plainSettings : Settings where
  api := Rpc.plainApi
  repo
    | .metadata => "aurweb-metadata"
    | .pkgbases => "aurweb-pkgbases"
    | .pkgnames => "aurweb-pkgnames"
    | .users => "aurweb-users"
  dumps
    | .names names => names.flatMap fun name => name.toList.map fun c => UInt8.ofNat c.toNat
    | .records records => records.flatMap fun record =>
        record.1.toList.map fun c => UInt8.ofNat c.toNat

theorem plainSettings_repo : Function.Injective plainSettings.repo := by
  intro spec spec' heq
  cases spec <;> cases spec' <;> first | rfl | exact absurd heq (by decide)

def plainRun (db : Db) : Run where
  db := db
  popularity _ := .int 0
  popularityUpdated _ := .int 0
  returned rows := rows

/-- The second run of `users` ends in the middle of its file. -/
def interruptedJobs : List (Spec × Run × Stop) :=
  [(.users, plainRun smallSite, .never), (.pkgbases, plainRun smallSite, .staged),
    (.users, plainRun { smallSite with users := [] }, .writing 0 3),
    (.users, plainRun smallSite, .never)]

theorem commits_of_runs_interrupted :
    let commits := (repos plainSettings interruptedJobs "aurweb-users").commits
    let outputs := completed plainSettings interruptedJobs .users
    commits.Sublist outputs ∧ commits.getLast? = outputs.getLast? ∧
      commits.destutter (· ≠ ·) = outputs.destutter (· ≠ ·) ∧
      ((∀ job ∈ jobsOf interruptedJobs .users, job.2.2 = .never) →
        commits = outputs.destutter (· ≠ ·)) :=
  commits_of_runs plainSettings_repo interruptedJobs .users

end Aurweb.GitArchive
