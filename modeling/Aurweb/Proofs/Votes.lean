/-
The counter of votes.

`NumVotes` is counted up and down by one program and counted again by another; rows of
`PackageVotes` go with an account or a package base, and move with a merge.  Every
write that touches the rows of a base leaves its counter right if it was right before,
except the deletion of an account that has voted.
-/
import Aurweb.Proofs.SiteWrites

namespace Aurweb

/-- Every counter is right. -/
def Counted (db : Db) : Prop := ∀ b ∈ db.packageBases, b.numVotes = votesOf db b.id

instance : DecidablePred Counted := fun db =>
  inferInstanceAs (Decidable (∀ b ∈ db.packageBases, b.numVotes = votesOf db b.id))

section

variable {cfg : Config} {may : May} {db db' : Db}

theorem Counted.at (h : Counted db) (id : Nat) : CountedAt db id := by
  intro b hb hid
  rw [h b hb, hid]

/-- A change of bases that is not about votes. -/
theorem Counted.updatePackageBase (h : Counted db) (id : Nat) {f : PackageBase → PackageBase}
    (hf : ∀ b, (f b).id = b.id ∧ (f b).numVotes = b.numVotes) :
    Counted (db.updatePackageBase id f) := by
  intro b hb
  obtain ⟨b₀, hb₀, rfl⟩ := Table.mem_update.mp hb
  have hold := h b₀ hb₀
  split
  · rw [(hf b₀).1, (hf b₀).2]
    exact hold
  · exact hold

theorem votesOf_congr {id : Nat} {votes : List PackageVote} (hother :
    (votes.filter fun v => v.packageBaseID != id) =
      db.packageVotes.filter fun v => v.packageBaseID != id) {other : Nat} (hne : other ≠ id) :
    votesOf { db with packageVotes := votes } other = votesOf db other := by
  have hfilter : ∀ t : List PackageVote, t.countP (·.packageBaseID == other) =
      (t.filter fun v => v.packageBaseID != id).countP (·.packageBaseID == other) := by
    intro t
    rw [List.countP_filter]
    refine List.countP_congr fun v _ => ?_
    by_cases hv : v.packageBaseID = other <;> simp [hv, hne]
  unfold votesOf
  rw [hfilter votes, hother, ← hfilter]

theorem Counted.ballot (h : Counted db) {id : Nat} {votes : List PackageVote}
    {f : PackageBase → PackageBase} (hf : ∀ b, KeepsBase b (f b))
    (hother : (votes.filter fun v => v.packageBaseID != id) =
      db.packageVotes.filter fun v => v.packageBaseID != id)
    (hcount : CountedAt db id →
      CountedAt (Db.updatePackageBase { db with packageVotes := votes } id f) id) :
    Counted (Db.updatePackageBase { db with packageVotes := votes } id f) := by
  intro b hb
  by_cases hid : b.id = id
  · rw [hid]
    exact hcount (h.at id) b hb hid
  · obtain ⟨b₀, hb₀, rfl⟩ := Table.mem_update.mp hb
    by_cases hid₀ : b₀.id = id
    · simp [hid₀, (hf b₀).id] at hid
    · simp only [beq_iff_eq, hid₀, if_false]
      exact (h b₀ hb₀).trans (votesOf_congr hother hid₀).symm

theorem Counted.deletePackageBase (h : Counted db) (id : Nat) :
    Counted (db.deletePackageBase id) := by
  intro b hb
  obtain ⟨hb, hne⟩ := Table.mem_delete.mp hb
  refine (h b hb).trans ?_
  unfold votesOf Db.deletePackageBase Table.delete
  rw [List.countP_filter]
  refine List.countP_congr fun v _ => ?_
  have hid : b.id ≠ id := by simpa using hne
  by_cases hv : v.packageBaseID = b.id <;> simp [hv, hid]

/-- A merge recounts the target, and takes the rest of the votes along. -/
theorem Counted.retryMerge (h : Counted db) (pkgbase target : PackageBase) :
    Counted (retryMerge db pkgbase target) := by
  have hmoved : ∀ b ∈ (popupdate (moveRows db pkgbase target) target.id).packageBases,
      b.id ≠ pkgbase.id →
      b.numVotes = votesOf (popupdate (moveRows db pkgbase target) target.id) b.id := by
    intro b hb hid
    obtain ⟨b₀, hb₀, rfl⟩ := Table.mem_update.mp hb
    by_cases htarget : b₀.id = target.id
    · simp [htarget, votesOf, popupdate, Db.updatePackageBase]
    · simp only [beq_iff_eq, htarget, if_false] at hid ⊢
      refine (h b₀ hb₀).trans ?_
      -- Votes that move come from the base that goes and end at the target.
      unfold votesOf popupdate moveRows Db.updatePackageBase Table.update
      rw [List.countP_map]
      refine List.countP_congr fun v _ => ?_
      simp only [Function.comp_apply]
      split
      · rename_i hv
        simp only [Bool.and_eq_true, beq_iff_eq] at hv
        simp [hv.1, Ne.symm hid, Ne.symm htarget]
      · rfl
  intro b hb
  obtain ⟨hb, hid⟩ := Table.mem_delete.mp hb
  have hgone : b.id ≠ pkgbase.id := by simpa using hid
  refine (hmoved b hb hgone).trans ?_
  unfold votesOf Aurweb.retryMerge Db.deletePackageBase Table.delete
  rw [List.countP_filter]
  refine List.countP_congr fun v _ => ?_
  by_cases hv : v.packageBaseID = b.id <;> simp [hv, hgone]

theorem Counted.deleteUser (h : Counted db) {uid : Nat}
    (hvotes : ∀ v ∈ db.packageVotes, v.usersID ≠ uid) : Counted (db.deleteUser uid) := by
  intro b hb
  obtain ⟨b₀, hb₀, rfl⟩ := List.mem_map.mp hb
  have hsame : (db.deleteUser uid).packageVotes = db.packageVotes :=
    Table.delete_eq_self fun v hv => by simpa using hvotes v hv
  unfold votesOf
  rw [hsame]
  exact h b₀ hb₀

theorem keptBy_counted (cfg : Config) (p : GitUpdate.Push) :
    GitUpdate.KeptBy cfg p fun db => WellFormed cfg db ∧ Counted db where
  stores hs h := by
    refine ⟨(keptBy_wellFormed cfg p).stores hs h.1, ?_⟩
    have hcounted := h.2
    cases hs <;> exact hcounted
  clear hsub h := ⟨(keptBy_wellFormed cfg p).clear hsub h.1, h.2⟩
  notify h := ⟨(keptBy_wellFormed cfg p).notify h.1, h.2⟩
  touch uid h₁ hbase h := by
    refine ⟨(keptBy_wellFormed cfg p).touch uid h₁.1 hbase h.1, ?_⟩
    exact h.2.updatePackageBase _ fun _ => ⟨rfl, rfl⟩
  takeOver h₁ hbase h₂ huser h := by
    refine ⟨(keptBy_wellFormed cfg p).takeOver h₁.1 hbase h₂.1 huser h.1, ?_⟩
    refine h.2.updatePackageBase _ fun b => ?_
    split <;> exact ⟨rfl, rfl⟩
  create h₁ huser h hnone hid hname hm hzero := by
    refine ⟨(keptBy_wellFormed cfg p).create h₁.1 huser h.1 hnone hid hname hm hzero, ?_⟩
    intro b' hb'
    rcases List.mem_append.mp hb' with hb' | hb'
    · exact h.2 b' hb'
    · rw [List.mem_singleton.mp hb', hzero, hid]
      -- Nobody can have voted for a base with a new id.
      refine (List.countP_eq_zero.mpr fun v hv => ?_).symm
      obtain ⟨b₀, hb₀, hid₀⟩ := h.1.voteBases v hv
      have hlt := h.1.bases.lt b₀ hb₀
      simp only [beq_iff_eq]
      omega

theorem Counted.write (huncount : ¬may.uncount) (hwf : WellFormed cfg db)
    (hw : Write cfg may db db') (h : Counted db) : Counted db' := by
  cases hw with
  | engage | release => exact h.updatePackageBase _ fun _ => ⟨rfl, rfl⟩
  | delete => exact h.deletePackageBase _
  | merge => exact h.retryMerge _ _
  | account _ _ hvotes => exact h.deleteUser (hvotes.resolve_left huncount)
  | mark hf hvotes => exact h.updatePackageBase _ fun b => ⟨(hf b).id, hvotes b⟩
  | ballot hf _ _ _ hother hcount => exact h.ballot hf hother hcount
  | side hbases _ _ _ hvotes =>
      intro b hb
      rw [hbases] at hb
      rw [h b hb, votesOf, votesOf, hvotes]
  | push => exact (run_of_keptBy (keptBy_counted cfg _) _ ⟨hwf, h⟩).2
  | _ => exact h

/-- A vote that goes with an account is still in the counter. -/
theorem not_counted_deleteUser (hwf : WellFormed cfg db) (h : Counted db) {v : PackageVote}
    (hv : v ∈ db.packageVotes) : ¬Counted (db.deleteUser v.usersID) := by
  intro hcounted
  obtain ⟨b, hb, hid⟩ := hwf.voteBases v hv
  have hnow := hcounted _ (List.mem_map_of_mem hb)
  have hbefore := h b hb
  have hsplit := List.countP_eq_countP_filter_add db.packageVotes
    (fun w => w.packageBaseID == b.id) (fun w => w.usersID == v.usersID)
  have hgone : 0 < (db.packageVotes.filter fun w => w.usersID == v.usersID).countP
      fun w => w.packageBaseID == b.id := by
    refine List.countP_pos_iff.mpr ⟨v, List.mem_filter.mpr ⟨hv, by simp⟩, by simp [hid]⟩
  have hkept : votesOf (db.deleteUser v.usersID) b.id =
      (db.packageVotes.filter fun w => !(w.usersID == v.usersID)).countP
        fun w => w.packageBaseID == b.id := rfl
  unfold votesOf at hbefore
  simp only [hkept] at hnow
  omega

theorem not_counted_of_uncounts (hwf : WellFormed cfg db) (h : Counted db) {op : Op}
    (hop : op.Uncounts cfg db) : ¬Counted (step cfg db op) := by
  cases op with
  | post uid now form =>
      obtain ⟨user, hu, hform⟩ := hop
      cases form with
      | accountDelete name confirm validPassword =>
          obtain ⟨target, hcheck, v, hv, hvoter⟩ := hform
          have hdeleted := not_counted_deleteUser hwf h hv
          simp only [step, hu, Form.post, accountDeletePost, hcheck]
          rw [hvoter] at hdeleted
          exact hdeleted
      | _ => exact hform.elim
  | _ => exact hop.elim

/--
**Every base's counter is the number of its votes**, all along a run, exactly when the run
deletes no account that has voted.
-/
theorem counted_iff (cfg : Config) (db : Db) (ops : List Op) (hwf : WellFormed cfg db)
    (h : Counted db) :
    Run.Along (step cfg) Counted db ops ↔
      Run.Guarded (step cfg) (fun db op => ¬op.Uncounts cfg db) db ops := by
  refine along_iff_of_writes ?_ ?_ hwf h
  · intro db₀ op db db' _ _ hnot hwf' hw hold
    refine hold.write (fun hmay => hnot ?_) hwf' hw
    exact (explains_mayOf cfg db₀ op).uncount hmay
  · intro db op hwf' hcounted hnext hop
    exact not_counted_of_uncounts hwf' hcounted hop hnext

end

/-- `alice` votes for `foo`. -/
def voteForFoo : Op := .post 1 1000000 (.vote "foo")

theorem counted_iff_smallSite :
    Run.Along (step siteConfig) Counted smallSite [voteForFoo] ↔
      Run.Guarded (step siteConfig) (fun db op => ¬op.Uncounts siteConfig db) smallSite
        [voteForFoo] :=
  counted_iff siteConfig smallSite [voteForFoo] smallSite_wellFormed (by decide)

/-- The votes of an account go with it, and nobody counts again. -/
theorem deleted_voter_still_counted :
    Counted smallSite ∧ ¬Run.Along (step siteConfig) Counted smallSite
      [voteForFoo, .post 1 2000000 (.accountDelete "alice" true true)] := by
  decide +kernel

end Aurweb
