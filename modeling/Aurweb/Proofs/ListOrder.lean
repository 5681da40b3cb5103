/-
Who is next after `set-comaintainers`.

The command collects the ids it was given in a set, and numbers them as the set is gone
through.  The rows that it leaves are settled by that order alone, whoever was on the list
before; and a disowning hands the rest of the list to the same command.  So the order that
was asked for survives where the set keeps it, and nowhere else.
-/
import Aurweb.Proofs.Disowning

namespace Aurweb.GitServe

section

variable {cfg : Config} {db : Db} {user : User} {b : PackageBase}

/-- The comaintainers of a base are these, with the priorities 1, 2, … -/
def Listed (db : Db) (id : Nat) (ids : List Nat) : Prop :=
  (byPriority db id).map (fun c => (c.usersID, c.priority)) = ids.zipIdx 1

instance (db : Db) (id : Nat) (ids : List Nat) : Decidable (Listed db id ids) :=
  inferInstanceAs (Decidable (_ = _))

/-- What is asked for: the order that was given, for the list and for whoever inherits. -/
structure KeepsOrder (cfg : Config) (db : Db) (pkgbase : String) (id : Nat) (ids : List Nat) :
    Prop where
  listed : Listed db id ids
  promoted : ∀ m ∈ db.users, (custody db id).maintainer = some m.id → ∀ privileged now,
    (custody (pkgbaseDisown cfg db pkgbase m.username privileged now).2 id).maintainer = ids.head?
  kept : ∀ m ∈ db.users, (custody db id).maintainer = some m.id → ∀ privileged now,
    Listed (pkgbaseDisown cfg db pkgbase m.username privileged now).2 id ids.tail

/-! ### The rows that are left -/

theorem map_numbered {ids : List Nat} (hnodup : ids.Nodup) (id : Nat) :
    (numbered id ids).map (fun c => (c.usersID, c.priority)) = ids.zipIdx 1 := by
  unfold numbered
  rw [List.map_map]
  apply List.ext_getElem
  · simp
  · intro i hi _
    have hi' : i < ids.length := by simpa using hi
    rw [List.getElem_map, List.getElem_zipIdx]
    show (ids[i], ids.idxOf ids[i] + 1) = (ids[i], 1 + i)
    rw [hnodup.idxOf_getElem i hi', Nat.add_comm]

theorem zipIdx_inj {ids ids' : List Nat} (h : ids.zipIdx 1 = ids'.zipIdx 1) : ids = ids' := by
  have hfst := congrArg (List.map Prod.fst) h
  rwa [List.zipIdx_map_fst, List.zipIdx_map_fst] at hfst

/-- The list is right exactly where the statements were given the ids in this order. -/
theorem listed_writeComaintainers (db : Db) (honce : db.comaintainerKeys.Nodup) {id : Nat}
    {uidsNew ids : List Nat} (hnodup : uidsNew.Nodup) :
    Listed (writeComaintainers db id (lineOf db id) uidsNew) id ids ↔ uidsNew = ids := by
  unfold Listed
  rw [byPriority_writeComaintainers db honce hnodup, map_numbered hnodup]
  exact ⟨zipIdx_inj, fun h => by rw [h]⟩

theorem listed_setMaintainer {id id' : Nat} {uid : Option Nat} {ids : List Nat} :
    Listed (setMaintainer db id' uid) id ids ↔ Listed db id ids := Iff.rfl

theorem lineOf_of_listed {id : Nat} {ids : List Nat} (h : Listed db id ids) :
    lineOf db id = ids := by
  have hfst := congrArg (List.map Prod.fst) h
  rw [List.map_map, List.zipIdx_map_fst] at hfst
  exact hfst

/-! ### The two commands -/

theorem wellFormed_writeComaintainers (hwf : WellFormed cfg db) (hb : b ∈ db.packageBases)
    {uidsOld uidsNew : List Nat} (hnew : ∀ uid ∈ uidsNew, ∃ u ∈ db.users, u.id = uid) :
    WellFormed cfg (writeComaintainers db b.id uidsOld uidsNew) := by
  apply hwf.setComaintainers
  · intro c hc
    by_cases hof : c.of b.id = true
    · exact ⟨b, hb, (beq_iff_eq.mp hof).symm⟩
    · have hother : c ∈ db.packageComaintainers.filter fun c => !c.of b.id := by
        rw [← (writeComaintainers_restaffs b.id hnew).other]
        exact List.mem_filter.mpr ⟨hc, by simpa using hof⟩
      exact hwf.comaintainerBases c (List.mem_filter.mp hother).1
  · exact (writeComaintainers_restaffs b.id hnew).users hwf.comaintainerUsers

/-- A disowning by the maintainer, read off the list that was there. -/
theorem pkgbaseDisown_listed (hwf : WellFormed cfg db) (honce : db.comaintainerKeys.Nodup)
    {pkgbase : String} (hnamed : baseNamed cfg db pkgbase = some b) (huser : user ∈ db.users)
    (hm : b.maintainerUID = some user.id) (privileged : Bool) (now : Nat) :
    let after := (pkgbaseDisown cfg db pkgbase user.username privileged now).2
    (custody after b.id).maintainer = (lineOf db b.id).head? ∧
      ∀ ids, Listed after b.id ids ↔ cfg.setOrder.run (lineOf db b.id).tail = ids := by
  intro after
  have hallowed : b.maintainerUID = some user.id ∨ privileged = true := Or.inl hm
  obtain ⟨rows, -, heq⟩ := pkgbaseDisown_snd hwf honce hnamed huser hallowed now
  rw [if_pos hm] at heq
  have hrow := packageBase?_of_mem hwf (baseNamed_mem hnamed).1
  constructor
  · have halike := pkgbaseDisown_alike hwf honce hnamed huser privileged hallowed now
    rw [if_pos hm] at halike
    exact halike.maintainer
  · intro ids
    show Listed (pkgbaseDisown cfg db pkgbase user.username privileged now).2 b.id ids ↔ _
    rw [heq, listed_setMaintainer]
    apply listed_writeComaintainers { db with packageRequests := rows }
    · exact honce
    · exact cfg.setOrder.nodup _

theorem keepsOrder_of (hwf : WellFormed cfg db) (honce : db.comaintainerKeys.Nodup)
    {pkgbase : String} (hnamed : baseNamed cfg db pkgbase = some b) {ids : List Nat}
    (hlisted : Listed db b.id ids) :
    KeepsOrder cfg db pkgbase b.id ids ↔
      ∀ m ∈ db.users, b.maintainerUID = some m.id → cfg.setOrder.run ids.tail = ids.tail := by
  have hline := lineOf_of_listed hlisted
  have hrow := packageBase?_of_mem hwf (baseNamed_mem hnamed).1
  have hmaintainer : (custody db b.id).maintainer = b.maintainerUID := by
    unfold custody
    rw [hrow]
    rfl
  have hdisown : ∀ m ∈ db.users, b.maintainerUID = some m.id → ∀ privileged now,
      let after := (pkgbaseDisown cfg db pkgbase m.username privileged now).2
      (custody after b.id).maintainer = ids.head? ∧
        ∀ ids', Listed after b.id ids' ↔ cfg.setOrder.run ids.tail = ids' := by
    intro m hmem hm privileged now
    have hafter := pkgbaseDisown_listed hwf honce hnamed hmem hm privileged now
    rw [hline] at hafter
    exact hafter
  constructor
  · intro h m hmem hm
    have hkept := h.kept m hmem (hmaintainer.trans hm) false 0
    exact ((hdisown m hmem hm false 0).2 ids.tail).mp hkept
  · intro horder
    refine ⟨hlisted, ?_, ?_⟩
    · intro m hmem hm privileged now
      rw [hmaintainer] at hm
      exact (hdisown m hmem hm privileged now).1
    · intro m hmem hm privileged now
      rw [hmaintainer] at hm
      exact ((hdisown m hmem hm privileged now).2 ids.tail).mpr (horder m hmem hm)

end

end Aurweb.GitServe
