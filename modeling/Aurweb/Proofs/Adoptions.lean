/-
Requests for the adoption of a base.

An adoption is asked for over SSH, with the adoption form and with the request form, and
each of the three looks first whether it has been asked for already.  Closing a request
never opens another, so no base is asked for twice.  That a base with a maintainer is not
asked for at all takes more: whoever gives an orphan a maintainer has to answer the
requests for it, and a push does not know them.
-/
import Aurweb.Proofs.Maintainers

namespace Aurweb

/-- The adoption of the base is asked for, and nobody has answered. -/
def PackageRequest.asks (baseID : Nat) (r : PackageRequest) : Bool :=
  r.packageBaseID == some baseID && r.isPending .adoption

/-- No base is asked for twice. -/
def AskedOnce (db : Db) : Prop :=
  ∀ baseID, db.packageRequests.countP (PackageRequest.asks baseID) ≤ 1

/-- A base that has a maintainer is not asked for. -/
def Answered (db : Db) : Prop :=
  ∀ b ∈ db.packageBases, b.maintainerUID ≠ none → Unrequested db b.id

instance (db : Db) (baseID : Nat) : Decidable (Unrequested db baseID) :=
  inferInstanceAs (Decidable (∀ r ∈ db.packageRequests, r.packageBaseID = some baseID →
    r.isPending .adoption = false))

instance : DecidablePred Answered := fun db =>
  inferInstanceAs (Decidable (∀ b ∈ db.packageBases, b.maintainerUID ≠ none →
    Unrequested db b.id))

/-- `alice` would like to have `foo`. -/
def askFoo : Op := .post 1 4000000 (.adopt "foo" "" 0)

section

variable {cfg : Config} {may : May} {db db' : Db}

/-! ### What a write does to a request for adoption -/

theorem Touched.asks {r r' : PackageRequest} (h : Touched may r r') {baseID : Nat}
    (hasks : r'.asks baseID = true) : r.asks baseID = true := by
  simp only [PackageRequest.asks, PackageRequest.isPending, Bool.and_eq_true, beq_iff_eq]
    at hasks ⊢
  obtain ⟨hbase, htype, hpending⟩ := hasks
  cases h with
  | settled h =>
      refine ⟨h.base.symm.trans hbase, h.reqType.symm.trans htype, ?_⟩
      by_contra hclosed
      rw [h.settled hclosed] at hpending
      exact hclosed hpending
  | reclosed _ h => exact absurd hpending h.status
  | accepted => cases hpending
  | adrift => cases hbase
  | forgotten => exact ⟨hbase, htype, hpending⟩

theorem unrequested_iff {baseID : Nat} :
    Unrequested db baseID ↔ db.packageRequests.countP (PackageRequest.asks baseID) = 0 := by
  rw [List.countP_eq_zero]
  refine forall₂_congr fun r _ => ?_
  simp [PackageRequest.asks]

theorem Unrequested.touched {baseID : Nat} (h : Unrequested db baseID)
    (hrows : List.Forall₂ (Touched may) db.packageRequests db'.packageRequests) :
    Unrequested db' baseID := by
  rw [unrequested_iff] at h ⊢
  have hle := Table.countP_le_of_forall₂ (q := PackageRequest.asks baseID)
    (fun ht hasks => Touched.asks ht hasks) hrows
  omega

/-! ### Nothing is asked for twice -/

theorem AskedOnce.write (hw : Write cfg may db db') (h : AskedOnce db) : AskedOnce db' := by
  intro baseID
  have hold := h baseID
  rcases hw.requests_cases with ⟨r, hfiled, rfl⟩ | hrows
  · unfold insertRequest
    rw [List.countP_append, List.countP_singleton]
    by_cases hasks : PackageRequest.asks baseID { r with id := db.nextID } = true
    · simp only [PackageRequest.asks, Bool.and_eq_true, beq_iff_eq] at hasks
      obtain ⟨b, hb, hid, -⟩ := hfiled.base
      have hsame : b.id = baseID := Option.some.inj (hid.symm.trans hasks.1)
      obtain ⟨-, hnone⟩ := hfiled.adoption hasks.2 b hb hid
      rw [hsame, unrequested_iff] at hnone
      rw [hnone]
      split <;> omega
    · rw [if_neg hasks]
      exact hold
  · have hle := Table.countP_le_of_forall₂ (q := PackageRequest.asks baseID)
      (fun ht hasks => Touched.asks ht hasks) hrows
    omega

/-- **No base has more than one pending request for its adoption**, in any run. -/
theorem askedOnce_of_run (cfg : Config) (db : Db) (ops : List Op) (hwf : WellFormed cfg db)
    (h : AskedOnce db) : Run.Along (step cfg) AskedOnce db ops := by
  refine along_of_writes (G := fun _ _ => True) ?_ hwf h (Run.guarded_of_forall fun _ _ => trivial)
  intro _ _ _ _ _ _ _ _ hw hold
  exact hold.write hw

/-- `alice` asks again, and once more after `bob` has pushed. -/
theorem askedOnce_of_run_smallSite :
    Run.Along (step siteConfig) AskedOnce smallSite
      [.post 3 3000000 (.disown "foo" "" true ""), askFoo, askFoo, pushFoo 2, askFoo] :=
  askedOnce_of_run siteConfig smallSite _ smallSite_wellFormed fun _ => Nat.zero_le _

/-! ### A base with a maintainer is not asked for -/

theorem Answered.of_bases (h : Answered db)
    (hquiet : ∀ id, Unrequested db id → Unrequested db' id)
    (hbases : ∀ b' ∈ db'.packageBases, b'.maintainerUID ≠ none →
      ∃ b ∈ db.packageBases, b.id = b'.id ∧ b.maintainerUID ≠ none) : Answered db' := by
  intro b' hb' hm'
  obtain ⟨b, hb, hid, hm⟩ := hbases b' hb' hm'
  rw [← hid]
  exact hquiet b.id (h b hb hm)

/-- No update of a base that gives it a maintainer. -/
theorem maintained_updatePackageBase {id : Nat} {f : PackageBase → PackageBase}
    (hf : ∀ b, (f b).id = b.id ∧ ((f b).maintainerUID ≠ none → b.maintainerUID ≠ none))
    {b' : PackageBase} (hb' : b' ∈ (db.updatePackageBase id f).packageBases)
    (hm' : b'.maintainerUID ≠ none) :
    ∃ b ∈ db.packageBases, b.id = b'.id ∧ b.maintainerUID ≠ none :=
  exists_of_mem_updatePackageBase (P := (· ≠ none)) hf hb' hm'

theorem maintained_deletePackageBase {id : Nat} {b : PackageBase}
    (hb : b ∈ (db.deletePackageBase id).packageBases) : b ∈ db.packageBases :=
  (Table.mem_delete.mp hb).1

theorem Answered.file (h : Answered db) {r : PackageRequest} (hfiled : Filed cfg db r) :
    Answered (insertRequest db r) := by
  intro b hb hm r' hr' hbase
  rcases mem_insertRequest hr' with hr' | rfl
  · exact h b hb hm r' hr' hbase
  · by_contra hpending
    obtain ⟨horphan, -⟩ := hfiled.adoption (Bool.not_eq_false _ ▸ hpending) b hb hbase
    exact hm horphan

/-- A maintainer for a base that nobody asks for, or that has one. -/
theorem Answered.engage (h : Answered db) {id uid : Nat}
    (hfree : Unrequested db id ∨ ∀ b ∈ db.packageBases, b.id = id → b.maintainerUID ≠ none) :
    Answered (setMaintainer db id (some uid)) := by
  intro b' hb' hm'
  obtain ⟨b, hb, rfl⟩ := Table.mem_update.mp hb'
  by_cases hid : b.id = id
  · simp only [hid, beq_self_eq_true, if_true]
    rcases hfree with hnone | hmaintained
    · exact hnone
    · exact hid ▸ h b hb (hmaintained b hb hid)
  · simp only [beq_iff_eq, hid, if_false] at hm' ⊢
    exact h b hb hm'

theorem Answered.pushed {p : GitUpdate.Push} (hwf : WellFormed cfg db) (h : Answered db)
    (hfree : ∀ b ∈ db.packageBases, cfg.sameName b.name p.pkgbase = true →
      b.maintainerUID = none → Unrequested db b.id)
    (hpushed : Pushed cfg p db db') : Answered db' := by
  intro b hb hm r hr hbase
  rw [hpushed.requests] at hr
  rcases hpushed.bases b hb with hfresh | ⟨b₀, hb₀, hcarried⟩
  · -- A base that has just been created is in no request.
    obtain ⟨b₁, hb₁, hid, -⟩ := hwf.requestBases r hr b.id hbase
    have hlt : b₁.id < db.nextID := hwf.bases.lt b₁ hb₁
    omega
  rw [← hcarried.id] at hbase
  rcases hcarried.maintainer with hsame | ⟨hnone, hname, -⟩
  · exact h b₀ hb₀ (hsame ▸ hm) r hr hbase
  · exact hfree b₀ hb₀ hname hnone r hr hbase

theorem Answered.write (hoverlook : ¬may.overlook) (hwf : WellFormed cfg db)
    (hw : Write cfg may db db') (h : Answered db) : Answered db' := by
  rcases hw.requests_cases with ⟨r, hfiled, rfl⟩ | hrows
  · exact h.file hfiled
  have hquiet : ∀ id, Unrequested db id → Unrequested db' id := fun id hnone =>
    hnone.touched hrows
  cases hw with
  | engage hfree => exact h.engage (hfree.imp_left fun hmay => hmay.2)
  | release =>
      refine h.of_bases hquiet fun b' hb' hm' => maintained_updatePackageBase (fun b => ?_) hb' hm'
      exact ⟨rfl, by simp⟩
  | delete =>
      exact h.of_bases hquiet fun b hb hm => ⟨b, maintained_deletePackageBase hb, rfl, hm⟩
  | merge =>
      refine h.of_bases hquiet fun b' hb' hm' => ?_
      have hkept := maintained_deletePackageBase hb'
      refine maintained_updatePackageBase (fun b => ?_) hkept hm'
      exact ⟨rfl, fun hm => hm⟩
  | account =>
      refine h.of_bases hquiet fun b' hb' hm' => ?_
      obtain ⟨b, hb, rfl⟩ := List.mem_map.mp hb'
      refine ⟨b, hb, rfl, fun hm => hm' ?_⟩
      simp [hm, Db.setNull]
  | mark hf | ballot hf =>
      refine h.of_bases hquiet fun b' => maintained_updatePackageBase fun b => ?_
      exact ⟨(hf b).id, fun hm => (hf b).maintainer ▸ hm⟩
  | side hbases => exact h.of_bases hquiet fun b hb hm => ⟨b, hbases ▸ hb, rfl, hm⟩
  | push _ _ _ hfree =>
      exact h.pushed hwf (hfree.resolve_left hoverlook) (main_pushed hwf _ _)
  | _ => exact h.of_bases hquiet fun b hb hm => ⟨b, hb, rfl, hm⟩

/--
**A base that has a maintainer has no pending request for its adoption**, in every run none
of whose pushes takes an orphan over that is asked for.
-/
theorem answered_of_guarded (cfg : Config) (db : Db) (ops : List Op) (hwf : WellFormed cfg db)
    (h : Answered db)
    (hg : Run.Guarded (step cfg) (fun db op => ¬op.Overlooks cfg db) db ops) :
    Run.Along (step cfg) Answered db ops := by
  refine along_of_writes ?_ hwf h hg
  intro db₀ op db db' _ _ hop hwf' hw hold
  exact hold.write (fun hmay => hop ((explains_mayOf cfg db₀ op).overlook hmay)) hwf' hw

end

/-- `carol` leaves, `alice` asks, and `bob` grants it. -/
theorem answered_of_guarded_smallSite :
    Run.Along (step siteConfig) Answered smallSite
      [.post 3 3000000 (.disown "foo" "" true ""), askFoo, .post 2 5000000 (.adopt "foo" "" 5)] :=
  answered_of_guarded siteConfig smallSite _ smallSite_wellFormed (by decide)
    ⟨fun h => h, fun h => h, fun h => h, trivial⟩

/-- The same, but `bob` pushes instead: `alice` is still waiting, and can be granted `foo`. -/
theorem not_answered_bobPushes :
    ¬Run.Along (step siteConfig) Answered smallSite
      [.post 3 3000000 (.disown "foo" "" true ""), askFoo, pushFoo 2] := by
  decide +kernel

end Aurweb
