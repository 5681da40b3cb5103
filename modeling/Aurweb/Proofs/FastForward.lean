/-
No head is lost.

A walk from one commit with another one hidden is empty just when the first is an ancestor of
the second.  So what the hook lets through, unless it may overwrite, leads back to the commit
the client says it has seen, and the ref only moves from that one.  What happens to the package
base in the database does not matter: the ref is not kept there, and a base that is deleted
leaves it behind.

The head is `refs/heads/master`, the only ref that can be pushed to.  A deletion is a push of
the zero id.
-/
import Aurweb.FastForward
import Aurweb.Proofs.ReceivePack

namespace Aurweb.ReceivePack

open GitUpdate (Failure)

/-- `AUR_OVERWRITE` is not set, or counts for nothing. -/
def NoOverwrite (s : Server) : Event → Prop
  | .hook i _ _ overwrite _ _ => ∀ r ∈ s.receivers[i]?, (overwrite && r.session.privileged) = false
  | _ => True

/-- What a push has been let through with is a commit that is there, and leads back to the
commit it is to replace. -/
def OnlyFastForwards (objects : Objects) (s : Server) : Prop :=
  ∀ r ∈ s.receivers, ∀ old new, r.accepted = some (old, new) →
    objects.has new = true ∧ ∀ c, old = some c → objects.Reach new c

/-- Every head is still reached from a head. -/
def HeadsReach (objects : Objects) (s s' : Server) : Prop :=
  ∀ pkgbase c, s.master pkgbase = some c →
    ∃ c', s'.master pkgbase = some c' ∧ objects.Reach c' c

section

variable {cfg : Config} {objects : Objects} {srcinfo : Commit → List GitUpdate.PackageData}
  {validate : String → Option Commit → Commit → List Commit → Except Failure Unit}
  {old : Option Commit} {new a b : Commit} {s : Server} {e : Event}

/-! ### The check -/

theorem walk_eq_nil_iff (ha : objects.has a = true) (hb : objects.has b = true) :
    objects.walk a [b] = [] ↔ objects.Reach b a := by
  unfold Objects.Reach
  rw [List.eq_nil_iff_forall_not_mem, Ancestry.reach_iff_forall]
  refine forall_congr' fun d => ?_
  rw [objects.mem_walk a [b] d ha (by simpa using hb)]
  simp

theorem walker_ok {start : Commit} {hidden commits : List Commit}
    (h : objects.walker start hidden = .ok commits) :
    objects.has start = true ∧ (∀ c ∈ hidden, objects.has c = true) ∧
      commits = objects.walk start hidden := by
  unfold Objects.walker at h
  by_cases hall : (start :: hidden).all objects.has = true
  · rw [if_pos hall] at h
    simp only [List.all_cons, Bool.and_eq_true, List.all_eq_true] at hall
    exact ⟨hall.1, hall.2, (Except.ok.inj h).symm⟩
  · rw [if_neg hall] at h
    cases h

/-- Whoever may not overwrite gets past the check with a descendant only. -/
theorem reach_of_fastForward (h : objects.fastForward false (some a) b = .ok ()) :
    objects.Reach b a := by
  simp only [Objects.fastForward, Bool.false_eq_true, if_false] at h
  cases hwalker : objects.walker a [b] with
  | error e => simp [hwalker] at h
  | ok commits =>
      obtain ⟨ha, hb, rfl⟩ := walker_ok hwalker
      cases hwalk : objects.walk a [b] with
      | nil => exact (walk_eq_nil_iff ha (hb b (by simp))).mp hwalk
      | cons c rest => simp [hwalker, hwalk] at h

theorem validates_repo {pkgbase : String}
    (h : (objects.repo srcinfo validate).validates pkgbase false old new = true) :
    objects.has new = true ∧ ∀ c, old = some c → objects.Reach new c := by
  simp only [Objects.repo] at h
  cases hff : objects.fastForward false old new with
  | error e => simp [hff, bind, Except.bind, Except.isOk, Except.toBool] at h
  | ok _ =>
      cases hnew : objects.newCommits old new with
      | error e => simp [hff, hnew, bind, Except.bind, Except.isOk, Except.toBool] at h
      | ok commits =>
          refine ⟨(walker_ok hnew).1, fun c hc => ?_⟩
          rw [hc] at hff
          exact reach_of_fastForward hff

/-! ### A step -/

theorem HeadsReach.refl (objects : Objects) (s : Server) : HeadsReach objects s s :=
  fun _ c hc => ⟨c, hc, Ancestry.Reach.refl c⟩

theorem HeadsReach.trans {s₁ s₂ s₃ : Server} (h : HeadsReach objects s₁ s₂)
    (h' : HeadsReach objects s₂ s₃) : HeadsReach objects s₁ s₃ := by
  intro pkgbase c hc
  obtain ⟨c₂, hc₂, hreach₂⟩ := h pkgbase c hc
  obtain ⟨c₃, hc₃, hreach₃⟩ := h' pkgbase c₂ hc₂
  exact ⟨c₃, hc₃, hreach₃.trans hreach₂⟩

theorem headsReach_of_master_eq {s' : Server} (h : s'.master = s.master) :
    HeadsReach objects s s' := by
  intro pkgbase c hc
  refine ⟨c, ?_, Ancestry.Reach.refl c⟩
  rw [h]
  exact hc

theorem OnlyFastForwards.subset {s' : Server} (h : OnlyFastForwards objects s)
    (hsub : ∀ r ∈ s'.receivers, r ∈ s.receivers) : OnlyFastForwards objects s' :=
  fun r hr => h r (hsub r hr)

theorem OnlyFastForwards.after_op (h : OnlyFastForwards objects s) (op : Op) {repo : Repo} :
    OnlyFastForwards objects (step cfg repo s (.op op)) := by
  intro r hr old new haccepted
  rcases List.mem_append.mp hr with hr | hr
  · exact h r hr old new haccepted
  · -- A process starts with nothing let through.
    obtain ⟨-, -, -, -, -, -, hnone, -⟩ := handOver_of_receiver (Option.mem_toList.mp hr)
    rw [hnone] at haccepted
    cases haccepted

theorem OnlyFastForwards.after_hook (h : OnlyFastForwards objects s) {i : Nat}
    {overwrite : Bool} {now : Nat} {faults : Nat → Option Failure}
    (hg : NoOverwrite s (.hook i old new overwrite now faults)) :
    OnlyFastForwards objects
        (s.hook cfg (objects.repo srcinfo validate) i old new overwrite now faults) ∧
      (s.hook cfg (objects.repo srcinfo validate) i old new overwrite now faults).master =
        s.master := by
  rcases hook_cases cfg (objects.repo srcinfo validate) s i old new overwrite now faults with
    heq | ⟨r, hr, -, ⟨-, heq⟩ | ⟨hvalid, receivers, heq, hreceivers⟩⟩
  · rw [heq]
    exact ⟨h, rfl⟩
  · rw [heq]
    exact ⟨h.subset fun q hq => List.mem_of_mem_eraseIdx hq, rfl⟩
  · rw [heq]
    refine ⟨?_, rfl⟩
    rcases hreceivers with ⟨rfl, -⟩ | ⟨hpush, -, rfl⟩
    · exact h.subset fun q hq => List.mem_of_mem_eraseIdx hq
    · intro q hq old' new' haccepted
      rcases List.mem_or_eq_of_mem_set hq with hq | rfl
      · exact h q hq old' new' haccepted
      · obtain ⟨rfl, rfl⟩ := Prod.mk.inj (Option.some.inj haccepted)
        rw [hg r hr, hpush] at hvalid
        exact validates_repo hvalid

/-- The ref moves to what has been let through, from where the client has seen it. -/
theorem OnlyFastForwards.headsReach_update (h : OnlyFastForwards objects s) (i : Nat) :
    HeadsReach objects s (s.update i) := by
  rcases update_cases s i with heq | ⟨r, old, new, hr, haccepted, heq⟩
  · rw [heq]
    exact HeadsReach.refl objects s
  rw [heq]
  by_cases hmaster : s.master r.pkgbase = old
  · rw [if_pos hmaster]
    intro pkgbase c hc
    by_cases hname : pkgbase = r.pkgbase
    · subst hname
      refine ⟨new, Function.update_self .., ?_⟩
      exact (h r (List.mem_of_getElem? hr) old new haccepted).2 c (hmaster ▸ hc)
    · refine ⟨c, ?_, Ancestry.Reach.refl c⟩
      rw [← hc]
      exact Function.update_of_ne hname _ _
  · rw [if_neg hmaster]
    exact headsReach_of_master_eq rfl

theorem OnlyFastForwards.step (h : OnlyFastForwards objects s) (e : Event)
    (hg : NoOverwrite s e) :
    OnlyFastForwards objects (step cfg (objects.repo srcinfo validate) s e) ∧
      HeadsReach objects s (step cfg (objects.repo srcinfo validate) s e) := by
  cases e with
  | op op => exact ⟨h.after_op op, headsReach_of_master_eq rfl⟩
  | hook =>
      obtain ⟨hkept, hmaster⟩ := h.after_hook hg
      exact ⟨hkept, headsReach_of_master_eq hmaster⟩
  | update i =>
      refine ⟨?_, h.headsReach_update i⟩
      show OnlyFastForwards objects (s.update i)
      rcases update_cases s i with heq | ⟨r, old, new, -, -, heq⟩
      · rw [heq]
        exact h
      · rw [heq]
        exact h.subset fun q hq => List.mem_of_mem_eraseIdx hq
  | abandon i =>
      exact ⟨h.subset fun q hq => List.mem_of_mem_eraseIdx hq, headsReach_of_master_eq rfl⟩

end

/-! ### A run -/

/-- `m` merges `c1` and a history of its own, `r`. -/
def mergeLog : Objects :=
  .ofLog (fun c => if c = "m" then ["c1", "r"] else []) ["m", "c1", "r"] (by decide) (by decide)

/-- Every commit is of the package `foo`, and in order. -/
def fooSrcinfo : Commit → List GitUpdate.PackageData := (onePackage "foo").srcinfo

/-- The hook of a push over a head. -/
def hookOver (i : Nat) (old new : Commit) (overwrite : Bool) : Event :=
  .hook i (some old) new overwrite 9 fun _ => none

/-- Carol pushes the merge over `c1`, and then tries to go back and to delete the branch. -/
def carolPushes : List Event :=
  [startPush 3 "foo.git", hookOver 0 "c1" "m" false, .update 0,
    startPush 3 "foo.git", hookOver 0 "m" "r" true,
    startPush 3 "foo.git", hookOver 0 "m" zeroID true]

/-- The merge is the head in the end. -/
example : (Run.exec (step siteConfig (mergeLog.repo fooSrcinfo fun _ _ _ _ => .ok ()))
    (Server.start smallSite fun _ => some "c1") carolPushes).master "foo" = some "m" := by
  decide +kernel

end Aurweb.ReceivePack
