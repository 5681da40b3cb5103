/-
Whether the database shows the commit that the ref is at.

The hook stores the packages of a commit and lets the update of the ref through; the ref is
moved some time later, and only if nobody else has moved it.  Two pushes from the same commit
may therefore store their packages in one order and have their updates made in the other: the
loser of the second race has overwritten the winner of the first.  `inStep_of_oneByOne` is
about the runs in which every push is through with its ref before the next one gets to store
anything; `not_inStep_twoClones` is what happens otherwise.
-/
import Aurweb.Proofs.ReceivePack
import Aurweb.Proofs.Storable

namespace Aurweb.ReceivePack

open GitUpdate (Stocked Storable Holds baseByName blocked firstCommit metadata)

/-! ### In step -/

/-- The packages of the base are those of the commit; without a commit there are none. -/
def Shows (cfg : Config) (repo : Repo) (db : Db) (pkgbase : String) : Option Commit → Prop
  | none => ∀ b, baseByName cfg pkgbase db = some b → metadata db b.id = []
  | some c => ∃ b, baseByName cfg pkgbase db = some b ∧
      List.Forall₂ (Holds cfg) (metadata db b.id) (repo.srcinfo c)

/-- Once no push is under way, the database shows the commit that the ref is at. -/
def InStep (cfg : Config) (repo : Repo) (pkgbase : String) (s : Server) : Prop :=
  s.receivers = [] → Shows cfg repo s.db pkgbase (s.master pkgbase)

/-- `git push` to one package base. -/
def IsPush (pkgbase : String) : Op → Prop
  | .ssh _ _ _ _ action args _ =>
      ∃ path, GitServe.normalizeAction action args = .ok ("git-receive-pack", [path]) ∧
        GitServe.repoName path = pkgbase
  | _ => False

/-- Nothing else happens to the site than pushes to that base. -/
def OnlyPushes (pkgbase : String) : Event → Prop
  | .op op => IsPush pkgbase op
  | _ => True

/-- The hook ends before it has stored anything. -/
def TurnedAway (cfg : Config) (repo : Repo) (db : Db) (r : Receiver) (new : Commit) (now : Nat)
    (faults : Nat → Option GitUpdate.Failure) : Prop :=
  blocked cfg db (r.push repo new now) = true ∨
    repo.srcinfo new ≠ [] ∧ ∃ k ≤ firstCommit cfg db (r.push repo new now), faults k ≠ none

/-- No update is waiting for its ref, the ref is where the client has seen it, and nothing keeps
the hook from storing all of the commit. -/
structure InTurn (cfg : Config) (repo : Repo) (s : Server) (r : Receiver) (old : Option Commit)
    (new : Commit) (faults : Nat → Option GitUpdate.Failure) : Prop where
  idle : ∀ q ∈ s.receivers, q.accepted = none
  current : s.master r.pkgbase = old
  storable : Storable cfg (repo.srcinfo new)
  undisturbed : ∀ k, faults k = none

/-- From the hook to the update of its ref, a push is alone. -/
def OneByOne (cfg : Config) (repo : Repo) (s : Server) : Event → Prop
  | .hook i old new overwrite now faults => ∀ r, s.receivers[i]? = some r → r.accepted = none →
      repo.validates r.pkgbase (overwrite && r.session.privileged) old new = true →
      TurnedAway cfg repo s.db r new now faults ∨ InTurn cfg repo s r old new faults
  | .abandon i => ∀ r, s.receivers[i]? = some r → r.accepted = none
  | _ => True

/-! ### What a push finds -/

/-- A session that pushes is turned away, or handed over for the base it names. -/
theorem serve_push (cfg : Config) (db : Db) (s : GitServe.Session) {action : String}
    {args : List String} {path : String}
    (h : GitServe.normalizeAction action args = .ok ("git-receive-pack", [path])) :
    (∃ e, GitServe.serve cfg db s action args = (.error e, db)) ∨
    (∃ e, GitServe.serve cfg db s action args = (.error e, GitServe.logSSHLogin cfg db s)) ∨
    GitServe.serve cfg db s action args =
      (.ok (.receivePack (GitServe.repoName path)), GitServe.logSSHLogin cfg db s) := by
  rcases GitServe.serve_cases cfg db s action args with ⟨e, he⟩ | ⟨e, he⟩ | ⟨command, hadmit, he⟩
  · exact Or.inl ⟨e, he⟩
  · exact Or.inr (Or.inl ⟨e, he⟩)
  obtain ⟨-, -, -, action', args', hnormal, hparse⟩ := hadmit
  rw [h] at hnormal
  obtain ⟨rfl, rfl⟩ := Prod.mk.inj (Except.ok.inj hnormal)
  obtain rfl : GitServe.Command.receivePack path = command := Except.ok.inj hparse
  right
  rw [he, GitServe.dispatch]
  split
  · exact Or.inl ⟨_, rfl⟩
  split
  · exact Or.inl ⟨_, rfl⟩
  split
  · exact Or.inl ⟨_, rfl⟩
  · exact Or.inr rfl

/-- The check writes down the login, at most, and starts a push that has nothing accepted. -/
theorem op_of_push (cfg : Config) (db : Db) {pkgbase : String} {op : Op} (h : IsPush pkgbase op) :
    (∃ users, Aurweb.step cfg db (handOver op) = { db with users := users }) ∧
      ∀ r, receiver cfg db op = some r →
        r.pkgbase = pkgbase ∧ r.restore = false ∧ r.accepted = none := by
  cases op with
  | ssh uid remoteAddr now hookInstalled action args upload =>
      obtain ⟨path, hnormal, hname⟩ := h
      simp only [handOver, Aurweb.step, receiver]
      cases hsession : (db.user? uid).bind fun u =>
          GitServe.Session.of u remoteAddr (timestamp now) hookInstalled with
      | none => exact ⟨⟨db.users, rfl⟩, fun r hr => by cases hr⟩
      | some s =>
          simp only [session]
          rcases serve_push cfg db s hnormal with
            ⟨e, he⟩ | ⟨e, he⟩ | he
          · rw [he]
            exact ⟨⟨db.users, rfl⟩, fun r hr => by cases hr⟩
          · rw [he]
            exact ⟨⟨_, rfl⟩, fun r hr => by cases hr⟩
          · rw [he]
            refine ⟨⟨_, rfl⟩, fun r hr => ?_⟩
            obtain rfl := Option.some.inj hr
            exact ⟨hname, rfl, rfl⟩
  | _ => exact h.elim

/-! ### The updates that wait -/

section

variable {cfg : Config} {repo : Repo} {pkgbase : String} {s : Server} {i : Nat} {r : Receiver}

/-- What the hooks have let through and the refs have not seen yet. -/
def pending (receivers : List Receiver) : List (Option Commit × Commit) :=
  receivers.filterMap (·.accepted)

theorem exists_split (hr : s.receivers[i]? = some r) :
    ∃ before behind, s.receivers = before ++ r :: behind ∧
      s.receivers.eraseIdx i = before ++ behind ∧
      ∀ q, s.receivers.set i q = before ++ q :: behind := by
  obtain ⟨hi, rfl⟩ := List.getElem?_eq_some_iff.mp hr
  refine ⟨s.receivers.take i, s.receivers.drop (i + 1), ?_, ?_, fun q => ?_⟩
  · rw [List.getElem_cons_drop, List.take_append_drop]
  · exact List.eraseIdx_eq_take_drop_succ _ _
  · exact List.set_eq_take_append_cons_drop.trans (if_pos hi)

theorem pending_erase (hr : s.receivers[i]? = some r) (hnone : r.accepted = none) :
    pending (s.receivers.eraseIdx i) = pending s.receivers := by
  obtain ⟨before, behind, heq, herase, -⟩ := exists_split hr
  rw [pending, pending, herase, heq, List.filterMap_append, List.filterMap_append,
    List.filterMap_cons_none hnone]

/-- The only one that waits is done with. -/
theorem pending_update (hr : s.receivers[i]? = some r) {update other : Option Commit × Commit}
    (haccepted : r.accepted = some update) (hpending : pending s.receivers = [other]) :
    other = update ∧ pending (s.receivers.eraseIdx i) = [] := by
  obtain ⟨before, behind, heq, herase, -⟩ := exists_split hr
  rw [pending, heq, List.filterMap_append, List.filterMap_cons_some haccepted,
    List.append_eq_singleton_iff] at hpending
  rw [pending, herase, List.filterMap_append]
  rcases hpending with ⟨hbefore, hbehind⟩ | ⟨-, hnil⟩
  · obtain ⟨rfl, hnil⟩ := List.cons.inj hbehind
    rw [hbefore, hnil]
    exact ⟨rfl, rfl⟩
  · cases hnil

theorem pending_accept (hr : s.receivers[i]? = some r) (hidle : ∀ q ∈ s.receivers, q.accepted = none)
    (update : Option Commit × Commit) :
    pending (s.receivers.set i { r with accepted := some update }) = [update] := by
  obtain ⟨before, behind, heq, -, hset⟩ := exists_split hr
  have hnew : ({ r with accepted := some update } : Receiver).accepted = some update := rfl
  have hnil : ∀ l : List Receiver, (∀ q ∈ l, q ∈ s.receivers) → l.filterMap (·.accepted) = [] :=
    fun l hl => List.filterMap_eq_nil_iff.mpr fun q hq => hidle q (hl q hq)
  rw [pending, hset, List.filterMap_append, List.filterMap_cons_some hnew, hnil before, hnil behind]
  · rfl
  · intro q hq
    simp [heq, hq]
  · intro q hq
    simp [heq, hq]

/-! ### What one event keeps -/

/-- Either nothing waits and the database shows the ref, or one update waits, and the database
shows what the ref is about to be moved to. -/
structure Coherent (cfg : Config) (repo : Repo) (pkgbase : String) (s : Server) : Prop where
  wellFormed : WellFormed cfg s.db
  stocked : Stocked s.db
  own : ∀ r ∈ s.receivers, r.pkgbase = pkgbase ∧ r.restore = false
  shows : (pending s.receivers = [] ∧ Shows cfg repo s.db pkgbase (s.master pkgbase)) ∨
    ∃ old new, pending s.receivers = [(old, new)] ∧ s.master pkgbase = old ∧
      Shows cfg repo s.db pkgbase (some new)

theorem Coherent.inStep (h : Coherent cfg repo pkgbase s) : InStep cfg repo pkgbase s := by
  intro hnone
  rcases h.shows with ⟨-, hshows⟩ | ⟨old, new, hpending, -⟩
  · exact hshows
  · rw [hnone] at hpending
    cases hpending

/-- A process ends that nothing has been accepted of. -/
theorem Coherent.erase (h : Coherent cfg repo pkgbase s) (hr : s.receivers[i]? = some r)
    (hnone : r.accepted = none) :
    Coherent cfg repo pkgbase { s with receivers := s.receivers.eraseIdx i } where
  wellFormed := h.wellFormed
  stocked := h.stocked
  own q hq := h.own q (List.mem_of_mem_eraseIdx hq)
  shows := by
    show (pending (s.receivers.eraseIdx i) = [] ∧ _) ∨ ∃ old new,
      pending (s.receivers.eraseIdx i) = [(old, new)] ∧ _
    rw [pending_erase hr hnone]
    exact h.shows

/-- Another process has begun. -/
theorem Coherent.after_op (h : Coherent cfg repo pkgbase s) {op : Op} (hop : IsPush pkgbase op) :
    Coherent cfg repo pkgbase (step cfg repo s (.op op)) := by
  obtain ⟨⟨users, hdb⟩, hnew⟩ := op_of_push cfg s.db hop
  have hpending : pending (s.receivers ++ (receiver cfg s.db op).toList) = pending s.receivers := by
    rw [pending, List.filterMap_append, List.filterMap_eq_nil_iff.mpr fun r hr =>
      (hnew r (Option.mem_toList.mp hr)).2.2, List.append_nil]
    rfl
  refine ⟨wellFormed_step h.wellFormed (handOver op),
    stocked_step h.wellFormed h.stocked (handOver op), fun r hr => ?_, ?_⟩
  · rcases List.mem_append.mp hr with hr | hr
    · exact h.own r hr
    · obtain ⟨hbase, hrestore, -⟩ := hnew r (Option.mem_toList.mp hr)
      exact ⟨hbase, hrestore⟩
  · show (pending (s.receivers ++ (receiver cfg s.db op).toList) = [] ∧
        Shows cfg repo (Aurweb.step cfg s.db (handOver op)) pkgbase _) ∨
      ∃ old new, pending (s.receivers ++ (receiver cfg s.db op).toList) = [(old, new)] ∧ _ ∧
        Shows cfg repo (Aurweb.step cfg s.db (handOver op)) pkgbase _
    rw [hpending, hdb]
    exact h.shows

theorem TurnedAway.refused {db : Db} {new : Commit} {now : Nat}
    {faults : Nat → Option GitUpdate.Failure} (h : TurnedAway cfg repo db r new now faults) :
    (∃ e, ((GitUpdate.main cfg (r.push repo new now)).run faults db).1 = .error e) ∧
      ((GitUpdate.main cfg (r.push repo new now)).run faults db).2 = db := by
  rcases h with hblocked | ⟨hpackages, k, hk, hfault⟩
  · exact GitUpdate.refused_of_blocked hblocked faults
  · exact GitUpdate.refused_of_early (fun _ => hpackages) (Or.inr ⟨k, hk, hfault⟩)

section

variable {old : Option Commit} {new : Commit} {now : Nat}
  {faults : Nat → Option GitUpdate.Failure}

/-- What becomes of the process when the hook has ended. -/
def Ends (cfg : Config) (repo : Repo) (s : Server) (i : Nat) (r : Receiver) (old : Option Commit)
    (new : Commit) (now : Nat) (faults : Nat → Option GitUpdate.Failure)
    (receivers : List Receiver) : Prop :=
  (receivers = s.receivers.eraseIdx i ∧
    ∃ e, ((GitUpdate.main cfg (r.push repo new now)).run faults s.db).1 = .error e) ∨
  (((GitUpdate.main cfg (r.push repo new now)).run faults s.db).1 = .ok () ∧
    receivers = s.receivers.set i { r with accepted := some (old, new) })

/-- The hook has failed and stored nothing. -/
theorem Coherent.after_failure (h : Coherent cfg repo pkgbase s) (hr : s.receivers[i]? = some r)
    (hpending : r.accepted = none) {receivers : List Receiver}
    (hends : Ends cfg repo s i r old new now faults receivers)
    (hfailed : (∃ e, ((GitUpdate.main cfg (r.push repo new now)).run faults s.db).1 = .error e) ∧
      ((GitUpdate.main cfg (r.push repo new now)).run faults s.db).2 = s.db) :
    Coherent cfg repo pkgbase
      { s with db := ((GitUpdate.main cfg (r.push repo new now)).run faults s.db).2, receivers } := by
  obtain ⟨⟨e, he⟩, hsame⟩ := hfailed
  rcases hends with ⟨rfl, -⟩ | ⟨hok, -⟩
  · rw [hsame]
    exact h.erase hr hpending
  · rw [he] at hok
    cases hok

/-- The hook has stored the commit, and its update waits. -/
theorem Coherent.after_success (h : Coherent cfg repo pkgbase s) (hr : s.receivers[i]? = some r)
    (hturn : InTurn cfg repo s r old new faults) {receivers : List Receiver}
    (hends : Ends cfg repo s i r old new now faults receivers)
    (hok : ((GitUpdate.main cfg (r.push repo new now)).run faults s.db).1 = .ok ())
    {baseID : Nat} (hpushed : GitUpdate.Pushed cfg r.pkgbase baseID (repo.srcinfo new) s.db
      ((GitUpdate.main cfg (r.push repo new now)).run faults s.db).2) :
    Coherent cfg repo pkgbase
      { s with db := ((GitUpdate.main cfg (r.push repo new now)).run faults s.db).2, receivers } := by
  obtain ⟨hbase, hrestore⟩ := h.own r (List.mem_of_getElem? hr)
  rcases hends with ⟨-, e, he⟩ | ⟨-, rfl⟩
  · rw [hok] at he
    cases he
  refine ⟨run_of_keptBy (keptBy_wellFormed cfg _) faults h.wellFormed,
    (GitUpdate.framed_run h.stocked h.wellFormed.bases.lt _ faults).stocked, fun q hq => ?_,
    Or.inr ⟨old, new, pending_accept hr hturn.idle _, ?_, ?_⟩⟩
  · rcases List.mem_or_eq_of_mem_set hq with hq | rfl
    · exact h.own q hq
    · exact ⟨hbase, hrestore⟩
  · rw [← hbase]
    exact hturn.current
  · obtain ⟨b, hb, rfl⟩ := hpushed.base
    exact ⟨b, hbase ▸ hb, hpushed.packages⟩

theorem Coherent.after_hook (h : Coherent cfg repo pkgbase s) {overwrite : Bool}
    (hg : OneByOne cfg repo s (.hook i old new overwrite now faults)) :
    Coherent cfg repo pkgbase (s.hook cfg repo i old new overwrite now faults) := by
  rcases hook_cases cfg repo s i old new overwrite now faults with
    heq | ⟨r, hr, hpending, ⟨-, heq⟩ | ⟨hvalid, receivers, heq, hreceivers⟩⟩
  · rw [heq]
    exact h
  · rw [heq]
    exact h.erase hr hpending
  obtain ⟨-, hrestore⟩ := h.own r (List.mem_of_getElem? hr)
  have hvalid' : repo.validates r.pkgbase (overwrite && r.session.privileged) old new = true := by
    simpa [hrestore] using hvalid
  have hends : Ends cfg repo s i r old new now faults receivers := by
    simpa [hrestore, Ends] using hreceivers
  rw [heq]
  rcases hg r hr hpending hvalid' with hturned | hturn
  · exact h.after_failure hr hpending hends hturned.refused
  cases hblocked : blocked cfg s.db (r.push repo new now) with
  | true => exact h.after_failure hr hpending hends (GitUpdate.refused_of_blocked hblocked faults)
  | false =>
      rcases GitUpdate.run_of_storable h.stocked.keyed hblocked hturn.storable
        hturn.undisturbed with ⟨hok, baseID, hpushed⟩ | hfailed
      · exact h.after_success hr hturn hends hok hpushed
      · exact h.after_failure hr hpending hends hfailed

end

/-- The update that was waiting finds its ref where it was, and the database is ahead no more. -/
theorem Coherent.after_update (h : Coherent cfg repo pkgbase s) (i : Nat) :
    Coherent cfg repo pkgbase (s.update i) := by
  rcases update_cases s i with heq | ⟨r, old, new, hr, haccepted, heq⟩
  · rw [heq]
    exact h
  obtain ⟨hbase, -⟩ := h.own r (List.mem_of_getElem? hr)
  rcases h.shows with ⟨hnone, -⟩ | ⟨old', new', hone, hcurrent, hshows⟩
  · have hmem : (old, new) ∈ pending s.receivers :=
      List.mem_filterMap.mpr ⟨r, List.mem_of_getElem? hr, haccepted⟩
    rw [hnone] at hmem
    cases hmem
  obtain ⟨hsame, hnil⟩ := pending_update hr haccepted hone
  obtain ⟨rfl, rfl⟩ := Prod.mk.inj hsame
  rw [heq, hbase, if_pos hcurrent]
  refine ⟨h.wellFormed, h.stocked, fun q hq => h.own q (List.mem_of_mem_eraseIdx hq),
    Or.inl ⟨hnil, ?_⟩⟩
  show Shows cfg repo s.db pkgbase (Function.update s.master pkgbase (some new') pkgbase)
  rw [Function.update_self]
  exact hshows

theorem Coherent.after_abandon (h : Coherent cfg repo pkgbase s)
    (hg : OneByOne cfg repo s (.abandon i)) :
    Coherent cfg repo pkgbase (step cfg repo s (.abandon i)) := by
  cases hr : s.receivers[i]? with
  | some r => exact h.erase hr (hg r hr)
  | none =>
      have hsame : s.receivers.eraseIdx i = s.receivers :=
        List.eraseIdx_of_length_le (List.getElem?_eq_none_iff.mp hr)
      show Coherent cfg repo pkgbase { s with receivers := s.receivers.eraseIdx i }
      rw [hsame]
      exact h

theorem Coherent.step (h : Coherent cfg repo pkgbase s) (e : Event) (hpush : OnlyPushes pkgbase e)
    (hg : OneByOne cfg repo s e) : Coherent cfg repo pkgbase (step cfg repo s e) := by
  cases e with
  | op op => exact h.after_op hpush
  | hook i old new overwrite now faults => exact h.after_hook hg
  | update i => exact h.after_update i
  | abandon i => exact h.after_abandon hg

end

/--
**The database shows what the ref is at**, whenever no push is under way, in every run of pushes
to one package base that take their turns.
-/
theorem inStep_of_oneByOne {cfg : Config} {repo : Repo} {db : Db} {pkgbase : String}
    (hwf : WellFormed cfg db) (hs : Stocked db) (master : String → Option Commit)
    (hshows : Shows cfg repo db pkgbase (master pkgbase)) {es : List Event}
    (hpushes : ∀ e ∈ es, OnlyPushes pkgbase e)
    (h : Run.Guarded (step cfg repo) (OneByOne cfg repo) (Server.start db master) es) :
    Run.Along (step cfg repo) (InStep cfg repo pkgbase) (Server.start db master) es := by
  have hstart : Coherent cfg repo pkgbase (Server.start db master) := by
    refine ⟨hwf, hs, fun r hr => ?_, Or.inl ⟨rfl, hshows⟩⟩
    cases hr
  have hboth := Run.Guarded.and (Run.guarded_of_mem hpushes) h
  refine Run.Along.imp (fun s hc => hc.inStep) (Run.along_of_guarded ?_ hstart hboth)
  intro s e hc hg
  exact hc.step e hg.1 hg.2

/-- Every commit passes, and is a version of one package, named like the base. -/
def versionsOf (name : String) : Repo where
  srcinfo c := [{
    name := name, version := .ok c, description := none, url := none, passes := []
    licenses := [], groups := [] }]
  validates _ _ _ _ := true

theorem shows_smallSite : Shows siteConfig (versionsOf "bar") smallSite "bar" none := by
  intro b hb
  have hnone : baseByName siteConfig "bar" smallSite = none := by decide +kernel
  rw [hnone] at hb
  cases hb

theorem isPush_startPush {uid : Nat} {path pkgbase : String}
    (h : GitServe.repoName path = pkgbase) : OnlyPushes pkgbase (startPush uid path) :=
  ⟨path, rfl, h⟩

/-- Carol pushes `bar`, which nobody has, and then nobody else does. -/
theorem inStep_of_oneByOne_bar :
    Run.Along (step siteConfig (versionsOf "bar")) (InStep siteConfig (versionsOf "bar") "bar")
      (Server.start smallSite fun _ => none)
      [startPush 3 "bar.git", firstHook 0 "1-1", .update 0] := by
  refine inStep_of_oneByOne smallSite_wellFormed stocked_smallSite _ shows_smallSite ?_
    ⟨trivial, ?_, trivial, trivial⟩
  · intro e he
    simp only [List.mem_cons, List.not_mem_nil, or_false] at he
    rcases he with rfl | rfl | rfl
    · exact isPush_startPush (by decide +kernel)
    · exact trivial
    · exact trivial
  · intro r hr hpending hvalid
    refine Or.inr ⟨?_, rfl, ⟨?_, ?_, ?_, ?_⟩, fun _ => rfl⟩
    · decide +kernel
    all_goals simp [versionsOf, Except.isOk, Except.toBool]

/-- Carol pushes two versions from two clones; the hook of the second runs before the ref of the
first has been moved. -/
def twoClones : List Event :=
  [startPush 3 "bar.git", startPush 3 "bar.git", firstHook 0 "1-1", firstHook 1 "2-1", .update 0,
    .update 0]

/-- The ref is at one version, and another one is shown. -/
theorem not_inStep_of_versions {s : Server} {shown : List String} (hdone : s.receivers = [])
    {c : Commit} (href : s.master "bar" = some c)
    (hversions : ((baseByName siteConfig "bar" s.db).map fun b =>
      (metadata s.db b.id).map (·.version)) = some shown) (hother : shown ≠ [c]) :
    ¬InStep siteConfig (versionsOf "bar") "bar" s := by
  intro h
  have hshows := h hdone
  rw [href] at hshows
  obtain ⟨b, hb, hholds⟩ := hshows
  obtain ⟨rows, rest, hfirst, hnil, hmeta⟩ := List.forall₂_cons_right_iff.mp hholds
  rw [List.forall₂_nil_right_iff] at hnil
  rw [hb, Option.map_some, Option.some.injEq, hmeta, hnil] at hversions
  have hversion : c = rows.version := Except.ok.inj hfirst.version
  refine hother ?_
  rw [← hversions, hversion]
  rfl

/-- The second update is refused, but its packages are the ones that stay. -/
theorem not_inStep_twoClones :
    WellFormed siteConfig smallSite ∧ Stocked smallSite ∧
      Shows siteConfig (versionsOf "bar") smallSite "bar" none ∧
      (∀ e ∈ twoClones, OnlyPushes "bar" e) ∧
      ¬Run.Along (step siteConfig (versionsOf "bar"))
        (InStep siteConfig (versionsOf "bar") "bar") (Server.start smallSite fun _ => none)
        twoClones := by
  refine ⟨smallSite_wellFormed, stocked_smallSite, shows_smallSite, fun e he => ?_, ?_⟩
  · simp only [twoClones, List.mem_cons, List.not_mem_nil, or_false] at he
    rcases he with rfl | rfl | rfl | rfl | rfl | rfl
    · exact isPush_startPush (by decide +kernel)
    · exact isPush_startPush (by decide +kernel)
    all_goals exact trivial
  apply Run.not_along_of_last
  have hdone : (Run.exec (step siteConfig (versionsOf "bar"))
      (Server.start smallSite fun _ => none) twoClones).receivers = [] := by
    decide +kernel
  have href : (Run.exec (step siteConfig (versionsOf "bar"))
      (Server.start smallSite fun _ => none) twoClones).master "bar" = some "1-1" := by
    decide +kernel
  have hversions : ((baseByName siteConfig "bar" (Run.exec (step siteConfig (versionsOf "bar"))
      (Server.start smallSite fun _ => none) twoClones).db).map fun b =>
        (metadata (Run.exec (step siteConfig (versionsOf "bar"))
          (Server.start smallSite fun _ => none) twoClones).db b.id).map (·.version)) =
      some ["2-1"] := by
    decide +kernel
  refine not_inStep_of_versions hdone href hversions ?_
  decide

end Aurweb.ReceivePack
