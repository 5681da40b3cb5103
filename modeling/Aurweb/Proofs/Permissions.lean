/-
Who may do what to a package base.

A grant of `mayOf` is one a user has from being elevated, from the base, or from a command
that asks nobody.  A write without the grant leaves alone what the grant is for, and so
does a chain of them: nobody gets at the keywords, the comaintainers or the flag of a base
through a web form or an SSH command that is not theirs to give.
-/
import Aurweb.Proofs.Ownership

namespace Aurweb

def comaintainersOf (db : Db) (baseID : Nat) : List PackageComaintainer :=
  db.packageComaintainers.filter (·.of baseID)

def keywordsOf (db : Db) (baseID : Nat) : List PackageKeyword :=
  db.packageKeywords.filter (·.packageBaseID == baseID)

/-- The base is still there, with its flag. -/
def FlagKept (b : PackageBase) (db : Db) : Prop :=
  ∃ b' ∈ db.packageBases, b'.id = b.id ∧ b'.outOfDateTS = b.outOfDateTS ∧
    b'.flaggerUID = b.flaggerUID

section

variable {cfg : Config} {may : May} {db db' : Db}

/-! ### What a write leaves alone -/

theorem keptBy_tables (cfg : Config) (p : GitUpdate.Push) (comaintainers : List PackageComaintainer)
    (keywords : List PackageKeyword) : GitUpdate.KeptBy cfg p fun db =>
      db.packageComaintainers = comaintainers ∧ db.packageKeywords = keywords where
  stores hs h := by cases hs <;> exact h
  clear _ h := h
  notify h := h
  touch _ _ _ h := h
  takeOver _ _ _ _ h := h
  create _ _ h _ _ _ _ _ := h

theorem push_tables (cfg : Config) (db : Db) (p : GitUpdate.Push)
    (faults : Nat → Option GitUpdate.Failure) :
    ((GitUpdate.main cfg p).run faults db).2.packageComaintainers = db.packageComaintainers ∧
      ((GitUpdate.main cfg p).run faults db).2.packageKeywords = db.packageKeywords :=
  run_of_keptBy (keptBy_tables cfg p db.packageComaintainers db.packageKeywords) faults ⟨rfl, rfl⟩

theorem comaintainerIDs_of_delete {id : Nat} {rows : List PackageComaintainer} {uid : Nat}
    (h : rows.filter (·.of id) = Table.delete (·.usersID == uid) (comaintainersOf db id)) :
    (rows.filter (·.of id)).map (some ·.usersID) =
      (comaintainerIDs db id).filter (· != some uid) := by
  rw [h]
  unfold comaintainerIDs comaintainersOf Table.delete
  rw [List.filter_map]
  rfl

theorem comaintainersOf_delete_self {id uid : Nat} (h : isComaintainer db id uid = false) :
    Table.delete (·.usersID == uid) (comaintainersOf db id) = comaintainersOf db id := by
  refine Table.delete_eq_self fun c hc => ?_
  by_contra huid
  have hmem : some uid ∈ comaintainerIDs db id := by
    refine List.mem_map.mpr ⟨c, hc, ?_⟩
    simpa using huid
  rw [isComaintainer, List.contains_iff_mem.mpr hmem] at h
  cases h

/-- A comaintainer who leaves is not on the list, and everybody else is. -/
theorem comaintainerIDs_leave (db : Db) (id uid : Nat) :
    comaintainerIDs (removeComaintainer db id uid) id =
      (comaintainerIDs db id).filter (· != some uid) := by
  have hrows : (removeComaintainer db id uid).packageComaintainers.filter (·.of id) =
      Table.delete (·.usersID == uid) (comaintainersOf (rotateComaintainers db id) id) := by
    unfold removeComaintainer deleteComaintainers comaintainersOf
    simp only [Table.filter_delete]
    refine List.filter_congr fun c hc => ?_
    simp [(List.mem_filter.mp hc).2]
  have hrotated : comaintainerIDs (rotateComaintainers db id) id = comaintainerIDs db id := by
    unfold comaintainerIDs rotateComaintainers
    simp only
    rw [Table.filter_update_self, List.map_map]
    · rfl
    · exact fun c => rfl
  rw [← hrotated]
  exact comaintainerIDs_of_delete hrows

theorem comaintainersOf_leave_other {id id' uid : Nat} (hne : id' ≠ id) :
    comaintainersOf (removeComaintainer db id' uid) id = comaintainersOf db id := by
  have hdisj : ∀ c : PackageComaintainer, c.of id' = true → c.of id = true → False := by
    intro c hc hc'
    exact hne ((beq_iff_eq.mp hc).symm.trans (beq_iff_eq.mp hc'))
  unfold comaintainersOf removeComaintainer deleteComaintainers rotateComaintainers
  rw [Table.filter_delete_of_disjoint fun c hc hc' => hdisj c (Bool.and_eq_true _ _ ▸ hc).1 hc']
  refine Table.filter_update_of_disjoint ?_ hdisj _
  exact fun c => rfl

theorem comaintainersOf_deletePackageBase {id id' : Nat} (hne : id' ≠ id) :
    comaintainersOf (db.deletePackageBase id') id = comaintainersOf db id := by
  refine Table.filter_delete_of_disjoint (fun c hc hc' => hne ?_) _
  exact (beq_iff_eq.mp hc).symm.trans (beq_iff_eq.mp hc')

theorem keywordsOf_deletePackageBase {id id' : Nat} (hne : id' ≠ id) :
    keywordsOf (db.deletePackageBase id') id = keywordsOf db id := by
  refine Table.filter_delete_of_disjoint (fun r hr hr' => hne ?_) _
  exact (beq_iff_eq.mp hr).symm.trans (beq_iff_eq.mp hr')

/-- Whoever does not decide about a base can take nobody off its list but themselves. -/
theorem Write.comaintainersOf_eq {id uid : Nat} (hmanage : ¬may.manage id)
    (hactor : ∀ v, may.actor = some v → v = uid) (hremove : ∀ v, may.remove v → v = uid)
    (hw : Write cfg may db db') :
    comaintainersOf db' id = comaintainersOf db id ∨
      isComaintainer db id uid = true ∧
        comaintainerIDs db' id = (comaintainerIDs db id).filter (· != some uid) := by
  have hother : ∀ {id'}, may.manage id' → id' ≠ id := by
    rintro id' hmay rfl
    exact hmanage hmay
  cases hw with
  | @leave id' uid' hmay =>
      by_cases hid : id' = id
      · subst hid
        obtain ⟨hself, hco⟩ := hmay.resolve_left hmanage
        obtain rfl := hactor uid' hself
        exact Or.inr ⟨hco, comaintainerIDs_leave db id' uid'⟩
      · exact Or.inl (comaintainersOf_leave_other hid)
  | staff hmay hrows =>
      refine Or.inl (Table.filter_eq_of_subset (fun c hc => ?_) hrows)
      have hid := hother hmay
      simp only [PackageComaintainer.of, beq_iff_eq] at hc
      simp [PackageComaintainer.of, hc, Ne.symm hid]
  | delete hmay => exact Or.inl (comaintainersOf_deletePackageBase (hother hmay))
  | merge hmay => exact Or.inl (comaintainersOf_deletePackageBase (hother hmay))
  | @account v hmay =>
      obtain rfl := hremove v hmay
      have hrows : comaintainersOf (db.deleteUser v) id =
          Table.delete (·.usersID == v) (comaintainersOf db id) := Table.filter_delete _ _ _
      by_cases hco : isComaintainer db id v = true
      · exact Or.inr ⟨hco, comaintainerIDs_of_delete hrows⟩
      · rw [Bool.not_eq_true] at hco
        exact Or.inl (hrows.trans (comaintainersOf_delete_self hco))
  | side _ _ _ hcomaintainers =>
      refine Or.inl ?_
      unfold comaintainersOf
      rw [hcomaintainers]
  | push =>
      refine Or.inl ?_
      unfold comaintainersOf
      rw [(push_tables cfg db _ _).1]
  | _ => exact Or.inl rfl

theorem Write.keywordsOf_eq {id : Nat} (hmanage : ¬may.manage id) (hedit : ¬may.edit id)
    (hw : Write cfg may db db') : keywordsOf db' id = keywordsOf db id := by
  have hother : ∀ {id'}, may.manage id' → id' ≠ id := by
    rintro id' hmay rfl
    exact hmanage hmay
  cases hw with
  | @keywords id' _ hmay hrows =>
      refine Table.filter_eq_of_subset (fun r hr => ?_) hrows
      have hid : id' ≠ id := by
        rintro rfl
        exact hedit hmay
      simp only [beq_iff_eq] at hr
      simp [hr, Ne.symm hid]
  | delete hmay => exact keywordsOf_deletePackageBase (hother hmay)
  | merge hmay => exact keywordsOf_deletePackageBase (hother hmay)
  | side _ _ _ _ _ hkeywords =>
      unfold keywordsOf
      rw [hkeywords]
  | push =>
      unfold keywordsOf
      rw [(push_tables cfg db _ _).2]
  | _ => rfl

theorem FlagKept.updatePackageBase {b : PackageBase} (h : FlagKept b db) (id : Nat)
    {f : PackageBase → PackageBase} (hf : ∀ b₁ ∈ db.packageBases, b₁.id = b.id → b₁.id = id →
      (f b₁).id = b₁.id ∧ (f b₁).outOfDateTS = b₁.outOfDateTS ∧
        (f b₁).flaggerUID = b₁.flaggerUID) :
    FlagKept b (db.updatePackageBase id f) := by
  obtain ⟨b₁, hb₁, hid, hts, hflagger⟩ := h
  refine ⟨_, Table.mem_update.mpr ⟨b₁, hb₁, rfl⟩, ?_⟩
  by_cases hupdated : b₁.id = id
  · obtain ⟨hid', hts', hflagger'⟩ := hf b₁ hb₁ hid hupdated
    rw [if_pos (beq_iff_eq.mpr hupdated)]
    exact ⟨hid'.trans hid, hts'.trans hts, hflagger'.trans hflagger⟩
  · rw [if_neg (fun hc => hupdated (beq_iff_eq.mp hc))]
    exact ⟨hid, hts, hflagger⟩

theorem FlagKept.deletePackageBase {b : PackageBase} (h : FlagKept b db) {id : Nat}
    (hne : id ≠ b.id) : FlagKept b (db.deletePackageBase id) := by
  obtain ⟨b₁, hb₁, hid, hflag⟩ := h
  refine ⟨b₁, Table.mem_delete.mpr ⟨hb₁, ?_⟩, hid, hflag⟩
  simpa [hid] using Ne.symm hne

/-- A flag stays up unless somebody may clear it, and so does the name of who raised it. -/
theorem Write.flagKept {b : PackageBase} (hflagged : b.isOutOfDate = true)
    (hmanage : ¬may.manage b.id) (hclear : ¬may.clear b.id)
    (hremove : ∀ v, may.remove v → b.flaggerUID ≠ some v) (hwf : WellFormed cfg db)
    (hw : Write cfg may db db') (h : FlagKept b db) : FlagKept b db' := by
  have hother : ∀ {id}, may.manage id → id ≠ b.id := by
    rintro id hmay rfl
    exact hmanage hmay
  cases hw with
  | engage | release => exact h.updatePackageBase _ fun b₁ _ _ _ => ⟨rfl, rfl, rfl⟩
  | delete hmay => exact h.deletePackageBase (hother hmay)
  | @merge pkgbase target hmay =>
      have hmoved : FlagKept b (moveRows db pkgbase target) := h
      have hcounted : FlagKept b (popupdate (moveRows db pkgbase target) target.id) :=
        hmoved.updatePackageBase _ fun b₁ _ _ _ => ⟨rfl, rfl, rfl⟩
      exact hcounted.deletePackageBase (hother hmay)
  | @account v hmay =>
      obtain ⟨b₁, hb₁, hid, hts, hflagger⟩ := h
      refine ⟨_, List.mem_map_of_mem hb₁, hid, hts, ?_⟩
      simp [Db.setNull, hflagger, hremove v hmay]
  | mark hf _ hflag =>
      have hkept : FlagKept b db := h
      obtain ⟨b₀, hb₀, hid₀, hts₀, -⟩ := h
      refine hkept.updatePackageBase _ ?_
      intro b₁ hb₁ hid hid'
      have hsame : b₁ = b₀ := hwf.base_eq hb₁ hb₀ (hid.trans hid₀.symm)
      rcases hflag b₁ hb₁ hid' with hmay | hnot | hsame₁
      · exact absurd (hid.symm.trans hid' ▸ hmay) hclear
      · rw [hsame, PackageBase.isOutOfDate, hts₀] at hnot
        rw [PackageBase.isOutOfDate, hnot] at hflagged
        cases hflagged
      · rw [hsame₁]
        exact ⟨rfl, rfl, rfl⟩
  | @ballot _ votes _ hf hflag =>
      have hvoted : FlagKept b { db with packageVotes := votes } := h
      refine hvoted.updatePackageBase _ fun b₁ _ _ _ => ?_
      exact ⟨(hf b₁).id, (hflag b₁).1, (hflag b₁).2⟩
  | side hbases =>
      obtain ⟨b₁, hb₁, hflag⟩ := h
      exact ⟨b₁, hbases ▸ hb₁, hflag⟩
  | @push p faults _ hpushed =>
      obtain ⟨b₁, hb₁, hid, hflag⟩ := h
      have hname : cfg.sameName b₁.name p.pkgbase = false := by
        by_contra hnot
        rw [Bool.not_eq_false] at hnot
        exact hclear (hid ▸ hpushed b₁ hb₁ hnot)
      exact ⟨b₁, (run_of_keptBy (keptBy_base cfg p hname) faults ⟨hwf, hb₁⟩).2, hid, hflag⟩
  | _ => exact h

/-! ### Who has which grant -/

/-- Whose form it is, or whose session. -/
def Op.user : Op → Option Nat
  | .post uid _ _ => some uid
  | .ssh uid _ _ _ _ _ _ => some uid
  | _ => none

/-- The operation is a session that sets the keywords of the base. -/
def Op.WritesKeywords (cfg : Config) (db : Db) (id : Nat) : Op → Prop
  | .ssh uid remoteAddr now hookInstalled action args _ =>
      ∃ user s, sessionOf db uid remoteAddr now hookInstalled = some (user, s) ∧
        SetsKeywords cfg db s action args id
  | _ => False

/-- The user has nothing to do with the base. -/
structure Outsider (db : Db) (uid : Nat) (b : PackageBase) : Prop where
  maintainer : b.maintainerUID ≠ some uid
  comaintainer : isComaintainer db b.id uid = false

/-- What is granted to a user who is not elevated. -/
structure Ordinary (cfg : Config) (db : Db) (uid : Nat) (op : Op) (may : May) : Prop where
  actor : ∀ v, may.actor = some v → v = uid
  remove : ∀ v, may.remove v → v = uid
  manage : ∀ b ∈ db.packageBases, b.maintainerUID ≠ some uid → ¬may.manage b.id
  edit : ∀ b ∈ db.packageBases, Outsider db uid b → may.edit b.id → op.WritesKeywords cfg db b.id
  clear : ∀ b ∈ db.packageBases, Outsider db uid b → b.flaggerUID ≠ some uid →
    may.clear b.id → op.WritesKeywords cfg db b.id

theorem Ordinary.script (uid : Nat) (op : Op) :
    Ordinary cfg db uid op (scriptMay fun _ => False) where
  actor _ h := by cases h
  remove _ := False.elim
  manage _ _ _ := id
  edit _ _ _ := False.elim
  clear _ _ _ _ := False.elim

theorem ordinary_userMay (hwf : WellFormed cfg db) {user : User} (hel : user.isElevated = false)
    {op : Op} {edits remove : Nat → Prop}
    {adopt accept reclose stray desert uncount double overlook : Prop}
    (hedits : ∀ id, edits id → op.WritesKeywords cfg db id)
    (hremove : ∀ v, remove v → v = user.id) :
    Ordinary cfg db user.id op
      (userMay db user edits remove adopt accept reclose stray desert uncount double overlook) := by
  have hmanage : ∀ b ∈ db.packageBases, b.maintainerUID ≠ some user.id →
      ¬(user.isElevated = true ∨
        ∃ b' ∈ db.packageBases, b'.id = b.id ∧ b'.maintainerUID = some user.id) := by
    rintro b hb hm (hel' | ⟨b', hb', hid, hm'⟩)
    · rw [hel] at hel'
      cases hel'
    · exact hm (hwf.base_eq hb' hb hid ▸ hm')
  refine ⟨fun v h => (Option.some.inj h).symm, hremove, hmanage, ?_, ?_⟩
  · rintro b hb hout (hmay | hco | hsets)
    · exact absurd hmay (hmanage b hb hout.maintainer)
    · rw [hout.comaintainer] at hco
      cases hco
    · exact hedits _ hsets
  · rintro b hb hout hflagger (hmay | hco | hsets | ⟨b', hb', hid, hf⟩)
    · exact absurd hmay (hmanage b hb hout.maintainer)
    · rw [hout.comaintainer] at hco
      cases hco
    · exact hedits _ hsets
    · exact absurd (hwf.base_eq hb' hb hid ▸ hf) hflagger

/-- Without being elevated one deletes only one's own account. -/
theorem Form.removes_self {user : User} (hel : user.isElevated = false) {form : Form} {uid : Nat}
    (h : form.Removes cfg db user uid) : uid = user.id := by
  cases form with
  | accountDelete name confirm validPassword =>
      obtain ⟨target, hcheck, rfl⟩ := h
      unfold accountDeleteCheck at hcheck
      split at hcheck
      · cases hcheck
      rename_i found _
      split at hcheck
      · cases hcheck
      rename_i hcred
      rw [Bool.not_eq_true', Bool.not_eq_false] at hcred
      have htarget : found = target := by
        repeat' split at hcheck
        all_goals first | cases hcheck; rfl | cases hcheck
      subst htarget
      rcases hasCredential_cases rfl hcred with hel' | hmem
      · rw [hel] at hel'
        cases hel'
      · exact (Option.some.inj (List.mem_singleton.mp hmem)).symm
  | _ => exact h.elim

theorem ordinary_mayOf (hwf : WellFormed cfg db) {op : Op} {uid : Nat} {user : User}
    (hop : op.user = some uid) (hu : db.user? uid = some user) (hel : user.isElevated = false) :
    Ordinary cfg db uid op (mayOf cfg db op) := by
  have hid : user.id = uid := (Db.user?_mem hu).2
  cases op with
  | post uid' now form =>
      obtain rfl := Option.some.inj hop
      simp only [mayOf, hu]
      rw [← hid]
      exact ordinary_userMay hwf hel (fun _ => False.elim) fun v h =>
        Form.removes_self hel h
  | ssh uid' remoteAddr now hookInstalled action args upload =>
      obtain rfl := Option.some.inj hop
      simp only [mayOf]
      cases hs : sessionOf db uid' remoteAddr now hookInstalled with
      | none => exact Ordinary.script _ _
      | some us =>
          obtain ⟨user', s⟩ := us
          have hsame : user' = user := by
            unfold sessionOf at hs
            rw [hu, Option.bind_some] at hs
            obtain ⟨s', -, heq⟩ := Option.map_eq_some_iff.mp hs
            exact (Prod.mk.inj heq).1.symm
          subst hsame
          simp only
          rw [← hid]
          refine ordinary_userMay hwf hel (fun id hsets => ?_) fun _ => False.elim
          exact ⟨user', s, hid ▸ hs, hsets⟩
  | _ => cases hop

/-! ### Every run -/

/-- The user has left alone what is not theirs. -/
structure Respected (uid : Nat) (b : PackageBase) (db db' : Db) : Prop where
  /-- A comaintainer takes nobody off the list but themselves. -/
  comaintainers : b.maintainerUID ≠ some uid →
    comaintainersOf db' b.id = comaintainersOf db b.id ∨
      isComaintainer db b.id uid = true ∧
        comaintainerIDs db' b.id = (comaintainerIDs db b.id).filter (· != some uid)
  keywords : Outsider db uid b → keywordsOf db' b.id = keywordsOf db b.id
  flag : Outsider db uid b → b.isOutOfDate = true → b.flaggerUID ≠ some uid → FlagKept b db'

/-- Whoever is not elevated respects every base. -/
def Enforced (cfg : Config) (db : Db) (op : Op) : Prop :=
  ∀ uid user, op.user = some uid → db.user? uid = some user → user.isElevated = false →
    ∀ b ∈ db.packageBases, Respected uid b db (step cfg db op)

/-- An outsider sets the keywords of a base. -/
def Op.Overreaches (cfg : Config) (db : Db) (op : Op) : Prop :=
  ∃ uid user, op.user = some uid ∧ db.user? uid = some user ∧ user.isElevated = false ∧
    ∃ b ∈ db.packageBases, Outsider db uid b ∧ op.WritesKeywords cfg db b.id

theorem comaintainerIDs_congr {id : Nat} (h : comaintainersOf db' id = comaintainersOf db id) :
    comaintainerIDs db' id = comaintainerIDs db id :=
  congrArg (List.map fun c : PackageComaintainer => some c.usersID) h

theorem comaintainers_respected {op : Op} (hwf : WellFormed cfg db) {uid : Nat}
    (hmay : Ordinary cfg db uid op (mayOf cfg db op)) {b : PackageBase}
    (hb : b ∈ db.packageBases) (hm : b.maintainerUID ≠ some uid) :
    comaintainersOf (step cfg db op) b.id = comaintainersOf db b.id ∨
      isComaintainer db b.id uid = true ∧
        comaintainerIDs (step cfg db op) b.id =
          (comaintainerIDs db b.id).filter (· != some uid) := by
  refine (writes_step hwf op).keeps (P := fun db' =>
    comaintainersOf db' b.id = comaintainersOf db b.id ∨ isComaintainer db b.id uid = true ∧
      comaintainerIDs db' b.id = (comaintainerIDs db b.id).filter (· != some uid)) ?_ (Or.inl rfl)
  intro db₁ db₂ hw hold
  have hfilter : ((comaintainerIDs db b.id).filter (· != some uid)).filter (· != some uid) =
      (comaintainerIDs db b.id).filter (· != some uid) := by
    rw [List.filter_filter]
    exact List.filter_congr fun _ _ => Bool.and_self _
  rcases hw.comaintainersOf_eq (hmay.manage b hb hm) hmay.actor hmay.remove with
    hsame | ⟨hco, hleft⟩
  · rw [hsame, comaintainerIDs_congr hsame]
    exact hold
  · rcases hold with hsame | ⟨hco', hleft'⟩
    · have hids : comaintainerIDs db₁ b.id = comaintainerIDs db b.id := comaintainerIDs_congr hsame
      rw [isComaintainer, hids] at hco
      exact Or.inr ⟨hco, by rw [hleft, hids]⟩
    · exact Or.inr ⟨hco', by rw [hleft, hleft', hfilter]⟩

theorem keywords_respected {op : Op} (hwf : WellFormed cfg db) {uid : Nat}
    (hmay : Ordinary cfg db uid op (mayOf cfg db op)) {b : PackageBase}
    (hb : b ∈ db.packageBases) (hout : Outsider db uid b)
    (hop : ¬op.WritesKeywords cfg db b.id) :
    keywordsOf (step cfg db op) b.id = keywordsOf db b.id := by
  refine (writes_step hwf op).keeps
    (P := fun db' => keywordsOf db' b.id = keywordsOf db b.id) ?_ rfl
  intro db₁ db₂ hw hold
  refine (hw.keywordsOf_eq (hmay.manage b hb hout.maintainer) fun hedit => ?_).trans hold
  exact hop (hmay.edit b hb hout hedit)

theorem flag_respected {op : Op} (hwf : WellFormed cfg db) {uid : Nat}
    (hmay : Ordinary cfg db uid op (mayOf cfg db op)) {b : PackageBase}
    (hb : b ∈ db.packageBases) (hout : Outsider db uid b) (hflagged : b.isOutOfDate = true)
    (hflagger : b.flaggerUID ≠ some uid) (hop : ¬op.WritesKeywords cfg db b.id) :
    FlagKept b (step cfg db op) := by
  refine ((writes_step hwf op).keeps (P := fun db' => WellFormed cfg db' ∧ FlagKept b db') ?_
    ⟨hwf, b, hb, rfl, rfl, rfl⟩).2
  rintro db₁ db₂ hw ⟨hwf₁, hkept⟩
  refine ⟨hw.wellFormed hwf₁, hw.flagKept hflagged (hmay.manage b hb hout.maintainer) ?_ ?_ hwf₁
    hkept⟩
  · exact fun hclear => hop (hmay.clear b hb hout hflagger hclear)
  · intro v hremove hraised
    exact hflagger (hmay.remove v hremove ▸ hraised)

theorem enforced_step (hwf : WellFormed cfg db) {op : Op} (hop : ¬op.Overreaches cfg db) :
    Enforced cfg db op := by
  intro uid user huser hu hel b hb
  have hmay : Ordinary cfg db uid op (mayOf cfg db op) := ordinary_mayOf hwf huser hu hel
  have hkeywords : Outsider db uid b → ¬op.WritesKeywords cfg db b.id := fun hout hsets =>
    hop ⟨uid, user, huser, hu, hel, b, hb, hout, hsets⟩
  refine ⟨comaintainers_respected hwf hmay hb, fun hout => ?_, fun hout hflagged hflagger => ?_⟩
  · exact keywords_respected hwf hmay hb hout (hkeywords hout)
  · exact flag_respected hwf hmay hb hout hflagged hflagger (hkeywords hout)

/--
**The two interfaces enforce the same permissions** in every run, in each of its steps but
those in which an outsider sets the keywords of a base over SSH.
-/
theorem enforced_unless_overreaching (cfg : Config) (db : Db) (ops : List Op)
    (hwf : WellFormed cfg db) :
    Run.Guarded (step cfg) (fun db op => ¬op.Overreaches cfg db → Enforced cfg db op) db ops := by
  induction ops generalizing db with
  | nil => trivial
  | cons op ops ih => exact ⟨enforced_step hwf, ih _ (wellFormed_step hwf op)⟩

end

/-- An account sets the keywords of `foo` over SSH. -/
def spamFoo (uid : Nat) : Op :=
  .ssh uid "127.0.0.1" 1000000 true "set-keywords" ["foo", "spam"]
    { packages := none, faults := fun _ => none }

theorem enforced_unless_overreaching_smallSite :
    Run.Guarded (step siteConfig)
      (fun db op => ¬op.Overreaches siteConfig db → Enforced siteConfig db op) smallSite
      [takeOnAlice, spamFoo 1] :=
  enforced_unless_overreaching siteConfig smallSite _ smallSite_wellFormed

/-- `alice` has nothing to do with `foo`, and sets its keywords. -/
theorem outsider_sets_keywords :
    (smallSite.user? 1).map (·.isElevated) = some false ∧
      smallSite.packageBases.map (·.maintainerUID) = [some 3] ∧
      isComaintainer smallSite 4 1 = false ∧ keywordsOf smallSite 4 = [] ∧
      (keywordsOf (step siteConfig smallSite (spamFoo 1)) 4).map (·.keyword) = ["spam"] := by
  decide +kernel

end Aurweb
