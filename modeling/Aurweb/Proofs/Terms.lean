/-
Whose terms the terms page is about.

Neither of the page's two queries mentions the user, and the row an acceptance updates
is found by its term alone.  So the page, the form and the middleware agree for a user
in two situations only: nothing is left to accept for anybody, or the site has a single
account and a single term is left that has at most one acceptance row.  Everything here
goes through `needed`, the one list the page and the form both work on.
-/
import Aurweb.Terms

namespace Aurweb.Terms

/-! ### What the page asks for -/

/-- The terms on the page, before they are sorted. -/
def needed (db : Db) : List Term := unaccepted db ++ diffs db

/-- Somebody accepted the term, and nobody's acceptance of it is out of date. -/
def settled (db : Db) (t : Term) : Bool :=
  !(matched db t).isEmpty && (matched db t).all fun a => decide (t.revision ≤ a.revision)

/-- The user accepted the current revision of the term. -/
def hasAccepted (db : Db) (uid : Nat) (t : Term) : Bool :=
  db.acceptedTerms.any fun a =>
    a.usersID == uid && a.termsID == t.id && decide (t.revision ≤ a.revision)

theorem mem_matched {db : Db} {t : Term} {a : AcceptedTerm} :
    a ∈ matched db t ↔ a ∈ db.acceptedTerms ∧ a.termsID = t.id := by
  simp [matched]

theorem mem_unaccepted {db : Db} {t : Term} :
    t ∈ unaccepted db ↔ t ∈ db.terms ∧ matched db t = [] := by
  simp [unaccepted, matched]

theorem mem_diffs {db : Db} {t : Term} :
    t ∈ diffs db ↔ t ∈ db.terms ∧ ∃ a ∈ matched db t, a.revision < t.revision := by
  simp [diffs, matched, and_assoc]

theorem settled_iff {db : Db} {t : Term} :
    settled db t = true ↔ matched db t ≠ [] ∧ ∀ a ∈ matched db t, t.revision ≤ a.revision := by
  simp [settled]

/-- The page asks for the terms that are not settled. -/
theorem mem_needed {db : Db} {t : Term} :
    t ∈ needed db ↔ t ∈ db.terms ∧ settled db t = false := by
  rw [needed, List.mem_append, mem_unaccepted, mem_diffs, ← Bool.not_eq_true, settled_iff]
  constructor
  · rintro (⟨ht, hnone⟩ | ⟨ht, a, ha, hlt⟩)
    · exact ⟨ht, fun h => h.1 hnone⟩
    · exact ⟨ht, fun h => Nat.not_le.mpr hlt (h.2 a ha)⟩
  · rintro ⟨ht, hnot⟩
    by_cases hnone : matched db t = []
    · exact Or.inl ⟨ht, hnone⟩
    · refine Or.inr ⟨ht, ?_⟩
      by_contra hc
      exact hnot ⟨hnone, fun a ha => Nat.not_lt.mp fun hlt => hc ⟨a, ha, hlt⟩⟩

theorem hasAccepted_iff {db : Db} {uid : Nat} {t : Term} :
    hasAccepted db uid t = true ↔
      ∃ a ∈ matched db t, a.usersID = uid ∧ t.revision ≤ a.revision := by
  simp only [hasAccepted, List.any_eq_true, Bool.and_eq_true, beq_iff_eq, decide_eq_true_eq,
    mem_matched]
  constructor
  · rintro ⟨a, ha, ⟨hu, ht⟩, hr⟩
    exact ⟨a, ⟨ha, ht⟩, hu, hr⟩
  · rintro ⟨a, ⟨ha, ht⟩, hu, hr⟩
    exact ⟨a, ha, ⟨hu, ht⟩, hr⟩

/-- The terms an answer lists; a redirect lists none. -/
def Answer.listed : Answer → Option (List Term)
  | .redirect _ => some []
  | .page ts => some ts
  | .serverError _ => none

theorem listed_termsOfService (db : Db) :
    (termsOfService db).listed = if (needed db).length ≤ 1 then some (needed db) else none := by
  rw [termsOfService, ← needed, sorted]
  split
  · cases needed db <;> rfl
  · rfl

/-! ### What accepting does -/

theorem acceptedTerm?_eq_some {db : Db} {uid : Nat} {t : Term} {a : AcceptedTerm}
    (h : acceptedTerm? db uid t = some a) : a ∈ matched db t ∧ a.usersID = uid := by
  have hp := List.find?_some h
  simp only [Bool.and_eq_true, beq_iff_eq] at hp
  exact ⟨mem_matched.mpr ⟨List.mem_of_find?_eq_some h, hp.2⟩, hp.1⟩

/-- A term nobody has a row for gets one. -/
theorem acceptTerms_unaccepted {db : Db} {t : Term} (uid : Nat) (hun : unaccepted db = [t])
    (hdiff : diffs db = []) :
    acceptTerms db uid =
      .ok { db with acceptedTerms := db.acceptedTerms ++ [⟨uid, t.id, t.revision⟩] } := by
  simp [acceptTerms, hun, hdiff, dirty, setRevisions]

/-- An outdated term is accepted when the user has the only row for it. -/
theorem acceptTerms_diff {db : Db} {t : Term} {uid : Nat} {a : AcceptedTerm}
    (hun : unaccepted db = []) (hdiff : diffs db = [t])
    (ha : acceptedTerm? db uid t = some a) (hne : a.revision ≠ t.revision) :
    acceptTerms db uid =
      if (matched db t).length = 1 then
        .ok { db with
          acceptedTerms := Table.update (·.termsID == t.id)
            (fun a => { a with revision := t.revision }) db.acceptedTerms }
      else .error "StaleDataError" := by
  by_cases hone : (matched db t).length = 1 <;>
    simp [acceptTerms, hun, hdiff, dirty, ha, hne, setRevisions, hone]

/-- What an acceptance of `t` that goes through leaves behind. -/
structure Accepted (db : Db) (uid : Nat) (t : Term) (db' : Db) : Prop where
  terms : db'.terms = db.terms
  own : matched db' t = [⟨uid, t.id, t.revision⟩]
  rest : ∀ t', t'.id ≠ t.id → matched db' t' = matched db t'
  owner : ∀ a ∈ db'.acceptedTerms,
    a.usersID = uid ∨ ∃ b ∈ db.acceptedTerms, b.usersID = a.usersID

theorem accepted_insert {db : Db} {t : Term} (uid : Nat) (hnone : matched db t = []) :
    Accepted db uid t
      { db with acceptedTerms := db.acceptedTerms ++ [⟨uid, t.id, t.revision⟩] } where
  terms := rfl
  own := by
    show (db.acceptedTerms ++ _).filter (·.termsID == t.id) = _
    rw [List.filter_append]
    show matched db t ++ _ = _
    simp [hnone]
  rest t' hne := by
    simp [matched, hne.symm]
  owner a ha := by
    rcases List.mem_append.mp ha with ha | ha
    · exact Or.inr ⟨a, ha, rfl⟩
    · exact Or.inl (by rw [List.mem_singleton.mp ha])

theorem accepted_update {db : Db} {t : Term} {a : AcceptedTerm} (hone : matched db t = [a]) :
    Accepted db a.usersID t
      { db with
        acceptedTerms := Table.update (·.termsID == t.id)
          (fun a => { a with revision := t.revision }) db.acceptedTerms } where
  terms := rfl
  own := by
    have hid : a.termsID = t.id := (mem_matched.mp (hone ▸ List.mem_singleton.mpr rfl)).2
    have hfilter := Table.filter_update_self (p := fun a : AcceptedTerm => a.termsID == t.id)
      (f := fun a => { a with revision := t.revision }) (fun _ => rfl) db.acceptedTerms
    rw [matched] at hone
    simp [matched, hfilter, hone, hid]
  rest t' hne :=
    Table.filter_update_of_disjoint (p := fun a : AcceptedTerm => a.termsID == t.id)
      (q := fun a => a.termsID == t'.id) (f := fun a => { a with revision := t.revision })
      (fun _ => rfl) (fun b hb hb' => hne (by simp_all)) db.acceptedTerms
  owner b hb := by
    obtain ⟨b₀, hb₀, rfl⟩ := Table.mem_update.mp hb
    exact Or.inr ⟨b₀, hb₀, by split <;> rfl⟩

/--
With one term left, accepting goes through exactly when the only row the term can have
is the user's.
-/
theorem acceptTerms_cases {db : Db} {uid : Nat} {t : Term} (hneed : needed db = [t])
    (hnot : hasAccepted db uid t = false) :
    ((matched db t).length ≤ 1 ∧ ∃ db', acceptTerms db uid = .ok db' ∧ Accepted db uid t db') ∨
      (¬((matched db t).length ≤ 1 ∧ ∀ a ∈ matched db t, a.usersID = uid) ∧
        ∃ e, acceptTerms db uid = .error e) := by
  rcases List.append_eq_singleton_iff.mp hneed with ⟨hun, hdiff⟩ | ⟨hun, hdiff⟩
  · obtain ⟨b, hb, -⟩ := (mem_diffs.mp (hdiff ▸ List.mem_singleton.mpr rfl : t ∈ diffs db)).2
    cases ha : acceptedTerm? db uid t with
    | none =>
        refine Or.inr ⟨fun h => ?_, "AttributeError", by simp [acceptTerms, hdiff, dirty, ha]⟩
        have hfind := List.find?_eq_none.mp ha b (mem_matched.mp hb).1
        simp [h.2 b hb, (mem_matched.mp hb).2] at hfind
    | some a =>
        obtain ⟨hmem, hown⟩ := acceptedTerm?_eq_some ha
        have hne : a.revision ≠ t.revision := by
          intro heq
          have := hasAccepted_iff.mpr ⟨a, hmem, hown, Nat.le_of_eq heq.symm⟩
          simp [this] at hnot
        have hresult := acceptTerms_diff hun hdiff ha hne
        by_cases hone : (matched db t).length = 1
        · obtain ⟨c, hc⟩ := List.length_eq_one_iff.mp hone
          obtain rfl : a = c := by simpa [hc] using hmem
          rw [if_pos hone] at hresult
          exact Or.inl ⟨by omega, _, hresult, hown ▸ accepted_update hc⟩
        · rw [if_neg hone] at hresult
          have hpos := List.length_pos_of_mem hmem
          exact Or.inr ⟨fun h => by omega, _, hresult⟩
  · have hnone : matched db t = [] :=
      (mem_unaccepted.mp (hun ▸ List.mem_singleton.mpr rfl : t ∈ unaccepted db)).2
    exact Or.inl ⟨by simp [hnone], _, acceptTerms_unaccepted uid hun hdiff,
      accepted_insert uid hnone⟩

/-! ### Where page, form and middleware agree -/

/-- **What a user may expect of the terms**: the page lists the terms whose current
revision the user has not accepted, accepting them opens the site, and nobody else's
rows or page change. -/
structure Consistent (db : Db) (uid : Nat) : Prop where
  page : ∃ ts, (termsOfService db).listed = some ts ∧
    ∀ t, t ∈ ts ↔ t ∈ db.terms ∧ hasAccepted db uid t = false
  accepts : (termsOfServicePost db uid true).1 = .redirect "/"
  passes : ∀ path, checkTermsOfService (termsOfServicePost db uid true).2 uid path = none
  othersRows : (termsOfServicePost db uid true).2.acceptedTerms.filter (·.usersID != uid) =
    db.acceptedTerms.filter (·.usersID != uid)
  othersPage : ∀ w ∈ db.users, w.id ≠ uid →
    termsOfService (termsOfServicePost db uid true).2 = termsOfService db

/-- Every term is settled, and the user has a row for each. -/
def NothingLeft (db : Db) (uid : Nat) : Prop :=
  ∀ t ∈ db.terms, settled db t = true ∧ ∃ a ∈ matched db t, a.usersID = uid

/-- A single account, and a single term that is not settled and has at most one row. -/
def OneLeft (db : Db) : Prop :=
  db.users.length = 1 ∧ ∃ t ∈ db.terms, settled db t = false ∧ (matched db t).length ≤ 1 ∧
    ∀ t' ∈ db.terms, t' ≠ t → settled db t' = true

/-- The keys of `Users` and `Terms`, and the foreign key `AcceptedTerms.UsersID`. -/
structure WellFormed (db : Db) : Prop where
  users : (db.users.map (·.id)).Nodup
  terms : (db.terms.map (·.id)).Nodup
  owner : ∀ a ∈ db.acceptedTerms, ∃ u ∈ db.users, u.id = a.usersID

theorem needed_nodup {db : Db} (h : (db.terms.map (·.id)).Nodup) : (needed db).Nodup := by
  have hterms : db.terms.Nodup := List.Nodup.of_map _ h
  refine List.nodup_append.mpr ⟨hterms.filter _, hterms.filter _, ?_⟩
  rintro t ht t' ht' rfl
  obtain ⟨a, ha, -⟩ := (mem_diffs.mp ht').2
  simp [(mem_unaccepted.mp ht).2] at ha

theorem needed_eq_nil {db : Db} : needed db = [] ↔ ∀ t ∈ db.terms, settled db t = true := by
  rw [List.eq_nil_iff_forall_not_mem]
  simp only [mem_needed, not_and, Bool.not_eq_false]

/-- One unsettled term is all the page asks for. -/
theorem needed_eq_singleton {db : Db} (h : (db.terms.map (·.id)).Nodup) {t : Term}
    (ht : t ∈ db.terms) (hnot : settled db t = false)
    (hrest : ∀ t' ∈ db.terms, t' ≠ t → settled db t' = true) : needed db = [t] := by
  have hall : ∀ t' ∈ needed db, t' = t := by
    intro t' ht'
    by_contra hne
    obtain ⟨hmem, hfalse⟩ := mem_needed.mp ht'
    simp [hrest t' hmem hne] at hfalse
  have hmem : t ∈ needed db := mem_needed.mpr ⟨ht, hnot⟩
  have hrep := List.eq_replicate_of_mem hall
  have hlen : (needed db).length ≤ 1 := by
    have hnd := needed_nodup h
    rw [hrep] at hnd
    simpa using List.nodup_replicate.mp hnd
  have hpos := List.length_pos_of_mem hmem
  rw [hrep, show (needed db).length = 1 by omega]
  rfl

theorem id_ne {db : Db} (h : (db.terms.map (·.id)).Nodup) {t t' : Term} (ht : t ∈ db.terms)
    (ht' : t' ∈ db.terms) (hne : t' ≠ t) : t'.id ≠ t.id :=
  fun heq => hne (List.inj_on_of_nodup_map h ht' ht heq)

theorem length_le_flatMap {α β : Type*} {f : α → List β} :
    ∀ {l : List α}, (∀ x ∈ l, f x ≠ []) → l.length ≤ (l.flatMap f).length
  | [], _ => by simp
  | x :: l, h => by
      have hx := List.length_pos_iff.mpr (h x (by simp))
      have hl := length_le_flatMap (fun y hy => h y (by simp [hy]) : ∀ y ∈ l, f y ≠ [])
      simp only [List.flatMap_cons, List.length_cons, List.length_append]
      omega

/-- A user with nothing left to accept is let through. -/
theorem passes_of_nothingLeft {db : Db} {uid : Nat} (h : NothingLeft db uid) (path : String) :
    checkTermsOfService db uid path = none := by
  have hlen : db.terms.length ≤ (accepted db uid).length := by
    refine length_le_flatMap fun t ht => ?_
    obtain ⟨hset, a, ha, hu⟩ := h t ht
    have hrev := (settled_iff.mp hset).2 a ha
    obtain ⟨hmem, hid⟩ := mem_matched.mp ha
    have : a ∈ db.acceptedTerms.filter fun a =>
        a.usersID == uid && a.termsID == t.id && decide (t.revision ≤ a.revision) := by
      simp [hmem, hid, hu, hrev]
    intro hnil
    rw [List.map_eq_nil_iff] at hnil
    simp [hnil] at this
  have hzero : ¬(path ≠ "/tos" ∧ db.terms.length - (accepted db uid).length > 0) := by omega
  rw [checkTermsOfService, if_neg hzero]

theorem hasAccepted_of_nothingLeft {db : Db} {uid : Nat} (h : NothingLeft db uid) {t : Term}
    (ht : t ∈ db.terms) : hasAccepted db uid t = true := by
  obtain ⟨hset, a, ha, hu⟩ := h t ht
  exact hasAccepted_iff.mpr ⟨a, ha, hu, (settled_iff.mp hset).2 a ha⟩

/-- After the acceptance of the last term nothing is left to ask anybody for. -/
theorem Accepted.settled {db db' : Db} {uid : Nat} {t : Term} (h : Accepted db uid t db')
    (hkey : (db.terms.map (·.id)).Nodup) (hneed : needed db = [t]) :
    ∀ t' ∈ db'.terms, settled db' t' = true := by
  intro t' ht'
  rw [h.terms] at ht'
  have ht : t ∈ db.terms := (mem_needed.mp (hneed ▸ List.mem_singleton.mpr rfl)).1
  by_cases heq : t' = t
  · rw [heq, settled_iff, h.own]
    simp
  · have hold : Terms.settled db t' = true := by
      by_contra hc
      have hmem : t' ∈ needed db := mem_needed.mpr ⟨ht', by simpa using hc⟩
      rw [hneed] at hmem
      exact heq (List.mem_singleton.mp hmem)
    rw [settled_iff] at hold ⊢
    rwa [h.rest t' (id_ne hkey ht ht' heq)]

theorem post_of_ok {db db' : Db} {uid : Nat} (h : acceptTerms db uid = .ok db') :
    termsOfServicePost db uid true = (.redirect "/", db') := by
  simp [termsOfServicePost, h]

theorem post_of_error {db : Db} {uid : Nat} {e : String} (h : acceptTerms db uid = .error e) :
    termsOfServicePost db uid true = (.serverError e, db) := by
  simp [termsOfServicePost, h]

theorem termsOfService_of_nil {db : Db} (h : needed db = []) :
    termsOfService db = .redirect "/" := by
  rw [termsOfService, ← needed, h]
  rfl

theorem termsOfService_of_singleton {db : Db} {t : Term} (h : needed db = [t]) :
    termsOfService db = .page [t] := by
  rw [termsOfService, ← needed, h]
  rfl

theorem consistent_of_nothingLeft {db : Db} {uid : Nat} (h : NothingLeft db uid) :
    Consistent db uid := by
  have hneed : needed db = [] := needed_eq_nil.mpr fun t ht => (h t ht).1
  obtain ⟨hun, hdiff⟩ := List.append_eq_nil_iff.mp hneed
  have hpost : termsOfServicePost db uid true = (.redirect "/", db) :=
    post_of_ok (by simp [acceptTerms, hun, hdiff, dirty, setRevisions])
  refine ⟨⟨[], ?_, fun t => ?_⟩, by rw [hpost], fun path => ?_, by rw [hpost],
    fun w _ _ => by rw [hpost]⟩
  · rw [termsOfService_of_nil hneed]
    rfl
  · constructor
    · intro ht
      simp at ht
    · rintro ⟨ht, hnot⟩
      simp [hasAccepted_of_nothingLeft h ht] at hnot
  · rw [hpost]
    exact passes_of_nothingLeft h path

theorem consistent_of_oneLeft {db : Db} {uid : Nat} (hwf : WellFormed db)
    (hu : ∃ u ∈ db.users, u.id = uid) (h : OneLeft db) : Consistent db uid := by
  obtain ⟨hone, t, ht, hnot, hrow, hrest⟩ := h
  obtain ⟨u, hu, rfl⟩ := hu
  have hneed := needed_eq_singleton hwf.terms ht hnot hrest
  -- with a single account every row is that account's
  obtain ⟨u', hu'⟩ := List.length_eq_one_iff.mp hone
  obtain rfl : u = u' := by simpa [hu'] using hu
  have hall : ∀ a ∈ db.acceptedTerms, a.usersID = u.id := by
    intro a ha
    obtain ⟨w, hw, hwid⟩ := hwf.owner a ha
    rw [hu', List.mem_singleton] at hw
    rw [← hwid, hw]
  have hlist : ∀ t' ∈ db.terms, hasAccepted db u.id t' = settled db t' := by
    intro t' ht'
    rw [Bool.eq_iff_iff, hasAccepted_iff, settled_iff]
    constructor
    · rintro ⟨a, ha, -, hrev⟩
      have hle : (matched db t').length ≤ 1 ∨ settled db t' = true := by
        by_cases heq : t' = t
        · exact Or.inl (heq ▸ hrow)
        · exact Or.inr (hrest t' ht' heq)
      rcases hle with hle | hset
      · refine ⟨List.ne_nil_of_mem ha, fun b hb => ?_⟩
        have hab : matched db t' = [a] := by
          obtain ⟨c, hc⟩ := List.length_eq_one_iff.mp
            (by have := List.length_pos_of_mem ha; omega : (matched db t').length = 1)
          rw [hc] at ha ⊢
          rw [List.mem_singleton.mp ha]
        rw [hab, List.mem_singleton] at hb
        exact hb ▸ hrev
      · exact settled_iff.mp hset
    · rintro ⟨hne, hrev⟩
      obtain ⟨a, ha⟩ := List.exists_mem_of_ne_nil _ hne
      exact ⟨a, ha, hall a (mem_matched.mp ha).1, hrev a ha⟩
  have hnotAcc : hasAccepted db u.id t = false := by rw [hlist t ht, hnot]
  rcases acceptTerms_cases hneed hnotAcc with ⟨-, db', hok, hacc⟩ | ⟨hbad, -⟩
  · have hpost := post_of_ok hok
    have hset := hacc.settled hwf.terms hneed
    have hall' : ∀ a ∈ db'.acceptedTerms, a.usersID = u.id := by
      intro a ha
      rcases hacc.owner a ha with h | ⟨b, hb, hba⟩
      · exact h
      · rw [← hba, hall b hb]
    refine ⟨⟨[t], ?_, fun t' => ?_⟩, by rw [hpost], fun path => ?_, ?_, fun w hw hne => ?_⟩
    · rw [termsOfService_of_singleton hneed]
      rfl
    · rw [← hneed, mem_needed]
      exact and_congr_right fun ht' => by rw [hlist t' ht']
    · rw [hpost]
      refine passes_of_nothingLeft (fun t' ht' => ⟨hset t' ht', ?_⟩) path
      obtain ⟨a, ha⟩ := List.exists_mem_of_ne_nil _ (settled_iff.mp (hset t' ht')).1
      exact ⟨a, ha, hall' a (mem_matched.mp ha).1⟩
    · rw [hpost, List.filter_eq_nil_iff.mpr fun a ha => by simp [hall' a ha],
        List.filter_eq_nil_iff.mpr fun a ha => by simp [hall a ha]]
    · rw [hu', List.mem_singleton] at hw
      exact absurd (congrArg User.id hw) hne
  · exact absurd ⟨hrow, fun a ha => hall a (mem_matched.mp ha).1⟩ hbad

/--
**The terms page, the form and the middleware serve a user as they should exactly when
nothing is left to accept for anybody, or the site has one account and one term left
with at most one row.**
-/
theorem consistent_iff (db : Db) (uid : Nat) (hwf : WellFormed db)
    (hu : ∃ u ∈ db.users, u.id = uid) :
    Consistent db uid ↔ NothingLeft db uid ∨ OneLeft db := by
  constructor
  · intro h
    obtain ⟨ts, hlisted, hpage⟩ := h.page
    rw [listed_termsOfService] at hlisted
    obtain ⟨hlen, rfl⟩ : (needed db).length ≤ 1 ∧ needed db = ts := by
      split at hlisted
      · exact ⟨by assumption, by simpa using hlisted⟩
      · simp at hlisted
    cases hneed : needed db with
    | nil =>
        refine Or.inl fun t ht => ⟨needed_eq_nil.mp hneed t ht, ?_⟩
        have hacc : hasAccepted db uid t = true := by
          by_contra hc
          have := (hpage t).mpr ⟨ht, by simpa using hc⟩
          simp [hneed] at this
        obtain ⟨a, ha, hown, -⟩ := hasAccepted_iff.mp hacc
        exact ⟨a, ha, hown⟩
    | cons t rest =>
        obtain rfl : rest = [] := by
          rw [hneed] at hlen
          exact List.eq_nil_of_length_eq_zero (by simpa using hlen)
        have hmem : t ∈ needed db := by simp [hneed]
        obtain ⟨ht, hnot⟩ := mem_needed.mp hmem
        rcases acceptTerms_cases hneed ((hpage t).mp hmem).2 with
          ⟨hrow, db', hok, hacc⟩ | ⟨-, e, he⟩
        · -- the page is empty for everybody now, so there is nobody else
          have hempty : needed db' = [] := needed_eq_nil.mpr (hacc.settled hwf.terms hneed)
          have halone : ∀ w ∈ db.users, w.id = uid := by
            intro w hw
            by_contra hne
            have hsame := h.othersPage w hw hne
            rw [post_of_ok hok, termsOfService_of_nil hempty,
              termsOfService_of_singleton hneed] at hsame
            simp at hsame
          obtain ⟨u, hu, -⟩ := hu
          have hcount : db.users.length = 1 := by
            have hrep := List.eq_replicate_of_mem (a := uid) (l := db.users.map (·.id))
              (by simpa using halone)
            have hnd := hwf.users
            rw [hrep] at hnd
            have hle := List.nodup_replicate.mp hnd
            have hpos := List.length_pos_of_mem hu
            rw [List.length_map] at hle
            omega
          refine Or.inr ⟨hcount, t, ht, hnot, hrow, fun t' ht' hne => ?_⟩
          by_contra hc
          have hmem' : t' ∈ needed db := mem_needed.mpr ⟨ht', by simpa using hc⟩
          rw [hneed] at hmem'
          exact hne (List.mem_singleton.mp hmem')
        · have hred := h.accepts
          rw [post_of_error he] at hred
          simp at hred
  · rintro (h | h)
    · exact consistent_of_nothingLeft h
    · exact consistent_of_oneLeft hwf hu h

/-- One account, one term. -/
def oneUser : Db where
  users := [{ (default : User) with id := 1 }]
  terms := [⟨1, 1⟩]

theorem consistent_iff_oneUser :
    Consistent oneUser 1 ↔ NothingLeft oneUser 1 ∨ OneLeft oneUser :=
  consistent_iff oneUser 1 ⟨by decide, by decide, by decide⟩ ⟨_, List.mem_singleton.mpr rfl, rfl⟩

/-- Once the first of two users has accepted the term, nobody shows it to the second. -/
theorem second_user_not_asked :
    ¬Consistent
      { users := [{ (default : User) with id := 1 }, { (default : User) with id := 2 }]
        terms := [⟨1, 1⟩]
        acceptedTerms := [⟨1, 1, 1⟩] } 2 := by
  intro h
  obtain ⟨ts, hlisted, hpage⟩ := h.page
  obtain rfl : [] = ts := Option.some.inj hlisted
  have := (hpage ⟨1, 1⟩).mpr (by decide)
  simp at this

end Aurweb.Terms
