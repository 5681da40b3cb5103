/-
When the form and the SSH command leave the same keywords.

The command replaces the rows with the words as they are; the form keeps a row that is one of the
words up to case, in the case it was stored in.  So the rows are the lower-cased words after both
if and only if the words are in lower case already, each of them given once, and so is what is
stored of them (`Settled`).
-/
import Aurweb.Keywords
import Aurweb.Lib.AsciiCase
import Aurweb.Lib.Percent
import Aurweb.Proofs.Permissions
import Aurweb.Proofs.Unhandled
import Mathlib.Data.List.Pairwise

namespace Aurweb.Keywords

open GitServe (refuses overflows repeats refuses_eq_none)

/-- The column compares case-insensitively. -/
def CaseInsensitive (py : Python) (cfg : Config) : Prop :=
  ∀ a b, cfg.sameName a b = true ↔ py.lower a = py.lower b

/-- The keywords of the base are these. -/
def Holds (db : Db) (baseID : Nat) (keywords : List String) : Prop :=
  ∀ k, k ∈ (keywordsOf db baseID).map (·.keyword) ↔ k ∈ keywords

/-- Both succeed, and both leave the lower-cased words. -/
structure BothSet (py : Python) (cfg : Config) (db : Db) (user : User) (name keywords : String)
    (baseID : Nat) : Prop where
  form : (pkgbaseKeywords py cfg db user name keywords).1 = .redirect s!"/pkgbase/{name}"
  formKeywords : Holds (pkgbaseKeywords py cfg db user name keywords).2 baseID
    ((py.split keywords).map py.lower)
  command : (GitServe.pkgbaseSetKeywords cfg db name (py.split keywords)).1 = .ok .nothing
  commandKeywords : Holds (GitServe.pkgbaseSetKeywords cfg db name (py.split keywords)).2 baseID
    ((py.split keywords).map py.lower)

/-- The words are in lower case, given once, and not too long, and so is what is stored of them. -/
structure Settled (py : Python) (db : Db) (baseID : Nat) (words : List String) : Prop where
  lower : ∀ w ∈ words, py.lower w = w
  once : words.Nodup
  fits : ∀ w ∈ words, w.length ≤ 255
  stored : ∀ r ∈ keywordsOf db baseID,
    py.lower r.keyword ∈ words → py.lower r.keyword = r.keyword

section

variable {py : Python} {cfg : Config} {db : Db} {user : User} {name : String} {base : PackageBase}
variable {words : List String}

/-! ### The words -/

/-- What is split at blanks has none in it. -/
theorem not_blank_of_mem_split {keywords w : String} (h : w ∈ py.split keywords) :
    ∀ c ∈ w.toList, c ≠ ' ' := by
  obtain ⟨piece, hpiece, rfl⟩ := List.mem_map.mp h
  intro c hc heq
  rw [String.toList_ofList] at hc
  have hspace := Percent.forall_of_mem_splitOnP (List.mem_filter.mp hpiece).1 c hc
  rw [heq, py.isSpace_blank] at hspace
  exact Bool.false_ne_true hspace.symm

/-- A word without a blank has to be as short as its column. -/
theorem overflows_eq_false_iff {w : String} (h : ∀ c ∈ w.toList, c ≠ ' ') (n : Nat) :
    overflows n w = false ↔ w.length ≤ n := by
  unfold overflows
  rw [List.any_eq_false]
  constructor
  · intro hnone
    by_contra hlong
    have hne : w.toList.drop n ≠ [] := by
      rw [ne_eq, List.drop_eq_nil_iff, String.length_toList]
      omega
    have hhead := List.head_mem hne
    have hblank := h _ (List.mem_of_mem_drop hhead)
    exact hnone _ hhead (by simpa using hblank)
  · intro hshort c hc
    rw [List.drop_eq_nil_of_le (by rwa [String.length_toList])] at hc
    exact absurd hc (List.not_mem_nil)

theorem repeats_eq_false_iff : repeats cfg words = false ↔
    words.Pairwise fun a b => cfg.sameName a b = false := by
  induction words with
  | nil => simp [repeats]
  | cons w words ih =>
      rw [repeats, Bool.or_eq_false_iff, ih, List.any_eq_false, List.pairwise_cons]
      simp only [Bool.not_eq_true]

/-- Of two words that are not repeated, either comes first. -/
theorem apart_of_repeats (h : repeats cfg words = false) {a b : String} (ha : a ∈ words)
    (hb : b ∈ words) (hne : a ≠ b) : cfg.sameName a b = false := by
  rw [repeats_eq_false_iff] at h
  have : Std.Symm fun a b => cfg.sameName a b = false :=
    ⟨fun a b h => by rwa [GitServe.sameName_comm]⟩
  exact h.forall ha hb hne

/-- Words in lower case are the same to the column if they are the same. -/
theorem sameName_eq_false_iff (hci : CaseInsensitive py cfg) {a b : String} (ha : py.lower a = a)
    (hb : py.lower b = b) : cfg.sameName a b = false ↔ a ≠ b := by
  rw [← Bool.not_eq_true, hci, ha, hb]

/-- Some rows of the base are deleted and words are inserted. -/
theorem mem_keywordsOf_replace (db : Db) (baseID : Nat) (p : PackageKeyword → Bool)
    (words : List String) (k : String) :
    k ∈ (keywordsOf { db with
        packageKeywords := Table.delete (fun r => r.packageBaseID == baseID && p r)
          db.packageKeywords ++ words.map fun w => { packageBaseID := baseID, keyword := w } }
        baseID).map (·.keyword) ↔
      (∃ r ∈ keywordsOf db baseID, p r = false ∧ r.keyword = k) ∨ k ∈ words := by
  have hkept : ∀ r, r ∈ keywordsOf { db with
        packageKeywords := Table.delete (fun r => r.packageBaseID == baseID && p r)
          db.packageKeywords ++ words.map fun w => { packageBaseID := baseID, keyword := w } }
        baseID ↔
      (r ∈ keywordsOf db baseID ∧ p r = false) ∨
        ∃ w ∈ words, { packageBaseID := baseID, keyword := w } = r := by
    intro r
    unfold keywordsOf Table.delete
    simp only [List.mem_filter, List.mem_append, List.mem_map]
    constructor
    · rintro ⟨⟨hr, hp⟩ | hw, hid⟩
      · rw [hid, Bool.true_and, Bool.not_eq_true'] at hp
        exact Or.inl ⟨⟨hr, hid⟩, hp⟩
      · exact Or.inr hw
    · rintro (⟨⟨hr, hid⟩, hp⟩ | ⟨w, hw, rfl⟩)
      · exact ⟨Or.inl ⟨hr, by rw [hp, Bool.and_false]; rfl⟩, hid⟩
      · exact ⟨Or.inr ⟨w, hw, rfl⟩, beq_self_eq_true _⟩
  rw [List.mem_map]
  constructor
  · rintro ⟨r, hr, rfl⟩
    rcases (hkept r).mp hr with ⟨hmem, hp⟩ | ⟨w, hw, rfl⟩
    · exact Or.inl ⟨r, hmem, hp, rfl⟩
    · exact Or.inr hw
  · rintro (⟨r, hmem, hp, rfl⟩ | hw)
    · exact ⟨r, (hkept r).mpr (Or.inl ⟨hmem, hp⟩), rfl⟩
    · exact ⟨_, (hkept _).mpr (Or.inr ⟨k, hw, rfl⟩), rfl⟩

/-! ### The command -/

/-- The command succeeds if every word is inserted. -/
theorem command_ok_iff (hb : baseNamed cfg db name = some base) :
    (GitServe.pkgbaseSetKeywords cfg db name words).1 = .ok .nothing ↔
      refuses cfg [] words = none := by
  unfold GitServe.pkgbaseSetKeywords GitServe.withPkgbase
  simp only [hb]
  cases refuses cfg [] words with
  | none => exact iff_of_true rfl rfl
  | some e => exact iff_of_false (by simp) (by simp)

theorem command_holds (hb : baseNamed cfg db name = some base)
    (hinsert : refuses cfg [] words = none) :
    Holds (GitServe.pkgbaseSetKeywords cfg db name words).2 base.id words := by
  have hdb : (GitServe.pkgbaseSetKeywords cfg db name words).2 = { db with
      packageKeywords := Table.delete (·.packageBaseID == base.id) db.packageKeywords ++
        words.map fun w => { packageBaseID := base.id, keyword := w } } := by
    unfold GitServe.pkgbaseSetKeywords GitServe.withPkgbase
    simp only [hb, hinsert]
    rfl
  intro k
  have hall := mem_keywordsOf_replace db base.id (fun _ => true) words k
  simp only [Bool.and_true] at hall
  rw [hdb, hall]
  simp

/-! ### The form -/

theorem isOther_eq (hci : CaseInsensitive py cfg) (hlower : ∀ w ∈ words, py.lower w = w)
    (r : PackageKeyword) : isOther cfg words r = false ↔ py.lower r.keyword ∈ words := by
  unfold isOther
  rw [Bool.not_eq_false', List.any_eq_true]
  constructor
  · rintro ⟨w, hw, hsame⟩
    rw [hci, hlower w hw] at hsame
    rwa [hsame]
  · intro hmem
    exact ⟨_, hmem, (hci _ _).mpr (py.lower_lower _).symm⟩

/-- The rows that are not others, in lower case. -/
theorem mem_existingKeywords (hci : CaseInsensitive py cfg)
    (hlower : ∀ w ∈ words, py.lower w = w) {mine : List PackageKeyword} {k : String} :
    k ∈ existingKeywords py cfg mine words ↔
      ∃ r ∈ mine, py.lower r.keyword ∈ words ∧ py.lower r.keyword = k := by
  have hstrings : ∀ w ∈ (mine.filter (isOther cfg words)).map (fun r => py.lower r.keyword),
      py.lower w = w := by
    intro w hw
    obtain ⟨r, -, rfl⟩ := List.mem_map.mp hw
    exact py.lower_lower _
  have hothers : ∀ r ∈ mine,
      isOther cfg ((mine.filter (isOther cfg words)).map fun r => py.lower r.keyword) r = true ↔
        py.lower r.keyword ∈ words := by
    intro r hr
    rw [← Bool.not_eq_false, isOther_eq hci hstrings, List.mem_map]
    constructor
    · intro hnone
      by_contra hmem
      have hother : isOther cfg words r = true := by
        rw [← Bool.not_eq_false, isOther_eq hci hlower]
        exact hmem
      exact hnone ⟨r, List.mem_filter.mpr ⟨hr, hother⟩, rfl⟩
    · rintro hmem ⟨o, ho, heq⟩
      have hother := (List.mem_filter.mp ho).2
      rw [← Bool.not_eq_false, isOther_eq hci hlower, heq] at hother
      exact hother hmem
  unfold existingKeywords
  rw [List.mem_map]
  constructor
  · rintro ⟨r, hr, rfl⟩
    obtain ⟨hmem, hother⟩ := List.mem_filter.mp hr
    exact ⟨r, hmem, (hothers r hmem).mp hother, rfl⟩
  · rintro ⟨r, hr, hmem, rfl⟩
    exact ⟨r, List.mem_filter.mpr ⟨hr, (hothers r hr).mpr hmem⟩, rfl⟩

/-- The form succeeds with words that are in lower case, given once and not too long. -/
theorem setKeywords_ok (db : Db) (baseID : Nat) (hci : CaseInsensitive py cfg)
    (hlower : ∀ w ∈ words, py.lower w = w)
    (honce : words.Nodup) (hfits : ∀ w ∈ words, overflows 255 w = false) :
    ∃ db', setKeywords py cfg db baseID words = .ok db' ∧
      ∀ k, k ∈ (keywordsOf db' baseID).map (·.keyword) ↔
        (∃ r ∈ keywordsOf db baseID, py.lower r.keyword ∈ words ∧ r.keyword = k) ∨
          (k ∈ words ∧ ∀ r ∈ keywordsOf db baseID, py.lower r.keyword ≠ k) := by
  have hnew : ∀ w, w ∈ (words.filter fun w =>
      !(existingKeywords py cfg (keywordsOf db baseID) words).contains w) ↔
        w ∈ words ∧ ∀ r ∈ keywordsOf db baseID, py.lower r.keyword ≠ w := by
    intro w
    rw [List.mem_filter, Bool.not_eq_true', List.contains_eq_mem, decide_eq_false_iff_not,
      mem_existingKeywords hci hlower]
    refine and_congr_right fun hw => ⟨fun hnone r hr heq => ?_, ?_⟩
    · exact hnone ⟨r, hr, heq ▸ hw, heq⟩
    · rintro hnone ⟨r, hr, -, heq⟩
      exact hnone r hr heq
  have hrefuses : refuses cfg
      (((keywordsOf db baseID).filter fun r => !isOther cfg words r).map (·.keyword))
      (words.filter fun w =>
        !(existingKeywords py cfg (keywordsOf db baseID) words).contains w) = none := by
    rw [refuses_eq_none, repeats_eq_false_iff]
    refine ⟨fun w hw => hfits w ((hnew w).mp hw).1, ?_, fun w hw => ?_⟩
    · have hdistinct := honce.filter fun w =>
        !(existingKeywords py cfg (keywordsOf db baseID) words).contains w
      refine List.Pairwise.imp_of_mem ?_ hdistinct
      intro a b ha hb hne
      exact (sameName_eq_false_iff hci (hlower a ((hnew a).mp ha).1)
        (hlower b ((hnew b).mp hb).1)).mpr hne
    · obtain ⟨hword, hnone⟩ := (hnew w).mp hw
      rw [List.any_eq_false]
      intro k hk hsame
      obtain ⟨r, hr, rfl⟩ := List.mem_map.mp hk
      rw [hci, hlower w hword] at hsame
      exact hnone r (List.mem_filter.mp hr).1 hsame.symm
  have hset : setKeywords py cfg db baseID words = .ok { db with
      packageKeywords := Table.delete (fun r => r.packageBaseID == baseID && isOther cfg words r)
        db.packageKeywords ++ (words.filter fun w =>
          !(existingKeywords py cfg (keywordsOf db baseID) words).contains w).map fun w =>
            { packageBaseID := baseID, keyword := w } } := by
    unfold setKeywords
    simp only [show db.packageKeywords.filter (·.packageBaseID == baseID) =
      keywordsOf db baseID from rfl, hrefuses]
  refine ⟨_, hset, fun k => ?_⟩
  rw [mem_keywordsOf_replace, hnew]
  refine or_congr_left (exists_congr fun r => and_congr_right fun _ => ?_)
  rw [isOther_eq hci hlower]

/-- What the transaction writes, for text that is lower-cased as `String.toLower` does it. -/
theorem setKeywords_eq (hlower : py.lower = String.toLower) {db' : Db} {baseID : Nat}
    (hset : setKeywords py cfg db baseID words = .ok db') :
    db' = Aurweb.setKeywords cfg db baseID words := by
  unfold setKeywords at hset
  simp only at hset
  split at hset
  · cases hset
  · cases hset
    unfold Aurweb.setKeywords existingKeywords isOther
    rw [hlower]

/-! ### Both -/

theorem words_eq {keywords : String} (hlower : ∀ w ∈ py.split keywords, py.lower w = w)
    (honce : (py.split keywords).Nodup) : py.words keywords = py.split keywords := by
  have hmap : (py.split keywords).map py.lower = py.split keywords := by
    rw [List.map_congr_left hlower]
    exact List.map_id _
  rw [Python.words, hmap, List.dedup_eq_self.mpr honce]

theorem form_eq (hb : baseNamed cfg db name = some base)
    (hcred : hasCredential user .pkgbaseSetKeywords
      (base.maintainerUID :: comaintainerIDs db base.id) = true) {keywords : String} {db' : Db}
    (hset : setKeywords py cfg db base.id (py.words keywords) = .ok db') :
    pkgbaseKeywords py cfg db user name keywords = (.redirect s!"/pkgbase/{name}", db') := by
  unfold pkgbaseKeywords getPkgOrBase
  simp [hb, hcred, hset]

end

/-- Setting keywords through the form and through the command comes to the same, the lower-cased
words, if and only if they are settled. -/
theorem bothSet_iff (py : Python) (cfg : Config) (db : Db) (user : User) (name keywords : String)
    (base : PackageBase) (hci : CaseInsensitive py cfg) (hb : baseNamed cfg db name = some base)
    (hcred : hasCredential user .pkgbaseSetKeywords
      (base.maintainerUID :: comaintainerIDs db base.id) = true) :
    BothSet py cfg db user name keywords base.id ↔
      Settled py db base.id (py.split keywords) := by
  have hlong : ∀ w ∈ py.split keywords, overflows 255 w = false ↔ w.length ≤ 255 :=
    fun w hw => overflows_eq_false_iff (not_blank_of_mem_split hw) 255
  constructor
  · intro h
    have hinsert := (command_ok_iff hb).mp h.command
    have hholds := command_holds hb hinsert
    rw [refuses_eq_none] at hinsert
    obtain ⟨hfits, hrepeats, -⟩ := hinsert
    have hlower : ∀ w ∈ py.split keywords, py.lower w = w := by
      intro w hw
      by_contra hne
      have hmem : py.lower w ∈ py.split keywords :=
        (hholds _).mp ((h.commandKeywords _).mpr (List.mem_map_of_mem hw))
      have hapart := apart_of_repeats hrepeats hmem hw hne
      have hsame := (hci (py.lower w) w).mpr (py.lower_lower w)
      rw [hapart] at hsame
      exact Bool.false_ne_true hsame
    have honce : (py.split keywords).Nodup := by
      refine (repeats_eq_false_iff.mp hrepeats).imp ?_
      intro a b hapart heq
      rw [heq, (hci b b).mpr rfl] at hapart
      exact Bool.false_ne_true hapart.symm
    refine ⟨hlower, honce, fun w hw => (hlong w hw).mp (hfits w hw), ?_⟩
    intro r hr hmem
    obtain ⟨db', hset, hform⟩ := setKeywords_ok db base.id hci hlower honce hfits
    rw [← words_eq hlower honce] at hset
    have hkept := (h.formKeywords r.keyword).mp (by
      rw [form_eq hb hcred hset, hform]
      exact Or.inl ⟨r, hr, hmem, rfl⟩)
    obtain ⟨w, hw, heq⟩ := List.mem_map.mp hkept
    rw [← heq, py.lower_lower]
  · intro h
    have hfits : ∀ w ∈ py.split keywords, overflows 255 w = false := fun w hw =>
      (hlong w hw).mpr (h.fits w hw)
    have hmap : (py.split keywords).map py.lower = py.split keywords := by
      rw [List.map_congr_left h.lower]
      exact List.map_id _
    have hinsert : refuses cfg [] (py.split keywords) = none := by
      rw [refuses_eq_none, repeats_eq_false_iff]
      refine ⟨hfits, ?_, fun _ _ => rfl⟩
      refine List.Pairwise.imp_of_mem ?_ h.once
      intro a b ha hb hne
      exact (sameName_eq_false_iff hci (h.lower a ha) (h.lower b hb)).mpr hne
    obtain ⟨db', hset, hform⟩ := setKeywords_ok db base.id hci h.lower h.once hfits
    rw [← words_eq h.lower h.once] at hset
    have heq := form_eq hb hcred hset
    refine ⟨by rw [heq], fun k => ?_, (command_ok_iff hb).mpr hinsert, ?_⟩
    · rw [heq, hform, hmap]
      constructor
      · rintro (⟨r, hr, hmem, rfl⟩ | hk)
        · rwa [h.stored r hr hmem] at hmem
        · exact hk.1
      · intro hk
        by_cases hstored : ∃ r ∈ keywordsOf db base.id, py.lower r.keyword = k
        · obtain ⟨r, hr, hr'⟩ := hstored
          have hmem : py.lower r.keyword ∈ py.split keywords := by rwa [hr']
          exact Or.inl ⟨r, hr, hmem, (h.stored r hr hmem).symm.trans hr'⟩
        · exact Or.inr ⟨hk, fun r hr hr' => hstored ⟨r, hr, hr'⟩⟩
    · rw [hmap]
      exact command_holds hb hinsert

/-! ### A site with a keyword -/

/-- ASCII. -/
def Python.ascii : Python where
  isSpace := Char.isWhitespace
  lower := AsciiCase.lower
  isSpace_blank := rfl
  lower_lower := AsciiCase.lower_lower

def foldingConfig : Config := Config.defaults Python.ascii.lower fun _ => true

theorem foldingConfig_caseInsensitive : CaseInsensitive .ascii foldingConfig := by
  intro a b
  exact beq_iff_eq

/-- `foo` has the keyword `cli`. -/
def taggedSite : Db :=
  { smallSite with packageKeywords := [{ packageBaseID := 4, keyword := "cli" }] }

theorem bothSet_cli_tool :
    BothSet .ascii foldingConfig taggedSite (account 3 .user "carol") "foo" "cli tool" 4 :=
  (bothSet_iff .ascii foldingConfig taggedSite (account 3 .user "carol") "foo" "cli tool" _
    foldingConfig_caseInsensitive (by rfl) (by decide)).mpr
    ⟨by decide, by decide, by decide, by decide⟩

/-- The command inserts a second row for `tool`. -/
theorem not_bothSet_repeated :
    CaseInsensitive .ascii foldingConfig ∧
      (pkgbaseKeywords .ascii foldingConfig taggedSite (account 3 .user "carol") "foo"
        "Tool tool").1 = .redirect "/pkgbase/foo" ∧
      ¬BothSet .ascii foldingConfig taggedSite (account 3 .user "carol") "foo" "Tool tool" 4 :=
  ⟨foldingConfig_caseInsensitive, by decide, fun h => absurd h.command (by decide)⟩

end Aurweb.Keywords
