/-
What `normalize_email` has in common with a canonical form.

It strips, lower-cases and puts the parts together; the result is parsed anew when it is
normalized again.  So it is idempotent as far as the validator leaves the parts alone that it is
given then (`Steady`): a local part that is stripped and in lower case need not be one that it
produces, and a string that it rejects may be accepted in lower case.  Addresses at the listed
providers fall together as they should: every difference that is not to count leaves the stripped
local part and the canonical domain as they are.
-/
import Aurweb.Lib.AsciiCase
import Aurweb.NormalizedEmail

namespace Aurweb.NormalizedEmail

/-- A domain as the validator gives it. -/
def LowerAscii (domain : String) : Prop :=
  ∀ c ∈ domain.toList, c.toNat < 128 ∧ c.isUpper = false

/-- A local part that comes from the validator. -/
def Library.Produces (lib : Library) (localPart : String) : Prop :=
  ∃ email domain, lib.validateEmail email = some (localPart, domain)

/-- A string is split into its local part and its lower-case ASCII domain; what has come of that
stays as it is. -/
structure Library.Splits (lib : Library) : Prop where
  ascii : ∀ {email localPart domain}, lib.validateEmail email = some (localPart, domain) →
    LowerAscii domain
  localPart : ∀ {localPart domain parts}, lib.Produces localPart → LowerAscii domain →
    lib.validateEmail (localPart ++ "@" ++ domain) = some parts → parts.1 = localPart
  domain : ∀ {localPart domain parts}, LowerAscii domain →
    lib.validateEmail (localPart ++ "@" ++ domain) = some parts → parts.2 = domain

/-- `str.lower` has no part in where an address is cut. -/
structure Library.Lowers (lib : Library) : Prop where
  lower : ∀ s, lib.lower (lib.lower s) = lib.lower s
  stripTag : ∀ s, lib.lower (stripTag s) = stripTag (lib.lower s)
  removeDots : ∀ s, lib.lower (removeDots s) = removeDots (lib.lower s)
  address : ∀ {s domain}, LowerAscii domain →
    lib.lower (lib.lower s ++ "@" ++ domain) = lib.lower s ++ "@" ++ domain

/-! ### What the rules make of an address -/

/-- What a rule strips. -/
def strip (stripDots : Bool) (localPart : String) : String :=
  if stripDots then removeDots (stripTag localPart) else stripTag localPart

def reduced (lib : Library) (localPart domain : String) : String :=
  match emailProviderRules domain with
  | none => lib.lower localPart
  | some (stripDots, _) => lib.lower (strip stripDots localPart)

def canonical (domain : String) : String :=
  match emailProviderRules domain with
  | none => domain
  | some (_, canonicalDomain) => canonicalDomain.getD domain

section

variable {lib : Library} {email localPart domain s : String}

theorem normalizeEmail_of_valid (h : lib.validateEmail email = some (localPart, domain)) :
    normalizeEmail lib email = reduced lib localPart domain ++ "@" ++ canonical domain := by
  rw [normalizeEmail, h]
  dsimp only
  unfold reduced canonical strip
  cases emailProviderRules domain with
  | none => rfl
  | some rule => rfl

theorem lowerAscii_of_all
    (h : domain.toList.all (fun c => decide (c.toNat < 128) && !c.isUpper) = true) :
    LowerAscii domain := by
  intro c hc
  simpa using List.all_eq_true.mp h c hc

/-- Three domains stand for others, each for itself as well. -/
theorem rules_canonical {stripDots : Bool} {canonicalDomain : String}
    (h : emailProviderRules domain = some (stripDots, some canonicalDomain)) :
    emailProviderRules canonicalDomain = some (stripDots, some canonicalDomain) ∧
      LowerAscii canonicalDomain := by
  have hcases : (stripDots, canonicalDomain) ∈
      [(true, "gmail.com"), (false, "icloud.com"), (false, "proton.me")] := by
    unfold emailProviderRules at h
    split at h <;> simp_all
  have hplain : ∀ p ∈ [(true, "gmail.com"), (false, "icloud.com"), (false, "proton.me")],
      emailProviderRules p.2 = some (p.1, some p.2) ∧ LowerAscii p.2 := by
    intro p hp
    simp only [List.mem_cons, List.not_mem_nil, or_false] at hp
    rcases hp with rfl | rfl | rfl <;> exact ⟨rfl, lowerAscii_of_all (by decide)⟩
  exact hplain _ hcases

theorem canonical_lowerAscii (h : LowerAscii domain) : LowerAscii (canonical domain) := by
  unfold canonical
  cases hrule : emailProviderRules domain with
  | none => exact h
  | some rule =>
      obtain ⟨stripDots, canonicalDomain⟩ := rule
      cases canonicalDomain with
      | none => exact h
      | some canonicalDomain => exact (rules_canonical hrule).2

/-- The canonical domain has the same rule, and is its own. -/
theorem canonical_canonical (domain : String) :
    (emailProviderRules (canonical domain)).map (·.1) = (emailProviderRules domain).map (·.1) ∧
      canonical (canonical domain) = canonical domain := by
  cases hrule : emailProviderRules domain with
  | none =>
      have hself : canonical domain = domain := by rw [canonical, hrule]
      rw [hself, hrule]
      exact ⟨rfl, hself⟩
  | some rule =>
      obtain ⟨stripDots, canonicalDomain⟩ := rule
      cases canonicalDomain with
      | none =>
          have hself : canonical domain = domain := by rw [canonical, hrule]; rfl
          rw [hself, hrule]
          exact ⟨rfl, hself⟩
      | some canonicalDomain =>
          have hrule' := (rules_canonical hrule).1
          have hcanonical : canonical domain = canonicalDomain := by rw [canonical, hrule]; rfl
          rw [hcanonical, hrule']
          exact ⟨rfl, by rw [canonical, hrule']; rfl⟩

/-- Whether dots are stripped, and whether anything is, is all that counts of a rule. -/
theorem reduced_congr {domain' : String}
    (h : (emailProviderRules domain).map (·.1) = (emailProviderRules domain').map (·.1)) :
    reduced lib localPart domain = reduced lib localPart domain' := by
  unfold reduced
  cases hrule : emailProviderRules domain <;> cases hrule' : emailProviderRules domain' <;>
    simp_all

/-! ### Stripping -/

theorem toList_stripTag (h : s.toList.takeWhile (· != '+') ≠ []) :
    (stripTag s).toList = s.toList.takeWhile (· != '+') := by
  unfold stripTag
  rw [if_neg (by simpa using h), String.toList_ofList]

/-- There is no tag to be stripped. -/
def Untagged (s : String) : Prop := s.toList.takeWhile (· != '+') = [] ∨ '+' ∉ s.toList

theorem Untagged.stripTag (h : Untagged s) : stripTag s = s := by
  unfold NormalizedEmail.stripTag
  rcases h with h | h
  · rw [h]
    rfl
  · have hall : s.toList.takeWhile (· != '+') = s.toList := by
      rw [List.takeWhile_eq_self_iff]
      intro c hc
      exact bne_iff_ne.mpr fun heq => h (heq ▸ hc)
    simp [hall]

theorem untagged_stripTag (s : String) : Untagged (NormalizedEmail.stripTag s) := by
  by_cases h : s.toList.takeWhile (· != '+') = []
  · left
    have hself : NormalizedEmail.stripTag s = s := Untagged.stripTag (Or.inl h)
    rwa [hself]
  · right
    rw [toList_stripTag h]
    intro hmem
    have hall := List.all_takeWhile (l := s.toList) (p := (· != '+'))
    rw [List.all_eq_true] at hall
    exact absurd (hall '+' hmem) (by decide)

theorem Untagged.removeDots (h : Untagged s) : Untagged (removeDots s) := by
  unfold NormalizedEmail.removeDots Untagged
  rw [String.toList_ofList]
  rcases h with h | h
  · left
    cases hs : s.toList with
    | nil => rfl
    | cons c rest =>
        have hplus : c = '+' := by
          rw [hs, List.takeWhile_cons] at h
          by_contra hne
          rw [if_pos (bne_iff_ne.mpr hne)] at h
          exact nomatch h
        rw [hplus, List.filter_cons_of_pos (by decide), List.takeWhile_cons_of_neg (by decide)]
  · exact Or.inr fun hmem => h (List.mem_filter.mp hmem).1

theorem removeDots_removeDots (s : String) : removeDots (removeDots s) = removeDots s := by
  simp [NormalizedEmail.removeDots]

theorem strip_strip (stripDots : Bool) (s : String) :
    strip stripDots (strip stripDots s) = strip stripDots s := by
  cases stripDots with
  | false => exact (untagged_stripTag s).stripTag
  | true =>
      show NormalizedEmail.removeDots (stripTag (NormalizedEmail.removeDots (stripTag s))) = _
      rw [(untagged_stripTag s).removeDots.stripTag, removeDots_removeDots]
      rfl

theorem lower_strip (hlower : lib.Lowers) (stripDots : Bool) (s : String) :
    lib.lower (strip stripDots s) = strip stripDots (lib.lower s) := by
  cases stripDots with
  | false => exact hlower.stripTag s
  | true =>
      show lib.lower (NormalizedEmail.removeDots (stripTag s)) = _
      rw [hlower.removeDots, hlower.stripTag]
      rfl

theorem reduced_reduced (hlower : lib.Lowers) (localPart domain : String) :
    reduced lib (reduced lib localPart domain) domain = reduced lib localPart domain := by
  unfold reduced
  cases emailProviderRules domain with
  | none => exact hlower.lower localPart
  | some rule =>
      simp only
      rw [← lower_strip hlower, hlower.lower, strip_strip]

/-- What is reduced is in lower case. -/
theorem lower_reduced (hlower : lib.Lowers) (localPart domain : String) :
    lib.lower (reduced lib localPart domain) = reduced lib localPart domain := by
  unfold reduced
  cases emailProviderRules domain <;> exact hlower.lower _

/-! ### Normalizing twice -/

/-- What is normalized again is left alone: what was rejected is rejected in lower case as well,
and what is left of a local part, unless it is rejected now, is one that the validator gives. -/
def Steady (lib : Library) (email : String) : Prop :=
  match lib.validateEmail email with
  | none => lib.validateEmail (lib.lower email) = none
  | some (localPart, domain) =>
      (lib.validateEmail (normalizeEmail lib email)).isSome = true →
        lib.Produces (reduced lib localPart domain)

theorem normalizeEmail_twice (hsplits : lib.Splits) (hlower : lib.Lowers)
    (h : Steady lib email) :
    normalizeEmail lib (normalizeEmail lib email) = normalizeEmail lib email := by
  unfold Steady at h
  cases hvalid : lib.validateEmail email with
  | none =>
      rw [hvalid] at h
      have hrejected : ∀ s, lib.validateEmail s = none →
          normalizeEmail lib s = lib.lower s := by
        intro s hs
        rw [normalizeEmail, hs]
      rw [hrejected email hvalid, hrejected _ h, hlower.lower]
  | some parts =>
      obtain ⟨localPart, domain⟩ := parts
      rw [hvalid] at h
      have hdomain := canonical_lowerAscii (hsplits.ascii hvalid)
      have hnormal := normalizeEmail_of_valid hvalid
      cases hagain : lib.validateEmail (normalizeEmail lib email) with
      | none =>
          rw [normalizeEmail, hagain, hnormal]
          dsimp only
          rw [← lower_reduced hlower, hlower.address hdomain]
      | some parts =>
          have hproduces := h (by rw [hagain]; rfl)
          obtain ⟨hrule, hcanonical⟩ := canonical_canonical domain
          have hagain' := hagain
          rw [hnormal] at hagain'
          have hlocal := hsplits.localPart hproduces hdomain hagain'
          have hkept := hsplits.domain hdomain hagain'
          have hparts : parts = (reduced lib localPart domain, canonical domain) :=
            Prod.ext hlocal hkept
          rw [hparts] at hagain
          rw [normalizeEmail_of_valid hagain, hnormal, reduced_congr hrule,
            reduced_reduced hlower, hcanonical]

end

/-! ### Differences that do not count -/

/-- An address at a listed provider, with a local part that does not begin with a plus sign. -/
structure Inbox where
  localPart : String
  domain : String
  listed : (emailProviderRules domain).isSome = true
  front : ∃ c rest, localPart.toList = c :: rest ∧ c ≠ '+'

/-- Two addresses differ in one respect. -/
inductive Differ (lib : Library) (a b : Inbox) : Prop
  | letterCase : lib.lower a.localPart = lib.lower b.localPart → a.domain = b.domain →
      Differ lib a b
  | tag (tag : String) : b.localPart = a.localPart ++ "+" ++ tag → a.domain = b.domain →
      Differ lib a b
  | dot (p q : String) : (emailProviderRules a.domain).map (·.1) = some true →
      a.localPart = p ++ q → b.localPart = p ++ "." ++ q → a.domain = b.domain →
      Differ lib a b
  | aliased : a.localPart = b.localPart → canonical a.domain = canonical b.domain →
      Differ lib a b

section

variable {lib : Library} {a b : Inbox}

theorem Inbox.untagged_ne_nil (a : Inbox) : a.localPart.toList.takeWhile (· != '+') ≠ [] := by
  obtain ⟨c, rest, hlocal, hc⟩ := a.front
  simp [hlocal, hc]

theorem Inbox.toList_stripTag (a : Inbox) :
    (stripTag a.localPart).toList = a.localPart.toList.takeWhile (· != '+') :=
  NormalizedEmail.toList_stripTag a.untagged_ne_nil

theorem takeWhile_tag (l tag : List Char) :
    (l ++ '+' :: tag).takeWhile (· != '+') = l.takeWhile (· != '+') := by
  induction l with
  | nil => rfl
  | cons c l ih =>
      rw [List.cons_append, List.takeWhile_cons, List.takeWhile_cons, ih]

theorem filter_takeWhile_dot (p q : List Char) :
    ((p ++ '.' :: q).takeWhile (· != '+')).filter (· != '.') =
      ((p ++ q).takeWhile (· != '+')).filter (· != '.') := by
  induction p with
  | nil => rfl
  | cons c p ih =>
      rw [List.cons_append, List.cons_append, List.takeWhile_cons, List.takeWhile_cons]
      by_cases hc : c = '+'
      · simp [hc]
      · rw [if_pos (bne_iff_ne.mpr hc), if_pos (bne_iff_ne.mpr hc), List.filter_cons,
          List.filter_cons, ih]

theorem stripTag_tag {tag : String} (h : b.localPart = a.localPart ++ "+" ++ tag) :
    stripTag b.localPart = stripTag a.localPart := by
  have htext : b.localPart.toList = a.localPart.toList ++ '+' :: tag.toList := by
    rw [h, String.toList_append, String.toList_append, List.append_assoc]
    rfl
  rw [← String.toList_inj, b.toList_stripTag, a.toList_stripTag, htext, takeWhile_tag]

theorem removeDots_dot {p q : String} (ha : a.localPart = p ++ q)
    (hb : b.localPart = p ++ "." ++ q) :
    removeDots (stripTag a.localPart) = removeDots (stripTag b.localPart) := by
  have htext : b.localPart.toList = p.toList ++ '.' :: q.toList := by
    rw [hb, String.toList_append, String.toList_append, List.append_assoc]
    rfl
  unfold removeDots
  rw [a.toList_stripTag, b.toList_stripTag, ha, htext, String.toList_append, filter_takeWhile_dot]

/-- Inboxes at providers with the same rule, which strips the same of them. -/
theorem reduced_eq {localPart localPart' domain : String}
    (h : ∀ stripDots, (emailProviderRules domain).map (·.1) = some stripDots →
      lib.lower (strip stripDots localPart) = lib.lower (strip stripDots localPart'))
    (hlisted : (emailProviderRules domain).isSome = true) :
    reduced lib localPart domain = reduced lib localPart' domain := by
  unfold reduced
  cases hrule : emailProviderRules domain with
  | none =>
      rw [hrule] at hlisted
      exact nomatch hlisted
  | some rule => exact h rule.1 (by rw [hrule]; rfl)

/-- None of the differences is left in what the rules make of the addresses. -/
theorem Differ.normal (hlower : lib.Lowers) (h : Differ lib a b) :
    reduced lib a.localPart a.domain = reduced lib b.localPart b.domain ∧
      canonical a.domain = canonical b.domain := by
  cases h with
  | letterCase hcase hdomain =>
      rw [← hdomain]
      refine ⟨reduced_eq (fun stripDots _ => ?_) a.listed, rfl⟩
      rw [lower_strip hlower, lower_strip hlower, hcase]
  | tag tag htag hdomain =>
      rw [← hdomain]
      refine ⟨reduced_eq (fun stripDots _ => ?_) a.listed, rfl⟩
      unfold strip
      rw [stripTag_tag htag]
  | dot p q hdots ha hb hdomain =>
      rw [← hdomain]
      refine ⟨reduced_eq (fun stripDots hrule => ?_) a.listed, rfl⟩
      rw [hdots] at hrule
      cases hrule
      exact congrArg lib.lower (removeDots_dot ha hb)
  | aliased hlocal hcanonical =>
      have hrule : (emailProviderRules a.domain).map (·.1) =
          (emailProviderRules b.domain).map (·.1) := by
        rw [← (canonical_canonical a.domain).1, hcanonical, (canonical_canonical b.domain).1]
      exact ⟨by rw [hlocal, reduced_congr hrule], hcanonical⟩

end

/-- Normalizing is idempotent where the validator is steady, and takes addresses together that
differ in nothing that counts. -/
theorem normalizeEmail_canonical (lib : Library) (hsplits : lib.Splits) (hlower : lib.Lowers) :
    (∀ email, Steady lib email →
      normalizeEmail lib (normalizeEmail lib email) = normalizeEmail lib email) ∧
    ∀ email email' a b, lib.validateEmail email = some (a.localPart, a.domain) →
      lib.validateEmail email' = some (b.localPart, b.domain) →
      Relation.EqvGen (Differ lib) a b →
      normalizeEmail lib email = normalizeEmail lib email' := by
  refine ⟨fun email h => normalizeEmail_twice hsplits hlower h, ?_⟩
  intro email email' a b ha hb hdiffer
  have hnormal : reduced lib a.localPart a.domain = reduced lib b.localPart b.domain ∧
      canonical a.domain = canonical b.domain := by
    clear ha hb
    induction hdiffer with
    | rel a b h => exact h.normal hlower
    | refl a => exact ⟨rfl, rfl⟩
    | symm a b _ ih => exact ⟨ih.1.symm, ih.2.symm⟩
    | trans a b c _ _ ih ih' => exact ⟨ih.1.trans ih'.1, ih.2.trans ih'.2⟩
  rw [normalizeEmail_of_valid ha, normalizeEmail_of_valid hb, hnormal.1, hnormal.2]

/-! ### A validator that composes

A text is normalized before it is validated: here a `j` and a caron are put together, which have a
character of their own as small letters only.  An address may be no longer than so many bytes.
-/

def caron : Char := '\u030c'

def jCaron : Char := '\u01f0'

def compose : List Char → List Char
  | [] => []
  | [c] => [c]
  | c :: d :: s => if c = 'j' ∧ d = caron then jCaron :: compose s else c :: compose (d :: s)

/-- The sharp s is longer as a capital. -/
def lowerChar (c : Char) : Char := if c = '\u1e9e' then '\u00df' else c.toLower

def Library.within (bytes : Nat) : Library where
  validateEmail email :=
    match email.toList.dropWhile (· != '@') with
    | [] => none
    | _ :: domain =>
        if (email.toList.flatMap String.utf8EncodeChar).length ≤ bytes ∧
            domain.all (fun c => decide (c.toNat < 128) && c != '@') = true then
          some (String.ofList (compose (email.toList.takeWhile (· != '@'))),
            String.ofList (domain.map Char.toLower))
        else none
  lower s := String.ofList (s.toList.map lowerChar)

/-- What is not put together with what follows it stays. -/
theorem compose_cons {c : Char} {s : List Char} (h : c = 'j' → ∀ d ∈ s.head?, d ≠ caron) :
    compose (c :: s) = c :: compose s := by
  cases s with
  | nil => rfl
  | cons d s =>
      rw [compose, if_neg]
      rintro ⟨hc, hd⟩
      exact h hc d rfl hd

theorem compose_head {d : Char} (hd : d ≠ caron) (s : List Char) :
    ∀ e ∈ (compose (d :: s)).head?, e ≠ caron := by
  intro e he
  cases s with
  | nil =>
      cases he
      exact hd
  | cons c s =>
      rw [compose] at he
      by_cases h : d = 'j' ∧ c = caron
      · rw [if_pos h] at he
        cases he
        decide
      · rw [if_neg h] at he
        cases he
        exact hd

theorem compose_compose (s : List Char) : compose (compose s) = compose s := by
  fun_induction compose s with
  | case1 => rfl
  | case2 c => rfl
  | case3 c d s h ih => rw [compose_cons (fun hc => absurd hc (by decide)), ih]
  | case4 c d s h ih =>
      rw [compose_cons (fun hc => compose_head (fun hd => h ⟨hc, hd⟩) s), ih]

/-- What is accepted has one `@`. -/
theorem within_eq_some {bytes : Nat} {email : String} {parts : String × String}
    (h : (Library.within bytes).validateEmail email = some parts) :
    ∃ localPart domain, email.toList = localPart ++ '@' :: domain ∧ '@' ∉ localPart ∧
      '@' ∉ domain ∧ (∀ c ∈ domain, c.toNat < 128) ∧
      parts = (String.ofList (compose localPart), String.ofList (domain.map Char.toLower)) := by
  simp only [Library.within] at h
  cases hrest : email.toList.dropWhile (· != '@') with
  | nil =>
      rw [hrest] at h
      exact nomatch h
  | cons c domain =>
      rw [hrest] at h
      dsimp only at h
      by_cases haccepts : (email.toList.flatMap String.utf8EncodeChar).length ≤ bytes ∧
          domain.all (fun c => decide (c.toNat < 128) && c != '@') = true
      · rw [if_pos haccepts] at h
        have hall := List.all_eq_true.mp haccepts.2
        have hat : c = '@' := by
          have hhead := List.head?_dropWhile_not (· != '@') email.toList
          rw [hrest] at hhead
          simpa using hhead
        have hsplit := List.takeWhile_append_dropWhile (p := (· != '@')) (l := email.toList)
        refine ⟨email.toList.takeWhile (· != '@'), domain, ?_, ?_, ?_, ?_, ?_⟩
        · rw [hrest, hat] at hsplit
          exact hsplit.symm
        · intro hmem
          have hfront := List.all_eq_true.mp (List.all_takeWhile (l := email.toList)
            (p := (· != '@'))) '@' hmem
          exact absurd hfront (by decide)
        · intro hmem
          have hplain := hall '@' hmem
          exact absurd hplain (by decide)
        · intro x hx
          have hplain := hall x hx
          rw [Bool.and_eq_true, decide_eq_true_eq] at hplain
          exact hplain.1
        · exact (Option.some.inj h).symm
      · rw [if_neg haccepts] at h
        exact nomatch h

/-- What is accepted of two parts is split between them. -/
theorem within_append {bytes : Nat} {localPart domain : String} {parts : String × String}
    (h : (Library.within bytes).validateEmail (localPart ++ "@" ++ domain) = some parts) :
    parts = (String.ofList (compose localPart.toList),
      String.ofList (domain.toList.map Char.toLower)) := by
  obtain ⟨l, d, htext, hl, hd, -, hparts⟩ := within_eq_some h
  have hjoined : (localPart ++ "@" ++ domain).toList =
      localPart.toList ++ '@' :: domain.toList := by
    rw [String.toList_append, String.toList_append, List.append_assoc]
    rfl
  rw [hjoined] at htext
  obtain ⟨hlocal, -, hdomain⟩ := (List.append_cons_inj_of_notMem hl hd).mp htext.symm
  rw [hparts, hlocal, hdomain]

theorem within_splits (bytes : Nat) : (Library.within bytes).Splits where
  ascii := by
    intro email localPart domain h
    obtain ⟨l, d, -, -, -, hascii, hparts⟩ := within_eq_some h
    cases hparts
    intro c hc
    rw [String.toList_ofList] at hc
    obtain ⟨x, hx, rfl⟩ := List.mem_map.mp hc
    exact ⟨AsciiCase.toLower_ascii (hascii x hx), Char.isUpper_toLower_eq_false x⟩
  localPart := by
    intro localPart domain parts hproduces hdomain h
    obtain ⟨email, domain', hvalid⟩ := hproduces
    obtain ⟨l, d, -, -, -, -, hparts⟩ := within_eq_some hvalid
    cases hparts
    rw [within_append h, String.toList_ofList, compose_compose]
  domain := by
    intro localPart domain parts hdomain h
    have hkept : ∀ c ∈ domain.toList, c.toLower = c := fun c hc =>
      Char.toLower_eq_of_not_isUpper (by simp [(hdomain c hc).2])
    have hself : domain.toList.map Char.toLower = domain.toList := by
      rw [List.map_congr_left hkept]
      exact List.map_id _
    rw [within_append h, hself, String.ofList_toList]

theorem lowerChar_of_ne {c : Char} (h : c ≠ '\u1e9e') : lowerChar c = c.toLower := if_neg h

/-- What an address is cut at is the lower case of nothing else. -/
theorem lowerChar_eq_iff {c d : Char} (hd : d ∈ ['+', '.', '\u1e9e']) (hsharp : c ≠ '\u1e9e') :
    lowerChar c = d ↔ c = d := by
  rw [lowerChar_of_ne hsharp]
  simp only [List.mem_cons, List.not_mem_nil, or_false] at hd
  rcases hd with rfl | rfl | rfl <;> exact AsciiCase.toLower_eq_iff (by decide)

theorem bne_lowerChar {d : Char} (hd : d ∈ ['+', '.']) :
    (fun c => c != d) ∘ lowerChar = fun c => c != d := by
  funext c
  rw [Function.comp_apply, Bool.eq_iff_iff, bne_iff_ne, bne_iff_ne]
  refine not_congr ?_
  by_cases hsharp : c = '\u1e9e'
  · rw [hsharp]
    simp only [List.mem_cons, List.not_mem_nil, or_false] at hd
    rcases hd with rfl | rfl <;> decide
  · refine lowerChar_eq_iff ?_ hsharp
    simp only [List.mem_cons, List.not_mem_nil, or_false] at hd ⊢
    exact hd.imp_right Or.inl

theorem lowerChar_lowerChar (c : Char) : lowerChar (lowerChar c) = lowerChar c := by
  by_cases hsharp : c = '\u1e9e'
  · rw [hsharp]
    decide
  · have hkept : c.toLower ≠ '\u1e9e' := by
      rw [← lowerChar_of_ne hsharp, ne_eq, lowerChar_eq_iff (by simp) hsharp]
      exact hsharp
    rw [lowerChar_of_ne hsharp, lowerChar_of_ne hkept, Char.toLower_toLower_eq_toLower]

theorem map_lowerChar_map (l : List Char) : (l.map lowerChar).map lowerChar = l.map lowerChar := by
  rw [List.map_map]
  exact List.map_congr_left fun c _ => lowerChar_lowerChar c

theorem within_lowers (bytes : Nat) : (Library.within bytes).Lowers where
  lower := by
    intro s
    simp only [Library.within, String.toList_ofList, map_lowerChar_map]
  stripTag := by
    intro s
    have hcut : (s.toList.map lowerChar).takeWhile (· != '+') =
        (s.toList.takeWhile (· != '+')).map lowerChar := by
      rw [List.takeWhile_map, bne_lowerChar (by simp)]
    simp only [Library.within, stripTag, String.toList_ofList, hcut, List.isEmpty_map]
    split
    · rfl
    · rw [String.toList_ofList]
  removeDots := by
    intro s
    simp only [Library.within, removeDots, String.toList_ofList]
    rw [List.filter_map, bne_lowerChar (by simp)]
  address := by
    intro s domain hdomain
    have hself : domain.toList.map lowerChar = domain.toList := by
      have hkept : ∀ c ∈ domain.toList, lowerChar c = c := by
        intro c hc
        have hsharp : c ≠ '\u1e9e' := by
          rintro rfl
          exact absurd (hdomain _ hc).1 (by decide)
        rw [lowerChar_of_ne hsharp, Char.toLower_eq_of_not_isUpper (by simp [(hdomain c hc).2])]
      rw [List.map_congr_left hkept]
      exact List.map_id _
    have hat : ("@".toList).map lowerChar = "@".toList := by decide
    rw [← String.toList_inj]
    simp only [Library.within, String.toList_ofList, String.toList_append, List.map_append,
      map_lowerChar_map, hself, hat]

/-! ### Addresses at Gmail -/

def gmail (localPart : String) (front : ∃ c rest, localPart.toList = c :: rest ∧ c ≠ '+') :
    Inbox :=
  { localPart, domain := "gmail.com", listed := by decide, front }

/-- As it is given at first. -/
def googlemail : Inbox where
  localPart := "A.B+aur"
  domain := "googlemail.com"
  listed := by decide
  front := ⟨'A', _, rfl, by decide⟩

def plainGmail : Inbox := gmail "ab" ⟨'a', _, rfl, by decide⟩

theorem googlemail_valid : (Library.within 254).validateEmail "A.B+aur@GoogleMail.com" =
    some (googlemail.localPart, googlemail.domain) := by
  decide

theorem googlemail_steady : Steady (.within 254) "A.B+aur@GoogleMail.com" := by
  have hreduced : reduced (.within 254) googlemail.localPart googlemail.domain = "ab" := by decide
  unfold Steady
  rw [googlemail_valid]
  intro _
  rw [hreduced]
  exact ⟨"ab@gmail.com", "gmail.com", by decide⟩

theorem googlemail_eqvGen : Relation.EqvGen (Differ (.within 254)) googlemail plainGmail := by
  let tagged := gmail "A.B+aur" ⟨'A', _, rfl, by decide⟩
  let dotted := gmail "A.B" ⟨'A', _, rfl, by decide⟩
  let upper := gmail "AB" ⟨'A', _, rfl, by decide⟩
  have haliased : Differ (.within 254) googlemail tagged := .aliased rfl (by decide)
  have htag : Differ (.within 254) dotted tagged := .tag "aur" (by decide) rfl
  have hdot : Differ (.within 254) upper dotted := .dot "A" "B" rfl (by decide) (by decide) rfl
  have hcase : Differ (.within 254) upper plainGmail := .letterCase (by decide) rfl
  exact .trans _ _ _ (.rel _ _ haliased) (.trans _ _ _ (.symm _ _ (.rel _ _ htag))
    (.trans _ _ _ (.symm _ _ (.rel _ _ hdot)) (.rel _ _ hcase)))

theorem normalizeEmail_canonical_gmail :
    normalizeEmail (.within 254) (normalizeEmail (.within 254) "A.B+aur@GoogleMail.com") =
        normalizeEmail (.within 254) "A.B+aur@GoogleMail.com" ∧
      normalizeEmail (.within 254) "A.B+aur@GoogleMail.com" =
        normalizeEmail (.within 254) "ab@gmail.com" := by
  have hcanonical := normalizeEmail_canonical (.within 254) (within_splits 254)
    (within_lowers 254)
  have hplain : (Library.within 254).validateEmail "ab@gmail.com" =
      some (plainGmail.localPart, plainGmail.domain) := by
    decide
  refine ⟨hcanonical.1 "A.B+aur@GoogleMail.com" googlemail_steady, ?_⟩
  exact hcanonical.2 "A.B+aur@GoogleMail.com" "ab@gmail.com" googlemail plainGmail
    googlemail_valid hplain googlemail_eqvGen

/-- A capital `J` with a caron is two characters until it is in lower case; an address with a
capital sharp s is too long until it is. -/
theorem not_idempotent_caron :
    (Library.within 14).Splits ∧ (Library.within 14).Lowers ∧
      normalizeEmail (.within 14) (normalizeEmail (.within 14) "J\u030c@gmail.com") ≠
        normalizeEmail (.within 14) "J\u030c@gmail.com" ∧
      normalizeEmail (.within 14) "J\u030c@gmail.com" ≠
        normalizeEmail (.within 14) "j\u030c@gmail.com" ∧
      normalizeEmail (.within 14) (normalizeEmail (.within 14) "\u1e9e+x@gmail.com") ≠
        normalizeEmail (.within 14) "\u1e9e+x@gmail.com" :=
  ⟨within_splits 14, within_lowers 14, by decide, by decide, by decide⟩

end Aurweb.NormalizedEmail
