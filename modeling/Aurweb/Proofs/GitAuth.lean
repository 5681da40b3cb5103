/-
Which names and fingerprints are accepted.

Both patterns are told by `isMatch_usernameRegex`: a name of a certain shape, and perhaps a line
end, which the dollar sign overlooks.  So whatever a registration accepts is found again by the
look-up, line end and all.  A fingerprint is accepted as `int` reads it, which is more than
digits.
-/
import Aurweb.GitAuth
import Aurweb.Proofs.ResetKeys

namespace Aurweb.GitAuth

open Users

variable {limits : Limits} {u : IntLiteral.Unicode} {s : String}

/-! ### Names -/

/-- Letters and digits with at most one separator, neither first nor last. -/
structure IsUsername (name : List Char) : Prop where
  alphabet : ∀ c ∈ name, c.isAlphanum = true ∨ isSeparator c = true
  once : name.countP isSeparator ≤ 1
  first : ∀ c, name.head? = some c → isSeparator c = false
  last : ∀ c, name.getLast? = some c → isSeparator c = false

/-- What the patterns have before the end. -/
def Shaped (name : List Char) : Prop :=
  ∃ before separator after, (before ≠ [] ∧ ∀ c ∈ before, c.isAlphanum = true) ∧
    (separator.length ≤ 1 ∧ ∀ c ∈ separator, isSeparator c = true) ∧
    (after ≠ [] ∧ ∀ c ∈ after, c.isAlphanum = true) ∧ name = before ++ (separator ++ after)

theorem isSeparator_of_isAlphanum {c : Char} (h : c.isAlphanum = true) :
    isSeparator c = false := by
  refine eq_false_of_ne_true fun hsep => ?_
  simp only [isSeparator, Bool.or_eq_true, beq_iff_eq] at hsep
  rcases hsep with (rfl | rfl) | rfl <;> exact absurd h (by decide)

theorem countP_alphanum {name : List Char} (h : ∀ c ∈ name, c.isAlphanum = true) :
    name.countP isSeparator = 0 := by
  rw [List.countP_eq_zero]
  intro c hc
  rw [isSeparator_of_isAlphanum (h c hc)]
  exact Bool.false_ne_true

theorem Shaped.isUsername {name : List Char} (h : Shaped name) :
    IsUsername name ∧ 2 ≤ name.length := by
  obtain ⟨before, separator, after, ⟨hbne, hbefore⟩, ⟨hlen, hsep⟩, ⟨hane, hafter⟩, rfl⟩ := h
  refine ⟨{ alphabet := ?_, once := ?_, first := ?_, last := ?_ }, ?_⟩
  · intro c hc
    rcases List.mem_append.mp hc with hc | hc
    · exact Or.inl (hbefore c hc)
    · rcases List.mem_append.mp hc with hc | hc
      · exact Or.inr (hsep c hc)
      · exact Or.inl (hafter c hc)
  · rw [List.countP_append, List.countP_append, countP_alphanum hbefore, countP_alphanum hafter]
    have hle := List.countP_le_length (p := isSeparator) (l := separator)
    omega
  · intro c hc
    rw [List.head?_append_of_ne_nil _ hbne] at hc
    exact isSeparator_of_isAlphanum (hbefore c (List.mem_of_mem_head? hc))
  · intro c hc
    rw [List.getLast?_append_of_ne_nil _ (List.append_ne_nil_of_right_ne_nil _ hane),
      List.getLast?_append_of_ne_nil _ hane] at hc
    exact isSeparator_of_isAlphanum (hafter c (List.mem_of_getLast? hc))
  · have hbpos := List.length_pos_of_ne_nil hbne
    have hapos := List.length_pos_of_ne_nil hane
    rw [List.length_append, List.length_append]
    omega

/-- Two characters are needed, whether there is a separator or not. -/
theorem IsUsername.shaped {name : List Char} (h : IsUsername name) (hlen : 2 ≤ name.length) :
    Shaped name := by
  by_cases hany : ∃ c ∈ name, isSeparator c = true
  · obtain ⟨c, hmem, hc⟩ := hany
    obtain ⟨before, after, rfl⟩ := List.append_of_mem hmem
    have hcount := h.once
    rw [List.countP_append, List.countP_cons_of_pos hc] at hcount
    have hother : ∀ l : List Char, (∀ a ∈ l, a ∈ before ++ c :: after) →
        l.countP isSeparator = 0 → ∀ a ∈ l, a.isAlphanum = true := by
      intro l hl hzero a ha
      exact (h.alphabet a (hl a ha)).resolve_right (List.countP_eq_zero.mp hzero a ha)
    refine ⟨before, [c], after, ⟨?_, hother before ?_ (by omega)⟩, ⟨Nat.le_refl _, ?_⟩,
      ⟨?_, hother after ?_ (by omega)⟩, rfl⟩
    · rintro rfl
      exact absurd hc (by simp [h.first c rfl])
    · exact fun a ha => List.mem_append_left _ ha
    · intro a ha
      obtain rfl := List.mem_singleton.mp ha
      exact hc
    · rintro rfl
      exact absurd hc (by simp [h.last c List.getLast?_concat])
    · exact fun a ha => List.mem_append_right _ (List.mem_cons_of_mem _ ha)
  · have hall : ∀ c ∈ name, c.isAlphanum = true := fun c hc =>
      (h.alphabet c hc).resolve_right fun hsep => hany ⟨c, hc, hsep⟩
    match name, hlen with
    | c :: d :: cs, _ =>
        refine ⟨[c], [], d :: cs, ⟨List.cons_ne_nil _ _, ?_⟩, ⟨Nat.zero_le _, nofun⟩,
          ⟨List.cons_ne_nil _ _, fun a ha => hall a (List.mem_cons_of_mem _ ha)⟩, rfl⟩
        intro a ha
        obtain rfl := List.mem_singleton.mp ha
        exact hall a (List.mem_cons_self ..)

/-- **What the look-up matches**: a name, with or without a line end. -/
theorem isMatch_usernameRegex {text : List Char} : Regex.isMatch usernameRegex text = true ↔
    ∃ name, Shaped name ∧ (text = name ∨ text = name ++ ['\n']) := by
  rw [Regex.isMatch_iff]
  unfold usernameRegex
  constructor
  · rintro ⟨rest, h⟩
    obtain ⟨t₁, h₁, h⟩ := Regex.mem_rests_cons.mp h
    obtain ⟨t₂, h₂, h⟩ := Regex.mem_rests_cons.mp h
    obtain ⟨t₃, h₃, h⟩ := Regex.mem_rests_cons.mp h
    obtain ⟨t₄, h₄, -⟩ := Regex.mem_rests_cons.mp h
    obtain ⟨before, hbne, hbefore, rfl⟩ := Regex.mem_oneOrMore.mp h₁
    obtain ⟨after, hane, hafter, rfl⟩ := Regex.mem_oneOrMore.mp h₃
    have hend := (Regex.mem_finish.mp h₄).2
    have hname : ∃ separator : List Char, (separator.length ≤ 1 ∧
        ∀ c ∈ separator, isSeparator c = true) ∧ t₁ = separator ++ (after ++ t₃) := by
      rcases Regex.mem_optional.mp h₂ with rfl | ⟨c, hc, rfl⟩
      · exact ⟨[], ⟨Nat.zero_le _, nofun⟩, rfl⟩
      · exact ⟨[c], ⟨Nat.le_refl _, by simpa using hc⟩, rfl⟩
    obtain ⟨separator, hsep, rfl⟩ := hname
    refine ⟨before ++ (separator ++ after),
      ⟨before, separator, after, ⟨hbne, hbefore⟩, hsep, ⟨hane, hafter⟩, rfl⟩, ?_⟩
    rcases hend with rfl | rfl
    · exact Or.inl (by simp only [List.append_nil])
    · exact Or.inr (by simp only [List.append_assoc])
  · rintro ⟨_, ⟨before, separator, after, ⟨hbne, hbefore⟩, ⟨hlen, hsep⟩, ⟨hane, hafter⟩, rfl⟩,
      htext⟩
    have htail : ∃ tail, (tail = [] ∨ tail = ['\n']) ∧
        text = before ++ (separator ++ (after ++ tail)) := by
      rcases htext with rfl | rfl
      · exact ⟨[], Or.inl rfl, by simp only [List.append_nil]⟩
      · exact ⟨['\n'], Or.inr rfl, by simp only [List.append_assoc]⟩
    obtain ⟨tail, htail, rfl⟩ := htail
    refine ⟨tail, Regex.mem_rests_cons.mpr ⟨separator ++ (after ++ tail),
      Regex.mem_oneOrMore.mpr ⟨before, hbne, hbefore, rfl⟩,
      Regex.mem_rests_cons.mpr ⟨after ++ tail, Regex.mem_optional.mpr ?_,
        Regex.mem_rests_cons.mpr ⟨tail, Regex.mem_oneOrMore.mpr ⟨after, hane, hafter, rfl⟩,
          Regex.mem_rests_cons.mpr ⟨tail, Regex.mem_finish.mpr ⟨rfl, htail⟩,
            Regex.mem_rests_nil.mpr rfl⟩⟩⟩⟩⟩
    match separator, hlen with
    | [], _ => exact Or.inl rfl
    | [c], _ => exact Or.inr ⟨c, hsep c (List.mem_cons_self ..), rfl⟩

/-- The caret adds nothing to where a match begins. -/
theorem isMatch_usernamePattern (text : List Char) :
    Regex.isMatch usernamePattern text = Regex.isMatch usernameRegex text := by
  rw [Bool.eq_iff_iff, Regex.isMatch_iff, Regex.isMatch_iff]
  refine exists_congr fun rest => ?_
  rw [show usernamePattern = .start :: usernameRegex from rfl, Regex.mem_rests_cons]
  constructor
  · rintro ⟨t, ht, h⟩
    rwa [(Regex.mem_start.mp ht).1] at h
  · intro h
    exact ⟨text, Regex.mem_start.mpr ⟨rfl, rfl⟩, h⟩

theorem allow_iff : limits.allow s = true ↔
    limits.minLen ≤ (s.length : Int) ∧ (s.length : Int) ≤ limits.maxLen := by
  rw [Limits.allow, Bool.and_eq_true, decide_eq_true_eq, decide_eq_true_eq]

theorem validUsername_iff : validUsername limits s = true ↔ limits.allow s = true ∧
    ∃ name, Shaped name ∧ (s.toList = name ∨ s.toList = name ++ ['\n']) := by
  unfold validUsername
  rw [isMatch_usernamePattern]
  cases limits.allow s with
  | false => simp
  | true => simpa using isMatch_usernameRegex

/-! ### Where the validators differ from what they are for -/

/-- A name with a line end behind it. -/
def EndsInNewline (limits : Limits) (s : String) : Prop :=
  limits.allow s = true ∧
    ∃ name, IsUsername name ∧ 2 ≤ name.length ∧ s.toList = name ++ ['\n']

/-- A name of one character or none, where the bounds have room for it. -/
def TooShort (limits : Limits) (s : String) : Prop :=
  limits.allow s = true ∧ s.toList.length < 2 ∧ ∀ c ∈ s.toList, c.isAlphanum = true

def isHexDigit (c : Char) : Bool :=
  c.isDigit || ('a' ≤ c && c ≤ 'f') || ('A' ≤ c && c ≤ 'F')

/-- A numeral of the length of a fingerprint with something in it that is no digit of ASCII:
white space around it, a sign, the name of the base, an underscore or a digit of another script. -/
def Decorated (u : IntLiteral.Unicode) (s : String) : Prop :=
  s.length = 40 ∧ IntLiteral.Literal u 16 s.toList ∧ ∃ c ∈ s.toList, isHexDigit c = false

theorem not_isUsername_newline {name : List Char} : ¬ IsUsername (name ++ ['\n']) := by
  intro h
  rcases h.alphabet '\n' (List.mem_append_right _ (List.mem_singleton.mpr rfl)) with h | h
  · exact absurd h (by decide)
  · exact absurd h (by decide)

/-- One character that is no separator is a letter or a digit. -/
theorem isUsername_short {name : List Char} (hlen : name.length < 2) :
    IsUsername name ↔ ∀ c ∈ name, c.isAlphanum = true := by
  constructor
  · intro h c hc
    refine (h.alphabet c hc).resolve_right ?_
    match name, hlen with
    | [], _ => exact absurd hc List.not_mem_nil
    | [d], _ =>
        obtain rfl := List.mem_singleton.mp hc
        rw [h.first c rfl]
        exact Bool.false_ne_true
  · intro h
    exact {
      alphabet := fun c hc => Or.inl (h c hc)
      once := by rw [countP_alphanum h]; exact Nat.zero_le _
      first := fun c hc => isSeparator_of_isAlphanum (h c (List.mem_of_mem_head? hc))
      last := fun c hc => isSeparator_of_isAlphanum (h c (List.mem_of_getLast? hc)) }

/-- **Which names**: all of two characters and more, and those with a line end. -/
theorem validUsername_eq : validUsername limits s = true ↔
    (limits.allow s = true ∧ IsUsername s.toList ∧ 2 ≤ s.toList.length) ∨
      EndsInNewline limits s := by
  rw [validUsername_iff]
  constructor
  · rintro ⟨hallow, name, hshaped, rfl | hline⟩
    · exact Or.inl ⟨hallow, hshaped.isUsername⟩
    · obtain ⟨hname, hlen⟩ := hshaped.isUsername
      exact Or.inr ⟨hallow, name, hname, hlen, hline⟩
  · rintro (⟨hallow, hname, hlen⟩ | ⟨hallow, name, hname, hlen, hline⟩)
    · exact ⟨hallow, _, hname.shaped hlen, Or.inl rfl⟩
    · exact ⟨hallow, name, hname.shaped hlen, Or.inr hline⟩

theorem username_iff : (validUsername limits s = true ↔
    limits.allow s = true ∧ IsUsername s.toList) ↔
      ¬ (EndsInNewline limits s ∨ TooShort limits s) := by
  constructor
  · rintro h (hline | ⟨hallow, hlen, hall⟩)
    · obtain ⟨name, -, -, hname⟩ := hline.2
      have husername := (h.mp (validUsername_eq.mpr (Or.inr hline))).2
      rw [hname] at husername
      exact not_isUsername_newline husername
    · rcases validUsername_eq.mp (h.mpr ⟨hallow, (isUsername_short hlen).mpr hall⟩) with h | h
      · omega
      · obtain ⟨name, -, -, hname⟩ := h.2
        have hnewline := hall '\n' (by rw [hname]; simp)
        exact absurd hnewline (by decide)
  · intro h
    rw [validUsername_eq]
    constructor
    · rintro (⟨hallow, hname, -⟩ | hline)
      · exact ⟨hallow, hname⟩
      · exact absurd (Or.inl hline) h
    · rintro ⟨hallow, hname⟩
      refine Or.inl ⟨hallow, hname, ?_⟩
      rcases Nat.lt_or_ge s.toList.length 2 with hlen | hlen
      · exact absurd (Or.inr ⟨hallow, hlen, (isUsername_short hlen).mp hname⟩) h
      · exact hlen

/-! ### Fingerprints -/

theorem isHexDigit_bounds {c : Char} (h : isHexDigit c = true) :
    c.toNat < 127 ∧ (IntLiteral.digit? 16 c).isSome = true := by
  have hbounds : (48 ≤ c.toNat ∧ c.toNat ≤ 57) ∨ (97 ≤ c.toNat ∧ c.toNat ≤ 102) ∨
      (65 ≤ c.toNat ∧ c.toNat ≤ 70) := by
    simp only [isHexDigit, Char.isDigit, Bool.or_eq_true, Bool.and_eq_true, decide_eq_true_eq,
      or_assoc] at h
    exact h
  have hdigit : c.isDigit = true ↔ 48 ≤ c.toNat ∧ c.toNat ≤ 57 := Char.isDigit_iff_toNat
  have hlower : c.isLower = true ↔ 97 ≤ c.toNat ∧ c.toNat ≤ 122 := by
    show (decide ('a'.val ≤ c.val) && decide (c.val ≤ 'z'.val)) = true ↔ _
    rw [Bool.and_eq_true, decide_eq_true_eq, decide_eq_true_eq]
    rfl
  have hupper : c.isUpper = true ↔ 65 ≤ c.toNat ∧ c.toNat ≤ 90 := by
    show decide ('A'.val ≤ c.val ∧ c.val ≤ 'Z'.val) = true ↔ _
    rw [decide_eq_true_eq]
    rfl
  refine ⟨by omega, ?_⟩
  unfold IntLiteral.digit?
  simp only [hdigit, hlower, hupper]
  rw [if_pos (by split_ifs <;> omega)]
  rfl

theorem validPgpFingerprint_iff :
    validPgpFingerprint u s = true ↔ s.length = 40 ∧ IntLiteral.Literal u 16 s.toList := by
  rw [← IntLiteral.parse_isSome_iff]
  unfold validPgpFingerprint
  cases IntLiteral.parse u 16 s.toList with
  | none => simp
  | some n => simp

theorem fingerprint_iff : (validPgpFingerprint u s = true ↔
    s.length = 40 ∧ ∀ c ∈ s.toList, isHexDigit c = true) ↔ ¬ Decorated u s := by
  rw [validPgpFingerprint_iff]
  constructor
  · rintro h ⟨hlen, hliteral, c, hc, hother⟩
    have hhex := (h.mp ⟨hlen, hliteral⟩).2 c hc
    exact absurd hhex (by simp [hother])
  · intro h
    constructor
    · rintro ⟨hlen, hliteral⟩
      refine ⟨hlen, fun c hc => ?_⟩
      by_contra hother
      exact h ⟨hlen, hliteral, c, hc, eq_false_of_ne_true hother⟩
    · rintro ⟨hlen, hhex⟩
      refine ⟨hlen, IntLiteral.literal_of_digits ?_ ?_ ?_⟩
      · intro hnil
        rw [← String.length_toList, hnil] at hlen
        exact absurd hlen (by decide)
      · exact fun c hc => (isHexDigit_bounds (hhex c hc)).1
      · exact fun c hc => (isHexDigit_bounds (hhex c hc)).2

/-! ### From the registration to the look-up -/

/-- A registration with this name is accepted. -/
def Registrable (limits : Limits) (s : String) : Prop :=
  ∃ (env : Env) (st st' : Store) (id : Nat) (args : Args) (t : Tick) (token : String),
    env.validUsername = validUsername limits ∧ args.U.getD "" = s ∧
      Users.accountRegisterPost env st id args t token = .ok st'

theorem Registrable.valid (h : Registrable limits s) : validUsername limits s = true := by
  obtain ⟨env, st, st', id, args, t, token, hvalid, rfl, hok⟩ := h
  obtain ⟨row, -, -, -, hform⟩ := accountRegisterPost_ok hok
  have hname : invalidUsername env args.withoutBlanks = .ok () :=
    firstProblem_ok hform _ (by simp)
  unfold invalidUsername at hname
  split at hname
  next hvalid' => rwa [hvalid] at hvalid'
  · cases hname

theorem main_isSome {conf : Conf} {st : Store} {keytype keytext : String}
    {accountType : AccountType} (hregex : conf.usernameRegex = usernameRegex)
    (hkeytype : keytype ∈ conf.validKeytypes)
    (hrows : rows st (keytype ++ " " ++ keytext) = [(s, accountType)])
    (h : validUsername limits s = true) : (main conf st keytype keytext).isSome = true := by
  have hmatch : Regex.isMatch conf.usernameRegex s.toList = true := by
    rw [hregex]
    exact isMatch_usernameRegex.mpr (validUsername_iff.mp h).2
  unfold main
  rw [List.contains_iff_mem.mpr hkeytype, hrows]
  simp [hmatch]

/-- Alice's key, and the line it is answered with. -/
example : main
    { validKeytypes := ["ssh-ed25519"], usernameRegex := usernameRegex,
      gitServeCmd := "/usr/bin/aurweb-git-serve", sshOptions := "restrict" }
    { accounts := [member 1 .user "alice"],
      sshPubKeys := [{ userID := 1, fingerprint := "", pubKey := "ssh-ed25519 AAAA" }] }
    "ssh-ed25519" "AAAA" =
      some ("command=\"AUR_USER=alice AUR_PRIVILEGED=0 /usr/bin/aurweb-git-serve\",restrict " ++
        "ssh-ed25519 AAAA") := by
  decide

/-- What the validators and the look-up are for. -/
structure AsIntended (u : IntLiteral.Unicode) (limits : Limits) (s : String) : Prop where
  username : validUsername limits s = true ↔
    (limits.minLen ≤ (s.length : Int) ∧ (s.length : Int) ≤ limits.maxLen) ∧ IsUsername s.toList
  fingerprint : validPgpFingerprint u s = true ↔
    s.length = 40 ∧ ∀ c ∈ s.toList, isHexDigit c = true
  lookup : Registrable limits s → ∀ (conf : Conf) (st : Store) (keytype keytext : String)
    (accountType : AccountType), conf.usernameRegex = usernameRegex →
      keytype ∈ conf.validKeytypes →
        rows st (keytype ++ " " ++ keytext) = [(s, accountType)] →
          (main conf st keytype keytext).isSome = true

/-- **When they are**: on all texts but three kinds, none of which the look-up is to blame for. -/
theorem asIntended_iff (u : IntLiteral.Unicode) (limits : Limits) (s : String) :
    AsIntended u limits s ↔
      ¬ (EndsInNewline limits s ∨ TooShort limits s ∨ Decorated u s) := by
  rw [← or_assoc, not_or, ← username_iff, ← fingerprint_iff, allow_iff]
  constructor
  · intro h
    exact ⟨h.username, h.fingerprint⟩
  · rintro ⟨husername, hfingerprint⟩
    exact {
      username := husername
      fingerprint := hfingerprint
      lookup := fun hregistrable conf st keytype keytext accountType hregex hkeytype hrows =>
        main_isSome hregex hkeytype hrows hregistrable.valid }

/-- Nothing but ASCII. -/
def asciiOnly : IntLiteral.Unicode where
  isSpace _ := false
  decimal _ := none

/-- `conf/config.defaults`. -/
def defaultLimits : Limits where
  minLen := 3
  maxLen := 16

/-- A name with a line end, and a fingerprint that has two digits too few. -/
theorem not_asIntended_decorated : ¬ AsIntended asciiOnly defaultLimits "alice\n" ∧
    ¬ AsIntended asciiOnly defaultLimits "0x89abcdef0123456789abcdef0123456789abcd" := by
  constructor
  · intro h
    have hname := (h.username.mp (by decide)).2
    exact (not_isUsername_newline : ¬ IsUsername ("alice".toList ++ _)) hname
  · intro h
    have hhex := (h.fingerprint.mp (by decide)).2 'x' (by decide)
    exact absurd hhex (by decide)

end Aurweb.GitAuth
