/-
What `int` reads.

Between white space there may be a sign, a prefix that names the base and digits, and any two
digits may be set apart by an underscore.  A character that is not of ASCII is a digit or white
space as Unicode says.  `scan` is the part that has a loop: it holds the value so far and
whether a digit has just been read, so that an underscore may follow.
-/
import Mathlib.Data.List.Basic

namespace IntLiteral

/-- What Unicode says of a character. -/
structure Unicode where
  isSpace : Char → Bool
  decimal : Char → Option (Fin 10)

/-- The character of ASCII that stands for it, if one does. -/
def Unicode.toAscii (u : Unicode) (c : Char) : Char :=
  if c.toNat < 127 then c
  else if u.isSpace c then ' '
  else
    match u.decimal c with
    | some d => Nat.digitChar d
    | none => '?'

def isSpace (c : Char) : Bool := c ∈ [' ', '\t', '\n', '\x0b', '\x0c', '\r']

/-- White space on either side is left out. -/
def trim (s : List Char) : List Char := ((s.dropWhile isSpace).reverse.dropWhile isSpace).reverse

/-- The value of a digit in the base. -/
def digit? (base : Nat) (c : Char) : Option Nat :=
  let value :=
    if c.isDigit then c.toNat - 48
    else if c.isLower then c.toNat - 97 + 10
    else if c.isUpper then c.toNat - 65 + 10
    else base
  if value < base then some value else none

/-- Digits with underscores between them; `after` a digit there may be one. -/
def scan (base : Nat) : Nat → Bool → List Char → Option Nat
  | n, after, [] => if after then some n else none
  | n, after, c :: cs =>
      if c = '_' then (if after then scan base n false cs else none)
      else
        match digit? base c with
        | some d => scan base (base * n + d) true cs
        | none => none

/-- The letter after a zero that names the base. -/
def namesBase (base : Nat) (c : Char) : Bool :=
  match base with
  | 2 => c = 'b' || c = 'B'
  | 8 => c = 'o' || c = 'O'
  | 16 => c = 'x' || c = 'X'
  | _ => false

/-- The digits behind the name of the base, which an underscore may follow. -/
def afterName (base : Nat) : List Char → List Char
  | '0' :: c :: '_' :: cs => if namesBase base c then cs else '0' :: c :: '_' :: cs
  | '0' :: c :: cs => if namesBase base c then cs else '0' :: c :: cs
  | s => s

def magnitude (base : Nat) (s : List Char) : Option Nat := scan base 0 false (afterName base s)

/-- `int`, with a base of those that need no look-up table for the digits. -/
def parse (u : Unicode) (base : Nat) (s : List Char) : Option Int :=
  match trim (s.map u.toAscii) with
  | '+' :: s => (magnitude base s).map Int.ofNat
  | '-' :: s => (magnitude base s).map fun n => -Int.ofNat n
  | s => (magnitude base s).map Int.ofNat

/-! ### The grammar of a literal -/

/-- Digits, any two of which an underscore may set apart. -/
inductive Digits (base : Nat) : List Char → Prop
  | one {c : Char} (hc : (digit? base c).isSome = true) : Digits base [c]
  | cons {c : Char} {cs : List Char} (hc : (digit? base c).isSome = true) (h : Digits base cs) :
      Digits base (c :: cs)
  | under {c : Char} {cs : List Char} (hc : (digit? base c).isSome = true) (h : Digits base cs) :
      Digits base (c :: '_' :: cs)

/-- What may name the base. -/
inductive Name (base : Nat) : List Char → Prop
  | none : Name base []
  | letter {c : Char} (hc : namesBase base c = true) : Name base ['0', c]
  | under {c : Char} (hc : namesBase base c = true) : Name base ['0', c, '_']

/-- A numeral with its sign. -/
def Numeral (base : Nat) (s : List Char) : Prop :=
  ∃ sign name digits, (sign = [] ∨ sign = ['+'] ∨ sign = ['-']) ∧ Name base name ∧
    Digits base digits ∧ s = sign ++ (name ++ digits)

/-- A numeral between white space. -/
def Literal (u : Unicode) (base : Nat) (s : List Char) : Prop :=
  ∃ before numeral after, (∀ c ∈ before, isSpace c = true) ∧ Numeral base numeral ∧
    (∀ c ∈ after, isSpace c = true) ∧ s.map u.toAscii = before ++ (numeral ++ after)

theorem isAlphanum_of_digit? {base : Nat} {c : Char} (h : (digit? base c).isSome = true) :
    c.isAlphanum = true := by
  show (c.isUpper || c.isLower || c.isDigit) = true
  unfold digit? at h
  by_cases hdigit : c.isDigit = true
  · rw [hdigit, Bool.or_true]
  · by_cases hlower : c.isLower = true
    · rw [hlower, Bool.or_true, Bool.true_or]
    · by_cases hupper : c.isUpper = true
      · rw [hupper, Bool.true_or, Bool.true_or]
      · simp [hdigit, hlower, hupper] at h

theorem not_digits_nil {base : Nat} : ¬ Digits base [] := nofun

/-- A digit is first and a digit is last. -/
theorem Digits.ends {base : Nat} {s : List Char} (h : Digits base s) :
    (∃ c, s.head? = some c ∧ (digit? base c).isSome = true) ∧
      ∃ c, s.getLast? = some c ∧ (digit? base c).isSome = true := by
  induction h with
  | @one c hc => exact ⟨⟨c, rfl, hc⟩, c, rfl, hc⟩
  | @cons c cs hc h ih =>
      obtain ⟨-, last, hlast, hdigit⟩ := ih
      refine ⟨⟨c, rfl, hc⟩, last, ?_, hdigit⟩
      rw [List.getLast?_cons, hlast]
      rfl
  | @under c cs hc h ih =>
      obtain ⟨-, last, hlast, hdigit⟩ := ih
      refine ⟨⟨c, rfl, hc⟩, last, ?_, hdigit⟩
      rw [List.getLast?_cons, List.getLast?_cons, hlast]
      rfl

/-- An underscore is behind a digit. -/
theorem not_digits_under {base : Nat} {s : List Char} : ¬ Digits base ('_' :: s) := by
  intro h
  obtain ⟨⟨c, hhead, hc⟩, -⟩ := h.ends
  obtain rfl : '_' = c := Option.some.inj hhead
  exact absurd (isAlphanum_of_digit? hc) (by decide)

theorem digits_cons {base : Nat} {c : Char} {cs : List Char} :
    Digits base (c :: cs) ↔ (digit? base c).isSome = true ∧
      (cs = [] ∨ Digits base cs ∨ ∃ cs', cs = '_' :: cs' ∧ Digits base cs') := by
  constructor
  · intro h
    cases h with
    | one hc => exact ⟨hc, Or.inl rfl⟩
    | cons hc h => exact ⟨hc, Or.inr (Or.inl h)⟩
    | under hc h => exact ⟨hc, Or.inr (Or.inr ⟨_, rfl, h⟩)⟩
  · rintro ⟨hc, rfl | h | ⟨cs', rfl, h⟩⟩
    · exact .one hc
    · exact .cons hc h
    · exact .under hc h

/-- The loop stops at what is no digit, and at an underscore that is not between two. -/
theorem scan_isSome {base : Nat} {s : List Char} (n : Nat) :
    ((scan base n false s).isSome = true ↔ Digits base s) ∧
      ((scan base n true s).isSome = true ↔
        s = [] ∨ Digits base s ∨ ∃ cs, s = '_' :: cs ∧ Digits base cs) := by
  induction s generalizing n with
  | nil =>
      refine ⟨?_, ?_⟩
      · simp [scan, not_digits_nil]
      · simp [scan]
  | cons c cs ih =>
      unfold scan
      by_cases hunder : c = '_'
      · subst hunder
        rw [if_pos rfl, if_pos rfl, if_neg Bool.false_ne_true, if_pos rfl, (ih n).1]
        refine ⟨?_, ?_⟩
        · simp [not_digits_under]
        · simp [not_digits_under]
      · rw [if_neg hunder, if_neg hunder, digits_cons]
        cases hdigit : digit? base c with
        | none => simp [hunder]
        | some d => simp [hunder, (ih (base * n + d)).2]

theorem namesBase_not_digit {base : Nat} {c : Char} (h : namesBase base c = true) :
    digit? base c = none ∧ c ≠ '_' := by
  unfold namesBase at h
  split at h <;> simp only [Bool.or_eq_true, decide_eq_true_eq, Bool.false_eq_true] at h <;>
    rcases h with rfl | rfl <;> decide

theorem digits_named {base : Nat} {c : Char} {cs : List Char} (hc : namesBase base c = true) :
    ¬ Digits base ('0' :: c :: cs) := by
  obtain ⟨hnone, hunder⟩ := namesBase_not_digit hc
  intro h
  rcases (digits_cons.mp h).2 with hnil | h | ⟨cs', hcs, -⟩
  · exact absurd hnil (List.cons_ne_nil _ _)
  · exact absurd (digits_cons.mp h).1 (by simp [hnone])
  · exact hunder (List.cons.inj hcs).1

theorem afterName_of_digits {base : Nat} {s : List Char} (h : Digits base s) :
    afterName base s = s := by
  unfold afterName
  split
  next c cs =>
    have hc : ¬ namesBase base c = true := fun hc => digits_named hc h
    rw [if_neg hc]
  next c cs _ =>
    have hc : ¬ namesBase base c = true := fun hc => digits_named hc h
    rw [if_neg hc]
  next => rfl

theorem afterName_letter {base : Nat} {c d : Char} {ds : List Char}
    (hc : namesBase base c = true) (hd : d ≠ '_') :
    afterName base ('0' :: c :: d :: ds) = d :: ds := by
  unfold afterName
  split
  next heq =>
    obtain ⟨-, heq⟩ := List.cons.inj heq
    obtain ⟨-, heq⟩ := List.cons.inj heq
    exact absurd (List.cons.inj heq).1 hd
  next heq =>
    obtain ⟨-, heq⟩ := List.cons.inj heq
    obtain ⟨rfl, rfl⟩ := List.cons.inj heq
    exact if_pos hc
  next hother => exact absurd rfl (hother _ _)

/-- The longest name is taken off. -/
theorem digits_afterName {base : Nat} {s : List Char} :
    Digits base (afterName base s) ↔
      ∃ name digits, Name base name ∧ Digits base digits ∧ s = name ++ digits := by
  constructor
  · intro h
    unfold afterName at h
    split at h
    next c cs =>
      by_cases hc : namesBase base c = true
      · exact ⟨['0', c, '_'], cs, .under hc, by simpa only [if_pos hc] using h, rfl⟩
      · exact ⟨[], _, .none, by simpa only [if_neg hc] using h, rfl⟩
    next c cs _ =>
      by_cases hc : namesBase base c = true
      · exact ⟨['0', c], cs, .letter hc, by simpa only [if_pos hc] using h, rfl⟩
      · exact ⟨[], _, .none, by simpa only [if_neg hc] using h, rfl⟩
    next => exact ⟨[], _, .none, h, rfl⟩
  · rintro ⟨name, digits, hname, hdigits, rfl⟩
    cases hname with
    | none =>
        rw [List.nil_append, afterName_of_digits hdigits]
        exact hdigits
    | @letter c hc =>
        cases digits with
        | nil => exact absurd hdigits not_digits_nil
        | cons d ds =>
            have hd : d ≠ '_' := by
              rintro rfl
              exact not_digits_under hdigits
            rw [List.cons_append, List.cons_append, List.nil_append, afterName_letter hc hd]
            exact hdigits
    | @under c hc =>
        rw [show afterName base (['0', c, '_'] ++ digits) = digits from if_pos hc]
        exact hdigits

theorem magnitude_isSome {base : Nat} {s : List Char} : (magnitude base s).isSome = true ↔
    ∃ name digits, Name base name ∧ Digits base digits ∧ s = name ++ digits :=
  (scan_isSome 0).1.trans digits_afterName

/-- A numeral without its sign begins with no sign. -/
theorem head_unsigned {base : Nat} {name digits : List Char} (hname : Name base name)
    (hdigits : Digits base digits) :
    ∃ c, (name ++ digits).head? = some c ∧ c.isAlphanum = true := by
  cases hname with
  | none =>
      obtain ⟨⟨c, hhead, hc⟩, -⟩ := hdigits.ends
      exact ⟨c, hhead, isAlphanum_of_digit? hc⟩
  | letter hc => exact ⟨'0', rfl, by decide⟩
  | under hc => exact ⟨'0', rfl, by decide⟩

/-- `parse` without the white space. -/
def signed (base : Nat) : List Char → Option Int
  | '+' :: s => (magnitude base s).map Int.ofNat
  | '-' :: s => (magnitude base s).map fun n => -Int.ofNat n
  | s => (magnitude base s).map Int.ofNat

theorem parse_eq_signed (u : Unicode) (base : Nat) (s : List Char) :
    parse u base s = signed base (trim (s.map u.toAscii)) := rfl

theorem signed_isSome {base : Nat} {s : List Char} :
    (signed base s).isSome = true ↔ Numeral base s := by
  constructor
  · intro h
    unfold signed at h
    split at h <;> rw [Option.isSome_map, magnitude_isSome] at h <;>
      obtain ⟨name, digits, hname, hdigits, rfl⟩ := h
    next => exact ⟨['+'], name, digits, Or.inr (Or.inl rfl), hname, hdigits, rfl⟩
    next => exact ⟨['-'], name, digits, Or.inr (Or.inr rfl), hname, hdigits, rfl⟩
    next => exact ⟨[], name, digits, Or.inl rfl, hname, hdigits, rfl⟩
  · rintro ⟨sign, name, digits, hsign, hname, hdigits, rfl⟩
    have hmagnitude : (magnitude base (name ++ digits)).isSome = true :=
      magnitude_isSome.mpr ⟨name, digits, hname, hdigits, rfl⟩
    obtain ⟨c, hhead, hc⟩ := head_unsigned hname hdigits
    rcases hsign with rfl | rfl | rfl
    · rw [List.nil_append]
      unfold signed
      split
      next heq =>
        rw [heq] at hhead
        obtain rfl : '+' = c := Option.some.inj hhead
        exact absurd hc (by decide)
      next heq =>
        rw [heq] at hhead
        obtain rfl : '-' = c := Option.some.inj hhead
        exact absurd hc (by decide)
      next => rwa [Option.isSome_map]
    · exact Option.isSome_map.trans hmagnitude
    · exact Option.isSome_map.trans hmagnitude

/-! ### White space on either side -/

theorem exists_trim (s : List Char) : ∃ before after, (∀ c ∈ before, isSpace c = true) ∧
    (∀ c ∈ after, isSpace c = true) ∧ s = before ++ (trim s ++ after) := by
  have htake : ∀ t : List Char, ∀ c ∈ t.takeWhile isSpace, isSpace c = true :=
    fun t => List.all_eq_true.mp List.all_takeWhile
  refine ⟨s.takeWhile isSpace, ((s.dropWhile isSpace).reverse.takeWhile isSpace).reverse,
    htake s, ?_, ?_⟩
  · intro c hc
    exact htake _ c (List.mem_reverse.mp hc)
  · unfold trim
    rw [← List.reverse_append, List.takeWhile_append_dropWhile, List.reverse_reverse,
      List.takeWhile_append_dropWhile]

theorem dropWhile_of_head {t : List Char} {c : Char} (hhead : t.head? = some c)
    (hc : isSpace c = false) : t.dropWhile isSpace = t := by
  cases t with
  | nil => rfl
  | cons a t =>
      obtain rfl : a = c := Option.some.inj hhead
      rw [List.dropWhile_cons_of_neg (by simp [hc])]

/-- What begins and ends with no white space is what is left when some is put around it. -/
theorem trim_append {before t after : List Char} {c c' : Char}
    (hbefore : ∀ c ∈ before, isSpace c = true) (hafter : ∀ c ∈ after, isSpace c = true)
    (hfirst : t.head? = some c) (hc : isSpace c = false) (hlast : t.getLast? = some c')
    (hc' : isSpace c' = false) : trim (before ++ (t ++ after)) = t := by
  have hhead : (t ++ after).head? = some c := by rw [List.head?_append, hfirst]; rfl
  unfold trim
  rw [List.dropWhile_append_of_pos hbefore, dropWhile_of_head hhead hc, List.reverse_append,
    List.dropWhile_append_of_pos fun a ha => hafter a (List.mem_reverse.mp ha),
    dropWhile_of_head (List.head?_reverse.trans hlast) hc', List.reverse_reverse]

theorem not_isSpace_of_isAlphanum {c : Char} (h : c.isAlphanum = true) : isSpace c = false := by
  refine eq_false_of_ne_true fun hspace => ?_
  simp only [isSpace, List.mem_cons, List.not_mem_nil, or_false, decide_eq_true_eq] at hspace
  rcases hspace with rfl | rfl | rfl | rfl | rfl | rfl <;> exact absurd h (by decide)

/-- A numeral has no white space at either end. -/
theorem Numeral.ends {base : Nat} {s : List Char} (h : Numeral base s) :
    (∃ c, s.head? = some c ∧ isSpace c = false) ∧
      ∃ c, s.getLast? = some c ∧ isSpace c = false := by
  obtain ⟨sign, name, digits, hsign, hname, hdigits, rfl⟩ := h
  refine ⟨?_, ?_⟩
  · obtain ⟨c, hhead, hc⟩ := head_unsigned hname hdigits
    rcases hsign with rfl | rfl | rfl
    · exact ⟨c, hhead, not_isSpace_of_isAlphanum hc⟩
    · exact ⟨'+', rfl, by decide⟩
    · exact ⟨'-', rfl, by decide⟩
  · obtain ⟨-, c, hlast, hc⟩ := hdigits.ends
    refine ⟨c, ?_, not_isSpace_of_isAlphanum (isAlphanum_of_digit? hc)⟩
    rw [List.getLast?_append, List.getLast?_append, hlast]
    rfl

/-- **What `int` reads.** -/
theorem parse_isSome_iff {u : Unicode} {base : Nat} {s : List Char} :
    (parse u base s).isSome = true ↔ Literal u base s := by
  rw [parse_eq_signed, signed_isSome]
  constructor
  · intro h
    obtain ⟨before, after, hbefore, hafter, heq⟩ := exists_trim (s.map u.toAscii)
    exact ⟨before, _, after, hbefore, h, hafter, heq⟩
  · rintro ⟨before, numeral, after, hbefore, hnumeral, hafter, heq⟩
    obtain ⟨⟨c, hhead, hc⟩, c', hlast, hc'⟩ := hnumeral.ends
    rw [heq, trim_append hbefore hafter hhead hc hlast hc']
    exact hnumeral

theorem map_toAscii (u : Unicode) {s : List Char} (h : ∀ c ∈ s, c.toNat < 127) :
    s.map u.toAscii = s :=
  (List.map_congr_left fun c hc => if_pos (h c hc)).trans (List.map_id _)

/-- Nothing but digits. -/
theorem literal_of_digits {u : Unicode} {base : Nat} {s : List Char} (hne : s ≠ [])
    (hascii : ∀ c ∈ s, c.toNat < 127) (hdigits : ∀ c ∈ s, (digit? base c).isSome = true) :
    Literal u base s := by
  have hmap := map_toAscii u hascii
  have hall : Digits base s := by
    induction s with
    | nil => exact absurd rfl hne
    | cons c cs ih =>
        have hc := hdigits c (List.mem_cons_self ..)
        cases cs with
        | nil => exact .one hc
        | cons c' cs =>
            refine .cons hc (ih (List.cons_ne_nil _ _) ?_ ?_ ?_)
            · exact fun a ha => hascii a (List.mem_cons_of_mem _ ha)
            · exact fun a ha => hdigits a (List.mem_cons_of_mem _ ha)
            · exact (List.cons.inj hmap).2
  refine ⟨[], s, [], nofun, ⟨[], [], s, Or.inl rfl, .none, hall, rfl⟩, nofun, ?_⟩
  rw [hmap, List.append_nil, List.nil_append]

/-! ### Decimal numerals -/

theorem digit?_of_isDigit {c : Char} (h : c.isDigit = true) :
    digit? 10 c = some (c.toNat - 48) := by
  have hbounds : 48 ≤ c.toNat ∧ c.toNat ≤ 57 := Char.isDigit_iff_toNat.mp h
  unfold digit?
  rw [if_pos h, if_pos (by omega)]

theorem scan_of_isDigit {s : List Char} (h : ∀ c ∈ s, c.isDigit = true) (n : Nat) :
    scan 10 n true s = some (Nat.ofDigitChars 10 s n) := by
  induction s generalizing n with
  | nil => rfl
  | cons c s ih =>
      have hc := h c (List.mem_cons_self ..)
      have hne : c ≠ '_' := by
        rintro rfl
        exact absurd hc (by decide)
      rw [scan, if_neg hne, digit?_of_isDigit hc, Nat.ofDigitChars_cons]
      exact ih (fun c' hc' => h c' (List.mem_cons_of_mem _ hc')) _

theorem trim_of_isDigit {s : List Char} (h : ∀ c ∈ s, c.isDigit = true) : trim s = s := by
  have hspace : ∀ c ∈ s, isSpace c = false := by
    intro c hc
    refine not_isSpace_of_isAlphanum ?_
    show (c.isAlpha || c.isDigit) = true
    rw [h c hc, Bool.or_true]
  cases s with
  | nil => rfl
  | cons c cs =>
      have hlast := List.getLast?_eq_some_getLast (List.cons_ne_nil c cs)
      have htrim : trim ([] ++ (c :: cs ++ [])) = c :: cs :=
        trim_append nofun nofun rfl (hspace c (List.mem_cons_self ..)) hlast
          (hspace _ (List.getLast_mem _))
      rwa [List.append_nil, List.nil_append] at htrim

theorem afterName_ten (s : List Char) : afterName 10 s = s := by
  unfold afterName
  split <;> rfl

/-- What `str` writes, `int` reads. -/
theorem parse_toDigits (u : Unicode) (n : Nat) : parse u 10 (Nat.toDigits 10 n) = some (n : Int) := by
  have hdigits : ∀ c ∈ Nat.toDigits 10 n, c.isDigit = true :=
    fun c hc => Nat.isDigit_of_mem_toDigits (by decide) (by decide) hc
  have hascii : (Nat.toDigits 10 n).map u.toAscii = Nat.toDigits 10 n := by
    refine map_toAscii u fun c hc => ?_
    have hle : c.toNat ≤ 57 := (Char.isDigit_iff_toNat.mp (hdigits c hc)).2
    omega
  have hmagnitude : magnitude 10 (Nat.toDigits 10 n) = some n := by
    obtain ⟨c, cs, hcons⟩ := List.exists_cons_of_ne_nil (Nat.toDigits_ne_nil (n := n) (b := 10))
    have hvalue := scan_of_isDigit hdigits 0
    rw [Nat.ofDigitChars_ten_toDigits] at hvalue
    rw [magnitude, afterName_ten]
    rw [hcons] at hvalue ⊢
    have hne : c ≠ '_' := by
      rintro rfl
      exact absurd (hdigits '_' (by rw [hcons]; exact List.mem_cons_self ..)) (by decide)
    rw [scan, if_neg hne] at hvalue ⊢
    exact hvalue
  unfold parse
  rw [hascii, trim_of_isDigit hdigits]
  split
  next cs hcs =>
    exact absurd (hdigits '+' (by rw [hcs]; exact List.mem_cons_self ..)) (by decide)
  next cs hcs =>
    exact absurd (hdigits '-' (by rw [hcs]; exact List.mem_cons_self ..)) (by decide)
  · rw [hmagnitude]
    rfl

end IntLiteral
