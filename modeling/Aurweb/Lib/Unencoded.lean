/-
Texts that are put into a query string as they are.

A parser takes such a text for an encoded one.  What it makes of it is never longer than the
text, and shorter whenever there is an escape in it (`unquote_cases`): each escape has three
characters, and its byte makes at most one.  So the sizes of the names that are read tell
whether any of them was taken for something else (`nameSize_read`).
-/
import Aurweb.Lib.Percent

namespace Percent

/-! ### The size of what is read -/

/-- What an unfinished sequence may still come to. -/
def pending : Option Seq → Nat
  | none => 0
  | some _ => 1

/-- A sequence that goes on with continuation bytes only. -/
def Continues (q : Option Seq) : Prop := ∀ s ∈ q, s.high ≤ 0xBF

theorem start_continues (b : Nat) : Continues (start b).2 := by
  unfold start Seq.rest
  intro s hs
  split_ifs at hs
  all_goals first
    | exact absurd hs (Option.not_mem_none s)
    | obtain rfl := Option.some.inj hs; simp

theorem start_length (b : Nat) : (start b).1.length + pending (start b).2 = 1 := by
  unfold start
  split_ifs <;> rfl

/-- A byte that goes on with nothing ends what is unfinished. -/
theorem feed_fresh {q : Option Seq} {b : Nat} (h : ∀ s ∈ q, ¬ (s.low ≤ b ∧ b ≤ s.high)) :
    feed q b = (flush q ++ (start b).1, (start b).2) := by
  cases q with
  | none => rfl
  | some s => exact if_neg (h s rfl)

theorem feed_continues {q : Option Seq} (b : Nat) : Continues (feed q b).2 := by
  cases q with
  | none => exact start_continues b
  | some s =>
      simp only [feed]
      split_ifs
      · simp [Continues]
      · intro t ht
        obtain rfl := Option.some.inj ht
        exact Nat.le_refl _
      · exact start_continues b

/-- A byte adds a character, or leaves one to be added. -/
theorem feed_length (q : Option Seq) (b : Nat) :
    (feed q b).1.length + pending (feed q b).2 ≤ pending q + 1 := by
  have hstart := start_length b
  cases q with
  | none =>
      show (start b).1.length + pending (start b).2 ≤ 0 + 1
      omega
  | some s =>
      simp only [feed]
      split_ifs
      · exact Nat.le_succ 1
      · exact Nat.le_succ 1
      · show ((start b).1.length + 1) + pending (start b).2 ≤ 1 + 1
        omega

/-- The first byte of a character begins something. -/
theorem utf8EncodeChar_head (c : Char) :
    ∃ b bs, String.utf8EncodeChar c = b :: bs ∧ (b.toNat < 0x80 ∨ 0xBF < b.toNat) := by
  have hval : c.val.toNat = c.toNat := rfl
  unfold String.utf8EncodeChar
  simp only [hval]
  split_ifs
  · exact ⟨_, _, rfl, Or.inl (by simp; omega)⟩
  · exact ⟨_, _, rfl, Or.inr (by simp; omega)⟩
  · exact ⟨_, _, rfl, Or.inr (by simp; omega)⟩
  · exact ⟨_, _, rfl, Or.inr (by simp; omega)⟩

theorem decodeFrom_encodeChar {q : Option Seq} (hq : Continues q) (c : Char) (bs : List UInt8) :
    decodeFrom q (String.utf8EncodeChar c ++ bs) = flush q ++ c :: decode bs := by
  rw [← decode_encodeChar]
  obtain ⟨b, more, hbytes, hfirst⟩ := utf8EncodeChar_head c
  rw [hbytes, List.cons_append, decode, decodeFrom, decodeFrom]
  have hfresh : feed q b.toNat = (flush q ++ (start b.toNat).1, (start b.toNat).2) := by
    apply feed_fresh
    intro s hs hin
    have hhigh := hq s hs
    have hlow := s.above
    omega
  rw [hfresh, List.append_assoc]
  rfl

/-- What is read of a text, less what is still to skip of it, is not longer than it. -/
theorem length_decodeFrom_bytesFrom (s : List Char) : ∀ (k : Nat) (q : Option Seq), k ≤ s.length →
    Continues q → (decodeFrom q (bytesFrom k s)).length + k ≤ pending q + s.length := by
  have hflush : ∀ q : Option Seq, (flush q).length = pending q := by
    intro q
    cases q <;> rfl
  induction s with
  | nil =>
      intro k q hk hq
      obtain rfl : k = 0 := by simpa using hk
      exact Nat.le_of_eq (hflush q)
  | cons c rest ih =>
      intro k q hk hq
      rw [List.length_cons] at hk ⊢
      cases k with
      | succ k =>
          have hrest := ih k q (by omega) hq
          show (decodeFrom q (bytesFrom k rest)).length + (k + 1) ≤ _
          omega
      | zero =>
          cases hesc : escape? c rest with
          | none =>
              have hrest := ih 0 none (Nat.zero_le _) (by simp [Continues])
              have hbytes : bytesFrom 0 (c :: rest) =
                  String.utf8EncodeChar c ++ bytesFrom 0 rest := by
                rw [bytesFrom, hesc]
              rw [hbytes, decodeFrom_encodeChar hq, List.length_append, hflush, List.length_cons]
              show pending q + ((decodeFrom none (bytesFrom 0 rest)).length + 1) + 0 ≤ _
              simp only [pending] at hrest ⊢
              omega
          | some b =>
              have hfeed := feed_length q b.toNat
              have hrest := ih 2 (feed q b.toNat).2 (two_le_of_escape? hesc) (feed_continues _)
              have hbytes : bytesFrom 0 (c :: rest) = b :: bytesFrom 2 rest := by
                rw [bytesFrom, hesc]
              rw [hbytes, decodeFrom, List.length_append]
              omega

/-- There is an escape in the text. -/
def HasEscape (s : List Char) : Prop :=
  ∃ before a b after, s = before ++ '%' :: a :: b :: after ∧
    (hexValue a).isSome = true ∧ (hexValue b).isSome = true

theorem hasEscape_of_escape? {c : Char} {rest : List Char} {b : UInt8}
    (h : escape? c rest = some b) : HasEscape (c :: rest) := by
  unfold escape? at h
  split at h
  · rename_i x y after
    split at h
    · rename_i hc
      cases hx : hexValue x with
      | none => simp [hx] at h
      | some m =>
          cases hy : hexValue y with
          | none => simp [hy] at h
          | some n =>
              exact ⟨[], x, y, after, by rw [hc]; rfl, by rw [hx]; rfl, by rw [hy]; rfl⟩
    · exact nomatch h
  · exact nomatch h

theorem hasEscape_cons {c : Char} {rest : List Char} (h : escape? c rest = none) :
    HasEscape (c :: rest) ↔ HasEscape rest := by
  constructor
  · rintro ⟨before, a, b, after, heq, ha, hb⟩
    cases before with
    | nil =>
        obtain ⟨rfl, rfl⟩ := List.cons.inj heq
        obtain ⟨m, hm⟩ := Option.isSome_iff_exists.mp ha
        obtain ⟨n, hn⟩ := Option.isSome_iff_exists.mp hb
        simp [escape?, hm, hn] at h
    | cons d before =>
        obtain ⟨-, hrest⟩ := List.cons.inj heq
        exact ⟨before, a, b, after, hrest, ha, hb⟩
  · rintro ⟨before, a, b, after, heq, ha, hb⟩
    exact ⟨c :: before, a, b, after, by rw [heq]; rfl, ha, hb⟩

/-- A text is read as it is, or as a shorter one if there is an escape in it. -/
theorem unquote_cases (s : List Char) :
    (¬ HasEscape s ∧ unquote s = s) ∨ (HasEscape s ∧ (unquote s).length < s.length) := by
  induction s with
  | nil =>
      refine Or.inl ⟨?_, rfl⟩
      rintro ⟨before, a, b, after, heq, -⟩
      simp at heq
  | cons c rest ih =>
      cases hesc : escape? c rest with
      | none =>
          have hcons : unquote (c :: rest) = c :: unquote rest := by
            rw [unquote, unquoteToBytes, bytesFrom, hesc]
            exact decode_encodeChar c _
          rw [hcons, List.length_cons, List.length_cons, hasEscape_cons hesc]
          rcases ih with ⟨hnone, ih⟩ | ⟨hsome, ih⟩
          · exact Or.inl ⟨hnone, by rw [ih]⟩
          · exact Or.inr ⟨hsome, by omega⟩
      | some b =>
          have hfeed := feed_length none b.toNat
          have hrest := length_decodeFrom_bytesFrom rest 2 (feed none b.toNat).2
            (two_le_of_escape? hesc) (feed_continues _)
          have hbytes : unquoteToBytes (c :: rest) = b :: bytesFrom 2 rest := by
            rw [unquoteToBytes, bytesFrom, hesc]
          rw [unquote, decode, hbytes, decodeFrom, List.length_append, List.length_cons]
          have hnone : pending none = 0 := rfl
          exact Or.inr ⟨hasEscape_of_escape? hesc, by omega⟩

theorem unquote_eq_self {s : List Char} (h : ¬ HasEscape s) : unquote s = s := by
  rcases unquote_cases s with ⟨-, heq⟩ | ⟨hesc, -⟩
  · exact heq
  · exact absurd hesc h

theorem length_unquote_lt {s : List Char} (h : HasEscape s) : (unquote s).length < s.length := by
  rcases unquote_cases s with ⟨hnone, -⟩ | ⟨-, hlt⟩
  · exact absurd h hnone
  · exact hlt

theorem length_unquote_le (s : List Char) : (unquote s).length ≤ s.length := by
  rcases unquote_cases s with ⟨-, heq⟩ | ⟨-, hlt⟩
  · exact Nat.le_of_eq (congrArg List.length heq)
  · exact Nat.le_of_lt hlt

/-! ### Quoting what is quoted in parts

`quote` with a `safe` that has the percent sign leaves an escape alone.  A parser reads the
result as it would have read the text.
-/

/-- `quote`, which leaves the characters of `safe` alone. -/
def quoteCharWith (safe : List Char) (c : Char) : List Char :=
  if isUnreserved c || safe.contains c then [c] else escapeChar c

def quoteWith (safe s : List Char) : List Char := s.flatMap (quoteCharWith safe)

/-- Some characters are escaped that are no part of an escape. -/
inductive Requoted : List Char → List Char → Prop
  | nil : Requoted [] []
  | keep (c : Char) {s t : List Char} : Requoted s t → Requoted (c :: s) (c :: t)
  | escape {c : Char} {s t : List Char} : c ≠ '%' → hexValue c = none → Requoted s t →
      Requoted (c :: s) (escapeChar c ++ t)

theorem escapeChar_head (c : Char) : ∃ a rest, escapeChar c = '%' :: a :: rest := by
  obtain ⟨b, bs, hbytes, -⟩ := utf8EncodeChar_head c
  rw [escapeChar, hbytes]
  exact ⟨_, _, rfl⟩

/-- No escape begins before one. -/
theorem escape?_percent (c a : Char) (rest : List Char) :
    escape? c ('%' :: rest) = none ∧ escape? c (a :: '%' :: rest) = none := by
  have hpercent : hexValue '%' = none := by decide
  refine ⟨?_, ?_⟩
  · cases rest with
    | nil => rfl
    | cons b rest => simp [escape?, hpercent]
  · cases hexValue a <;> simp [escape?, hpercent]

namespace Requoted

variable {s t : List Char}

/-- An escape is there in both, with the same to follow it. -/
theorem escape?_eq (h : Requoted s t) (c : Char) :
    (escape? c s = none ∧ escape? c t = none) ∨
      ∃ b x y s' t', s = x :: y :: s' ∧ t = x :: y :: t' ∧ Requoted s' t' ∧
        escape? c s = some b ∧ escape? c t = some b := by
  cases h with
  | nil => exact Or.inl ⟨rfl, rfl⟩
  | @escape x s t _ hx h =>
      obtain ⟨a, rest, hesc⟩ := escapeChar_head x
      have hs : escape? c (x :: s) = none := by
        cases s with
        | nil => rfl
        | cons y s => simp [escape?, hx]
      rw [hesc]
      exact Or.inl ⟨hs, (escape?_percent c 'a' _).1⟩
  | @keep x s t h =>
      cases h with
      | nil => exact Or.inl ⟨rfl, rfl⟩
      | @escape y s t _ hy h =>
          obtain ⟨a, rest, hesc⟩ := escapeChar_head y
          have hs : escape? c (x :: y :: s) = none := by
            cases hexValue x <;> simp [escape?, hy]
          rw [hesc]
          exact Or.inl ⟨hs, (escape?_percent c x _).2⟩
      | @keep y s t h =>
          have hsame : escape? c (x :: y :: t) = escape? c (x :: y :: s) := rfl
          cases hs : escape? c (x :: y :: s) with
          | none => exact Or.inl ⟨rfl, hsame.trans hs⟩
          | some b => exact Or.inr ⟨b, x, y, s, t, rfl, rfl, h, rfl, hsame.trans hs⟩

theorem unquoteToBytes_eq (n : Nat) : ∀ {s t : List Char}, s.length ≤ n → Requoted s t →
    unquoteToBytes t = unquoteToBytes s := by
  induction n with
  | zero =>
      intro s t hn h
      obtain rfl := List.length_eq_zero_iff.mp (Nat.le_zero.mp hn)
      cases h
      rfl
  | succ n ih =>
      intro s t hn h
      cases h with
      | nil => rfl
      | @escape c s t hc _ h =>
          rw [unquoteToBytes_cons hc, escapeChar, unquoteToBytes_escapeBytes,
            ih (by simpa using hn) h]
      | @keep c s t h =>
          rcases h.escape?_eq c with ⟨hs, ht⟩ | ⟨b, x, y, s', t', rfl, rfl, h', hs, ht⟩
          · have hrest : bytesFrom 0 t = bytesFrom 0 s := ih (by simpa using hn) h
            rw [unquoteToBytes, unquoteToBytes, bytesFrom, bytesFrom, hs, ht, hrest]
          · have hrest : bytesFrom 0 t' = bytesFrom 0 s' := by
              rw [List.length_cons, List.length_cons, List.length_cons] at hn
              exact ih (by omega) h'
            have hbs : bytesFrom 0 (c :: x :: y :: s') = b :: bytesFrom 0 s' := by
              rw [bytesFrom, hs]
              rfl
            have hbt : bytesFrom 0 (c :: x :: y :: t') = b :: bytesFrom 0 t' := by
              rw [bytesFrom, ht]
              rfl
            rw [unquoteToBytes, unquoteToBytes, hbs, hbt, hrest]

end Requoted

/-- A character that is escaped is no digit of an escape. -/
theorem hexValue_eq_none {c : Char} (h : isUnreserved c = false) : hexValue c = none := by
  have hdigits : hexDigits.all isUnreserved = true := by decide
  unfold hexValue
  rw [List.idxOf?_eq_none_iff]
  intro hmem
  by_cases hlower : 'a'.val ≤ c.val ∧ c.val ≤ 'z'.val
  · have hc : c.isLower = true := by
      show (decide (c.val ≥ 'a'.val) && decide (c.val ≤ 'z'.val)) = true
      rw [decide_eq_true hlower.1, decide_eq_true hlower.2]
      rfl
    have hun : isUnreserved c = true := by
      show ((((c.isUpper || c.isLower) || c.isDigit) || c == '_' || c == '.' || c == '-' ||
        c == '~') : Bool) = true
      rw [hc, Bool.or_true, Bool.true_or, Bool.true_or, Bool.true_or, Bool.true_or, Bool.true_or]
    rw [hun] at h
    exact Bool.false_ne_true h.symm
  · have hsame : c.toUpper = c := dif_neg hlower
    rw [hsame] at hmem
    have hun := List.all_eq_true.mp hdigits c hmem
    rw [h] at hun
    exact Bool.false_ne_true hun

/-- Reading what has been quoted once more comes to reading it as it was. -/
theorem unquote_unplus_quoteWith {safe : List Char} (hpercent : '%' ∈ safe) (hplus : '+' ∈ safe)
    (s : List Char) : unquote (unplus (quoteWith safe s)) = unquote (unplus s) := by
  have h : Requoted (unplus s) (unplus (quoteWith safe s)) := by
    induction s with
    | nil => exact .nil
    | cons c s ih =>
        have hcons : quoteWith safe (c :: s) = quoteCharWith safe c ++ quoteWith safe s := rfl
        rw [hcons, unplus_append]
        unfold quoteCharWith
        split
        · exact .keep _ ih
        · rename_i hc
          rw [Bool.or_eq_true, not_or, Bool.not_eq_true, List.contains_iff_mem] at hc
          have hne : ∀ d ∈ safe, c ≠ d := fun d hd heq => hc.2 (heq ▸ hd)
          have hself : unplus (c :: s) = c :: unplus s := by
            rw [unplus, List.map_cons, if_neg (hne '+' hplus)]
            rfl
          rw [hself, unplus_eq_self (plus_notMem_escapeChar c)]
          exact .escape (hne '%' hpercent) (hexValue_eq_none hc.1) ih
  rw [unquote, unquote, h.unquoteToBytes_eq _ (Nat.le_refl _)]

/-! A text is cut at the same places before and after it is quoted. -/

section

variable {safe : List Char} {d : Char}

theorem forall_quoteCharWith_ne (hd : d ∉ '%' :: hexDigits) {c : Char} (hc : c ≠ d) :
    ∀ x ∈ quoteCharWith safe c, x ≠ d := by
  intro x hx heq
  unfold quoteCharWith at hx
  split at hx
  · exact hc ((List.mem_singleton.mp hx).symm.trans heq)
  · exact not_mem_escapeChar hd c (heq ▸ hx)

theorem quoteWith_cons_self (hsafe : d ∈ safe) (s : List Char) :
    quoteWith safe (d :: s) = d :: quoteWith safe s := by
  have hself : quoteCharWith safe d = [d] := if_pos (by simp [hsafe])
  show quoteCharWith safe d ++ quoteWith safe s = _
  rw [hself]
  rfl

/-- What is left alone is at the front of both, or of neither. -/
theorem prefix_quoteWith_iff {p : List Char}
    (hp : ∀ c ∈ p, c ≠ '%' ∧ quoteCharWith safe c = [c]) (s : List Char) :
    p <+: quoteWith safe s ↔ p <+: s := by
  induction p generalizing s with
  | nil => simp
  | cons a p ih =>
      obtain ⟨ha, hself⟩ := hp a (List.mem_cons_self ..)
      have hrest := ih fun c hc => hp c (List.mem_cons_of_mem a hc)
      cases s with
      | nil => rfl
      | cons c s =>
          by_cases hc : quoteCharWith safe c = [c]
          · show a :: p <+: quoteCharWith safe c ++ quoteWith safe s ↔ _
            rw [hc, List.singleton_append, List.cons_prefix_cons, List.cons_prefix_cons, hrest]
          · have hne : a ≠ c := fun heq => hc (heq ▸ hself)
            obtain ⟨x, rest, hesc⟩ := escapeChar_head c
            have hchar : quoteCharWith safe c = '%' :: x :: rest := by
              unfold quoteCharWith at hc ⊢
              split at hc
              · exact absurd rfl hc
              · rwa [if_neg ‹_›]
            show a :: p <+: quoteCharWith safe c ++ quoteWith safe s ↔ _
            rw [hchar, List.cons_append, List.cons_prefix_cons, List.cons_prefix_cons]
            exact iff_of_false (fun h => ha h.1) (fun h => hne h.1)

theorem takeWhile_quoteWith (hsafe : d ∈ safe) (hd : d ∉ '%' :: hexDigits) (s : List Char) :
    (quoteWith safe s).takeWhile (· ≠ d) = quoteWith safe (s.takeWhile (· ≠ d)) := by
  induction s with
  | nil => rfl
  | cons c s ih =>
      by_cases hc : c = d
      · rw [hc, quoteWith_cons_self hsafe, List.takeWhile_cons_of_neg (by simp),
          List.takeWhile_cons_of_neg (by simp)]
        rfl
      · have hpos : ∀ x ∈ quoteCharWith safe c, decide (x ≠ d) = true := fun x hx =>
          decide_eq_true (forall_quoteCharWith_ne hd hc x hx)
        show (quoteCharWith safe c ++ quoteWith safe s).takeWhile (· ≠ d) = _
        rw [List.takeWhile_append_of_pos hpos, List.takeWhile_cons_of_pos (by simpa using hc), ih]
        rfl

theorem dropWhile_quoteWith (hsafe : d ∈ safe) (hd : d ∉ '%' :: hexDigits) (s : List Char) :
    (quoteWith safe s).dropWhile (· ≠ d) = quoteWith safe (s.dropWhile (· ≠ d)) := by
  induction s with
  | nil => rfl
  | cons c s ih =>
      by_cases hc : c = d
      · rw [hc, quoteWith_cons_self hsafe, List.dropWhile_cons_of_neg (by simp),
          List.dropWhile_cons_of_neg (by simp), quoteWith_cons_self hsafe]
      · have hpos : ∀ x ∈ quoteCharWith safe c, decide (x ≠ d) = true := fun x hx =>
          decide_eq_true (forall_quoteCharWith_ne hd hc x hx)
        show (quoteCharWith safe c ++ quoteWith safe s).dropWhile (· ≠ d) = _
        rw [List.dropWhile_append_of_pos hpos, List.dropWhile_cons_of_pos (by simpa using hc), ih]

/-- What comes after the first one. -/
theorem drop_dropWhile_quoteWith (hsafe : d ∈ safe) (hd : d ∉ '%' :: hexDigits) (s : List Char) :
    ((quoteWith safe s).dropWhile (· ≠ d)).drop 1 =
      quoteWith safe ((s.dropWhile (· ≠ d)).drop 1) := by
  rw [dropWhile_quoteWith hsafe hd]
  cases hrest : s.dropWhile (· ≠ d) with
  | nil => rfl
  | cons c rest =>
      have hc : c = d := by
        have hne : s.dropWhile (fun x => decide (x ≠ d)) ≠ [] := by
          rw [hrest]
          exact List.cons_ne_nil _ _
        have hhead := List.head_dropWhile_not (fun x => decide (x ≠ d)) hne
        simp only [hrest, List.head_cons] at hhead
        simpa using hhead
      rw [hc, quoteWith_cons_self hsafe]
      rfl

/-- What comes before the first delimiter belongs to the first piece. -/
theorem splitOn_append_of_notMem {p : List Char} (h : d ∉ p) (s : List Char) :
    (p ++ s).splitOn d = (s.splitOn d).modifyHead (p ++ ·) := by
  obtain ⟨q, rest, hsplit⟩ := List.exists_cons_of_ne_nil (List.splitOn_ne_nil d s)
  induction p with
  | nil => rw [List.nil_append, hsplit]; rfl
  | cons c p ih =>
      rw [List.mem_cons, not_or] at h
      rw [List.cons_append, List.splitOn_cons_eq_if_modifyHead, if_neg (by simpa using Ne.symm h.1),
        ih h.2, hsplit]
      rfl

theorem splitOn_quoteWith (hsafe : d ∈ safe) (hd : d ∉ '%' :: hexDigits) (s : List Char) :
    (quoteWith safe s).splitOn d = (s.splitOn d).map (quoteWith safe) := by
  induction s with
  | nil => rfl
  | cons c s ih =>
      rw [List.splitOn_cons_eq_if_modifyHead]
      by_cases hc : c = d
      · rw [hc, if_pos (beq_self_eq_true d), quoteWith_cons_self hsafe,
          List.splitOn_cons_eq_if_modifyHead, if_pos (beq_self_eq_true d), ih]
        rfl
      · have hnot : d ∉ quoteCharWith safe c := fun hmem =>
          forall_quoteCharWith_ne hd hc d hmem rfl
        obtain ⟨q, rest, hsplit⟩ := List.exists_cons_of_ne_nil (List.splitOn_ne_nil d s)
        show (quoteCharWith safe c ++ quoteWith safe s).splitOn d = _
        rw [if_neg (by simpa using hc), splitOn_append_of_notMem hnot, ih, hsplit]
        rfl

end

/-- The characters that a query string is read by. -/
structure Transparent (safe : List Char) : Prop where
  percent : '%' ∈ safe
  plus : '+' ∈ safe
  amp : '&' ∈ safe
  eq : '=' ∈ safe

theorem quoteWith_eq_nil_iff {safe s : List Char} : quoteWith safe s = [] ↔ s = [] := by
  constructor
  · intro h
    cases s with
    | nil => rfl
    | cons c s =>
        have hchar : quoteCharWith safe c = [] := (List.append_eq_nil_iff.mp h).1
        unfold quoteCharWith at hchar
        split at hchar
        · exact nomatch hchar
        · obtain ⟨a, rest, hesc⟩ := escapeChar_head c
          rw [hesc] at hchar
          exact nomatch hchar
  · intro h
    rw [h]
    rfl

theorem readField_quoteWith {safe : List Char} (h : Transparent safe) (s : List Char) :
    readField (quoteWith safe s) = readField s := by
  have hpartition : partition (quoteWith safe s) =
      (quoteWith safe (partition s).1, quoteWith safe (partition s).2) := by
    unfold partition
    rw [takeWhile_quoteWith h.eq (by decide), drop_dropWhile_quoteWith h.eq (by decide)]
  rw [readField, hpartition, unquote_unplus_quoteWith h.percent h.plus,
    unquote_unplus_quoteWith h.percent h.plus]
  rfl

theorem parseQsl_quoteWith {safe : List Char} (h : Transparent safe) (s : List Char) :
    parseQsl (quoteWith safe s) = parseQsl s := by
  have hempty : ∀ p : List Char, decide (quoteWith safe p ≠ []) = decide (p ≠ []) := fun p =>
    decide_eq_decide.mpr (not_congr quoteWith_eq_nil_iff)
  unfold parseQsl
  rw [splitOn_quoteWith h.amp (by decide), List.filter_map, List.map_map]
  have hfilter : (fun p => decide (p ≠ [])) ∘ quoteWith safe = fun p => decide (p ≠ []) :=
    funext hempty
  have hread : readField ∘ quoteWith safe = readField := funext fun p => readField_quoteWith h p
  rw [hfilter, hread]

/-! ### Names that are put in as they are -/

/-- A name and an encoded value. -/
def rawField (p : List Char × List Char) : List Char := p.1 ++ '=' :: quotePlus p.2

/-- The fields, joined. -/
def rawQuery (pairs : List (List Char × List Char)) : List Char :=
  ['&'].intercalate (pairs.map rawField)

/-- What there is of an address before its fragment. -/
def beforeFragment (s : List Char) : List Char := s.takeWhile (· ≠ '#')

/-- How much there is of the names. -/
def nameSize (pairs : List (List Char × List Char)) : Nat := (pairs.map (·.1)).flatten.length

/-- A name that is taken for nothing else. -/
structure Plain (name : List Char) : Prop where
  amp : '&' ∉ name
  eq : '=' ∉ name
  plus : '+' ∉ name
  hash : '#' ∉ name
  escape : ¬ HasEscape name

theorem nameSize_append (l l' : List (List Char × List Char)) :
    nameSize (l ++ l') = nameSize l + nameSize l' := by
  simp only [nameSize, List.map_append, List.flatten_append, List.length_append]

theorem nameSize_cons (p : List Char × List Char) (pairs : List (List Char × List Char)) :
    nameSize (p :: pairs) = p.1.length + nameSize pairs := by
  rw [nameSize, List.map_cons, List.flatten_cons, List.length_append]
  rfl

theorem parseQsl_amp (s t : List Char) : parseQsl (s ++ '&' :: t) = parseQsl s ++ parseQsl t := by
  simp only [parseQsl, List.splitOn_append_cons_self, List.filter_append, List.map_append]

theorem length_unplus (s : List Char) : (unplus s).length = s.length := List.length_map _

theorem plus_notMem_unplus (s : List Char) : '+' ∉ unplus s := by
  intro h
  obtain ⟨c, -, hc⟩ := List.mem_map.mp h
  split_ifs at hc with heq
  · exact absurd hc (by decide)
  · exact heq hc

/-- A field is one of the pieces that a name is cut into, and no longer than it. -/
theorem nameSize_parseQsl_le (s : List Char) : nameSize (parseQsl s) ≤ s.length := by
  have hread : ∀ p : List Char, (readField p).1.length ≤ p.length := by
    intro p
    calc (unquote (unplus (p.takeWhile (· ≠ '=')))).length
        ≤ (unplus (p.takeWhile (· ≠ '='))).length := length_unquote_le _
      _ = (p.takeWhile (· ≠ '=')).length := length_unplus _
      _ ≤ p.length := (List.takeWhile_sublist _).length_le
  have hpieces : ∀ ps : List (List Char),
      nameSize ((ps.filter (· ≠ [])).map readField) ≤ ps.flatten.length := by
    intro ps
    induction ps with
    | nil => exact Nat.le_refl _
    | cons p ps ih =>
        have hp := hread p
        rw [List.filter_cons, List.flatten_cons, List.length_append]
        split
        · rw [List.map_cons, nameSize_cons]
          exact Nat.add_le_add hp ih
        · omega
  have hsplit : (s.splitOn '&').flatten.length ≤ s.length := by
    induction s with
    | nil => exact Nat.le_refl _
    | cons c s ih =>
        rw [List.splitOn_cons_eq_if_modifyHead]
        split
        · rw [List.flatten_cons, List.nil_append, List.length_cons]
          omega
        · obtain ⟨q, rest, hq⟩ := List.exists_cons_of_ne_nil (List.splitOn_ne_nil '&' s)
          rw [hq] at ih ⊢
          simp only [List.modifyHead_cons, List.flatten_cons, List.cons_append, List.length_append,
            List.length_cons] at ih ⊢
          omega
  exact Nat.le_trans (hpieces _) hsplit

/-- A single field. -/
theorem parseQsl_field {k w : List Char} (hk : '&' ∉ k) (hw : '&' ∉ w) :
    parseQsl (k ++ '=' :: w) = [readField (k ++ '=' :: w)] := by
  have hnot : '&' ∉ k ++ '=' :: w := by simp [hk, hw]
  rw [parseQsl, List.splitOn_eq_singleton hnot, List.filter_cons_of_pos (by simp)]
  rfl

/-- The name of a field, if nothing is cut off, has its size only if it is read as it is. -/
theorem nameSize_field {w : List Char} (hw : '&' ∉ w) (n : Nat) : ∀ k : List Char, k.length ≤ n →
    nameSize (parseQsl (k ++ '=' :: w)) ≤ k.length ∧
      (nameSize (parseQsl (k ++ '=' :: w)) = k.length →
        '&' ∉ k ∧ '=' ∉ k ∧ ¬ HasEscape (unplus k)) := by
  induction n with
  | zero =>
      intro k hk
      obtain rfl := List.length_eq_zero_iff.mp (Nat.le_zero.mp hk)
      rw [parseQsl_field (by simp) hw]
      refine ⟨Nat.le_refl _, fun _ => ⟨by simp, by simp, ?_⟩⟩
      rintro ⟨before, a, b, after, heq, -⟩
      simp [unplus] at heq
  | succ n ih =>
      intro k hk
      by_cases hamp : '&' ∈ k
      · obtain ⟨a, b, rfl, -⟩ := List.eq_append_cons_of_mem hamp
        rw [List.length_append, List.length_cons] at hk ⊢
        have ha := nameSize_parseQsl_le a
        have hb := (ih b (by omega)).1
        rw [List.append_assoc, List.cons_append, parseQsl_amp, nameSize_append]
        exact ⟨by omega, fun heq => by omega⟩
      · have hsize : nameSize (parseQsl (k ++ '=' :: w)) =
            (unquote (unplus (partition (k ++ '=' :: w)).1)).length := by
          rw [parseQsl_field hamp hw]
          simp [nameSize, readField]
        have hname : ∀ {a : List Char}, '=' ∉ a → ∀ t, (partition (a ++ '=' :: t)).1 = a := by
          intro a ha t
          rw [partition_append ha]
        rw [hsize]
        by_cases heq : '=' ∈ k
        · obtain ⟨a, b, rfl, ha⟩ := List.eq_append_cons_of_mem heq
          have hle := length_unquote_le (unplus a)
          rw [length_unplus] at hle
          rw [List.append_assoc, List.cons_append, hname ha, List.length_append,
            List.length_cons]
          exact ⟨by omega, fun heq => by omega⟩
        · have hle := length_unquote_le (unplus k)
          rw [length_unplus] at hle
          rw [hname heq]
          refine ⟨hle, fun hsame => ⟨hamp, heq, fun hesc => ?_⟩⟩
          have hlt := length_unquote_lt hesc
          rw [length_unplus] at hlt
          omega

/-! The fields of a query, up to a fragment. -/

theorem beforeFragment_append {s : List Char} (h : '#' ∉ s) (t : List Char) :
    beforeFragment (s ++ t) = s ++ beforeFragment t := by
  refine List.takeWhile_append_of_pos fun c hc => decide_eq_true ?_
  intro heq
  exact h (heq ▸ hc)

theorem beforeFragment_hash {s : List Char} (h : '#' ∉ s) (t : List Char) :
    beforeFragment (s ++ '#' :: t) = s := by
  rw [beforeFragment_append h]
  simp [beforeFragment]

theorem amp_notMem_quotePlus (v : List Char) : '&' ∉ quotePlus v := amp_notMem_encode .plus v

theorem hash_notMem_quotePlus (v : List Char) : '#' ∉ quotePlus v :=
  not_mem_encode (by decide) (by decide) .plus v

theorem rawQuery_singleton (p : List Char × List Char) : rawQuery [p] = rawField p := by
  rw [rawQuery, List.map_singleton, List.intercalate_singleton]

theorem rawQuery_cons (p : List Char × List Char) {pairs : List (List Char × List Char)}
    (h : pairs ≠ []) : rawQuery (p :: pairs) = rawField p ++ '&' :: rawQuery pairs := by
  obtain ⟨q, rest, rfl⟩ := List.exists_cons_of_ne_nil h
  rw [rawQuery, List.map_cons, List.map_cons, List.intercalate_cons_cons, List.append_assoc]
  rfl

theorem rawQuery_head (p : List Char × List Char) (pairs : List (List Char × List Char)) :
    ∃ t, rawQuery (p :: pairs) = p.1 ++ t := by
  by_cases hne : pairs = []
  · rw [hne, rawQuery_singleton]
    exact ⟨_, rfl⟩
  · rw [rawQuery_cons p hne, rawField, List.append_assoc]
    exact ⟨_, rfl⟩

/-- A field without a fragment is read apart from the others. -/
theorem parseQsl_rawQuery_cons {p : List Char × List Char} (h : '#' ∉ p.1)
    (pairs : List (List Char × List Char)) :
    parseQsl (beforeFragment (rawQuery (p :: pairs))) =
      parseQsl (rawField p) ++ parseQsl (beforeFragment (rawQuery pairs)) := by
  have hfield : '#' ∉ rawField p := by
    have hvalue := hash_notMem_quotePlus p.2
    simp [rawField, h, hvalue]
  by_cases hne : pairs = []
  · have hself : beforeFragment (rawField p) = rawField p := by
      have happend := beforeFragment_append hfield []
      rwa [List.append_nil, show beforeFragment [] = [] from rfl, List.append_nil] at happend
    rw [hne, rawQuery_singleton, hself]
    exact (List.append_nil _).symm
  · have hamp : beforeFragment ('&' :: rawQuery pairs) = '&' :: beforeFragment (rawQuery pairs) :=
      List.takeWhile_cons_of_pos (by decide)
    rw [rawQuery_cons p hne, beforeFragment_append hfield, hamp, parseQsl_amp]

/-- A name with a fragment in it cuts the query off. -/
theorem nameSize_cut {k : List Char} (h : '#' ∈ k) (t : List Char) :
    nameSize (parseQsl (beforeFragment (k ++ t))) < k.length := by
  obtain ⟨a, b, rfl, ha⟩ := List.eq_append_cons_of_mem h
  have hle := nameSize_parseQsl_le a
  rw [List.append_assoc, List.cons_append, beforeFragment_hash ha, List.length_append,
    List.length_cons]
  omega

/-- What is read of the names, and when that is as much as they are. -/
theorem nameSize_read (pairs : List (List Char × List Char)) :
    nameSize (parseQsl (beforeFragment (rawQuery pairs))) ≤ nameSize pairs ∧
      (nameSize (parseQsl (beforeFragment (rawQuery pairs))) = nameSize pairs →
        ∀ p ∈ pairs, '#' ∉ p.1 ∧ '&' ∉ p.1 ∧ '=' ∉ p.1 ∧ ¬ HasEscape (unplus p.1)) := by
  induction pairs with
  | nil => exact ⟨Nat.le_refl _, fun _ p hp => absurd hp (List.not_mem_nil)⟩
  | cons p pairs ih =>
      obtain ⟨t, ht⟩ := rawQuery_head p pairs
      by_cases hhash : '#' ∈ p.1
      · have hlt := nameSize_cut hhash t
        rw [← ht] at hlt
        rw [nameSize_cons]
        exact ⟨by omega, fun heq => by omega⟩
      · have hone := nameSize_field (amp_notMem_quotePlus p.2) p.1.length p.1 (Nat.le_refl _)
        rw [parseQsl_rawQuery_cons hhash, nameSize_append, nameSize_cons]
        rw [show p.1 ++ '=' :: quotePlus p.2 = rawField p from rfl] at hone
        refine ⟨Nat.add_le_add hone.1 ih.1, fun heq => ?_⟩
        have hp := hone.2 (by omega)
        have hrest := ih.2 (by omega)
        intro q hq
        rcases List.mem_cons.mp hq with rfl | hq
        · exact ⟨hhash, hp⟩
        · exact hrest q hq

/-- Names that nothing is cut off are read as they are, but for their pluses. -/
theorem parseQsl_rawQuery {pairs : List (List Char × List Char)}
    (h : ∀ p ∈ pairs, '#' ∉ p.1 ∧ '&' ∉ p.1 ∧ '=' ∉ p.1 ∧ ¬ HasEscape (unplus p.1)) :
    parseQsl (beforeFragment (rawQuery pairs)) = pairs.map fun p => (unplus p.1, p.2) := by
  induction pairs with
  | nil => rfl
  | cons p pairs ih =>
      obtain ⟨hhash, hamp, heq, hesc⟩ := h p (List.mem_cons_self ..)
      have hrest := ih fun q hq => h q (List.mem_cons_of_mem _ hq)
      have hvalue : unquote (unplus (quotePlus p.2)) = p.2 := unquote_unplus_encode .plus p.2
      rw [parseQsl_rawQuery_cons hhash, hrest, rawField,
        parseQsl_field hamp (amp_notMem_quotePlus p.2), readField, partition_append heq,
        unquote_eq_self hesc, hvalue]
      rfl

/-- The pairs are read as they are if and only if every name is plain. -/
theorem parseQsl_rawQuery_iff (pairs : List (List Char × List Char)) :
    parseQsl (beforeFragment (rawQuery pairs)) = pairs ↔ ∀ p ∈ pairs, Plain p.1 := by
  have hself : ∀ p : List Char × List Char, '+' ∉ p.1 → (unplus p.1, p.2) = p := by
    intro p hp
    rw [unplus_eq_self hp]
  constructor
  · intro hread
    have hcut := (nameSize_read pairs).2 (congrArg nameSize hread)
    rw [parseQsl_rawQuery hcut] at hread
    intro p hp
    obtain ⟨hhash, hamp, heq, hesc⟩ := hcut p hp
    have hmap : pairs.map (fun p => (unplus p.1, p.2)) = pairs.map id := by
      rw [hread, List.map_id]
    have hsame : unplus p.1 = p.1 := congrArg Prod.fst (List.map_inj_left.mp hmap p hp)
    have hplus : '+' ∉ p.1 := by
      rw [← hsame]
      exact plus_notMem_unplus p.1
    rw [hsame] at hesc
    exact ⟨hamp, heq, hplus, hhash, hesc⟩
  · intro hplain
    have hcut : ∀ p ∈ pairs, '#' ∉ p.1 ∧ '&' ∉ p.1 ∧ '=' ∉ p.1 ∧ ¬ HasEscape (unplus p.1) := by
      intro p hp
      have h := hplain p hp
      rw [unplus_eq_self h.plus]
      exact ⟨h.hash, h.amp, h.eq, h.escape⟩
    rw [parseQsl_rawQuery hcut, List.map_congr_left fun p hp => hself p (hplain p hp).plus]
    exact List.map_id' pairs

end Percent
