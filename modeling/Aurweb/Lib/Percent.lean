/-
Percent-encoding, as `urllib.parse` has it.

`quote` writes the bytes of a text's UTF-8, those of most characters as `%XX`; `unquote` reads
the escapes back to bytes and decodes them, with U+FFFD for what is no UTF-8.  The decoder
takes one byte after the other and carries what is left of an unfinished sequence.  An ASCII
character that is no part of an escape ends such a sequence, so `unquote` does one thing before
it and another after it: this is `unquote_append`, and it lets a text be decoded before it
is split as well as after, up to the delimiters that the escapes themselves hide.
-/
import Mathlib.Data.List.Basic
import Mathlib.Data.List.GetD

namespace Percent

/-! ### UTF-8 -/

/-- An unfinished sequence: its value so far, the bytes it still owes, and the least and the
greatest the next of them may be. -/
structure Seq where
  value : Nat
  owed : Nat
  low : Nat
  high : Nat
  /-- No byte of the ASCII range goes on with it. -/
  above : 0x80 ≤ low := by decide
  deriving DecidableEq, Repr

/-- A sequence that goes on with bytes of any value. -/
def Seq.rest (value owed : Nat) : Seq := { value, owed, low := 0x80, high := 0xBF }

def replacement : Char := Char.ofNat 0xFFFD

/-- A byte that begins something. -/
def start (b : Nat) : List Char × Option Seq :=
  if b < 0x80 then ([Char.ofNat b], none)
  else if 0xC2 ≤ b ∧ b ≤ 0xDF then ([], some (Seq.rest (b - 0xC0) 1))
  else if b = 0xE0 then ([], some { value := 0, owed := 2, low := 0xA0, high := 0xBF })
  else if b = 0xED then ([], some { value := 13, owed := 2, low := 0x80, high := 0x9F })
  else if 0xE1 ≤ b ∧ b ≤ 0xEF then ([], some (Seq.rest (b - 0xE0) 2))
  else if b = 0xF0 then ([], some { value := 0, owed := 3, low := 0x90, high := 0xBF })
  else if b = 0xF4 then ([], some { value := 4, owed := 3, low := 0x80, high := 0x8F })
  else if 0xF1 ≤ b ∧ b ≤ 0xF3 then ([], some (Seq.rest (b - 0xF0) 3))
  else ([replacement], none)

/-- What an unfinished sequence comes to when nothing more of it follows. -/
def flush : Option Seq → List Char
  | none => []
  | some _ => [replacement]

/-- The next byte: the characters it completes, and what is unfinished then. -/
def feed (q : Option Seq) (b : Nat) : List Char × Option Seq :=
  match q with
  | none => start b
  | some q =>
      if q.low ≤ b ∧ b ≤ q.high then
        if q.owed = 1 then ([Char.ofNat (q.value * 64 + (b - 0x80))], none)
        else ([], some (Seq.rest (q.value * 64 + (b - 0x80)) (q.owed - 1)))
      else (replacement :: (start b).1, (start b).2)

def decodeFrom (q : Option Seq) : List UInt8 → List Char
  | [] => flush q
  | b :: bs => (feed q b.toNat).1 ++ decodeFrom (feed q b.toNat).2 bs

/-- `bytes.decode("utf-8", "replace")`. -/
def decode (bs : List UInt8) : List Char := decodeFrom none bs

theorem start_ascii {b : Nat} (hb : b < 0x80) : start b = ([Char.ofNat b], none) := if_pos hb

/-- An ASCII byte ends whatever is unfinished. -/
theorem feed_ascii (q : Option Seq) {b : Nat} (hb : b < 0x80) :
    feed q b = (flush q ++ [Char.ofNat b], none) := by
  match q with
  | none => exact start_ascii hb
  | some s =>
      have habove := s.above
      show (if s.low ≤ b ∧ b ≤ s.high then _ else _) = _
      rw [if_neg (by omega), start_ascii hb]
      rfl

theorem decodeFrom_append_ascii {a : UInt8} (ha : a.toNat < 0x80) (cs : List UInt8) :
    ∀ (bs : List UInt8) (q : Option Seq),
      decodeFrom q (bs ++ a :: cs) = decodeFrom q bs ++ Char.ofNat a.toNat :: decode cs := by
  intro bs
  induction bs with
  | nil =>
      intro q
      simp [decodeFrom, feed_ascii q ha, decode]
  | cons b bs ih =>
      intro q
      simp only [List.cons_append, decodeFrom, ih, List.append_assoc]

/-- An ASCII byte is decoded by itself, and so is what is before it and what is after. -/
theorem decode_append_ascii {a : UInt8} (ha : a.toNat < 0x80) (bs cs : List UInt8) :
    decode (bs ++ a :: cs) = decode bs ++ Char.ofNat a.toNat :: decode cs :=
  decodeFrom_append_ascii ha cs bs none

theorem toNat_ofNat_of_lt {n : Nat} (h : n < 256) : (UInt8.ofNat n).toNat = n := by
  simp [Nat.mod_eq_of_lt h]

/-- The first byte of a sequence. -/
theorem decode_lead {b : Nat} {q : Seq} (h : start b = ([], some q)) (hlt : b < 256)
    (bs : List UInt8) : decode (UInt8.ofNat b :: bs) = decodeFrom (some q) bs := by
  rw [decode, decodeFrom, toNat_ofNat_of_lt hlt]
  show (start b).1 ++ decodeFrom (start b).2 bs = _
  rw [h]
  rfl

/-- A byte in the middle of a sequence. -/
theorem decodeFrom_more {q : Seq} {x : Nat} (howed : q.owed ≠ 1) (hx : x < 64)
    (hin : q.low ≤ x + 0x80 ∧ x + 0x80 ≤ q.high) (bs : List UInt8) :
    decodeFrom (some q) (UInt8.ofNat (x + 0x80) :: bs) =
      decodeFrom (some (Seq.rest (q.value * 64 + x) (q.owed - 1))) bs := by
  rw [decodeFrom, toNat_ofNat_of_lt (by omega)]
  simp only [feed, if_pos hin, if_neg howed, Nat.add_sub_cancel, List.nil_append]

/-- The last byte of a sequence. -/
theorem decodeFrom_last {value x : Nat} (hx : x < 64) (bs : List UInt8) :
    decodeFrom (some (Seq.rest value 1)) (UInt8.ofNat (x + 0x80) :: bs) =
      Char.ofNat (value * 64 + x) :: decode bs := by
  have hin : 0x80 ≤ x + 0x80 ∧ x + 0x80 ≤ 0xBF := by omega
  rw [decodeFrom, toNat_ofNat_of_lt (by omega)]
  simp only [feed, Seq.rest, if_pos hin, Nat.add_sub_cancel, if_true, decode]
  rfl

/-- The first byte of a sequence of three. -/
theorem start_three {b : Nat} (h : 0xE0 ≤ b ∧ b ≤ 0xEF) :
    ∃ q : Seq, start b = ([], some q) ∧ q.value = b - 0xE0 ∧ q.owed = 2 ∧
      q.low = (if b = 0xE0 then 0xA0 else 0x80) ∧ q.high = (if b = 0xED then 0x9F else 0xBF) := by
  unfold start
  rw [if_neg (by omega), if_neg (by omega)]
  by_cases hlow : b = 0xE0
  · simp [hlow]
  by_cases hhigh : b = 0xED
  · simp [hhigh]
  rw [if_neg hlow, if_neg hhigh, if_pos (by omega)]
  simp [Seq.rest, hlow, hhigh]

/-- The first byte of a sequence of four. -/
theorem start_four {b : Nat} (h : 0xF0 ≤ b ∧ b ≤ 0xF4) :
    ∃ q : Seq, start b = ([], some q) ∧ q.value = b - 0xF0 ∧ q.owed = 3 ∧
      q.low = (if b = 0xF0 then 0x90 else 0x80) ∧ q.high = (if b = 0xF4 then 0x8F else 0xBF) := by
  unfold start
  rw [if_neg (by omega), if_neg (by omega), if_neg (by omega), if_neg (by omega),
    if_neg (by omega)]
  by_cases hlow : b = 0xF0
  · simp [hlow]
  by_cases hhigh : b = 0xF4
  · simp [hhigh]
  rw [if_neg hlow, if_neg hhigh, if_pos (by omega)]
  simp [Seq.rest, hlow, hhigh]

theorem utf8EncodeChar_ascii {c : Char} (h : c.toNat < 0x80) :
    String.utf8EncodeChar c = [UInt8.ofNat c.toNat] := by
  have hle : c.val.toNat ≤ 0x7f := by
    have : c.val.toNat = c.toNat := rfl
    omega
  simp only [String.utf8EncodeChar, if_pos hle]
  rfl

/-- The bytes of a character are decoded to it. -/
theorem decode_encodeChar (c : Char) (bs : List UInt8) :
    decode (String.utf8EncodeChar c ++ bs) = c :: decode bs := by
  have hvalid : c.toNat < 0xD800 ∨ 0xDFFF < c.toNat ∧ c.toNat < 0x110000 := c.valid
  have hval : c.val.toNat = c.toNat := rfl
  have hback : Char.ofNat c.toNat = c := Char.ofNat_toNat c
  by_cases h1 : c.toNat ≤ 0x7f
  · rw [utf8EncodeChar_ascii (by omega), List.singleton_append, decode, decodeFrom,
      toNat_ofNat_of_lt (by omega)]
    show (start c.toNat).1 ++ decodeFrom (start c.toNat).2 bs = _
    rw [start_ascii (by omega), hback]
    rfl
  unfold String.utf8EncodeChar
  simp only [hval]
  rw [if_neg h1]
  generalize c.toNat = v at hvalid hback h1
  by_cases h2 : v ≤ 0x7ff
  · have hstart : start (v / 64 % 32 + 0xC0) =
        ([], some (Seq.rest (v / 64 % 32 + 0xC0 - 0xC0) 1)) := by
      unfold start
      rw [if_neg (by omega), if_pos (by omega)]
    have hnext : (v / 64 % 32 + 0xC0 - 0xC0) * 64 + v % 64 = v := by omega
    rw [if_pos h2, List.cons_append, decode_lead hstart (by omega), List.cons_append,
      decodeFrom_last (by omega), hnext, hback]
    rfl
  rw [if_neg h2]
  by_cases h3 : v ≤ 0xffff
  · obtain ⟨q, hstart, hvalue, howed, hlow, hhigh⟩ :=
      start_three (b := v / 4096 % 16 + 0xE0) (by omega)
    have hin : q.low ≤ v / 64 % 64 + 0x80 ∧ v / 64 % 64 + 0x80 ≤ q.high := by
      rw [hlow, hhigh]
      split_ifs <;> omega
    have hnext : (q.value * 64 + v / 64 % 64) * 64 + v % 64 = v := by omega
    rw [if_pos h3, List.cons_append, decode_lead hstart (by omega), List.cons_append,
      decodeFrom_more (by omega) (by omega) hin, howed, List.cons_append,
      decodeFrom_last (by omega), hnext, hback]
    rfl
  · obtain ⟨q, hstart, hvalue, howed, hlow, hhigh⟩ :=
      start_four (b := v / 262144 % 8 + 0xF0) (by omega)
    have hin : q.low ≤ v / 4096 % 64 + 0x80 ∧ v / 4096 % 64 + 0x80 ≤ q.high := by
      rw [hlow, hhigh]
      split_ifs <;> omega
    have hrest : 0x80 ≤ v / 64 % 64 + 0x80 ∧ v / 64 % 64 + 0x80 ≤ 0xBF := by omega
    have hnext : ((q.value * 64 + v / 4096 % 64) * 64 + v / 64 % 64) * 64 + v % 64 = v := by
      omega
    rw [if_neg h3, List.cons_append, decode_lead hstart (by omega), List.cons_append,
      decodeFrom_more (by omega) (by omega) hin, howed, List.cons_append,
      decodeFrom_more (by show 2 ≠ 1; omega) (by omega) hrest, List.cons_append]
    show decodeFrom (some (Seq.rest ((q.value * 64 + _) * 64 + _) 1)) _ = _
    rw [decodeFrom_last (by omega), hnext, hback]
    rfl

/-! ### Escapes -/

def hexDigits : List Char :=
  ['0', '1', '2', '3', '4', '5', '6', '7', '8', '9', 'A', 'B', 'C', 'D', 'E', 'F']

def hexDigit (n : Nat) : Char := hexDigits.getD n '0'

def hexValue (c : Char) : Option Nat := hexDigits.idxOf? c.toUpper

/-- `%XX`. -/
def escapeByte (b : UInt8) : List Char :=
  ['%', hexDigit (b.toNat / 16), hexDigit (b.toNat % 16)]

/-- The characters that are never escaped. -/
def isUnreserved (c : Char) : Bool :=
  c.isAlphanum || c == '_' || c == '.' || c == '-' || c == '~'

def escapeChar (c : Char) : List Char := (String.utf8EncodeChar c).flatMap escapeByte

def quoteChar (c : Char) : List Char :=
  if isUnreserved c || c == '/' then [c] else escapeChar c

/-- `quote`. -/
def quote (s : List Char) : List Char := s.flatMap quoteChar

def quotePlusChar (c : Char) : List Char :=
  if c = ' ' then ['+'] else if isUnreserved c then [c] else escapeChar c

/-- `quote_plus`: a blank is a plus. -/
def quotePlus (s : List Char) : List Char := s.flatMap quotePlusChar

/-- The two ways to write a value into a query string. -/
inductive Encoding
  | percent
  | plus
  deriving DecidableEq, Repr

def Encoding.char : Encoding → Char → List Char
  | .percent => quoteChar
  | .plus => quotePlusChar

def Encoding.encode (e : Encoding) (s : List Char) : List Char := s.flatMap e.char

/-- The byte of an escape that begins with this character and goes on with these. -/
def escape? (c : Char) : List Char → Option UInt8
  | a :: b :: _ =>
      if c = '%' then do
        let x ← hexValue a
        let y ← hexValue b
        some (UInt8.ofNat (16 * x + y))
      else none
  | _ => none

/-- `unquote_to_bytes`, with some characters of an escape still to skip. -/
def bytesFrom : Nat → List Char → List UInt8
  | _, [] => []
  | k + 1, _ :: rest => bytesFrom k rest
  | 0, c :: rest =>
      match escape? c rest with
      | some b => b :: bytesFrom 2 rest
      | none => String.utf8EncodeChar c ++ bytesFrom 0 rest

def unquoteToBytes (s : List Char) : List UInt8 := bytesFrom 0 s

/-- `unquote`.  It decodes each run of ASCII characters by itself; what is between the runs is
UTF-8 already, and no unfinished sequence goes on with it. -/
def unquote (s : List Char) : List Char := decode (unquoteToBytes s)

theorem hexValue_hexDigit : ∀ n < 16, hexValue (hexDigit n) = some n := by decide

theorem escape?_escapeByte (b : UInt8) (rest : List Char) :
    escape? '%' (hexDigit (b.toNat / 16) :: hexDigit (b.toNat % 16) :: rest) = some b := by
  have hb : b.toNat < 256 := b.toNat_lt
  have hdigits : 16 * (b.toNat / 16) + b.toNat % 16 = b.toNat := by omega
  simp only [escape?, if_true, hexValue_hexDigit _ (show b.toNat / 16 < 16 by omega),
    hexValue_hexDigit _ (show b.toNat % 16 < 16 by omega), Option.bind_eq_bind, Option.bind_some,
    hdigits, UInt8.ofNat_toNat]

theorem escape?_of_ne {c : Char} (h : c ≠ '%') (rest : List Char) : escape? c rest = none := by
  unfold escape?
  split
  · exact if_neg h
  · rfl

theorem unquoteToBytes_escapeByte (b : UInt8) (rest : List Char) :
    unquoteToBytes (escapeByte b ++ rest) = b :: unquoteToBytes rest := by
  show bytesFrom 0 ('%' :: hexDigit _ :: hexDigit _ :: rest) = _
  rw [bytesFrom, escape?_escapeByte]
  rfl

theorem unquoteToBytes_escapeBytes (bs : List UInt8) (rest : List Char) :
    unquoteToBytes (bs.flatMap escapeByte ++ rest) = bs ++ unquoteToBytes rest := by
  induction bs with
  | nil => rfl
  | cons b bs ih =>
      rw [List.flatMap_cons, List.append_assoc, unquoteToBytes_escapeByte, ih]
      rfl

/-- A character that begins no escape stands for itself. -/
theorem unquoteToBytes_cons {c : Char} (h : c ≠ '%') (rest : List Char) :
    unquoteToBytes (c :: rest) = String.utf8EncodeChar c ++ unquoteToBytes rest := by
  show bytesFrom 0 (c :: rest) = _
  rw [bytesFrom, escape?_of_ne h]
  rfl

theorem unquote_cons {c : Char} (h : c ≠ '%') (rest : List Char) :
    unquote (c :: rest) = c :: unquote rest := by
  rw [unquote, unquoteToBytes_cons h, decode_encodeChar]
  rfl

theorem unquote_escapeChar (c : Char) (rest : List Char) :
    unquote (escapeChar c ++ rest) = c :: unquote rest := by
  rw [unquote, escapeChar, unquoteToBytes_escapeBytes, decode_encodeChar]
  rfl

theorem unquote_literal {l : List Char} (h : '%' ∉ l) (rest : List Char) :
    unquote (l ++ rest) = l ++ unquote rest := by
  induction l with
  | nil => rfl
  | cons c l ih =>
      have hc : c ≠ '%' := fun hc => h (by simp [hc])
      rw [List.cons_append, unquote_cons hc, ih fun hl => h (by simp [hl])]
      rfl

/-- What a text is quoted to, character by character, is read back character by character. -/
theorem unquote_flatMap {enc : Char → List Char} (read : Char → Char)
    (h : ∀ c rest, unquote (enc c ++ rest) = read c :: unquote rest) (s rest : List Char) :
    unquote (s.flatMap enc ++ rest) = s.map read ++ unquote rest := by
  induction s with
  | nil => rfl
  | cons c s ih =>
      rw [List.flatMap_cons, List.append_assoc, h, ih]
      rfl

theorem unquote_quoteChar (c : Char) (rest : List Char) :
    unquote (quoteChar c ++ rest) = c :: unquote rest := by
  unfold quoteChar
  split
  · next h =>
      have hc : c ≠ '%' := by
        intro hc
        rw [hc] at h
        exact absurd h (by decide)
      exact unquote_cons hc rest
  · exact unquote_escapeChar c rest

theorem unquote_quote_append (s rest : List Char) :
    unquote (quote s ++ rest) = s ++ unquote rest := by
  rw [quote, unquote_flatMap id unquote_quoteChar, List.map_id]

theorem unquote_quote (s : List Char) : unquote (quote s) = s := by
  have h := unquote_quote_append s []
  rwa [List.append_nil, show unquote [] = [] from rfl, List.append_nil] at h

/-! ### A character that delimits

An ASCII character that is neither `%` nor a digit of an escape stands for itself wherever it is.
-/

/-- A character that neither begins an escape nor goes on with one, nor a sequence of UTF-8. -/
structure Delimiter (d : Char) : Prop where
  ascii : d.toNat < 0x80
  apart : d ≠ '%'
  noDigit : hexValue d = none

/-- With a delimiter after it a text has the escapes that it has. -/
theorem escape?_append {d : Char} (hd : Delimiter d) (c : Char) (p rest : List Char) :
    escape? c (p ++ d :: rest) = escape? c p := by
  match p with
  | [] =>
      match rest with
      | [] => rfl
      | b :: rest => simp [escape?, hd.noDigit]
  | [a] => cases hexValue a <;> simp [escape?, hd.noDigit]
  | _ :: _ :: _ => rfl

/-- An escape has two digits. -/
theorem two_le_of_escape? {c : Char} {p : List Char} {b : UInt8} (h : escape? c p = some b) :
    2 ≤ p.length := by
  match p with
  | [] => simp [escape?] at h
  | [_] => simp [escape?] at h
  | _ :: _ :: _ => simp

theorem bytesFrom_append {d : Char} (hd : Delimiter d) (rest : List Char) :
    ∀ (p : List Char) (k : Nat), k ≤ p.length →
      bytesFrom k (p ++ d :: rest) =
        bytesFrom k p ++ UInt8.ofNat d.toNat :: unquoteToBytes rest := by
  intro p
  induction p with
  | nil =>
      intro k hk
      have hk0 : k = 0 := by simpa using hk
      subst hk0
      show unquoteToBytes (d :: rest) = _
      rw [unquoteToBytes_cons hd.apart, utf8EncodeChar_ascii hd.ascii]
      rfl
  | cons c p ih =>
      intro k hk
      match k with
      | k + 1 =>
          show bytesFrom k (p ++ d :: rest) = bytesFrom k p ++ _
          exact ih k (by simpa using hk)
      | 0 =>
          simp only [List.cons_append, bytesFrom, escape?_append hd]
          cases hesc : escape? c p with
          | none =>
              show String.utf8EncodeChar c ++ bytesFrom 0 (p ++ d :: rest) =
                String.utf8EncodeChar c ++ bytesFrom 0 p ++ _
              rw [ih 0 (by omega), List.append_assoc]
          | some b =>
              show b :: bytesFrom 2 (p ++ d :: rest) = b :: bytesFrom 2 p ++ _
              rw [ih 2 (two_le_of_escape? hesc), List.cons_append]

/-- A delimiter is unquoted by itself, and so is what is before it and what is after. -/
theorem unquote_append {d : Char} (hd : Delimiter d) (p rest : List Char) :
    unquote (p ++ d :: rest) = unquote p ++ d :: unquote rest := by
  have hbyte : (UInt8.ofNat d.toNat).toNat = d.toNat :=
    toNat_ofNat_of_lt (by have := hd.ascii; omega)
  rw [unquote, unquoteToBytes, bytesFrom_append hd rest p 0 (by omega), decode_append_ascii
    (by rw [hbyte]; exact hd.ascii), hbyte, Char.ofNat_toNat]
  rfl

theorem delimiter_amp : Delimiter '&' := ⟨by decide, by decide, by decide⟩

/-- What is joined with a delimiter is unquoted piece by piece. -/
theorem unquote_intercalate {d : Char} (hd : Delimiter d) (pieces : List (List Char)) :
    unquote ([d].intercalate pieces) = [d].intercalate (pieces.map unquote) := by
  induction pieces with
  | nil => rfl
  | cons p pieces ih =>
      match pieces with
      | [] => simp only [List.map_cons, List.map_nil, List.intercalate_singleton]
      | q :: pieces =>
          rw [List.map_cons, List.map_cons, List.intercalate_cons_cons,
            List.intercalate_cons_cons, List.append_assoc, List.append_assoc,
            List.singleton_append, unquote_append hd, ih]
          rfl

/-! ### Query strings -/

/-- No piece has what the text is split at. -/
theorem forall_of_mem_splitOnP {α : Type*} {split : α → Bool} {l piece : List α}
    (h : piece ∈ l.splitOnP split) : ∀ c ∈ piece, split c = false := by
  induction l generalizing piece with
  | nil =>
      rw [List.splitOnP_nil, List.mem_singleton] at h
      simp [h]
  | cons a l ih =>
      rw [List.splitOnP_cons_eq_if_modifyHead] at h
      by_cases ha : split a = true
      · rw [if_pos ha] at h
        rcases List.mem_cons.mp h with rfl | h
        · simp
        · exact ih h
      · rw [if_neg ha] at h
        obtain ⟨q, rest, hsplit⟩ := List.exists_cons_of_ne_nil (List.splitOnP_ne_nil split l)
        rw [hsplit] at h ih
        rcases List.mem_cons.mp h with rfl | h
        · intro c hc
          rcases List.mem_cons.mp hc with rfl | hc
          · exact eq_false_of_ne_true ha
          · exact ih (List.mem_cons_self ..) c hc
        · exact ih (List.mem_cons_of_mem _ h)

/-- `replace("+", " ")`. -/
def unplus (s : List Char) : List Char := s.map fun c => if c = '+' then ' ' else c

/-- `partition("=")`, less the separator. -/
def partition (s : List Char) : List Char × List Char :=
  (s.takeWhile (· ≠ '='), (s.dropWhile (· ≠ '=')).drop 1)

def readField (s : List Char) : List Char × List Char :=
  (unquote (unplus (partition s).1), unquote (unplus (partition s).2))

/-- `parse_qsl`, which keeps blank values. -/
def parseQsl (query : List Char) : List (List Char × List Char) :=
  ((query.splitOn '&').filter (· ≠ [])).map readField

/-- What a mapping of the pairs has under the key: the last value. -/
def lookupLast (key : List Char) (pairs : List (List Char × List Char)) : Option (List Char) :=
  (pairs.filter (·.1 = key)).getLast?.map (·.2)

theorem hexDigit_mem {n : Nat} (h : n < 16) : hexDigit n ∈ hexDigits := by
  have hlen : n < hexDigits.length := h
  rw [hexDigit, List.getD_eq_getElem _ _ hlen]
  exact List.getElem_mem hlen

theorem not_mem_escapeChar {d : Char} (hd : d ∉ '%' :: hexDigits) (c : Char) :
    d ∉ escapeChar c := by
  intro h
  obtain ⟨b, -, hb⟩ := List.mem_flatMap.mp h
  have hlt : b.toNat < 256 := b.toNat_lt
  have hhigh := hexDigit_mem (show b.toNat / 16 < 16 by omega)
  have hlow := hexDigit_mem (show b.toNat % 16 < 16 by omega)
  simp only [escapeByte, List.mem_cons, List.not_mem_nil, or_false] at hb
  rcases hb with rfl | rfl | rfl
  · exact hd (List.mem_cons_self ..)
  · exact hd (List.mem_cons_of_mem _ hhigh)
  · exact hd (List.mem_cons_of_mem _ hlow)

/-- A character that is escaped occurs in nothing that is encoded. -/
theorem not_mem_encode {d : Char} (hd : d ∉ '%' :: '+' :: '/' :: hexDigits)
    (hreserved : isUnreserved d = false) (e : Encoding) (s : List Char) : d ∉ e.encode s := by
  intro h
  obtain ⟨c, -, hc⟩ := List.mem_flatMap.mp h
  have hesc : d ∉ escapeChar c := by
    apply not_mem_escapeChar
    intro hmem
    apply hd
    rcases List.mem_cons.mp hmem with rfl | hmem
    · exact List.mem_cons_self ..
    · simp [hmem]
  have hself : ∀ {c}, d ∈ [c] → isUnreserved c = true → False := by
    intro c hmem hun
    rw [← List.mem_singleton.mp hmem, hreserved] at hun
    exact Bool.false_ne_true hun
  match e with
  | .percent =>
      change d ∈ quoteChar c at hc
      unfold quoteChar at hc
      split_ifs at hc with hun
      · rcases Bool.or_eq_true_iff.mp hun with hun | hun
        · exact hself hc hun
        · exact hd (by simp [List.mem_singleton.mp hc, eq_of_beq hun])
      · exact hesc hc
  | .plus =>
      change d ∈ quotePlusChar c at hc
      unfold quotePlusChar at hc
      split_ifs at hc with hblank hun
      · exact hd (by simp [List.mem_singleton.mp hc])
      · exact hself hc hun
      · exact hesc hc

theorem amp_notMem_encode (e : Encoding) (s : List Char) : '&' ∉ e.encode s :=
  not_mem_encode (by decide) (by decide) e s

/-- What `unquote` makes of a value in the query string: it leaves a plus alone. -/
def Encoding.kept : Encoding → Char → Char
  | .percent, c => c
  | .plus, c => if c = ' ' then '+' else c

theorem isUnreserved_ne {c d : Char} (h : isUnreserved c = true) (hd : isUnreserved d = false) :
    c ≠ d := by
  intro hc
  rw [hc, hd] at h
  exact Bool.false_ne_true h

theorem unquote_quotePlusChar (c : Char) (rest : List Char) :
    unquote (quotePlusChar c ++ rest) = Encoding.plus.kept c :: unquote rest := by
  show unquote (quotePlusChar c ++ rest) = (if c = ' ' then '+' else c) :: unquote rest
  unfold quotePlusChar
  by_cases hblank : c = ' '
  · rw [if_pos hblank, if_pos hblank]
    exact unquote_cons (by decide) rest
  rw [if_neg hblank, if_neg hblank]
  by_cases hun : isUnreserved c = true
  · rw [if_pos hun]
    exact unquote_cons (isUnreserved_ne hun (by decide)) rest
  · rw [if_neg hun]
    exact unquote_escapeChar c rest

theorem unquote_char (e : Encoding) (c : Char) (rest : List Char) :
    unquote (e.char c ++ rest) = e.kept c :: unquote rest := by
  match e with
  | .percent => exact unquote_quoteChar c rest
  | .plus => exact unquote_quotePlusChar c rest

/-- A value as `unquote` reads it. -/
theorem unquote_encode (e : Encoding) (s rest : List Char) :
    unquote (e.encode s ++ rest) = s.map e.kept ++ unquote rest :=
  unquote_flatMap e.kept (unquote_char e) s rest

theorem unplus_eq_self {s : List Char} (h : '+' ∉ s) : unplus s = s := by
  have hsame : ∀ c ∈ s, (if c = '+' then ' ' else c) = id c := by
    intro c hc
    have hne : c ≠ '+' := by
      intro heq
      exact h (heq ▸ hc)
    exact if_neg hne
  rw [unplus, List.map_congr_left hsame, List.map_id]

theorem unplus_append (s t : List Char) : unplus (s ++ t) = unplus s ++ unplus t :=
  List.map_append

theorem plus_notMem_escapeChar (c : Char) : '+' ∉ escapeChar c := not_mem_escapeChar (by decide) c

/-- A character as the parser of the framework reads it, whichever way it is encoded. -/
theorem unquote_unplus_char (e : Encoding) (c : Char) (rest : List Char) :
    unquote (unplus (e.char c) ++ rest) = c :: unquote rest := by
  match e with
  | .percent =>
      have hplus : '+' ∉ quoteChar c := by
        unfold quoteChar
        split
        · next h =>
            intro hmem
            rw [← List.mem_singleton.mp hmem] at h
            exact absurd h (by decide)
        · exact plus_notMem_escapeChar c
      show unquote (unplus (quoteChar c) ++ rest) = _
      rw [unplus_eq_self hplus, unquote_quoteChar]
  | .plus =>
      show unquote (unplus (quotePlusChar c) ++ rest) = _
      unfold quotePlusChar
      by_cases hblank : c = ' '
      · rw [if_pos hblank, hblank]
        exact unquote_cons (by decide) rest
      rw [if_neg hblank]
      by_cases hun : isUnreserved c = true
      · have hplus : '+' ∉ [c] := by
          rw [List.mem_singleton]
          exact (isUnreserved_ne hun (by decide)).symm
        rw [if_pos hun, unplus_eq_self hplus]
        exact unquote_cons (isUnreserved_ne hun (by decide)) rest
      · rw [if_neg hun, unplus_eq_self (plus_notMem_escapeChar c), unquote_escapeChar]

/-- A value as the parser of the framework reads it. -/
theorem unquote_unplus_encode (e : Encoding) (s : List Char) :
    unquote (unplus (e.encode s)) = s := by
  induction s with
  | nil => rfl
  | cons c s ih =>
      show unquote (unplus (e.char c ++ e.encode s)) = _
      rw [unplus_append, unquote_unplus_char, ih]

theorem partition_append {k : List Char} (hk : '=' ∉ k) (v : List Char) :
    partition (k ++ '=' :: v) = (k, v) := by
  have hall : ∀ c ∈ k, decide (c ≠ '=') = true := by
    intro c hc
    exact decide_eq_true fun heq => hk (heq ▸ hc)
  rw [partition, List.takeWhile_append_of_pos hall, List.dropWhile_append_of_pos hall]
  simp

end Percent
