/-
Which parameters survive the redirect of an `id`.

The other keys are written as they are, one value of each.  Read back, their texts are no longer
than they were, and shorter where one of them is taken for something else, while a key that was
repeated is missing: so the parameters are the same only if nothing of that kind happens.  An `id`
with a `?` or a `#` in it changes where the query string begins or ends.
-/
import Aurweb.IdRedirect
import Mathlib.Data.List.Flatten

namespace Aurweb.IdRedirect

open Percent

/-- The other parameters. -/
def others (queryParams : Params) : Params := queryParams.filter fun p => p.1 ≠ idKey

/-- The redirect carries exactly the other parameters. -/
def Preserves (path : UrlPath) (queryParams : Params) : Prop :=
  ∃ location, idRedirectMiddleware path queryParams = some location ∧
    requestParams location = others queryParams

/-- `"?" + "&".join(qs)`, or nothing. -/
def rebuilt (rest : Params) : List Char :=
  if rest.isEmpty then [] else '?' :: rawQuery (Dict.ofPairs rest)

/-! ### The redirect -/

theorem redirectSafe_transparent : Transparent redirectSafe where
  percent := by decide
  plus := by decide
  amp := by decide
  eq := by decide

/-- The parameters are read as if the address had not been quoted. -/
theorem requestParams_redirectResponse (url : List Char) :
    requestParams (redirectResponse url) = requestParams url := by
  have hquery : queryString (redirectResponse url) = redirectResponse (queryString url) := by
    unfold queryString beforeFragment redirectResponse
    rw [takeWhile_quoteWith (by decide) (by decide),
      drop_dropWhile_quoteWith (by decide) (by decide)]
  rw [requestParams, hquery, redirectResponse, parseQsl_quoteWith redirectSafe_transparent]
  rfl

/-- What is before the `id` has no part in the query string. -/
theorem queryString_append {base : List Char} (hq : '?' ∉ base) (hh : '#' ∉ base)
    (rest : List Char) : queryString (base ++ rest) = queryString rest := by
  have hpos : ∀ c ∈ base, decide (c ≠ '?') = true := fun c hc =>
    decide_eq_true fun heq => hq (heq ▸ hc)
  unfold queryString
  rw [beforeFragment_append hh, List.dropWhile_append_of_pos hpos]

theorem ofPairs_isEmpty (rest : Params) : (Dict.ofPairs rest).isEmpty = rest.isEmpty := by
  cases rest with
  | nil => rfl
  | cons p rest =>
      have hmem : p.1 ∈ (Dict.ofPairs (p :: rest)).map (·.1) := Dict.mem_keys_ofPairs.mpr (by simp)
      cases hitems : Dict.ofPairs (p :: rest) with
      | nil =>
          rw [hitems] at hmem
          exact nomatch hmem
      | cons q items => rfl

theorem middleware_eq {path : UrlPath} {queryParams : Params} {id : List Char}
    (hid : Dict.ofList (Dict.ofPairs queryParams) idKey = some id) :
    idRedirectMiddleware path queryParams =
      some (redirectResponse (rstrip path.path ++ '/' :: (id ++ rebuilt (others queryParams)))) := by
  have hfilter : (Dict.ofPairs queryParams).filter (fun p => p.1 ≠ idKey) =
      Dict.ofPairs (others queryParams) := Dict.filter_ofPairs (fun k => decide (k ≠ idKey)) _
  unfold idRedirectMiddleware
  rw [hid]
  simp only [hfilter, List.isEmpty_map, ofPairs_isEmpty]
  rfl

/-- The redirect carries the parameters if the text from the `id` on does. -/
theorem preserves_iff {path : UrlPath} {queryParams : Params} {id : List Char}
    (hid : Dict.ofList (Dict.ofPairs queryParams) idKey = some id) :
    Preserves path queryParams ↔
      requestParams (id ++ rebuilt (others queryParams)) = others queryParams := by
  have hstrip : ∀ c, c ∈ rstrip path.path → c ∈ path.path := by
    intro c hc
    rw [rstrip, List.mem_reverse] at hc
    exact List.mem_reverse.mp ((List.dropWhile_sublist _).mem hc)
  have hbase : ∀ d, d ∉ path.path → d ≠ '/' → d ∉ rstrip path.path ++ ['/'] := by
    intro d hd hslash hmem
    rcases List.mem_append.mp hmem with h | h
    · exact hd (hstrip d h)
    · exact hslash (List.mem_singleton.mp h)
  have hquery : requestParams (rstrip path.path ++ '/' :: (id ++ rebuilt (others queryParams))) =
      requestParams (id ++ rebuilt (others queryParams)) := by
    rw [requestParams, ← List.singleton_append, ← List.append_assoc, queryString_append
      (hbase '?' path.question (by decide)) (hbase '#' path.hash (by decide))]
    rfl
  unfold Preserves
  rw [middleware_eq hid]
  simp only [Option.some.injEq, exists_eq_left', requestParams_redirectResponse, hquery]

/-! ### The other parameters -/

/-- Nothing is lost of other parameters if no key is repeated and each is plain. -/
theorem read_items_iff (rest : Params) :
    parseQsl (beforeFragment (rawQuery (Dict.ofPairs rest))) = rest ↔
      (rest.map (·.1)).Nodup ∧ ∀ p ∈ rest, Plain p.1 := by
  obtain ⟨hnodup, hsub⟩ := Dict.keys_ofPairs rest
  constructor
  · intro hread
    have hle : nameSize (Dict.ofPairs rest) ≤ nameSize rest := hsub.flatten.length_le
    obtain ⟨hcut, hsame⟩ := nameSize_read (Dict.ofPairs rest)
    rw [hread] at hcut hsame
    have hitems := parseQsl_rawQuery (hsame (Nat.le_antisymm hcut hle))
    rw [hread] at hitems
    have hlength : (rest.map (·.1)).length = ((Dict.ofPairs rest).map (·.1)).length := by
      have hlen := congrArg List.length hitems
      simpa using hlen
    have hkeys : (Dict.ofPairs rest).map (·.1) = rest.map (·.1) := hsub.eq_of_length hlength.symm
    rw [hkeys] at hnodup
    rw [Dict.ofPairs_of_nodup hnodup, parseQsl_rawQuery_iff] at hread
    exact ⟨hnodup, hread⟩
  · rintro ⟨hdistinct, hplain⟩
    rw [Dict.ofPairs_of_nodup hdistinct]
    exact (parseQsl_rawQuery_iff rest).mpr hplain

/-- An `id` that delimits nothing is followed by the query string. -/
theorem requestParams_id {id : List Char} (hq : '?' ∉ id) (hh : '#' ∉ id) (rest : Params) :
    requestParams (id ++ rebuilt rest) =
      parseQsl (beforeFragment (rawQuery (Dict.ofPairs rest))) := by
  rw [requestParams, queryString_append hq hh]
  unfold rebuilt
  cases rest with
  | nil => rfl
  | cons p rest =>
      have hquestion : beforeFragment ('?' :: rawQuery (Dict.ofPairs (p :: rest))) =
          '?' :: beforeFragment (rawQuery (Dict.ofPairs (p :: rest))) :=
        List.takeWhile_cons_of_pos (by decide)
      simp only [List.isEmpty_cons, Bool.false_eq_true, if_false]
      unfold queryString
      rw [hquestion, List.dropWhile_cons_of_neg (by decide)]
      rfl

/-- An `id` with a fragment has all of the query string. -/
theorem requestParams_hash {id : List Char} (h : '#' ∈ id) (qs : List Char) :
    requestParams (id ++ qs) = requestParams id := by
  obtain ⟨a, b, rfl, ha⟩ := List.eq_append_cons_of_mem h
  unfold requestParams queryString
  rw [List.append_assoc, List.cons_append, beforeFragment_hash ha, beforeFragment_hash ha]

/-- When other parameters survive next to an `id`. -/
inductive Survives (id : List Char) (rest : Params) : Prop
  /-- The `id` delimits nothing, no key is repeated and each is plain. -/
  | whole : '?' ∉ id → '#' ∉ id → (rest.map (·.1)).Nodup → (∀ p ∈ rest, Plain p.1) →
      Survives id rest
  /-- All that is read is in the `id`, before its fragment, and spells the parameters. -/
  | spelled : '#' ∈ id → requestParams id = rest → Survives id rest
  /-- The query string begins in the `id`, and happens to be read as the parameters. -/
  | begun : '#' ∉ id → '?' ∈ id → requestParams (id ++ rebuilt rest) = rest → Survives id rest

/-- Exactly the other parameters are carried if and only if they survive. -/
theorem preserves_iff_survives (path : UrlPath) (queryParams : Params) (id : List Char)
    (hid : Dict.ofList (Dict.ofPairs queryParams) idKey = some id) :
    Preserves path queryParams ↔ Survives id (others queryParams) := by
  rw [preserves_iff hid]
  by_cases hh : '#' ∈ id
  · rw [requestParams_hash hh]
    constructor
    · exact Survives.spelled hh
    · intro h
      cases h with
      | whole _ hnot => exact absurd hh hnot
      | spelled _ hread => exact hread
      | begun hnot => exact absurd hh hnot
  by_cases hq : '?' ∈ id
  · constructor
    · exact Survives.begun hh hq
    · intro h
      cases h with
      | whole hnot => exact absurd hq hnot
      | spelled hhash => exact absurd hhash hh
      | begun _ _ hread => exact hread
  · rw [requestParams_id hq hh, read_items_iff]
    constructor
    · rintro ⟨hdistinct, hplain⟩
      exact Survives.whole hq hh hdistinct hplain
    · intro h
      cases h with
      | whole _ _ hdistinct hplain => exact ⟨hdistinct, hplain⟩
      | spelled hhash => exact absurd hhash hh
      | begun _ hquestion => exact absurd hquestion hq

/-- `/packages/`. -/
def packagesPath : UrlPath where
  path := ['/', 'p', 'a', 'c', 'k', 'a', 'g', 'e', 's', '/']
  question := by decide
  hash := by decide

/-- `?id=7&by=x+y&by=`. -/
def searchParams : Params :=
  [(idKey, ['7']), (['b', 'y'], ['x', ' ', 'y']), (['b', 'y'], [])]

theorem preserves_iff_search :
    Preserves packagesPath [(idKey, ['7']), (['b', 'y'], ['x', ' ', 'y'])] ↔
      Survives ['7'] [(['b', 'y'], ['x', ' ', 'y'])] :=
  preserves_iff_survives packagesPath [(idKey, ['7']), (['b', 'y'], ['x', ' ', 'y'])] ['7']
    (by decide)

/-- Of a key that is there twice, one value is lost. -/
theorem not_preserves_repeated :
    idRedirectMiddleware packagesPath searchParams =
        some ['/', 'p', 'a', 'c', 'k', 'a', 'g', 'e', 's', '/', '7', '?', 'b', 'y', '='] ∧
      ¬ Preserves packagesPath searchParams := by
  have hlocation : idRedirectMiddleware packagesPath searchParams =
      some ['/', 'p', 'a', 'c', 'k', 'a', 'g', 'e', 's', '/', '7', '?', 'b', 'y', '='] := by
    decide
  refine ⟨hlocation, ?_⟩
  rintro ⟨location, hsome, hread⟩
  rw [hlocation] at hsome
  obtain rfl := Option.some.inj hsome
  revert hread
  decide

end Aurweb.IdRedirect
