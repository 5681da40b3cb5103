/-
What `parse_args` makes of a query string with an `arg[]` for each of some strings.

A delimiter that is escaped is one once the query string has been unquoted, so a string with an
`&` comes back cut off there: no argument that `parse_args` returns has one.  The strings without
come back in reverse, followed by what the backward scan meets before them, which is nothing
when the last argument there is an `arg` or there is none.
-/
import Aurweb.ParseArgs

namespace Aurweb.Rpc

open Percent

theorem splitOn_intercalate_flatMap {α : Type*} [BEq α] [LawfulBEq α] (d : α)
    {ls : List (List α)} (hne : ls ≠ []) :
    ([d].intercalate ls).splitOn d = ls.flatMap fun l => l.splitOn d := by
  induction ls with
  | nil => exact absurd rfl hne
  | cons l ls ih =>
      match ls with
      | [] => simp
      | m :: ls =>
          rw [List.intercalate_cons_cons, List.append_assoc, List.singleton_append,
            List.splitOn_append_cons_self, ih (by simp)]
          rfl

/-- No piece of a text has what the text is split at. -/
theorem not_mem_of_mem_splitOn {α : Type*} [BEq α] [LawfulBEq α] {d : α} {l p : List α}
    (h : p ∈ l.splitOn d) : d ∉ p := by
  intro hmem
  have hne : (d == d) = false := forall_of_mem_splitOnP h d hmem
  rw [beq_self_eq_true] at hne
  exact Bool.false_ne_true hne.symm

/-- The pieces of the query string once it is unquoted. -/
def pieces (raws : List (List Char)) : List (List Char) :=
  raws.flatMap fun raw => (unquote raw).splitOn '&'

theorem splitOn_unquote {raws : List (List Char)} (hne : raws ≠ []) :
    (unquote (['&'].intercalate raws)).splitOn '&' = pieces raws := by
  rw [unquote_intercalate delimiter_amp, splitOn_intercalate_flatMap '&' (by simpa using hne),
    List.flatMap_map]
  rfl

/-- The last argument among the pieces, if there is one, is an `arg`. -/
def Quiet (pieces : List (List Char)) : Prop :=
  ∀ p, pieces.reverse.find? isPart = some p → argEq.isPrefixOf p = true

/-! ### The two kinds of arguments -/

theorem partition_argEq (v : List Char) : partition (argEq ++ v) = (['a', 'r', 'g'], v) :=
  partition_append (show '=' ∉ ['a', 'r', 'g'] by decide) v

theorem partition_argsEq (v : List Char) :
    partition (argsEq ++ v) = (['a', 'r', 'g', '[', ']'], v) :=
  partition_append (show '=' ∉ ['a', 'r', 'g', '[', ']'] by decide) v

theorem isPart_argEq (v : List Char) : isPart (argEq ++ v) = true := by
  rw [isPart, List.isPrefixOf_iff_prefix.mpr (List.prefix_append ..), Bool.true_or]

theorem isPart_argsEq (v : List Char) : isPart (argsEq ++ v) = true := by
  rw [isPart, List.isPrefixOf_iff_prefix.mpr (List.prefix_append argsEq v), Bool.or_true]

/-- An argument is an `arg` or an `arg[]`. -/
theorem exists_of_isPart {p : List Char} (h : isPart p = true) :
    (∃ v, p = argEq ++ v) ∨ ∃ v, p = argsEq ++ v := by
  rcases Bool.or_eq_true_iff.mp h with h | h
  · obtain ⟨v, hv⟩ := List.isPrefixOf_iff_prefix.mp h
    exact .inl ⟨v, hv.symm⟩
  · obtain ⟨v, hv⟩ := List.isPrefixOf_iff_prefix.mp h
    exact .inr ⟨v, hv.symm⟩

/-- What the backward scan takes of the pieces after an `arg[]`. -/
def scanned (pieces : List (List Char)) : List String :=
  (((pieces.reverse.filter isPart).map partition).takeWhile
    (·.1 = ['a', 'r', 'g', '[', ']'])).map fun part => String.ofList part.2

theorem scanned_eq_nil_iff (pieces : List (List Char)) : scanned pieces = [] ↔ Quiet pieces := by
  unfold scanned Quiet
  rw [List.map_eq_nil_iff, ← List.head?_filter]
  cases hparts : pieces.reverse.filter isPart with
  | nil => simp
  | cons p rest =>
      have hp : isPart p = true := (List.mem_filter.mp (hparts ▸ List.mem_cons_self ..)).2
      simp only [List.map_cons, List.head?_cons, Option.some.injEq, forall_eq']
      rcases exists_of_isPart hp with ⟨v, rfl⟩ | ⟨v, rfl⟩
      · rw [partition_argEq, List.takeWhile_cons_of_neg (by simp)]
        simp [argEq]
      · rw [partition_argsEq, List.takeWhile_cons_of_pos (by simp)]
        simp [argsEq, argEq]

/-- After an `arg[]` the scan goes back until it meets something else. -/
theorem parseArgs_of_args {query value : List Char} {rest : List (List Char × List Char)}
    (h : parts query = (['a', 'r', 'g', '[', ']'], value) :: rest) :
    parseArgs query =
      ((parts query).takeWhile (·.1 = ['a', 'r', 'g', '[', ']'])).map
        fun part => String.ofList part.2 := by
  rw [parseArgs, h]
  exact if_neg (by decide)

/-! ### The whole query string -/

variable {preceding : List Other} {strings : List String}

theorem rawPieces (preceding : List Other) (strings : List String) :
    pieces (preceding.map (·.raw) ++ strings.map fun s => argsEq ++ quote s.toList) =
      pieces (preceding.map (·.raw)) ++
        strings.flatMap fun s => (argsEq ++ s.toList).splitOn '&' := by
  unfold pieces
  rw [List.flatMap_append, List.flatMap_map _ _ strings]
  congr 1
  refine List.flatMap_congr fun s _ => ?_
  rw [unquote_literal (show '%' ∉ argsEq by decide), unquote_quote]

/-- Strings without the delimiter come back in reverse. -/
theorem parseArgs_arrayQuery (hne : strings ≠ []) (hamp : ∀ s ∈ strings, '&' ∉ s.toList) :
    parseArgs (arrayQuery preceding strings) =
      strings.reverse ++ scanned (pieces (preceding.map (·.raw))) := by
  have hwhole : ∀ s ∈ strings, (argsEq ++ s.toList).splitOn '&' = [argsEq ++ s.toList] := by
    intro s hs
    apply List.splitOn_eq_singleton
    rw [List.mem_append, not_or]
    exact ⟨by decide, hamp s hs⟩
  have hparts : parts (arrayQuery preceding strings) =
      (strings.reverse.map fun s => (['a', 'r', 'g', '[', ']'], s.toList)) ++
        ((pieces (preceding.map (·.raw))).reverse.filter isPart).map partition := by
    rw [parts, arrayQuery, splitOn_unquote (by simp [hne]), rawPieces,
      List.flatMap_congr hwhole, ← List.map_eq_flatMap, List.reverse_append,
      ← List.map_reverse, List.filter_append, List.map_append]
    congr 1
    have hall : ∀ e ∈ strings.reverse.map fun s => argsEq ++ s.toList, isPart e = true := by
      intro e he
      obtain ⟨s, -, rfl⟩ := List.mem_map.mp he
      exact isPart_argsEq s.toList
    rw [List.filter_eq_self.mpr hall, List.map_map]
    exact List.map_congr_left fun s _ => partition_argsEq s.toList
  have hback : (strings.reverse.map fun s => String.ofList s.toList) = strings.reverse := by
    simp
  obtain ⟨s, rest, hs⟩ := List.exists_cons_of_ne_nil (show strings.reverse ≠ [] by simpa using hne)
  have hlast : ∃ value rest, parts (arrayQuery preceding strings) =
      (['a', 'r', 'g', '[', ']'], value) :: rest := by
    rw [hparts, hs]
    exact ⟨_, _, rfl⟩
  obtain ⟨value, rest, hlast⟩ := hlast
  rw [parseArgs_of_args hlast, hparts, List.takeWhile_append_of_pos (by simp), List.map_append,
    List.map_map]
  exact congrArg (· ++ _) hback

/-- No argument has the delimiter: it was a piece between two of them. -/
theorem amp_notMem_of_mem_parseArgs {query : List Char} {a : String} (h : a ∈ parseArgs query) :
    '&' ∉ a.toList := by
  have hpart : ∀ part ∈ parts query, '&' ∉ part.2 := by
    intro part hpart hmem
    obtain ⟨p, hp, rfl⟩ := List.mem_map.mp hpart
    have hpiece := List.mem_reverse.mp (List.mem_of_mem_filter hp)
    have hsub : (partition p).2 ⊆ p :=
      fun c hc => List.dropWhile_subset _ (List.drop_subset _ _ hc)
    exact not_mem_of_mem_splitOn hpiece (hsub hmem)
  unfold parseArgs at h
  cases hparts : parts query with
  | nil => simp [hparts] at h
  | cons part rest =>
      simp only [hparts] at h
      split_ifs at h
      · rw [List.mem_singleton.mp h, String.toList_ofList]
        exact hpart part (hparts ▸ List.mem_cons_self ..)
      · obtain ⟨q, hq, rfl⟩ := List.mem_map.mp h
        rw [String.toList_ofList]
        exact hpart q (hparts ▸ List.takeWhile_subset _ hq)

/-- The strings come back, in some order, if none of them has the delimiter and the scan takes
nothing of what precedes them. -/
theorem perm_parseArgs_arrayQuery_iff (preceding : List Other) (strings : List String)
    (hne : strings ≠ []) :
    (parseArgs (arrayQuery preceding strings)).Perm strings ↔
      (∀ s ∈ strings, '&' ∉ s.toList) ∧ Quiet (pieces (preceding.map (·.raw))) := by
  rw [← scanned_eq_nil_iff]
  constructor
  · intro hperm
    have hamp : ∀ s ∈ strings, '&' ∉ s.toList :=
      fun s hs => amp_notMem_of_mem_parseArgs (hperm.mem_iff.mpr hs)
    refine ⟨hamp, ?_⟩
    have hlen := hperm.length_eq
    rw [parseArgs_arrayQuery hne hamp, List.length_append, List.length_reverse] at hlen
    exact List.eq_nil_of_length_eq_zero (by omega)
  · intro ⟨hamp, hquiet⟩
    rw [parseArgs_arrayQuery hne hamp, hquiet, List.append_nil]
    exact List.reverse_perm strings

theorem perm_parseArgs_arrayQuery_two :
    (parseArgs (arrayQuery [] ["foo", "bar"])).Perm ["foo", "bar"] :=
  (perm_parseArgs_arrayQuery_iff [] ["foo", "bar"] (by decide)).mpr
    ⟨by decide, fun _ h => by simp [pieces] at h⟩

/-- A string with the delimiter is cut off there. -/
theorem not_perm_parseArgs_amp :
    ¬ (parseArgs (arrayQuery [] ["foo&bar"])).Perm ["foo&bar"] := by decide

/-! ### What hides no delimiter -/

/-- A parameter without a delimiter in its escapes has no `arg[]` in it. -/
theorem quiet_of_plain (hamp : ∀ o ∈ preceding, '&' ∉ unquote o.raw)
    (heq : ∀ o ∈ preceding, argsEq.isPrefixOf (unquote o.raw) = false) :
    Quiet (pieces (preceding.map (·.raw))) := by
  intro p hfind
  have hp := List.mem_reverse.mp (List.mem_of_find?_eq_some hfind)
  obtain ⟨raw, hraw, hsplit⟩ := List.mem_flatMap.mp hp
  obtain ⟨o, ho, rfl⟩ := List.mem_map.mp hraw
  rw [List.splitOn_eq_singleton (hamp o ho), List.mem_singleton] at hsplit
  have hpart := List.find?_some hfind
  rw [isPart, hsplit, heq o ho, Bool.or_false] at hpart
  rw [hsplit]
  exact hpart

/-- An `arg[]` as the framework reads it. -/
theorem readField_args (s : List Char) :
    readField (argsEq ++ quote s) = (['a', 'r', 'g', '[', ']'], s) := by
  rw [readField, show argsEq ++ quote s = ['a', 'r', 'g', '[', ']'] ++ '=' :: quote s from rfl,
    partition_append (by decide)]
  show (unquote (unplus ['a', 'r', 'g', '[', ']']), unquote (unplus (quote s))) = _
  rw [show unquote (unplus ['a', 'r', 'g', '[', ']']) = ['a', 'r', 'g', '[', ']'] by decide]
  exact congrArg _ (unquote_unplus_encode .percent s)

theorem splitOn_arrayQuery (hne : strings ≠ []) :
    (arrayQuery preceding strings).splitOn '&' =
      preceding.map (·.raw) ++ strings.map fun s => argsEq ++ quote s.toList := by
  refine List.splitOn_intercalate '&' ?_ (by simp [hne])
  intro raw hraw
  rcases List.mem_append.mp hraw with hraw | hraw
  · obtain ⟨o, -, rfl⟩ := List.mem_map.mp hraw
    exact o.apart
  · obtain ⟨s, -, rfl⟩ := List.mem_map.mp hraw
    rw [List.mem_append, not_or]
    exact ⟨by decide, amp_notMem_encode .percent s.toList⟩

/-- The framework splits first, and reads the strings as they are and in order. -/
theorem parseQsl_arrayQuery (preceding : List Other) (strings : List String) (hne : strings ≠ []) :
    ((parseQsl (arrayQuery preceding strings)).filter (·.1 = ['a', 'r', 'g', '[', ']'])).map
      (fun field => String.ofList field.2) = strings := by
  have hothers : ((((preceding.map (·.raw)).filter (· ≠ [])).map readField).filter
      (·.1 = ['a', 'r', 'g', '[', ']'])) = [] := by
    rw [List.filter_eq_nil_iff]
    intro field hfield
    obtain ⟨raw, hraw, rfl⟩ := List.mem_map.mp hfield
    obtain ⟨o, -, rfl⟩ := List.mem_map.mp (List.mem_of_mem_filter hraw)
    simpa using o.other
  have hstrings : ((strings.map fun s => argsEq ++ quote s.toList).filter (· ≠ [])).map readField =
      strings.map fun s => (['a', 'r', 'g', '[', ']'], s.toList) := by
    rw [List.filter_eq_self.mpr (by simp [argsEq]), List.map_map]
    exact List.map_congr_left fun s _ => readField_args s.toList
  rw [parseQsl, splitOn_arrayQuery hne, List.filter_append, List.map_append, List.filter_append,
    hothers, hstrings, List.nil_append, List.filter_eq_self.mpr (by simp), List.map_map]
  exact List.map_id'' (fun s => String.ofList_toList) strings

end Aurweb.Rpc
