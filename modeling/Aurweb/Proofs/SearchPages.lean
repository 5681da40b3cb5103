/-
The pages of a search, put together again.

Every field of `sort_by` ends in a name, of the package or of its base.  With the name of the
package no two results compare equal, and the pages fit together whatever their size.  With the
name of the base the packages of a split base compare equal, since votes, popularity and time
are the base's too: the pages fit together when no base is cut in two (`Paging.pages_perm_iff`).
-/
import Aurweb.Lib.IntLiteral
import Aurweb.WebSearch
import Aurweb.Proofs.RpcSearch

namespace Aurweb.Search

open Paging (Arranges OnOnePage)

variable {cfg : Config} (c : Collation cfg) (popularity : Nat → Nat) (uid : Nat)

/-! ### The columns -/

instance transCmp_direct (order : String) (column : Row → Row → Ordering)
    [h : Std.TransCmp column] : Std.TransCmp (direct order column) := by
  unfold direct
  split_ifs
  · exact Std.TransCmp.opposite
  · exact h

theorem transCmp_compare (key : Row → String) :
    Std.TransCmp fun a b : Row => c.compare (key a) (key b) where
  eq_swap := c.trans.eq_swap
  isLE_trans := c.trans.isLE_trans

instance transCmp_byName : Std.TransCmp (byName c) := transCmp_compare c _

instance transCmp_byBaseName : Std.TransCmp (byBaseName c) := transCmp_compare c _

instance transCmp_byUsername : Std.TransCmp (byUsername c) := by
  have hnames : Std.TransCmp fun a b : Row =>
      c.compare ((a.user.map (·.username)).getD "") ((b.user.map (·.username)).getD "") :=
    transCmp_compare c fun r => (r.user.map (·.username)).getD ""
  unfold byUsername
  infer_instance

instance transCmp_sortBy (sb so : Option String) :
    Std.TransCmp (sortBy c popularity uid sb so) := by
  unfold sortBy sortByName sortByVotes sortByPopularity sortByVoted sortByNotify sortByMaintainer
    sortByLastModified
  dsimp only
  split <;> infer_instance

theorem direct_eq_iff {order : String} {column : Row → Row → Ordering} [Std.TransCmp column]
    {a b : Row} : direct order column a b = .eq ↔ column a b = .eq := by
  unfold direct
  split_ifs
  · exact Std.OrientedCmp.eq_comm
  · exact Iff.rfl

theorem compareLex_eq_iff {first second : Row → Row → Ordering} {a b : Row} :
    compareLex first second a b = .eq ↔ first a b = .eq ∧ second a b = .eq := by
  unfold compareLex
  exact Ordering.then_eq_eq

/-- The fields that end in the name of the package. -/
theorem sameName_of_sortBy {sb : String} (hsb : sb ∈ ["n", "w", "o", "m"]) (so : Option String)
    {a b : Row} (h : sortBy c popularity uid (some sb) so a b = .eq) :
    cfg.sameName a.package.name b.package.name = true := by
  have hname : byName c a b = .eq := by
    simp only [List.mem_cons, List.not_mem_nil, or_false] at hsb
    rcases hsb with rfl | rfl | rfl | rfl
    · exact direct_eq_iff.mp h
    · exact direct_eq_iff.mp (compareLex_eq_iff.mp h).2
    · exact direct_eq_iff.mp (compareLex_eq_iff.mp h).2
    · exact direct_eq_iff.mp (compareLex_eq_iff.mp h).2
  exact (c.eq_iff _ _).mp hname

/-- The others end in the name of the base. -/
theorem sameBase_of_sortBy {sb : Option String} (hsb : ∀ s ∈ sb, s ∉ ["n", "w", "o", "m"])
    (so : Option String) {a b : Row} (h : sortBy c popularity uid sb so a b = .eq) :
    cfg.sameName a.base.name b.base.name = true := by
  have hname : byBaseName c a b = .eq := by
    unfold sortBy at h
    split at h
    case h_1 | h_3 | h_4 | h_5 => exact absurd (by simp) (hsb _ rfl)
    all_goals exact direct_eq_iff.mp (compareLex_eq_iff.mp h).2
  exact (c.eq_iff _ _).mp hname

/-! ### The pages -/

variable {d : Dbms} {db : Db} {params : Params}

theorem nodup_of_names {rows : List Row}
    (h : (rows.map fun r => d.cfg.collate r.package.name).Nodup) : rows.Nodup :=
  .of_map _ h

/-- Results of different names fit on pages of any size. -/
theorem onOnePage_of_name (c : Collation d.cfg) {rows : List Row}
    (hnames : (rows.map fun r => d.cfg.collate r.package.name).Nodup) {sb : String}
    (hsb : sb ∈ ["n", "w", "o", "m"]) (so : Option String) (size : Nat) :
    OnOnePage (sortBy c popularity uid (some sb) so) size rows := by
  apply Paging.onOnePage_of_injOn (nodup_of_names hnames)
  intro a ha b hb heq
  have hname := sameName_of_sortBy c popularity uid hsb so heq
  exact List.inj_on_of_nodup_map hnames ha hb (eq_of_beq hname)

/-- So do results of different bases. -/
theorem onOnePage_of_bases (c : Collation d.cfg) {rows : List Row}
    (hbases : (rows.map fun r => d.cfg.collate r.base.name).Nodup) {sb : Option String}
    (hsb : ∀ s ∈ sb, s ∉ ["n", "w", "o", "m"]) (so : Option String) (size : Nat) :
    OnOnePage (sortBy c popularity uid sb so) size rows := by
  apply Paging.onOnePage_of_injOn (.of_map _ hbases)
  intro a ha b hb heq
  have hbase := sameBase_of_sortBy c popularity uid hsb so heq
  exact List.inj_on_of_nodup_map hbases ha hb (eq_of_beq hbase)

/-- The pages give every result once, in whatever order each of them was returned, just if the
results that compare equal are never on two of them. -/
theorem pagesOf_perm_iff (d : Dbms) (c : Collation d.cfg) (popularity : Nat → Nat) (db : Db)
    (uid : Nat) (params : Params) (int : String → Option Int) (maxSearchResults : Nat)
    (perPage : Option String) (offset : Nat → Option String)
    (hnames : ((pageQuery d db uid params).map fun r => d.cfg.collate r.package.name).Nodup)
    (hoffset : ∀ k, (sanitizeParams int (offset k) perPage).1 =
      k * pageSize int maxSearchResults perPage) :
    (∀ results : Nat → List Row,
      (∀ k, Arranges (sortBy c popularity uid params.sb params.so) (pageQuery d db uid params)
        (results k)) →
      ∀ n, (pageQuery d db uid params).length ≤ n * pageSize int maxSearchResults perPage →
        ((List.range n).flatMap fun k =>
          pageOf int maxSearchResults (offset k) perPage (results k)).Perm
            (pageQuery d db uid params)) ↔
    OnOnePage (sortBy c popularity uid params.sb params.so)
      (pageSize int maxSearchResults perPage) (pageQuery d db uid params) := by
  rw [← Paging.pages_perm_iff _ (nodup_of_names hnames)]
  unfold pageOf
  simp only [hoffset]

/-! ### A split base -/

/-- The order of the collated strings. -/
def plainCollation (cfg : Config) : Collation cfg where
  compare a b := Ord.compare (cfg.collate a) (cfg.collate b)
  trans :=
    { eq_swap := Std.OrientedOrd.eq_swap
      isLE_trans := Std.TransOrd.isLE_trans }
  eq_iff a b := by
    rw [Std.LawfulEqOrd.compare_eq_iff_eq]
    exact beq_iff_eq.symm

/-- `int`, where nothing but ASCII is asked about. -/
def plainInt (s : String) : Option Int :=
  IntLiteral.parse { isSpace := fun _ => false, decimal := fun _ => none } 10 s.toList

/-- Everything, by votes. -/
def byVotes : Params := { sb := some "v" }

/-- Pages of a single result. -/
theorem sanitizeParams_toString (k : Nat) :
    (sanitizeParams plainInt (some (toString k)) (some "1")).1 =
      k * pageSize plainInt 250 (some "1") := by
  have hint : plainInt (toString k) = some (k : Int) := by
    unfold plainInt
    rw [Nat.toString_eq_repr, Nat.toList_repr]
    exact IntLiteral.parse_toDigits _ k
  have hsize : pageSize plainInt 250 (some "1") = 1 := by decide
  rw [hsize, Nat.mul_one, sanitizeParams, Option.bind_some, hint]
  show (if (k : Int) < 0 then 0 else (k : Int).toNat) = k
  rw [if_neg (by omega), Int.toNat_natCast]

theorem pagesOf_perm_iff_split :
    (∀ results : Nat → List Row,
      (∀ k, Arranges (sortBy (plainCollation siteConfig) (fun _ => 0) 0 byVotes.sb byVotes.so)
        (pageQuery Rpc.plainDbms Rpc.smallCatalogue 0 byVotes) (results k)) →
      ∀ n, (pageQuery Rpc.plainDbms Rpc.smallCatalogue 0 byVotes).length ≤
          n * pageSize plainInt 250 (some "1") →
        ((List.range n).flatMap fun k =>
          pageOf plainInt 250 (some (toString k)) (some "1") (results k)).Perm
            (pageQuery Rpc.plainDbms Rpc.smallCatalogue 0 byVotes)) ↔
    OnOnePage (sortBy (plainCollation siteConfig) (fun _ => 0) 0 byVotes.sb byVotes.so)
      (pageSize plainInt 250 (some "1")) (pageQuery Rpc.plainDbms Rpc.smallCatalogue 0 byVotes) :=
  pagesOf_perm_iff Rpc.plainDbms (plainCollation siteConfig) (fun _ => 0) Rpc.smallCatalogue 0
    byVotes plainInt 250 (some "1") (fun k => some (toString k)) (by decide) sanitizeParams_toString

/-- The two packages, as a visitor finds them. -/
def rowFoo : Row := visitorRow Rpc.smallCatalogue 0 (Rpc.smallPackage 5 "foo")

def rowDocs : Row := visitorRow Rpc.smallCatalogue 0 (Rpc.smallPackage 6 "foo-docs")

theorem not_pagesOf_perm :
    ∃ results : Nat → List Row,
      (∀ k, Arranges (sortBy (plainCollation siteConfig) (fun _ => 0) 0 byVotes.sb byVotes.so)
        (pageQuery Rpc.plainDbms Rpc.smallCatalogue 0 byVotes) (results k)) ∧
      (pageQuery Rpc.plainDbms Rpc.smallCatalogue 0 byVotes).map (·.package.name) =
        ["foo", "foo-docs"] ∧
      ((List.range 2).flatMap fun k =>
        pageOf plainInt 250 (some (toString k)) (some "1") (results k)).map (·.package.name) =
          ["foo", "foo"] := by
  have hrows : pageQuery Rpc.plainDbms Rpc.smallCatalogue 0 byVotes = [rowFoo, rowDocs] := by decide
  have hequal : sortBy (plainCollation siteConfig) (fun _ => 0) 0 byVotes.sb byVotes.so rowFoo
      rowDocs = .eq := by
    have hvotes : direct "desc" (compareOn (·.base.numVotes)) rowFoo rowDocs = .eq := by decide
    have hbase : byBaseName (plainCollation siteConfig) rowFoo rowDocs = .eq :=
      ((plainCollation siteConfig).eq_iff _ _).mpr (by decide)
    have hboth : sortByVotes (plainCollation siteConfig) "desc" rowFoo rowDocs = .eq :=
      compareLex_eq_iff.mpr ⟨hvotes, direct_eq_iff.mpr hbase⟩
    simpa [sortBy, byVotes] using hboth
  have harr : Arranges (sortBy (plainCollation siteConfig) (fun _ => 0) 0 byVotes.sb byVotes.so)
      (pageQuery Rpc.plainDbms Rpc.smallCatalogue 0 byVotes) ([] ++ rowFoo :: rowDocs :: []) := by
    rw [hrows]
    refine ⟨.refl _, ?_⟩
    simp [hequal]
  refine ⟨fun k => if k = 1 then [rowDocs, rowFoo] else [rowFoo, rowDocs], ?_, by decide, ?_⟩
  · intro k
    dsimp only
    by_cases hk : k = 1
    · rw [if_pos hk]
      exact harr.swap hequal
    · rw [if_neg hk]
      exact harr
  · decide

end Aurweb.Search
