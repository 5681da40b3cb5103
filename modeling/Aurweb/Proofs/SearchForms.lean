/-
One search in its four forms.

Whatever the form, the handler sees no more of the arguments than the first of them, and that is
where the forms part: `parse_args` reads it out of the query string as soon as there is one, so
the argument in the path is lost when `by` is given, and the query and legacy forms have what is
behind the last delimiter in the argument.  The POST form has the argument as it is.
-/
import Aurweb.Proofs.ParseArgs
import Aurweb.Proofs.RpcSearch

namespace Aurweb.Rpc

open Percent Search

/-! ### What `parse_args` takes of a form -/

/-- The first argument is that of the last piece that is one. -/
theorem head?_parseArgs (query : List Char) :
    (parseArgs query).head? =
      (((unquote query).splitOn '&').reverse.find? isPart).map
        fun p => String.ofList (partition p).2 := by
  rw [← List.head?_filter]
  unfold parseArgs parts
  cases ((unquote query).splitOn '&').reverse.filter isPart with
  | nil => rfl
  | cons p rest =>
      simp only [List.map_cons, List.head?_cons, Option.map_some]
      split_ifs
      · rfl
      · rw [List.takeWhile_cons_of_pos (by simp)]
        rfl

/-- The argument as the query and legacy forms have it: behind the last delimiter that begins an
argument, and with a plus where the encoding has put one. -/
def cut (e : Encoding) (arg : String) : String :=
  ((((argEq ++ arg.toList.map e.kept).splitOn '&').reverse.find? isPart).map
    fun p => String.ofList (partition p).2).getD ""

/-- The pieces of an argument, the first of which is one. -/
theorem exists_part (e : Encoding) (arg : String) :
    ∃ p, ((argEq ++ arg.toList.map e.kept).splitOn '&').reverse.find? isPart = some p := by
  rw [← Option.isSome_iff_exists, List.find?_isSome]
  obtain ⟨q, rest, hsplit⟩ :=
    List.exists_cons_of_ne_nil (List.splitOn_ne_nil '&' (arg.toList.map e.kept))
  refine ⟨argEq ++ q, ?_, isPart_argEq q⟩
  rw [List.mem_reverse]
  simp [argEq, List.splitOn_cons_eq_if_modifyHead, hsplit]

theorem find?_cut (e : Encoding) (arg : String) :
    (((argEq ++ arg.toList.map e.kept).splitOn '&').reverse.find? isPart).map
      (fun p => String.ofList (partition p).2) = some (cut e arg) := by
  obtain ⟨p, hp⟩ := exists_part e arg
  rw [cut, hp]
  rfl

theorem unquote_field (e : Encoding) {key : String} (hkey : '%' ∉ key.toList) (value : String) :
    unquote (field e key value) = key.toList ++ '=' :: value.toList.map e.kept := by
  rw [field, unquote_literal hkey, unquote_cons (by decide)]
  have hvalue := unquote_encode e value.toList []
  rw [List.append_nil, show unquote [] = [] from rfl, List.append_nil] at hvalue
  rw [hvalue]

/-- No exposed field hides a delimiter or a blank. -/
theorem map_kept_exposed (e : Encoding) :
    ∀ by_ ∈ exposedBys, by_.toList.map e.kept = by_.toList := by
  cases e <;> decide

theorem amp_notMem_exposed : ∀ by_ ∈ exposedBys, '&' ∉ by_.toList := by decide

theorem pieces_by (e : Encoding) {by_ : String} (hby : by_ ∈ exposedBys) :
    (unquote (field e "by" by_)).splitOn '&' = [['b', 'y', '='] ++ by_.toList] := by
  rw [unquote_field e (by decide), map_kept_exposed e by_ hby]
  apply List.splitOn_eq_singleton
  have hamp := amp_notMem_exposed by_ hby
  simp [hamp]

theorem not_isPart_by (s : List Char) : isPart (['b', 'y', '='] ++ s) = false := rfl

theorem parseArgs_path (e : Encoding) (arg : String) {by_ : String} (hby : by_ ∈ exposedBys) :
    (parseArgs (Form.path.queryString e arg by_)).head? = none := by
  rw [head?_parseArgs]
  show Option.map _ (((unquote (field e "by" by_)).splitOn '&').reverse.find? isPart) = none
  rw [pieces_by e hby, List.reverse_singleton, List.find?_cons_of_neg]
  · rfl
  · rw [not_isPart_by]
    exact Bool.false_ne_true

theorem parseArgs_query (e : Encoding) (arg : String) {by_ : String} (hby : by_ ∈ exposedBys) :
    (parseArgs (Form.query.queryString e arg by_)).head? = some (cut e arg) := by
  rw [head?_parseArgs, Form.queryString, splitOn_unquote (by simp)]
  simp only [pieces, List.flatMap_cons, List.flatMap_nil, List.append_nil, pieces_by e hby,
    List.reverse_append, List.reverse_singleton]
  rw [List.singleton_append, List.find?_cons_of_neg, unquote_field e (by decide)]
  · exact find?_cut e arg
  · rw [not_isPart_by]
    exact Bool.false_ne_true

theorem parseArgs_legacy (e : Encoding) (arg by_ : String) :
    (parseArgs (Form.legacy.queryString e arg by_)).head? = some (cut e arg) := by
  obtain ⟨p, hp⟩ := exists_part e arg
  have hcut := find?_cut e arg
  rw [head?_parseArgs, Form.queryString, splitOn_unquote (by simp)]
  simp only [pieces, List.flatMap_cons, List.flatMap_nil, List.append_nil, List.reverse_append,
    unquote_field e (show '%' ∉ "arg".toList by decide)]
  rw [List.append_assoc, List.append_assoc, List.find?_append]
  rw [hp] at hcut
  rw [show "arg".toList ++ '=' :: arg.toList.map e.kept = argEq ++ arg.toList.map e.kept from rfl, hp]
  exact hcut

/-! ### What the framework reads of a form -/

theorem readField_field (e : Encoding) {key : String} (heq : '=' ∉ key.toList)
    (hkey : unquote (unplus key.toList) = key.toList) (value : String) :
    readField (field e key value) = (key.toList, value.toList) := by
  rw [readField, field, partition_append heq, unquote_unplus_encode]
  exact congrArg (·, _) hkey

theorem amp_notMem_field (e : Encoding) {key : String} (hkey : '&' ∉ key.toList) (value : String) :
    '&' ∉ field e key value := by
  have henc := amp_notMem_encode e value.toList
  simp [field, hkey, henc]

theorem plain_keys : ∀ key ∈ ["v", "type", "by", "arg"],
    '&' ∉ key.toList ∧ '=' ∉ key.toList ∧ unquote (unplus key.toList) = key.toList := by decide

/-- The parameters of a form are read as they were put in. -/
theorem parseQsl_fields (e : Encoding) (fields : List (String × String)) (hne : fields ≠ [])
    (hkeys : ∀ f ∈ fields, f.1 ∈ ["v", "type", "by", "arg"]) :
    parseQsl (['&'].intercalate (fields.map fun f => field e f.1 f.2)) =
      fields.map fun f => (f.1.toList, f.2.toList) := by
  rw [parseQsl, List.splitOn_intercalate '&' ?_ (by simpa using hne), List.filter_eq_self.mpr,
    List.map_map]
  · refine List.map_congr_left fun f hf => ?_
    obtain ⟨-, heq, hkey⟩ := plain_keys f.1 (hkeys f hf)
    exact readField_field e heq hkey f.2
  · intro raw hraw
    obtain ⟨f, -, rfl⟩ := List.mem_map.mp hraw
    simp [field]
  · intro raw hraw
    obtain ⟨f, hf, rfl⟩ := List.mem_map.mp hraw
    exact amp_notMem_field e (plain_keys f.1 (hkeys f hf)).1 f.2

theorem parseQsl_path (e : Encoding) (arg by_ : String) :
    parseQsl (Form.path.queryString e arg by_) = [("by".toList, by_.toList)] := by
  have h := parseQsl_fields e [("by", by_)] (by simp) (by simp)
  rwa [List.map_singleton, List.intercalate_singleton] at h

theorem parseQsl_query (e : Encoding) (arg by_ : String) :
    parseQsl (Form.query.queryString e arg by_) =
      [("arg".toList, arg.toList), ("by".toList, by_.toList)] :=
  parseQsl_fields e [("arg", arg), ("by", by_)] (by simp) (by simp)

theorem parseQsl_legacy (e : Encoding) (arg by_ : String) :
    parseQsl (Form.legacy.queryString e arg by_) =
      [("v".toList, "5".toList), ("type".toList, "search".toList), ("by".toList, by_.toList),
        ("arg".toList, arg.toList)] :=
  parseQsl_fields e [("v", "5"), ("type", "search"), ("by", by_), ("arg", arg)] (by simp) (by simp)

theorem queryParam_by (e : Encoding) (arg by_ : String) (form : Form) (hform : form ≠ .post) :
    queryParam (form.queryString e arg by_) "by" = some by_ := by
  cases form with
  | path => rw [queryParam, parseQsl_path]; simp [lookupLast]
  | query => rw [queryParam, parseQsl_query]; simp [lookupLast]
  | post => exact absurd rfl hform
  | legacy => rw [queryParam, parseQsl_legacy]; simp [lookupLast]

/-! ### The handler sees the first argument -/

/-- The answer to a search for an argument, if there is one. -/
def searchFor (api : Api) (db : Db) (by_ : String) (arg : Option String) : Except String Response :=
  (handle api db (some 5) (some "search") by_ arg.toList).map (Response.json 200)

theorem handle_search_head? (api : Api) (db : Db) (by_ : String) (args : List String) :
    handle api db (some 5) (some "search") by_ args =
      handle api db (some 5) (some "search") by_ args.head?.toList := by
  have hsearch : ∀ by_, handleSearchType api db by_ args =
      handleSearchType api db by_ args.head?.toList := by
    intro by_
    cases args with
    | nil => rfl
    | cons a rest => simp [handleSearchType]
  unfold handle
  cases hverify : verifyInputs (some 5) (typeAlias (some "search")) by_ with
  | error message => rfl
  | ok type =>
      have htype : type = "search" := by
        simp only [verifyInputs, exposedVersions, List.mem_singleton, not_true_eq_false,
          if_false] at hverify
        split_ifs at hverify
        exact (Except.ok.inj hverify).symm
      simp only [htype, handleCallback, if_true, hsearch]

theorem searchFor_unexposed {api : Api} {db : Db} {by_ : String} (hby : by_ ∉ exposedBys)
    (arg : Option String) :
    searchFor api db by_ arg =
      .ok (.json 200 (.error (some 5) "Incorrect by field specified.")) := by
  have hverify : verifyInputs (some 5) (typeAlias (some "search")) by_ =
      .error "Incorrect by field specified." := by
    simp only [verifyInputs, exposedVersions, List.mem_singleton, not_true_eq_false, if_false]
    exact if_pos hby
  rw [searchFor, handle, hverify]
  rfl

/-! ### The answers to the forms -/

/-- What a request gets once the rate limiter has said something. -/
def served : Except String Bool → Except String Response → Except String Response
  | .error e, _ => .error e
  | .ok true, _ => .ok (.json 429 (.error (some 5) "Rate limit reached"))
  | .ok false, reply => reply

/-- The first argument that the handler is given. -/
def Form.first (e : Encoding) (arg : String) : Form → Option String
  | .path => none
  | .query => some (cut e arg)
  | .post => if arg = "" then none else some arg
  | .legacy => some (cut e arg)

/-- The path of the route has a segment for the argument. -/
def Routable (arg : String) : Prop := arg ≠ "" ∧ '/' ∉ arg.toList

section

variable {api : Api} {db : Db} {st : Ratelimit.Stores} {host : String} {now : Int}
variable {e : Encoding} {arg by_ : String}

/-- The rate limiter's word on the request. -/
def limit (api : Api) (st : Ratelimit.Stores) (host : String) (now : Int) : Except String Bool :=
  (Ratelimit.checkRatelimit api.ratelimit api.cache st { host, now }).1

theorem answer_eq (host : String) (now : Int) (q : List Char) (by_ : String) (arg : Option String) (args : List String) :
    answer api db { host, now, query := q } (some 5) (some "search") by_ arg args none =
      searchFor api db by_
        (if q ≠ [] then parseArgs q else (arg.filter (· ≠ "")).toList ++ args).head? := by
  unfold answer searchFor
  rw [← handle_search_head?]
  simp only [Option.filter_none, Option.any_none, Bool.false_eq_true, if_false, ne_eq,
    not_true_eq_false, false_and]
  cases handle api db (some 5) (some "search") by_ _ <;> rfl

theorem rpcRequest_fst (q : List Char) (by_ : String) (arg : Option String) (args : List String) :
    (rpcRequest api db st { host, now, query := q } (some 5) (some "search") by_ arg args none).1 =
      served (limit api st host now) (searchFor api db by_
        (if q ≠ [] then parseArgs q else (arg.filter (· ≠ "")).toList ++ args).head?) := by
  rw [← answer_eq host now]
  unfold rpcRequest limit
  obtain ⟨checked, st⟩ :=
    Ratelimit.checkRatelimit api.ratelimit api.cache st { host, now }
  match checked with
  | .error e => rfl
  | .ok true => rfl
  | .ok false => rfl

/-- The first argument in a form, as the route finds it. -/
def Form.given (e : Encoding) (arg by_ : String) : Form → Option String
  | .post => if arg = "" then none else some arg
  | form => (parseArgs (form.queryString e arg by_)).head?

theorem queryString_ne_nil (e : Encoding) (arg by_ : String) (form : Form) (h : form ≠ .post) :
    form.queryString e arg by_ ≠ [] := by
  intro hnil
  have hby := queryParam_by e arg by_ form h
  rw [hnil] at hby
  simp [queryParam, lookupLast, parseQsl] at hby

theorem ask_eq (hroutable : Routable arg) (form : Form) :
    (form.ask api db st host now e arg by_).1 =
      served (limit api st host now) (searchFor api db by_ (form.given e arg by_)) := by
  cases form with
  | path =>
      have hpath : ¬ (arg = "" ∨ '/' ∈ arg.toList) := not_or.mpr hroutable
      have hq := queryString_ne_nil e arg by_ .path (by simp)
      simp only [Form.ask, rpcOpenapiSearchArg, if_neg hpath, api.int_five,
        queryParam_by e arg by_ .path (by simp), Option.getD_some]
      rw [rpcRequest_fst, if_pos hq]
      rfl
  | query =>
      have hq := queryString_ne_nil e arg by_ .query (by simp)
      simp only [Form.ask, rpcOpenapiSearch, api.int_five,
        queryParam_by e arg by_ .query (by simp), Option.getD_some]
      rw [rpcRequest_fst, if_pos hq]
      rfl
  | post =>
      simp only [Form.ask, rpcOpenapiSearchPost, api.int_five, Option.getD_some]
      rw [rpcRequest_fst]
      have hfilter : (some arg).filter (· ≠ "") = some arg := by
        rw [Option.filter_some, if_pos (by simpa using hroutable.1)]
      rw [if_neg (by simp [Form.queryString]), hfilter, Form.given, if_neg hroutable.1]
      rfl
  | legacy =>
      have hq := queryString_ne_nil e arg by_ .legacy (by simp)
      have hv : queryParam (Form.legacy.queryString e arg by_) "v" = some "5" := by
        rw [queryParam, parseQsl_legacy]
        simp [lookupLast]
      have htype : queryParam (Form.legacy.queryString e arg by_) "type" = some "search" := by
        rw [queryParam, parseQsl_legacy]
        simp [lookupLast]
      have hcallback : queryParam (Form.legacy.queryString e arg by_) "callback" = none := by
        rw [queryParam, parseQsl_legacy]
        simp [lookupLast]
      simp only [Form.ask, rpc, if_neg hq, hv, htype, hcallback,
        show "5".toList = ['5'] from rfl, api.int_five,
        queryParam_by e arg by_ .legacy (by simp), Option.getD_some]
      rw [rpcRequest_fst, if_pos hq]
      rfl

theorem given_exposed (hby : by_ ∈ exposedBys) (form : Form) :
    form.given e arg by_ = form.first e arg := by
  cases form with
  | path => exact parseArgs_path e arg hby
  | query => exact parseArgs_query e arg hby
  | post => rfl
  | legacy => exact parseArgs_legacy e arg by_

/-- Without a segment for the argument the path form has no route. -/
theorem ask_path_of_not_routable (h : ¬ Routable arg) :
    (Form.path.ask api db st host now e arg by_).1 = .ok .notFound := by
  have hpath : arg = "" ∨ '/' ∈ arg.toList := by
    unfold Routable at h
    by_contra hnone
    exact h (not_or.mp hnone)
  simp only [Form.ask, rpcOpenapiSearchArg, if_pos hpath]

/-- The query form always has a route. -/
theorem ask_query_ne_notFound :
    (Form.query.ask api db st host now e arg by_).1 ≠ .ok .notFound := by
  simp only [Form.ask, rpcOpenapiSearch, api.int_five,
    queryParam_by e arg by_ .query (by simp), Option.getD_some]
  rw [rpcRequest_fst]
  match limit api st host now with
  | .error e => simp [served]
  | .ok true => simp [served]
  | .ok false =>
      show searchFor api db by_ _ ≠ _
      unfold searchFor
      cases handle api db (some 5) (some "search") by_ _ with
      | error e => simp [Except.map]
      | ok reply => simp [Except.map]

/-! ### Searches by maintainer -/

/-- The packages that a search by maintainer is for. -/
def maintained (api : Api) (db : Db) (arg : String) : List Package :=
  db.packages.filter (isMatch api.dbms db "maintainer" arg)

/-- The answer with these columns in hand. -/
def answerOf (api : Api) (results : List Entity) : Except String Response :=
  .ok (.json 200 (if results.length > api.maxRpcResults then
    .error (some 5) "Too many package results."
  else .results (some 5) "search" (results.map fun e => popSubmitter (getJsonData api e))))

theorem searchFor_exposed (h : Catalogue api.dbms.cfg db) (by_ : String) (hby : by_ ∈ exposedBys)
    (arg : Option String) (harg : by_ = "maintainer" ∨ 2 ≤ (arg.getD "").length) :
    ∃ results, Within api.maxRpcResults
      ((db.packages.filter (isMatch api.dbms db by_ (arg.getD ""))).map (entityOf db)) results ∧
      searchFor api db by_ arg = answerOf api results := by
  have hhead : arg.toList.headD "" = arg.getD "" := by cases arg <;> rfl
  obtain ⟨results, hwithin, hsearch⟩ :=
    handleSearchType_within h hby arg.toList (by rw [hhead]; exact harg)
  rw [hhead] at hwithin
  refine ⟨results, hwithin, ?_⟩
  rw [searchFor, handle, verifyInputs_search hby, answerOf]
  simp only [handleCallback, if_true, hsearch]
  split_ifs <;> rfl

theorem searchFor_none (api : Api) (db : Db) :
    searchFor api db "maintainer" none = searchFor api db "maintainer" (some "") := rfl

theorem length_lt_iff_of_within {max : Nat} {matching results : List Entity}
    (h : Within max matching results) : max < results.length ↔ max < matching.length := by
  unfold Within at h
  split_ifs at h with hle
  · rw [h.length_eq]
  · exact iff_of_true h (Nat.lt_of_not_le hle)

/-- Two searches by maintainer that nobody can tell apart. -/
def Alike (api : Api) (db : Db) (x y : String) : Prop :=
  (maintained api db x = [] ∧ maintained api db y = []) ∨
    (api.maxRpcResults < (maintained api db x).length ∧
      api.maxRpcResults < (maintained api db y).length)

theorem not_both_maintained {p : Package} {name : String} (hname : name ≠ "")
    (horphan : p ∈ maintained api db "") : p ∉ maintained api db name := by
  intro hp
  have hnone := (List.mem_filter.mp horphan).2
  have hsome := (List.mem_filter.mp hp).2
  unfold isMatch at hnone hsome
  simp only [if_true, if_neg hname, List.any_eq_true, Bool.and_eq_true, beq_iff_eq] at hnone hsome
  obtain ⟨u, -, -, huid⟩ := hsome
  simp [huid] at hnone

theorem answerOf_eq_iff (a b : List Entity) :
    answerOf api a = answerOf api b ↔
      (api.maxRpcResults < a.length ∧ api.maxRpcResults < b.length) ∨
        (a.length ≤ api.maxRpcResults ∧ b.length ≤ api.maxRpcResults ∧
          (a.map fun e => popSubmitter (getJsonData api e)) =
            b.map fun e => popSubmitter (getJsonData api e)) := by
  unfold answerOf
  by_cases ha : api.maxRpcResults < a.length
  · by_cases hb : api.maxRpcResults < b.length
    · simp [ha, hb]
    · simp [ha, hb]
  · by_cases hb : api.maxRpcResults < b.length
    · simp [ha, hb]
    · simp [ha, hb, Nat.le_of_not_lt ha, Nat.le_of_not_lt hb]

theorem searchFor_maintainer (h : Catalogue api.dbms.cfg db) (name : String) :
    ∃ results, Within api.maxRpcResults ((maintained api db name).map (entityOf db)) results ∧
      (api.maxRpcResults < results.length ↔
        api.maxRpcResults < (maintained api db name).length) ∧
      searchFor api db "maintainer" (some name) = answerOf api results := by
  obtain ⟨results, hwithin, hresults⟩ :=
    searchFor_exposed h "maintainer" (by decide) (some name) (.inl rfl)
  have hlt := length_lt_iff_of_within hwithin
  rw [List.length_map] at hlt
  exact ⟨results, hwithin, hlt, hresults⟩

theorem perm_of_within {max : Nat} {matching results : List Entity}
    (h : Within max matching results) (hle : results.length ≤ max) : results.Perm matching := by
  unfold Within at h
  split_ifs at h
  · exact h
  · omega

/-- The orphans and what somebody maintains have the same answer only if they are alike. -/
theorem searchFor_maintainer_eq_iff (h : Catalogue api.dbms.cfg db) {name : String}
    (hname : name ≠ "") :
    searchFor api db "maintainer" (some "") = searchFor api db "maintainer" (some name) ↔
      Alike api db "" name := by
  obtain ⟨orphans, hwithin, hlt, horphans⟩ := searchFor_maintainer h ""
  obtain ⟨found, hwithin', hlt', hfound⟩ := searchFor_maintainer h name
  rw [horphans, hfound, answerOf_eq_iff, hlt, hlt']
  unfold Alike
  rw [or_comm (a := maintained api db "" = [] ∧ _)]
  refine or_congr Iff.rfl ?_
  constructor
  · intro ⟨hle, hle', hsame⟩
    have hperm := perm_of_within hwithin hle
    have hperm' := perm_of_within hwithin' hle'
    have hnone : maintained api db "" = [] := by
      rw [List.eq_nil_iff_forall_not_mem]
      intro p hp
      have hrecord : popSubmitter (getJsonData api (entityOf db p)) ∈
          found.map fun e => popSubmitter (getJsonData api e) := by
        rw [← hsame]
        exact List.mem_map_of_mem (hperm.mem_iff.mpr (List.mem_map_of_mem hp))
      obtain ⟨e, he, heq⟩ := List.mem_map.mp hrecord
      obtain ⟨q, hq, rfl⟩ := List.mem_map.mp (hperm'.mem_iff.mp he)
      have hid : q.id = p.id := congrArg PackageData.id heq
      have hpq := List.inj_on_of_nodup_map h.packages (List.mem_of_mem_filter hq)
        (List.mem_of_mem_filter hp) hid
      exact not_both_maintained hname hp (hpq ▸ hq)
    refine ⟨hnone, List.eq_nil_of_length_eq_zero ?_⟩
    have hlen := congrArg List.length hsame
    have horphanLen := hperm.length_eq
    have hfoundLen := hperm'.length_eq
    rw [hnone, List.map_nil, List.length_nil] at horphanLen
    rw [List.length_map] at hfoundLen
    rw [List.length_map, List.length_map] at hlen
    omega
  · intro ⟨hnone, hnone'⟩
    rw [hnone, List.length_nil] at hlt
    rw [hnone', List.length_nil] at hlt'
    have hperm := perm_of_within hwithin (by omega)
    have hperm' := perm_of_within hwithin' (by omega)
    rw [hnone, List.map_nil] at hperm
    rw [hnone', List.map_nil] at hperm'
    rw [List.perm_nil.mp hperm, List.perm_nil.mp hperm']
    exact ⟨Nat.zero_le _, Nat.zero_le _, rfl⟩

theorem searchFor_of_error (hby : by_ ∈ exposedBys) (arg : Option String) {message : String}
    (h : handleSearchType api db (byAlias by_) arg.toList = .error (.rpcError message)) :
    searchFor api db by_ arg = .ok (.json 200 (.error (some 5) message)) := by
  rw [searchFor, handle, verifyInputs_search hby]
  simp only [handleCallback, if_true, h]
  rfl

/-- Without an argument no other field is searched by, and with one nobody is told so. -/
theorem searchFor_none_ne (h : Catalogue api.dbms.cfg db) (hby : by_ ∈ exposedBys)
    (hmaintainer : by_ ≠ "maintainer") (arg : String) :
    searchFor api db by_ none ≠ searchFor api db by_ (some arg) := by
  have hm : byAlias by_ ≠ "m" := fun heq => hmaintainer ((byAlias_eq_m_iff by_ hby).mp heq)
  have hnone : handleSearchType api db (byAlias by_) [] =
      .error (.rpcError "No request type/data specified.") := by
    rw [handleSearchType, if_pos ⟨hm, rfl⟩]
  rw [searchFor_of_error hby none hnone]
  by_cases hlen : 2 ≤ arg.length
  · obtain ⟨results, -, hresults⟩ := searchFor_exposed h by_ hby (some arg) (.inr hlen)
    rw [hresults, answerOf]
    split_ifs <;> simp
  · have hsmall : handleSearchType api db (byAlias by_) [arg] =
        .error (.rpcError "Query arg too small.") := by
      have hlt : byAlias by_ ≠ "m" ∧ ([arg].headD "").length < 2 := ⟨hm, Nat.lt_of_not_le hlen⟩
      rw [handleSearchType, if_neg (by simp)]
      exact if_pos hlt
    rw [searchFor_of_error hby (some arg) hsmall]
    simp

/-! ### The forms together -/

/-- No two of the searches have found anything different. -/
def AllAlike (api : Api) (db : Db) (names : List String) : Prop :=
  (∀ x ∈ names, maintained api db x = []) ∨
    ∀ x ∈ names, api.maxRpcResults < (maintained api db x).length

theorem allAlike_iff (x y z : String) :
    AllAlike api db [x, y, z] ↔ Alike api db x y ∧ Alike api db x z := by
  unfold AllAlike
  simp only [List.mem_cons, List.not_mem_nil, or_false, forall_eq_or_imp, forall_eq]
  constructor
  · intro hall
    rcases hall with ⟨hx, hy, hz⟩ | ⟨hx, hy, hz⟩
    · exact ⟨.inl ⟨hx, hy⟩, .inl ⟨hx, hz⟩⟩
    · exact ⟨.inr ⟨hx, hy⟩, .inr ⟨hx, hz⟩⟩
  · intro ⟨hxy, hxz⟩
    rcases hxy with ⟨hx, hy⟩ | ⟨hx, hy⟩
    · rcases hxz with ⟨-, hz⟩ | ⟨hx', -⟩
      · exact .inl ⟨hx, hy, hz⟩
      · rw [hx] at hx'
        exact absurd hx' (Nat.not_lt_zero _)
    · rcases hxz with ⟨hx', -⟩ | ⟨-, hz⟩
      · rw [hx'] at hx
        exact absurd hx (Nat.not_lt_zero _)
      · exact .inr ⟨hx, hy, hz⟩

theorem first_maintainer_iff (h : Catalogue api.dbms.cfg db) (e : Encoding)
    (hroutable : Routable arg) :
    (∀ f g : Form, searchFor api db "maintainer" (f.first e arg) =
      searchFor api db "maintainer" (g.first e arg)) ↔ AllAlike api db ["", arg, cut e arg] := by
  have hpost : Form.post.first e arg = some arg := if_neg hroutable.1
  have harg := searchFor_maintainer_eq_iff h hroutable.1
  rw [allAlike_iff, ← harg]
  constructor
  · intro hsame
    have hpath := hsame .path .post
    rw [hpost] at hpath
    refine ⟨hpath, ?_⟩
    by_cases hcut : cut e arg = ""
    · rw [hcut]
      exact (harg.mp hpath).imp (fun hnone => ⟨hnone.1, hnone.1⟩) fun hmany => ⟨hmany.1, hmany.1⟩
    · exact (searchFor_maintainer_eq_iff h hcut).mp (hsame .path .query)
  · intro ⟨hpath, halike⟩
    have hcut : searchFor api db "maintainer" (some (cut e arg)) =
        searchFor api db "maintainer" none := by
      by_cases hcut : cut e arg = ""
      · rw [hcut, searchFor_none]
      · exact ((searchFor_maintainer_eq_iff h hcut).mpr halike).symm
    have hall : ∀ form : Form, searchFor api db "maintainer" (form.first e arg) =
        searchFor api db "maintainer" none := by
      intro form
      cases form with
      | path => rfl
      | query => exact hcut
      | post => rw [hpost, ← hpath, searchFor_none]
      | legacy => exact hcut
    intro f g
    rw [hall f, hall g]

/-- With a field in the query string the argument in the path is lost. -/
theorem ask_path_loses_argument :
    (Form.path.ask plainApi smallCatalogue {} "::1" 1000 .percent "docs" "name").1 =
      .ok (.json 200 (.error (some 5) "No request type/data specified.")) ∧
    (Form.query.ask plainApi smallCatalogue {} "::1" 1000 .percent "docs" "name").1 =
      .ok (.json 200 (.results (some 5) "search"
        [recordOf plainApi smallCatalogue (smallPackage 6 "foo-docs")])) := by decide

end

end Aurweb.Rpc
