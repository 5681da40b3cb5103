/-
`aurweb/rpc.py` and `aurweb/routers/rpc.py`: a request of the RPC and the answer to it.

The searches are followed to the records they return, less `Popularity`, which depends on the
clock.  The handlers of the other types, and what the framework does before a route is called,
are parameters.
-/
import Aurweb.ParseArgs
import Aurweb.Ratelimit
import Aurweb.Search

namespace Aurweb.Rpc

open Percent

/-! ### `aurweb/rpc.py` -/

/-- The columns of `entities`. -/
structure Entity where
  id : Nat
  name : String
  version : String
  description : Option String
  url : Option String
  packageBaseID : Nat
  packageBaseName : String
  numVotes : Nat
  outOfDateTS : Option Nat
  submittedTS : Nat
  modifiedTS : Nat
  maintainer : Option String
  submitter : Option String
  deriving DecidableEq, Repr

/-- The record of a package; a key that is popped is `none`. -/
structure PackageData where
  id : Nat
  name : String
  packageBaseID : Nat
  packageBase : String
  maintainer : Option String
  submitter : Option (Option String)
  version : String
  description : Option String
  url : Option String
  urlPath : String
  numVotes : Nat
  outOfDate : Option Nat
  firstSubmitted : Nat
  lastModified : Nat
  deriving DecidableEq, Repr

/-- What a handler raises. -/
inductive Raised
  | rpcError (message : String)
  | exception (name : String)
  deriving DecidableEq, Repr

/-- The data of an answer. -/
inductive Reply
  | error (version : Option Int) (message : String)
  | results (version : Option Int) (type : String) (results : List PackageData)
  | names (names : List String)
  deriving DecidableEq, Repr

/-- What the answers depend on besides the database: `[options]`, `[ratelimit]`, the handlers of
the other types, the digest of an answer and how the framework reads a number. -/
structure Api where
  dbms : Search.Dbms
  maxRpcResults : Nat
  snapshotURI : String → String
  ratelimit : Ratelimit.Settings
  cache : Bool
  others : Db → String → String → List String → Except Raised Reply
  etag : Reply → String
  int : List Char → Option Int
  int_five : int ['5'] = some 5

def exposedVersions : List Int := [5]

def exposedTypes : List String :=
  ["info", "multiinfo", "search", "msearch", "suggest", "suggest-pkgbase"]

/-- `TYPE_ALIASES.get(type, type)`. -/
def typeAlias (type : Option String) : Option String :=
  if type = some "info" then some "multiinfo" else type

def exposedBys : List String :=
  ["name-desc", "name", "maintainer", "depends", "makedepends", "optdepends", "checkdepends",
    "provides", "conflicts", "replaces", "groups", "submitter", "keywords", "comaintainers"]

/-- `BY_ALIASES.get(by, by)`. -/
def byAlias : String → String
  | "name-desc" => "nd"
  | "name" => "n"
  | "maintainer" => "m"
  | "submitter" => "s"
  | "keywords" => "k"
  | "comaintainers" => "c"
  | by_ => by_

/-- `RPC_SEARCH_BY`. -/
def rpcSearchBy : String := "name-desc"

/-- `entities`. -/
def entities (db : Db) (query : List Search.Row) : List Entity :=
  let query := Query.outer (fun r => db.users.filter fun u => some u.id == r.base.submitterUID)
    (fun r u => { r with submitter := u }) query
  (Query.groupBy (·.package.id) query).map fun r =>
    { id := r.package.id
      name := r.package.name
      version := r.package.version
      description := r.package.description
      url := r.package.url
      packageBaseID := r.package.packageBaseID
      packageBaseName := r.base.name
      numVotes := r.base.numVotes
      outOfDateTS := r.base.outOfDateTS
      submittedTS := r.base.submittedTS
      modifiedTS := r.base.modifiedTS
      maintainer := r.user.map (·.username)
      submitter := r.submitter.map (·.username) }

/-- `get_json_data`. -/
def getJsonData (api : Api) (e : Entity) : PackageData where
  id := e.id
  name := e.name
  packageBaseID := e.packageBaseID
  packageBase := e.packageBaseName
  maintainer := e.maintainer
  submitter := some e.submitter
  version := e.version
  description := e.description
  url := e.url
  urlPath := api.snapshotURI e.packageBaseName
  numVotes := e.numVotes
  outOfDate := e.outOfDateTS
  firstSubmitted := e.submittedTS
  lastModified := e.modifiedTS

/-- `pkg.pop("Submitter")`. -/
def popSubmitter (data : PackageData) : PackageData := { data with submitter := none }

/-- `_handle_search_type`. -/
def handleSearchType (api : Api) (db : Db) (by_ : String) (args : List String) :
    Except Raised (List PackageData) :=
  if by_ ≠ "m" ∧ args = [] then .error (.rpcError "No request type/data specified.")
  else
    let arg := args.headD ""
    if by_ ≠ "m" ∧ arg.length < 2 then .error (.rpcError "Query arg too small.")
    else
      match Search.RPCSearch.searchBy api.dbms db by_ arg (Search.RPCSearch.init db) with
      | .error e => .error (.exception e)
      | .ok search =>
          let query := (entities db search.query).take (api.maxRpcResults + 1)
          let results :=
            if by_ = "provides" then
              let search := (Search.RPCSearch.init db).searchByExactName api.dbms db arg
              Query.union query (entities db search.query)
            else query
          if results.length > api.maxRpcResults then
            .error (.rpcError "Too many package results.")
          else .ok (results.map fun pkg => popSubmitter (getJsonData api pkg))

/-- `_verify_inputs`. -/
def verifyInputs (version : Option Int) (type : Option String) (by_ : String) :
    Except String String :=
  match version with
  | none => .error "Please specify an API version."
  | some v =>
      if v ∉ exposedVersions then .error "Invalid version specified."
      else if by_ ∉ exposedBys then .error "Incorrect by field specified."
      else
        match type with
        | none => .error "No request type/data specified."
        | some type =>
            if type ∉ exposedTypes then .error "Incorrect request type specified." else .ok type

/-- `_handle_callback`, with the data it is wrapped in. -/
def handleCallback (api : Api) (db : Db) (version : Option Int) (type by_ : String)
    (args : List String) : Except Raised Reply :=
  if type = "search" then
    (handleSearchType api db by_ args).map (Reply.results version type)
  else if type = "msearch" then
    (handleSearchType api db "m" args).map (Reply.results version type)
  else api.others db type by_ args

/-- `RPC(version, type).handle(by, args)`. -/
def handle (api : Api) (db : Db) (version : Option Int) (type : Option String) (by_ : String)
    (args : List String) : Except String Reply :=
  match verifyInputs version (typeAlias type) by_ with
  | .error message => .ok (.error version message)
  | .ok type =>
      match handleCallback api db version type (byAlias by_) args with
      | .error (.rpcError message) => .ok (.error version message)
      | .error (.exception e) => .error e
      | .ok reply => .ok reply

/-! ### `aurweb/routers/rpc.py` -/

/-- What the routes read of a request. -/
structure Request where
  host : String
  now : Int
  /-- `request.url.query`. -/
  query : List Char := []
  ifNoneMatch : String := ""
  deriving DecidableEq, Repr

inductive Response
  | documentation
  | json (status : Nat) (reply : Reply)
  | javascript (callback : String) (reply : Reply)
  | notModified
  /-- The framework does not accept the parameters. -/
  | unprocessable
  /-- No route has the path. -/
  | notFound
  deriving DecidableEq, Repr

/-- `JSONP_EXPR`; `$` also matches before a line end. -/
def isCallback (callback : String) : Bool :=
  let cs := callback.toList
  let cs := if cs.getLast? = some '\n' then cs.dropLast else cs
  decide (1 ≤ cs.length) && decide (cs.length ≤ 128) &&
    cs.all fun c => c.isAlphanum || c == '(' || c == ')' || c == '_' || c == '.'

/-- `If-None-Match` without the quotes and the blanks around it. -/
def stripQuotes (s : String) : String :=
  let isQuote := fun c => c == '\t' || c == '\n' || c == '\r' || c == Char.ofNat 34 || c == ' '
  String.ofList ((s.toList.dropWhile isQuote).reverse.dropWhile isQuote).reverse

/-- `rpc_request` behind the rate limiter. -/
def answer (api : Api) (db : Db) (r : Request) (v : Option Int) (type : Option String)
    (by_ : String) (arg : Option String) (args : List String) (callback : Option String) :
    Except String Response :=
  let callback := callback.filter (· ≠ "")
  if callback.any (!isCallback ·) then .ok (.json 200 (.error v "Invalid callback name."))
  else
    let arguments :=
      if r.query ≠ [] then parseArgs r.query else (arg.filter (· ≠ "")).toList ++ args
    match handle api db v type by_ arguments with
    | .error e => .error e
    | .ok data =>
        if r.ifNoneMatch ≠ "" ∧ stripQuotes r.ifNoneMatch = api.etag data then .ok .notModified
        else
          match callback with
          | none => .ok (.json 200 data)
          | some callback => .ok (.javascript callback data)

/-- `rpc_request`. -/
def rpcRequest (api : Api) (db : Db) (st : Ratelimit.Stores) (r : Request) (v : Option Int)
    (type : Option String) (by_ : String) (arg : Option String) (args : List String)
    (callback : Option String) : Except String Response × Ratelimit.Stores :=
  match Ratelimit.checkRatelimit api.ratelimit api.cache st { host := r.host, now := r.now } with
  | (.error e, st) => (.error e, st)
  | (.ok true, st) => (.ok (.json 429 (.error v "Rate limit reached")), st)
  | (.ok false, st) => (answer api db r v type by_ arg args callback, st)

/-- What `Query(default=...)` gives for a parameter. -/
def queryParam (query : List Char) (key : String) : Option String :=
  (lookupLast key.toList (parseQsl query)).map String.ofList

/-- `GET /rpc`. -/
def rpc (api : Api) (db : Db) (st : Ratelimit.Stores) (r : Request) :
    Except String Response × Ratelimit.Stores :=
  if r.query = [] then (.ok .documentation, st)
  else
    let go := fun v =>
      rpcRequest api db st r v (queryParam r.query "type")
        ((queryParam r.query "by").getD rpcSearchBy) (queryParam r.query "arg")
        (((parseQsl r.query).filter (·.1 = "arg[]".toList)).map fun field => String.ofList field.2)
        (queryParam r.query "callback")
    match queryParam r.query "v" with
    | none => go none
    | some s =>
        match api.int s.toList with
        | none => (.ok .unprocessable, st)
        | some v => go (some v)

/-- `GET /rpc/v{version}/search/{arg}`: a parameter of the path is a segment of it. -/
def rpcOpenapiSearchArg (api : Api) (db : Db) (st : Ratelimit.Stores) (r : Request)
    (version : List Char) (arg : String) : Except String Response × Ratelimit.Stores :=
  if arg = "" ∨ '/' ∈ arg.toList then (.ok .notFound, st)
  else
    match api.int version with
    | none => (.ok .unprocessable, st)
    | some v =>
        rpcRequest api db st r (some v) (some "search")
          ((queryParam r.query "by").getD rpcSearchBy) (some arg) [] none

/-- `GET /rpc/v{version}/search`. -/
def rpcOpenapiSearch (api : Api) (db : Db) (st : Ratelimit.Stores) (r : Request)
    (version : List Char) : Except String Response × Ratelimit.Stores :=
  match api.int version with
  | none => (.ok .unprocessable, st)
  | some v =>
      rpcRequest api db st r (some v) (some "search")
        ((queryParam r.query "by").getD rpcSearchBy) (some ((queryParam r.query "arg").getD "")) []
        none

/-- A value of the JSON body. -/
inductive Json
  | str (s : String)
  | other
  deriving DecidableEq, Repr

/-- The body of a search: what it has under `by` and `arg`. -/
structure SearchBody where
  by_ : Option Json := none
  arg : Option Json := none
  deriving DecidableEq, Repr

/-- `POST /rpc/v{version}/search`. -/
def rpcOpenapiSearchPost (api : Api) (db : Db) (st : Ratelimit.Stores) (r : Request)
    (version : List Char) (data : SearchBody) : Except String Response × Ratelimit.Stores :=
  match api.int version with
  | none => (.ok .unprocessable, st)
  | some v =>
      match data.by_.getD (.str rpcSearchBy), data.arg.getD (.str "") with
      | .other, _ => (.ok (.json 400 (.error (some v) "the 'by' parameter must be of string type")), st)
      | _, .other =>
          (.ok (.json 400 (.error (some v) "the 'arg' parameter must be of string type")), st)
      | .str by_, .str arg =>
          rpcRequest api db st r (some v) (some "search") by_ (some arg) [] none

/-! ### A search in its forms -/

inductive Form
  | path
  | query
  | post
  | legacy
  deriving DecidableEq, Repr

/-- `key=value`, the value encoded. -/
def field (e : Encoding) (key value : String) : List Char :=
  key.toList ++ '=' :: e.encode value.toList

/-- The query string of a form. -/
def Form.queryString (e : Encoding) (arg by_ : String) : Form → List Char
  | .path => field e "by" by_
  | .query => ['&'].intercalate [field e "arg" arg, field e "by" by_]
  | .post => []
  | .legacy =>
      ['&'].intercalate
        [field e "v" "5", field e "type" "search", field e "by" by_, field e "arg" arg]

/-- The search for an argument by a field, asked for in one of the forms. -/
def Form.ask (api : Api) (db : Db) (st : Ratelimit.Stores) (host : String) (now : Int)
    (e : Encoding) (arg by_ : String) (form : Form) : Except String Response × Ratelimit.Stores :=
  let r : Request := { host, now, query := form.queryString e arg by_ }
  match form with
  | .path => rpcOpenapiSearchArg api db st r ['5'] arg
  | .query => rpcOpenapiSearch api db st r ['5']
  | .post => rpcOpenapiSearchPost api db st r ['5'] { by_ := some (.str by_), arg := some (.str arg) }
  | .legacy => rpc api db st r

end Aurweb.Rpc
