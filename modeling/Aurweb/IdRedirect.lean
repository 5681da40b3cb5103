/-
`id_redirect_middleware` of `aurweb/asgi.py`.

The parameters are the pairs that the framework has parsed from the query string; it is the
mapping it makes of them, with the last value of each key, that the middleware goes through.  A
`RedirectResponse` quotes its address once more, with a `safe` that leaves alone what delimits
the parts of an address and what begins an escape.
-/
import Aurweb.Lib.Dict
import Aurweb.Lib.Unencoded

namespace Aurweb.IdRedirect

open Percent

/-- `request.url.path`: an address is cut at its first `?` and its first `#` to find it. -/
structure UrlPath where
  path : List Char
  question : '?' ∉ path
  hash : '#' ∉ path

/-- `request.query_params.multi_items()`. -/
abbrev Params := List (List Char × List Char)

/-- `"id"`. -/
def idKey : List Char := ['i', 'd']

/-- `rstrip("/")`. -/
def rstrip (path : List Char) : List Char := (path.reverse.dropWhile (· = '/')).reverse

/-- What a `RedirectResponse` does not quote. -/
def redirectSafe : List Char :=
  [':', '/', '%', '#', '?', '=', '@', '[', ']', '!', '$', '&', '\'', '(', ')', '*', '+', ',']

/-- The `Location` of `RedirectResponse(url)`. -/
def redirectResponse (url : List Char) : List Char := quoteWith redirectSafe url

/-- `id_redirect_middleware`, unless it goes on with the request. -/
def idRedirectMiddleware (path : UrlPath) (queryParams : Params) : Option (List Char) :=
  match Dict.ofList (Dict.ofPairs queryParams) idKey with
  | some id =>
      let qs := ((Dict.ofPairs queryParams).filter fun p => p.1 ≠ idKey).map
        fun p => p.1 ++ '=' :: quotePlus p.2
      let qs := if qs.isEmpty then [] else '?' :: ['&'].intercalate qs
      some (redirectResponse (rstrip path.path ++ '/' :: (id ++ qs)))
  | none => none

/-! ### Following the redirect -/

/-- The query string of an address. -/
def queryString (url : List Char) : List Char :=
  ((beforeFragment url).dropWhile (· ≠ '?')).drop 1

/-- The parameters of the request that is made for it. -/
def requestParams (url : List Char) : Params := parseQsl (queryString url)

end Aurweb.IdRedirect
