/-
Where a visitor is sent: the redirect to the login page, and the `next`, `q` and `redirect` of
the login, logout, language and SSO routes.

A form field that is left empty is no field to the framework, while an empty query parameter is
one.  The login page keeps its `next` in a hidden field, which it escapes and the browser reads
back.  `Step` is what a visitor can come to after each request; the provider of the SSO is any that
sends the visitor back to the address it was given, with what it likes after it.
-/
import Aurweb.IdRedirect
import Mathlib.Logic.Relation

namespace Aurweb.Redirects

open Percent
open IdRedirect (UrlPath redirectSafe redirectResponse requestParams)

abbrev Text := List Char

/-- `aur_location`. -/
structure Site where
  aurLocation : Text
  scheme : "http".toList <+: aurLocation
  /-- A redirect sends it as it is, and it has no escapes. -/
  plain : ∀ c ∈ aurLocation, c ≠ '%' ∧ quoteCharWith redirectSafe c = [c]

/-- What the paths begin with that `requires_auth` and `requires_guest` guard. -/
def guardedRoots : List Text :=
  ["/account", "/addvote", "/login", "/logout", "/package-maintainer", "/packages", "/passreset",
    "/pkgbase", "/register", "/requests", "/tos"].map String.toList

structure RoutePath extends UrlPath where
  guarded : ∃ root ∈ guardedRoots, root <+: path

inductive Method
  | get
  | head
  | post
  deriving DecidableEq, Repr

/-- What the guards read of a request. -/
structure Request where
  authenticated : Bool
  method : Method
  path : RoutePath
  referer : Option Text

inductive Answer
  | redirect (location : Text)
  | loginPage (next : Text)
  | status (code : Nat)

/-- A form field, as the framework gives it. -/
def formField (value : Option Text) : Option Text := value.filter (· ≠ [])

def loginPath : Text := "/login".toList

def nextKey : Text := "next".toList

def redirectKey : Text := "redirect".toList

/-- `urlencode` of one parameter. -/
def urlencode (key value : Text) : Text := quotePlus key ++ '=' :: quotePlus value

/-! ### The guards -/

/-- `"/login?" + urlencode({"next": url})`. -/
def toLogin (url : Text) : Answer :=
  .redirect (redirectResponse (loginPath ++ '?' :: urlencode nextKey url))

/-- `_auth_required`. -/
def authRequired (site : Site) (authGoal : Bool) (request : Request) (func : Answer) : Answer :=
  if request.authenticated = authGoal then func
  else if authGoal = false then .redirect (redirectResponse ['/'])
  else if request.method = .get ∨ request.method = .head then toLogin request.path.path
  else
    match request.referer.filter (· ≠ []) with
    | some referer =>
        let aur := site.aurLocation ++ ['/']
        if !aur.isPrefixOf referer then .status 400
        else toLogin (referer.drop (aur.length - 1))
    | none => toLogin ['/']

/-! ### `auth.py` -/

/-- `login_template`, whose page is under `/login`. -/
def loginTemplate (next : Text) : Answer := .loginPage (if next ≠ [] then next else loginPath)

/-- `login_get`. -/
def loginGet (next : Option Text) : Answer := loginTemplate (next.getD ['/'])

/-- `login_post`; `sid` is whether the user was found and logged in. -/
def loginPost (site : Site) (request : Request) (next : Option Text) (sid : Bool) : Answer :=
  match formField next with
  | none => .status 422
  | some next =>
      authRequired site false request <|
        if !request.referer.any fun referer =>
            (site.aurLocation ++ loginPath).isPrefixOf referer then .status 400
        else if !sid then loginTemplate next
        else .redirect (redirectResponse next)

/-- `logout`. -/
def logout (site : Site) (request : Request) (next : Option Text) : Answer :=
  authRequired site true request (.redirect (redirectResponse ((formField next).getD ['/'])))

/-! ### `html.py` -/

/-- `language`. -/
def language (next q : Option Text) : Answer :=
  match formField next with
  | none => .status 422
  | some next =>
      if next.head? ≠ some '/' then .status 400
      else
        let queryString := match formField q with
          | some q => '?' :: q
          | none => []
        .redirect (redirectResponse (next ++ queryString))

/-! ### `sso.py` -/

/-- The `authenticate_url` of `login`. -/
def authenticateUrl (site : Site) (redirect : Option Text) : Text :=
  let authenticateUrl := site.aurLocation ++ "/sso/authenticate".toList
  match redirect.filter (· ≠ []) with
  | some redirect => authenticateUrl ++ '?' :: urlencode redirectKey redirect
  | none => authenticateUrl

/-- The site's address and a slash. -/
def Site.root (site : Site) : Text :=
  if ['/'].isSuffixOf site.aurLocation then site.aurLocation else site.aurLocation ++ ['/']

/-- `is_aur_url`. -/
def isAurUrl (site : Site) (url : Text) : Bool := site.root.isPrefixOf url

/-- `authenticate`, once it has opened the session. -/
def authenticate (site : Site) (redirect : Option Text) : Answer :=
  .redirect (redirectResponse
    (((redirect.filter (· ≠ [])).filter fun redirect => isAurUrl site redirect).getD ['/']))

/-! ### The visitor -/

inductive Visitor
  /-- Asks for a route that `requires_auth` guards. -/
  | asks (request : Request)
  | loginGet (next : Option Text)
  /-- Has the login page open. -/
  | reads (next : Text)
  | loginPost (request : Request) (next : Option Text)
  | logout (request : Request) (next : Option Text)
  | language (next q : Option Text)
  | ssoLogin (redirect : Option Text)
  | authenticate (redirect : Option Text)
  | sentTo (location : Text)

/-- Whoever is asked to log in first is sent to the login page, whose form posts its `next` to the
login or, for a visitor who is logged in, to the logout. -/
inductive Step (site : Site) : Visitor → Visitor → Prop
  | guarded {request location code} :
      authRequired site true request (.status code) = .redirect location →
      Step site (.asks request) (.loginGet (lookupLast nextKey (requestParams location)))
  | loginPage {next hidden} : loginGet next = .loginPage hidden →
      Step site (.loginGet next) (.reads hidden)
  | submits {request : Request} (next : Text) : request.authenticated = false →
      Step site (.reads next) (.loginPost request (some next))
  | leaves {request : Request} (next : Text) : request.authenticated = true →
      Step site (.reads next) (.logout request (some next))
  | retries {request next hidden} (sid : Bool) :
      loginPost site request next sid = .loginPage hidden →
      Step site (.loginPost request next) (.reads hidden)
  | login {request next location} (sid : Bool) :
      loginPost site request next sid = .redirect location →
      Step site (.loginPost request next) (.sentTo location)
  | logout {request next location} : request.authenticated = true →
      logout site request next = .redirect location →
      Step site (.logout request next) (.sentTo location)
  | loggedOut {request next location} : request.authenticated = false →
      logout site request next = .redirect location →
      Step site (.logout request next) (.loginGet (lookupLast nextKey (requestParams location)))
  | language {next q location} : language next q = .redirect location →
      Step site (.language next q) (.sentTo location)
  | provider (redirect : Option Text) (rest : Text) :
      Step site (.ssoLogin redirect) (.authenticate
        (lookupLast redirectKey (requestParams (authenticateUrl site redirect ++ rest))))
  | authenticate {redirect location} : authenticate site redirect = .redirect location →
      Step site (.authenticate redirect) (.sentTo location)

end Aurweb.Redirects
