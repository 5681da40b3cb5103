/-
When a visitor is sent to an address of this site.

What a redirect escapes is never at the front of an address of the site, so an address is on the
site if and only if the text it was made from begins as one does.  The login page hands on what
it was given, and so does its form.  A visitor is therefore sent to the site if and only if what
came with the first request begins so, which no login, no logout and no Referer is tested for, and
the language only in part; the SSO tests for it.
-/
import Aurweb.Proofs.IdRedirect
import Aurweb.Redirects

namespace Aurweb.Redirects

open Percent
open IdRedirect (UrlPath redirectSafe redirectResponse requestParams queryString queryString_append
  requestParams_redirectResponse requestParams_id rebuilt)

/-- A path with a single slash in front, or an address that begins with the site's and a slash. -/
def OnSite (site : Site) (location : Text) : Prop :=
  (['/'] <+: location ∧ ¬['/', '/'] <+: location ∧ ¬['/', '\\'] <+: location) ∨
    site.root <+: location

/-- The same of what a redirect is made from, which escapes a backslash. -/
def Inside (site : Site) (url : Text) : Prop :=
  (['/'] <+: url ∧ ¬['/', '/'] <+: url) ∨ site.root <+: url

/-- The Referer of a form does not go on with a second slash after the site. -/
def Request.Stays (site : Site) (request : Request) : Prop :=
  request.method = .post → ∀ referer ∈ request.referer,
    ¬site.aurLocation ++ ['/', '/'] <+: referer

/-- A `next` that is given is inside. -/
def Within (site : Site) (next : Option Text) : Prop := ∀ url ∈ formField next, Inside site url

/-- What the visitor brings stays on the site. -/
def Visitor.Stays (site : Site) : Visitor → Prop
  | .asks request => request.Stays site
  | .loginGet next => Within site next
  | .reads next => Within site (some next)
  | .loginPost request next => request.authenticated = false → Within site next
  | .logout request next =>
      (request.authenticated = true → Within site next) ∧
        (request.authenticated = false → request.Stays site)
  | .language next _ => ∀ url ∈ next, ¬['/', '/'] <+: url
  | .ssoLogin _ => True
  | .authenticate _ => True
  | .sentTo location => OnSite site location

section

variable {site : Site} {request : Request} {url location : Text}

/-! ### The front of an address -/

theorem plain_slash : ∀ c ∈ ['/'], c ≠ '%' ∧ quoteCharWith redirectSafe c = [c] := by
  intro c hc
  rw [List.mem_singleton.mp hc]
  decide

theorem Site.plain_root (site : Site) :
    ∀ c ∈ site.root, c ≠ '%' ∧ quoteCharWith redirectSafe c = [c] := by
  intro c hc
  unfold Site.root at hc
  split at hc
  · exact site.plain c hc
  · rcases List.mem_append.mp hc with hc | hc
    · exact site.plain c hc
    · exact plain_slash c hc

/-- The site's address does not begin with a slash. -/
theorem Site.not_root_prefix (site : Site) (s : Text) : ¬site.root <+: '/' :: s := by
  have hscheme : "http".toList <+: site.root := by
    unfold Site.root
    split
    · exact site.scheme
    · exact site.scheme.trans (List.prefix_append ..)
  intro h
  have hfront := hscheme.trans h
  rw [show "http".toList = 'h' :: ['t', 't', 'p'] from rfl, List.cons_prefix_cons] at hfront
  exact absurd hfront.1 (by decide)

theorem backslash_notMem_redirectResponse (url : Text) : '\\' ∉ redirectResponse url := by
  intro h
  obtain ⟨c, -, hc⟩ := List.mem_flatMap.mp h
  by_cases heq : c = '\\'
  · rw [heq] at hc
    exact absurd hc (by decide)
  · exact forall_quoteCharWith_ne (by decide) heq _ hc rfl

theorem onSite_redirectResponse_iff (site : Site) (url : Text) :
    OnSite site (redirectResponse url) ↔ Inside site url := by
  have hslash : ['/'] <+: redirectResponse url ↔ ['/'] <+: url :=
    prefix_quoteWith_iff plain_slash url
  have hslashes : ['/', '/'] <+: redirectResponse url ↔ ['/', '/'] <+: url := by
    refine prefix_quoteWith_iff ?_ url
    intro c hc
    exact plain_slash c (by simpa using hc)
  have hroot : site.root <+: redirectResponse url ↔ site.root <+: url :=
    prefix_quoteWith_iff site.plain_root url
  have hback : ¬['/', '\\'] <+: redirectResponse url := by
    intro h
    exact backslash_notMem_redirectResponse url (h.subset (by simp))
  unfold OnSite Inside
  rw [hslash, hslashes, hroot]
  simp [hback]

theorem Inside.ne_nil (h : Inside site url) : url ≠ [] := by
  rintro rfl
  rcases h with ⟨h, -⟩ | h
  · simp at h
  · exact site.not_root_prefix [] (h.trans (List.nil_prefix ..))

theorem inside_slash (site : Site) : Inside site ['/'] := Or.inl ⟨by decide, by decide⟩

/-- A text with a slash in front is inside unless another follows. -/
theorem inside_cons_iff (site : Site) (s : Text) :
    Inside site ('/' :: s) ↔ ¬['/', '/'] <+: '/' :: s := by
  have hslash : ['/'] <+: '/' :: s := by simp
  unfold Inside
  simp [hslash, site.not_root_prefix]

/-- A guarded path has one slash in front. -/
theorem RoutePath.inside (site : Site) (path : RoutePath) : Inside site path.path := by
  obtain ⟨root, hroot, hpre⟩ := path.guarded
  have hroots : ∀ r ∈ guardedRoots, ∃ c s, r = '/' :: c :: s ∧ c ≠ '/' := by
    intro r hr
    simp only [guardedRoots, List.map_cons, List.map_nil, List.mem_cons, List.not_mem_nil,
      or_false] at hr
    rcases hr with rfl | rfl | rfl | rfl | rfl | rfl | rfl | rfl | rfl | rfl | rfl <;>
      exact ⟨_, _, rfl, by decide⟩
  obtain ⟨c, s, rfl, hc⟩ := hroots root hroot
  obtain ⟨t, ht⟩ := hpre
  rw [← ht, List.cons_append, List.cons_append, inside_cons_iff, List.cons_prefix_cons,
    List.cons_prefix_cons]
  exact fun h => hc h.2.1.symm

/-! ### The redirect to the login page -/

theorem next_plain : Plain nextKey where
  amp := by decide
  eq := by decide
  plus := by decide
  hash := by decide
  escape := by
    rintro ⟨before, a, b, after, h, -⟩
    have hmem : '%' ∈ nextKey := by
      rw [h]
      simp
    exact absurd hmem (by decide)

/-- The login page is given the `next` it was sent for. -/
theorem next_toLogin (url : Text) :
    lookupLast nextKey
      (requestParams (redirectResponse (loginPath ++ '?' :: urlencode nextKey url))) =
        some url := by
  have hparams : requestParams (loginPath ++ '?' :: urlencode nextKey url) = [(nextKey, url)] := by
    have hread := @requestParams_id loginPath (by decide) (by decide) [(nextKey, url)]
    have hpairs : Dict.ofPairs [(nextKey, url)] = [(nextKey, url)] :=
      Dict.ofPairs_of_nodup (by simp)
    have hname : quotePlus nextKey = nextKey := by decide
    have hplain : parseQsl (beforeFragment (rawQuery [(nextKey, url)])) = [(nextKey, url)] :=
      (parseQsl_rawQuery_iff _).mpr (by simpa using next_plain)
    rw [rebuilt, if_neg (by simp), hpairs, hplain, rawQuery_singleton] at hread
    rw [urlencode, hname]
    exact hread
  rw [requestParams_redirectResponse, hparams]
  simp [lookupLast]

/-- Whoever is sent to the login page will come back inside if and only if the request stays. -/
theorem toLogin_of_authRequired {func : Answer} (hout : request.authenticated = false)
    (h : authRequired site true request func = .redirect location) :
    ∃ url, toLogin url = .redirect location ∧ url ≠ [] ∧
      (Inside site url ↔ request.Stays site) := by
  unfold authRequired at h
  rw [if_neg (by simp [hout]), if_neg (by simp)] at h
  by_cases hget : request.method = .get ∨ request.method = .head
  · rw [if_pos hget] at h
    have hpost : request.method ≠ .post := by
      rcases hget with hget | hget <;> rw [hget] <;> decide
    have hinside := request.path.inside site
    exact ⟨_, h, hinside.ne_nil, iff_of_true hinside (fun hp => absurd hp hpost)⟩
  · rw [if_neg hget] at h
    have hpost : request.method = .post := by
      cases hmethod : request.method with
      | get => exact absurd (Or.inl hmethod) hget
      | head => exact absurd (Or.inr hmethod) hget
      | post => rfl
    have hstays : request.Stays site ↔ ∀ referer ∈ request.referer.filter (· ≠ []),
        ¬site.aurLocation ++ ['/', '/'] <+: referer := by
      unfold Request.Stays
      simp only [hpost, true_imp_iff, Option.mem_filter_iff, decide_eq_true_eq]
      refine forall_congr' fun referer => ⟨fun h hr => h hr.1, fun h hr hpre => ?_⟩
      refine h ⟨hr, ?_⟩ hpre
      rintro rfl
      simp at hpre
    rw [hstays]
    cases href : request.referer.filter (· ≠ []) with
    | none =>
        rw [href] at h
        exact ⟨_, h, by simp, iff_of_true (inside_slash site) (by simp)⟩
    | some referer =>
        rw [href] at h
        simp only at h
        by_cases hpre : (site.aurLocation ++ ['/']).isPrefixOf referer = true
        · obtain ⟨rest, rfl⟩ := List.isPrefixOf_iff_prefix.mp hpre
          have hdrop : (site.aurLocation ++ ['/'] ++ rest).drop
              ((site.aurLocation ++ ['/']).length - 1) = '/' :: rest := by
            simp
          rw [hpre, hdrop] at h
          refine ⟨'/' :: rest, by simpa using h, by simp, ?_⟩
          rw [inside_cons_iff]
          simp [List.prefix_append_right_inj]
        · rw [eq_false_of_ne_true hpre] at h
          exact nomatch h

/-! ### The visitor -/

theorem mem_formField {next : Option Text} :
    url ∈ formField next ↔ url ∈ next ∧ url ≠ [] := by
  unfold formField
  rw [Option.mem_filter_iff, decide_eq_true_eq]

theorem within_of_field {next : Option Text} (h : formField next = some url) :
    Within site next ↔ Inside site url := by
  unfold Within
  rw [h]
  simp

theorem within_some_iff (hurl : url ≠ []) : Within site (some url) ↔ Inside site url :=
  within_of_field (by simp [formField, hurl])

/-- What a form field comes to with a default that is inside. -/
theorem within_iff (next : Option Text) {fallback : Text} (h : Inside site fallback) :
    Inside site ((formField next).getD fallback) ↔ Within site next := by
  unfold Within
  cases formField next with
  | none => exact iff_of_true h (by simp)
  | some url => simp

/-- The login page keeps what it is given. -/
theorem loginGet_stays {next : Option Text} {hidden : Text}
    (h : loginGet next = .loginPage hidden) :
    Within site (some hidden) ↔ Within site next := by
  have hlogin : Inside site loginPath := by
    rw [show loginPath = '/' :: ['l', 'o', 'g', 'i', 'n'] from rfl, inside_cons_iff]
    decide
  unfold loginGet loginTemplate at h
  cases h
  cases next with
  | none =>
      have hslash : Within site (some ['/']) :=
        (within_some_iff (by simp)).mpr (inside_slash site)
      exact iff_of_true hslash (by simp [Within, formField])
  | some url =>
      by_cases hurl : url = []
      · rw [hurl]
        have hkept : Within site (some loginPath) :=
          (within_some_iff (by decide)).mpr hlogin
        exact iff_of_true hkept (by simp [Within, formField])
      · simp [hurl]

theorem loginNext_stays {func : Answer} (hout : request.authenticated = false)
    (h : authRequired site true request func = .redirect location) :
    Within site (lookupLast nextKey (requestParams location)) ↔ request.Stays site := by
  obtain ⟨url, hlogin, hne, hstays⟩ := toLogin_of_authRequired hout h
  cases hlogin
  rw [next_toLogin, within_some_iff hne, hstays]

/-- The login either has the login page read again, or sends the visitor on. -/
theorem loginPost_cases {next : Option Text} {sid : Bool} {answer : Answer}
    (h : loginPost site request next sid = answer) (hcode : ∀ code, answer ≠ .status code) :
    (request.authenticated = true ∧ answer = .redirect (redirectResponse ['/'])) ∨
      ∃ url, formField next = some url ∧ url ≠ [] ∧ request.authenticated = false ∧
        (answer = .loginPage url ∨ answer = .redirect (redirectResponse url)) := by
  unfold loginPost at h
  cases hnext : formField next with
  | none =>
      rw [hnext] at h
      exact absurd h.symm (hcode _)
  | some url =>
      have hne : url ≠ [] := (mem_formField.mp (show url ∈ formField next from hnext)).2
      rw [hnext] at h
      unfold authRequired at h
      cases hin : request.authenticated with
      | true =>
          rw [hin] at h
          exact Or.inl ⟨rfl, h.symm⟩
      | false =>
          refine Or.inr ⟨url, rfl, hne, rfl, ?_⟩
          rw [hin] at h
          simp only [if_true] at h
          split at h
          · exact absurd h.symm (hcode _)
          · split at h
            · left
              rw [← h, loginTemplate, if_pos hne]
            · exact Or.inr h.symm

/-- The query string has no part in how the address begins. -/
theorem language_stays {next q : Option Text} (h : language next q = .redirect location) :
    OnSite site location ↔ ∀ url ∈ next, ¬['/', '/'] <+: url := by
  unfold language at h
  cases hnext : formField next with
  | none =>
      rw [hnext] at h
      exact nomatch h
  | some url =>
      obtain ⟨hmem, -⟩ := mem_formField.mp (show url ∈ formField next from hnext)
      rw [hnext] at h
      simp only at h
      by_cases hhead : url.head? = some '/'
      · obtain ⟨s, rfl⟩ := List.head?_eq_some_iff.mp hhead
        rw [if_neg (by simp)] at h
        obtain ⟨query, hquery, rfl⟩ : ∃ query : Text, ¬['/'] <+: query ∧
            redirectResponse ('/' :: s ++ query) = location := by
          cases hq : formField q with
          | none =>
              rw [hq] at h
              exact ⟨[], by simp, by simpa using h⟩
          | some q =>
              rw [hq] at h
              exact ⟨'?' :: q, by simp, by simpa using h⟩
        rw [onSite_redirectResponse_iff, List.cons_append, inside_cons_iff, Option.mem_def.mp hmem]
        cases s with
        | nil => simpa using hquery
        | cons c s => simp
      · rw [if_pos hhead] at h
        exact nomatch h

theorem authenticate_onSite {redirect : Option Text}
    (h : authenticate site redirect = .redirect location) : OnSite site location := by
  cases h
  rw [onSite_redirectResponse_iff]
  cases hredirect : (redirect.filter (· ≠ [])).filter fun redirect => isAurUrl site redirect with
  | none => exact inside_slash site
  | some url =>
      have haur := (Option.mem_filter_iff.mp (show url ∈ _ from hredirect)).2
      exact Or.inr (List.isPrefixOf_iff_prefix.mp haur)

/-- Each step hands on what the visitor brought. -/
theorem Step.stays_iff {v w : Visitor} (h : Step site v w) : w.Stays site ↔ v.Stays site := by
  cases h with
  | @guarded request location code h =>
      have hout : request.authenticated = false := by
        by_contra hin
        rw [Bool.not_eq_false] at hin
        rw [authRequired, if_pos hin] at h
        exact nomatch h
      exact loginNext_stays hout h
  | loginPage h => exact loginGet_stays h
  | submits next hout => simp [Visitor.Stays, hout]
  | leaves next hin => simp [Visitor.Stays, hin]
  | @retries request next hidden sid h =>
      rcases loginPost_cases h (by simp) with
        ⟨-, hanswer⟩ | ⟨url, hnext, hne, hout, hanswer⟩
      · exact nomatch hanswer
      · rcases hanswer with hanswer | hanswer
        · cases hanswer
          simp only [Visitor.Stays, hout, true_imp_iff]
          rw [within_some_iff hne, within_of_field hnext]
        · exact nomatch hanswer
  | @login request next location sid h =>
      rcases loginPost_cases h (by simp) with
        ⟨hin, hanswer⟩ | ⟨url, hnext, -, hout, hanswer⟩
      · cases hanswer
        simp only [Visitor.Stays, onSite_redirectResponse_iff, hin]
        exact iff_of_true (inside_slash site) (by simp)
      · rcases hanswer with hanswer | hanswer
        · exact nomatch hanswer
        · cases hanswer
          simp only [Visitor.Stays, onSite_redirectResponse_iff, hout, true_imp_iff]
          exact (within_of_field hnext).symm
  | logout hin h =>
      unfold Aurweb.Redirects.logout authRequired at h
      rw [if_pos hin] at h
      cases h
      simp only [Visitor.Stays, onSite_redirectResponse_iff, within_iff _ (inside_slash site)]
      simp [hin]
  | loggedOut hout h =>
      simp only [Visitor.Stays, hout]
      simpa using loginNext_stays hout h
  | language h => exact language_stays h
  | provider redirect rest => exact Iff.rfl
  | authenticate h => exact iff_of_true (authenticate_onSite h) trivial

end

def aurSite : Site where
  aurLocation := "https://aur.archlinux.org".toList
  scheme := by decide
  plain := by
    have hall : "https://aur.archlinux.org".toList.all
        (fun c => c != '%' && quoteCharWith redirectSafe c == [c]) = true := by
      decide
    intro c hc
    simpa using List.all_eq_true.mp hall c hc

def votePath : RoutePath where
  path := "/pkgbase/foo/vote".toList
  question := by decide
  hash := by decide
  guarded := ⟨"/pkgbase".toList, by decide, by decide⟩

def signInPath : RoutePath where
  path := loginPath
  question := by decide
  hash := by decide
  guarded := ⟨loginPath, by decide, by decide⟩

/-- A vote, from the page of `foo`. -/
def voteRequest : Request where
  authenticated := false
  method := .post
  path := votePath
  referer := some "https://aur.archlinux.org/pkgbase/foo".toList

def signInRequest : Request where
  authenticated := false
  method := .post
  path := signInPath
  referer := some "https://aur.archlinux.org/login?next=/pkgbase/foo".toList

/-- A login from the login page. -/
theorem signsIn {url : Text} (hurl : url ≠ []) :
    Relation.ReflTransGen (Step aurSite) (.loginGet (some url))
      (.sentTo (redirectResponse url)) := by
  have hpage : loginGet (some url) = .loginPage url := by simp [loginGet, loginTemplate, hurl]
  have hlogin : loginPost aurSite signInRequest (some url) true =
      .redirect (redirectResponse url) := by
    have hfield : formField (some url) = some url := by simp [formField, hurl]
    rw [loginPost, hfield]
    rfl
  exact .head (.loginPage hpage) (.head (.submits url rfl) (.single (.login true hlogin)))

end Aurweb.Redirects
