/-
The terms of service: `/tos` in `aurweb/routers/accounts.py` and the middleware
`check_terms_of_service` in `aurweb/asgi.py`.

`AcceptedTerms` has no primary key in the schema.  The mapper names `TermsID` alone as
one, so the `UPDATE` the ORM flushes for one acceptance is `WHERE TermsID = …`, and it
raises `StaleDataError` unless that matches exactly one row.
-/
import Aurweb.Schema

namespace Aurweb.Terms

/-- `db.query(Term).join(AcceptedTerm).filter(AcceptedTerm.Revision < Term.Revision)`. -/
def diffs (db : Db) : List Term :=
  db.terms.filter fun t =>
    db.acceptedTerms.any fun a => a.termsID == t.id && decide (a.revision < t.revision)

/-- `db.query(Term).filter(~Term.ID.in_(db.query(AcceptedTerm.TermsID)))`. -/
def unaccepted (db : Db) : List Term :=
  db.terms.filter fun t => !db.acceptedTerms.any fun a => a.termsID == t.id

/-- What `/tos` answers. -/
inductive Answer
  | redirect (url : String)
  | page (unacceptedTerms : List Term)
  | serverError (exception : String)
  deriving DecidableEq, Repr

/-- `sorted(terms)`: `Term` has no `__lt__`, and one element needs no comparison. -/
def sorted (ts : List Term) : Except String (List Term) :=
  if ts.length ≤ 1 then .ok ts else .error "TypeError"

/-- `render_terms_of_service`. -/
def renderTermsOfService : Except String (List Term) → Answer
  | .error e => .serverError e
  | .ok [] => .redirect "/"
  | .ok ts => .page ts

/-- `terms_of_service`, the GET handler; it is the same for every user. -/
def termsOfService (db : Db) : Answer :=
  renderTermsOfService (sorted (unaccepted db ++ diffs db))

/-- `request.user.accepted_terms.filter(AcceptedTerm.TermsID == term.ID).first()`. -/
def acceptedTerm? (db : Db) (uid : Nat) (t : Term) : Option AcceptedTerm :=
  db.acceptedTerms.find? fun a => a.usersID == uid && a.termsID == t.id

/-- The rows a flushed `UPDATE` of an acceptance of `t` matches. -/
def matched (db : Db) (t : Term) : List AcceptedTerm :=
  db.acceptedTerms.filter (·.termsID == t.id)

/-- The terms whose acceptance the handler changed in memory, hence flushes; a term the
user has no row for is an attribute of `None`. -/
def dirty (db : Db) (uid : Nat) : List Term → Except String (List Term)
  | [] => .ok []
  | t :: ts =>
      match acceptedTerm? db uid t, dirty db uid ts with
      | none, _ => .error "AttributeError"
      | some _, .error e => .error e
      | some a, .ok rest => .ok (if a.revision = t.revision then rest else t :: rest)

/-- The flushed updates: `UPDATE AcceptedTerms SET Revision = … WHERE TermsID = …`. -/
def setRevisions (rows : List AcceptedTerm) (ts : List Term) : List AcceptedTerm :=
  ts.foldl
    (fun rows t =>
      Table.update (·.termsID == t.id) (fun a => { a with revision := t.revision }) rows) rows

/-- The transaction of `terms_of_service_post`. -/
def acceptTerms (db : Db) (uid : Nat) : Except String Db :=
  match dirty db uid (diffs db) with
  | .error e => .error e
  | .ok changed =>
      if changed.any fun t => (matched db t).length != 1 then .error "StaleDataError"
      else .ok
        { db with
          acceptedTerms := setRevisions db.acceptedTerms changed ++ (unaccepted db).map fun t =>
            { usersID := uid, termsID := t.id, revision := t.revision } }

/-- `terms_of_service_post`. -/
def termsOfServicePost (db : Db) (uid : Nat) (accept : Bool) : Answer × Db :=
  if !accept then (termsOfService db, db)
  else match acceptTerms db uid with
    | .error e => (.serverError e, db)
    | .ok db' => (.redirect "/", db')

/-- The `accepted` query of `check_terms_of_service`; a join repeats a term per row. -/
def accepted (db : Db) (uid : Nat) : List Term :=
  db.terms.flatMap fun t =>
    (db.acceptedTerms.filter fun a =>
      a.usersID == uid && a.termsID == t.id && decide (t.revision ≤ a.revision)).map fun _ => t

/-- `check_terms_of_service`: where an authenticated request is redirected to, if at all. -/
def checkTermsOfService (db : Db) (uid : Nat) (path : String) : Option String :=
  if path ≠ "/tos" ∧ db.terms.length - (accepted db uid).length > 0 then some "/tos" else none

end Aurweb.Terms
