/-
`account_edit_post` among the requests of others.

One edit is followed through; the others are the requests of `Office`.  The updates of the edit
commit one after the other, and anybody may commit in between.  An update may also raise after
its transaction is through: `simple` mails the new address then.
-/
import Aurweb.Sessions

namespace Aurweb.Users

/-- How far the request has come. -/
inductive Course
  | running (e : Edit)
  /-- The page says that the account has been modified. -/
  | updated
  /-- Any other answer. -/
  | ended (r : Response)
  deriving DecidableEq, Repr

structure Counter where
  /-- Everybody else. -/
  office : Office
  course : Course
  deriving DecidableEq, Repr

def Counter.store (c : Counter) : Store := c.office.store

/-- What happens next. -/
inductive Moment
  /-- A step of somebody else's. -/
  | other (ev : Event)
  /-- The next transaction of the request. -/
  | next (t : Tick)
  /-- The request meets with an exception between its transactions. -/
  | raise (exception : String)

/-- The form is posted: the checks of the route. -/
def Office.post (env : Env) (o : Office) (editorID : Nat) (username : String) (args : Args)
    (t : Tick) : Counter :=
  match beginEdit env o.store editorID username args t with
  | (.error r, st) => { office := { o with store := st }, course := .ended r }
  | (.ok e, st) => { office := { o with store := st }, course := .running e }

/-- The next transaction of an edit. -/
def Edit.next (env : Env) (t : Tick) (e : Edit) (st : Store) : Course × Store :=
  match e.todo with
  | [] => (.updated, st)
  | task :: rest =>
      match task.run env t e st with
      | .error exception => (.ended (updateError e.args exception), st)
      | .ok (e, st) => (.running { e with todo := rest }, st)

def Counter.step (env : Env) (c : Counter) : Moment → Counter
  | .other ev => { c with office := c.office.step env ev }
  | .next t =>
      match c.course with
      | .running e =>
          let (course, st) := e.next env t c.store
          { office := { c.office with store := st }, course }
      | _ => c
  | .raise exception =>
      match c.course with
      | .running _ => { c with course := .ended (.serverError exception) }
      | _ => c

end Aurweb.Users
