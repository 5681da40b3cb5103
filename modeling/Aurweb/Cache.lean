/-
Cached answers: `aurweb/cache.py`, and `updated_packages` of `aurweb/packages/util.py`.

A page looks a key up in Redis and asks the database when there is none.  What is asked, stored
and left to expire are commands of their own, and between any two of them other processes run
theirs; a call is therefore a job here that goes on by one command at a time.  What the database
would answer is a function of time, since anything may happen to it, and a value is stored as
it is: serializing it is undone by reading it.
-/
import Mathlib.Data.List.Basic
import Aurweb.Lib.Expiring

namespace Aurweb.Cache

inductive Kind
  | lambdaCache
  | dbCountCache
  | dbQueryCache
  | updatedPackages
  deriving DecidableEq, Repr

/-- A call of one of the functions. -/
structure Call where
  kind : Kind
  key : String
  expire : Option Int
  deriving DecidableEq, Repr

/-- How far a call has got.  What was asked of the database goes by the time it was asked. -/
inductive Stage (ν : Type)
  /-- The key was not there; `full` is whether Redis holds more than `max_search_entries`. -/
  | missed (full : Bool)
  | computed (value : ν) (since : Int)
  | stored (value : ν) (since : Int)
  deriving DecidableEq, Repr

structure Job (ν : Type) where
  call : Call
  stage : Stage ν
  deriving DecidableEq, Repr

structure Answer (ν : Type) where
  key : String
  value : ν
  now : Int
  deriving DecidableEq, Repr

structure State (ν : Type) where
  redis : Expiring.Keys String ν := Expiring.empty
  jobs : List (Job ν) := []
  answers : List (Answer ν) := []

inductive Event
  /-- A page calls, and looks the key up. -/
  | ask (call : Call) (full : Bool) (now : Int)
  /-- A job goes on. -/
  | proceed (i : Nat) (now : Int)
  /-- The process of a job comes to its end. -/
  | abandon (i : Nat) (now : Int)
  deriving DecidableEq, Repr

def Event.now : Event → Int
  | .ask _ _ now | .proceed _ now | .abandon _ now => now

variable {ν : Type}

/-- The call returns. -/
def State.answer (s : State ν) (call : Call) (value : ν) (now : Int) : State ν :=
  { s with answers := s.answers ++ [⟨call.key, value, now⟩] }

def State.drop (s : State ν) (i : Nat) : State ν := { s with jobs := s.jobs.eraseIdx i }

def State.stage (s : State ν) (i : Nat) (job : Job ν) (stage : Stage ν) : State ν :=
  { s with jobs := s.jobs.set i { job with stage } }

/-- How long a key that was `SET` is given by an `EXPIRE` of its own. -/
def Call.expireAfter (call : Call) : Option Int :=
  match call.kind with
  | .lambdaCache => none
  | .dbCountCache | .dbQueryCache => call.expire.filter (· != 0)
  | .updatedPackages => call.expire

def lookup (s : State ν) (call : Call) (full : Bool) (now : Int) : State ν :=
  match Expiring.get s.redis call.key now with
  | some value => s.answer call value now
  | none =>
      let full := full && call.kind == .dbQueryCache
      { s with jobs := s.jobs ++ [⟨call, .missed full⟩] }

/-- `SET`; `lambda_cache` gives its `ex` along, of which Redis accepts no zero. -/
def store (s : State ν) (i : Nat) (job : Job ν) (value : ν) (since now : Int) : State ν :=
  let key := job.call.key
  let redis := Expiring.set s.redis key value
  match job.call.kind, job.call.expire with
  | .lambdaCache, some ex =>
      if ex ≤ 0 then s.drop i
      else State.answer (State.drop { s with redis := Expiring.expire redis key ex now } i)
        job.call value now
  | _, _ =>
      if job.call.expireAfter.isSome then
        State.stage { s with redis := redis } i job (.stored value since)
      else State.answer (State.drop { s with redis := redis } i) job.call value now

/-- The next command of a job. -/
def proceed (world : Int → String → ν) (s : State ν) (i : Nat) (now : Int) : State ν :=
  match s.jobs[i]? with
  | none => s
  | some job =>
      match job.stage with
      | .missed true => (s.drop i).answer job.call (world now job.call.key) now
      | .missed false => s.stage i job (.computed (world now job.call.key) now)
      | .computed value since => store s i job value since now
      | .stored value _ =>
          match job.call.expireAfter with
          | none => (s.drop i).answer job.call value now
          | some length =>
              State.answer
                (State.drop
                  { s with redis := Expiring.expire s.redis job.call.key length now } i)
                job.call value now

def step (world : Int → String → ν) (s : State ν) : Event → State ν
  | .ask call full now => lookup s call full now
  | .proceed i now => proceed world s i now
  | .abandon i _ => s.drop i

end Aurweb.Cache
