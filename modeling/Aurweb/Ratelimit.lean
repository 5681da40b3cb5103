/-
The rate limiter: `aurweb/ratelimit.py`.

It counts the requests of an address in a window of time, in Redis or in a table of the
database.  In Redis the window is a key that expires when the window is over; in the table
it is a row that the next request, of whatever address, finds too old and deletes.  Both
counters have an end: a column `INTEGER(11)`, and the 64 bits of `INCR`.
-/
import Aurweb.Lib.Expiring
import Aurweb.Lib.Table

namespace Aurweb.Ratelimit

/-- `[ratelimit]`. -/
structure Settings where
  requestLimit : Int
  windowLength : Int
  deriving DecidableEq, Repr

/-- A row of `ApiRateLimit`. -/
structure ApiRateLimit where
  ip : String
  requests : Int
  windowStart : Int
  deriving DecidableEq, Repr

abbrev Redis := Expiring.Keys String Int

/-- A request of an address; times are in whole seconds. -/
structure Request where
  host : String
  now : Int
  deriving DecidableEq, Repr

/-! ### Redis -/

def windowKey (host : String) : String := "ratelimit-ws:" ++ host

def requestsKey (host : String) : String := "ratelimit:" ++ host

/-- `INCR`. -/
def incr (redis : Redis) (key : String) (now : Int) : Except String Redis :=
  match Expiring.get redis key now with
  | none => .ok (Expiring.set redis key 1)
  | some n =>
      if n = 9223372036854775807 then .error "ResponseError"
      else .ok (Expiring.modify redis key (· + 1) now)

/-- The branch of `_update_ratelimit_redis` that starts a window. -/
def startWindow (cfg : Settings) (redis : Redis) (r : Request) : Redis :=
  let redis := Expiring.set redis (windowKey r.host) r.now
  let redis := Expiring.expire redis (windowKey r.host) cfg.windowLength r.now
  let redis := Expiring.set redis (requestsKey r.host) 1
  Expiring.expire redis (requestsKey r.host) cfg.windowLength r.now

/-- `_update_ratelimit_redis`. -/
def updateRatelimitRedis (cfg : Settings) (redis : Redis) (r : Request) : Except String Redis :=
  let timeToDelete := r.now - cfg.windowLength
  match Expiring.get redis (windowKey r.host) r.now with
  | none => .ok (startWindow cfg redis r)
  | some window =>
      if window < timeToDelete then .ok (startWindow cfg redis r)
      else incr redis (requestsKey r.host) r.now

/-! ### The database -/

/-- `_update_ratelimit_db`, which is two transactions. -/
def updateRatelimitDb (cfg : Settings) (table : List ApiRateLimit) (r : Request) :
    Except String ApiRateLimit × List ApiRateLimit :=
  let timeToDelete := r.now - cfg.windowLength
  let table := Table.delete (fun record => decide (record.windowStart < timeToDelete)) table
  match table.find? (·.ip == r.host) with
  | none =>
      let record := { ip := r.host, requests := 1, windowStart := r.now }
      (.ok record, table ++ [record])
  | some record =>
      if record.requests = 2147483647 then (.error "DataError", table)
      else
        let count := fun record : ApiRateLimit => { record with requests := record.requests + 1 }
        (.ok (count record), Table.update (·.ip == r.host) count table)

/-! ### `check_ratelimit` -/

structure Stores where
  redis : Redis := Expiring.empty
  table : List ApiRateLimit := []

/-- `update_ratelimit`: the record is `None` where the counter is in Redis. -/
def updateRatelimit (cfg : Settings) (cache : Bool) (st : Stores) (r : Request) :
    Except String (Option ApiRateLimit) × Stores :=
  if cache then
    match updateRatelimitRedis cfg st.redis r with
    | .error e => (.error e, st)
    | .ok redis => (.ok none, { st with redis := redis })
  else
    match updateRatelimitDb cfg st.table r with
    | (.error e, table) => (.error e, { st with table := table })
    | (.ok record, table) => (.ok (some record), { st with table := table })

/-- `check_ratelimit`: whether the limit has been exceeded. -/
def checkRatelimit (cfg : Settings) (cache : Bool) (st : Stores) (r : Request) :
    Except String Bool × Stores :=
  match updateRatelimit cfg cache st r with
  | (.error e, st) => (.error e, st)
  | (.ok record, st) =>
      match Expiring.get st.redis (requestsKey r.host) r.now with
      | some requests =>
          if cache then (.ok (decide (requests > cfg.requestLimit)), st)
          else
            match record with
            | none => (.error "AttributeError", st)
            | some record => (.ok (decide (record.requests > cfg.requestLimit)), st)
      | none =>
          match record with
          | none => (.error "AttributeError", st)
          | some record => (.ok (decide (record.requests > cfg.requestLimit)), st)

end Aurweb.Ratelimit
