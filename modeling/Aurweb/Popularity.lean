/-
Popularity: `aurweb/models/package_base.py` and `aurweb/scripts/popupdate.py`.

A package base is as popular as its votes, each of which counts less the older it is.  The sum
is stored with the time it was taken, by the job that comes by every few hours and by the
routes that change a vote, and it is aged when it is shown.  The two columns are kept beside
the rows of the database here.  Numbers are those of an ordered field: what `POW` makes of an
age, and what a column keeps of a sum, are given from outside.
-/
import Aurweb.GitServe
import Aurweb.Lib.Decay

namespace Aurweb.Popularity

/-- `Popularity` and `PopularityUpdated`, which is a time. -/
structure Score (K : Type) where
  popularity : K
  popularityUpdated : Int
  deriving Repr

/-- What a package base has before it is updated: the defaults of the two columns. -/
def Score.unset {K : Type} [Zero K] : Score K := ⟨0, 1⟩

/-- The numbers of the database: `POW(0.98, age / 86400)` of an age in seconds, and what
`DECIMAL(10, 6)` keeps of a number. -/
structure Arithmetic (K : Type) where
  pow : Int → K
  column : K → K

structure State (K : Type) where
  db : Db
  score : Nat → Score K

/-! ### `aurweb/models/package_base.py` -/

/-- `popularity_decay`: the age of a score in days, as `int` cuts it. -/
def popularityDecay {K : Type} (score : Score K) (utcnow : Int) : Int :=
  (utcnow - score.popularityUpdated).tdiv 86400

variable {K : Type} [Field K]

/-- `popularity`. -/
def popularity (score : Score K) (utcnow : Int) : K :=
  score.popularity * (98 / 100) ^ popularityDecay score utcnow

/-! ### `aurweb/scripts/popupdate.py` -/

/-- The rows that are summed up for a package base. -/
def votes (db : Db) (baseID : Nat) : List PackageVote :=
  db.packageVotes.filter (·.packageBaseID == baseID)

/-- `pop_subq`. -/
def popSubq (math : Arithmetic K) (db : Db) (now : Int) (baseID : Nat) : K :=
  ((votes db baseID).map fun v => math.pow (now - v.voteTS)).sum

/-- Which rows the `UPDATE` finds: the package bases that were given, or else those that have
not been updated for the length of the interval. -/
def updates (interval : Int) (st : State K) (pkgbases : List Nat) (now : Int) (id : Nat) : Bool :=
  if pkgbases.isEmpty then decide ((st.score id).popularityUpdated ≤ now - interval)
  else pkgbases.contains id

/-- `run_variable`; `interval` is `popularity-interval`. -/
def runVariable (math : Arithmetic K) (interval : Int) (st : State K) (pkgbases : List Nat)
    (now : Int) : State K where
  db := { st.db with
    packageBases := Table.update (fun b => updates interval st pkgbases now b.id)
      (fun b => { b with numVotes := st.db.packageVotes.countP (·.packageBaseID == b.id) })
      st.db.packageBases }
  score id :=
    if st.db.packageBases.any (·.id == id) && updates interval st pkgbases now id then
      ⟨math.column (popSubq math st.db now id), now⟩
    else st.score id

/-- `run_single`. -/
def runSingle (math : Arithmetic K) (interval : Int) (st : State K) (id : Nat) (now : Int) :
    State K :=
  runVariable math interval st [id] now

/-! ### What happens to votes -/

/-- The transactions that touch votes or scores. -/
inductive Change
  /-- The row that `pkgbase_vote` creates. -/
  | vote (baseID uid : Nat)
  /-- The row that `pkgbase_unvote` deletes. -/
  | unvote (baseID uid : Nat)
  | sshVote (baseID uid : Nat)
  | sshUnvote (baseID uid : Nat)
  /-- The first transaction of `_retry_merge`. -/
  | moveRows (baseID targetID : Nat)
  | deleteBase (id : Nat)
  | deleteUser (uid : Nat)
  /-- A push of a new package base. -/
  | submit (row : PackageBase)
  | runSingle (id : Nat)
  | runVariable
  deriving DecidableEq, Repr

structure Event where
  now : Nat
  change : Change
  deriving DecidableEq, Repr

/-- The rows a vote points to, which the database insists on. -/
def pointsToRows (db : Db) (baseID uid : Nat) : Bool :=
  (db.packageBase? baseID).isSome && (db.user? uid).isSome

/-- What the event makes of the tables. -/
def tables (db : Db) (now : Nat) : Change → Db
  | .vote baseID uid =>
      if pointsToRows db baseID uid && !hasPackageVote db baseID uid then
        { db with packageVotes := db.packageVotes ++
          [{ usersID := uid, packageBaseID := baseID, voteTS := now }] }
      else db
  | .unvote baseID uid =>
      let mine := fun v : PackageVote => v.packageBaseID == baseID && v.usersID == uid
      { db with packageVotes := Table.delete mine db.packageVotes }
  | .sshVote baseID uid =>
      if pointsToRows db baseID uid then (GitServe.commitVote db baseID uid now).2 else db
  | .sshUnvote baseID uid => (GitServe.commitUnvote db baseID uid).2
  | .moveRows baseID targetID =>
      match db.packageBase? baseID, db.packageBase? targetID with
      | some pkgbase, some target => moveRows db pkgbase target
      | _, _ => db
  | .deleteBase id => db.deletePackageBase id
  | .deleteUser uid => db.deleteUser uid
  | .submit row =>
      { db with
        packageBases := db.packageBases ++ [{ row with id := db.nextID }]
        nextID := db.nextID + 1 }
  | .runSingle _ | .runVariable => db

/-- What is written to the two columns: a new row has their defaults, and the rest is up to
`popupdate.py`. -/
def columns (st : State K) : Change → Nat → Score K
  | .submit _ => Function.update st.score st.db.nextID Score.unset
  | _ => st.score

def step (math : Arithmetic K) (interval : Int) (st : State K) (e : Event) : State K :=
  match e.change with
  | .runSingle id => runSingle math interval st id e.now
  | .runVariable => runVariable math interval st [] e.now
  | change => { db := tables st.db e.now change, score := columns st change }

/-- Real numbers, of which a column keeps six decimals. -/
noncomputable def decimals : Arithmetic ℝ where
  pow age := (98 / 100 : ℝ) ^ ((age : ℝ) / (86400 : Int))
  column x := round (x * 10 ^ 6) / 10 ^ 6

end Aurweb.Popularity
