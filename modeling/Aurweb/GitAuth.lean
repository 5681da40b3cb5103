/-
Names and keys on their way to `authorized_keys`: `valid_username` and `valid_pgp_fingerprint` of
`aurweb/util.py`, and `aurweb/git/auth.py`.

A name is matched against one pattern when it is registered and against another, which is
configured, when a key is looked up.  The query is answered as a list of rows, in any order.
-/
import Aurweb.Lib.IntLiteral
import Aurweb.Lib.Regex
import Aurweb.ResetKeys

namespace Aurweb.GitAuth

open Users

/-! ### `aurweb/util.py` -/

/-- `username_min_len` and `username_max_len`. -/
structure Limits where
  minLen : Int
  maxLen : Int
  deriving DecidableEq, Repr

def Limits.allow (limits : Limits) (username : String) : Bool :=
  limits.minLen ≤ username.length && username.length ≤ limits.maxLen

/-- `[.\-_]`. -/
def isSeparator (c : Char) : Bool := c == '.' || c == '-' || c == '_'

/-- `^[a-zA-Z0-9]+[.\-_]?[a-zA-Z0-9]+$`. -/
def usernamePattern : List Regex.Item :=
  [.start, .oneOrMore Char.isAlphanum, .optional isSeparator, .oneOrMore Char.isAlphanum, .finish]

def validUsername (limits : Limits) (username : String) : Bool :=
  if !limits.allow username then false
  else Regex.isMatch usernamePattern username.toList

def validPgpFingerprint (u : IntLiteral.Unicode) (fp : String) : Bool :=
  match IntLiteral.parse u 16 fp.toList with
  | none => false
  | some _ => fp.length == 40

/-! ### `aurweb/git/auth.py` -/

/-- `[auth]` of the configuration. -/
structure Conf where
  validKeytypes : List String
  usernameRegex : List Regex.Item
  gitServeCmd : String
  sshOptions : String

/-- `username-regex` of `conf/config.defaults`: `[a-zA-Z0-9]+[.\-_]?[a-zA-Z0-9]+$`. -/
def usernameRegex : List Regex.Item :=
  [.oneOrMore Char.isAlphanum, .optional isSeparator, .oneOrMore Char.isAlphanum, .finish]

/-- A character that `shlex.quote` takes for safe. -/
def isSafe (c : Char) : Bool := c.isAlphanum || "_@%+=:,./-".toList.contains c

/-- `shlex.quote`. -/
def quote (s : String) : String :=
  if s = "" then "''"
  else if s.toList.all isSafe then s
  else
    "'" ++ String.ofList (s.toList.flatMap fun c =>
      if c = '\'' then "'\"'\"'".toList else [c]) ++ "'"

def formatCommand (envVars : List (String × String)) (command sshOpts sshKey : String) : String :=
  let environment := envVars.foldl
    (fun environment var => environment ++ var.1 ++ "=" ++ quote var.2 ++ " ") ""
  let command := environment ++ quote command
  let command := String.ofList (command.toList.flatMap fun c =>
    if c = '"' then ['\\', '"'] else [c])
  "command=\"" ++ command ++ "\"," ++ sshOpts ++ " " ++ sshKey

/-- The `SELECT`: accounts that hold the key, are not suspended and have a password. -/
def rows (st : Store) (pubKey : String) : List (String × AccountType) :=
  st.accounts.flatMap fun u =>
    (st.sshPubKeys.filter fun k =>
      k.userID == u.id && k.pubKey == pubKey && !u.suspended && u.passwd != "").map
      fun _ => (u.username, u.accountType)

/-- The line that is printed; `none` where it exits with 1. -/
def main (conf : Conf) (st : Store) (keytype keytext : String) : Option String :=
  if !conf.validKeytypes.contains keytype then none
  else
    match rows st (keytype ++ " " ++ keytext) with
    | [(user, accountType)] =>
        if !Regex.isMatch conf.usernameRegex user.toList then none
        else
          some (formatCommand
            [("AUR_USER", user), ("AUR_PRIVILEGED", if 1 < accountType.id then "1" else "0")]
            conf.gitServeCmd conf.sshOptions (keytype ++ " " ++ keytext))
    | _ => none

end Aurweb.GitAuth
