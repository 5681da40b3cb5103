/-
`parse_args` of `routers/rpc.py`, and the parameters of a query string.

The arguments of a request are read out of the raw query string here and not by the framework.
The whole of it is unquoted first and taken apart after that.
-/
import Aurweb.Lib.Percent

namespace Aurweb.Rpc

open Percent

/-- `"arg="`. -/
def argEq : List Char := ['a', 'r', 'g', '=']

/-- `"arg[]="`. -/
def argsEq : List Char := ['a', 'r', 'g', '[', ']', '=']

/-- `e.startswith(("arg=", "arg[]="))`. -/
def isPart (e : List Char) : Bool := argEq.isPrefixOf e || argsEq.isPrefixOf e

/-- The `parts` of `parse_args`, from last to first. -/
def parts (query : List Char) : List (List Char × List Char) :=
  (((unquote query).splitOn '&').reverse.filter isPart).map partition

/-- `parse_args`. -/
def parseArgs (query : List Char) : List String :=
  match parts query with
  | [] => []
  | (last, value) :: rest =>
      if last = ['a', 'r', 'g'] then [String.ofList value]
      else
        (((last, value) :: rest).takeWhile (·.1 = last)).map fun part => String.ofList part.2

/-- A parameter that is no `arg[]` to the framework, which splits the query string first. -/
structure Other where
  raw : List Char
  apart : '&' ∉ raw
  other : (readField raw).1 ≠ ['a', 'r', 'g', '[', ']']

/-- A query string with one `arg[]=` parameter for each string and others before them. -/
def arrayQuery (preceding : List Other) (strings : List String) : List Char :=
  ['&'].intercalate
    (preceding.map (·.raw) ++ strings.map fun s => argsEq ++ quote s.toList)

end Aurweb.Rpc
