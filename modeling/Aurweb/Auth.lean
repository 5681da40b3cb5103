/-
Credentials: `aurweb/auth/creds.py`, and what a route answers with.
-/
import Aurweb.Schema

namespace Aurweb

inductive Credential
  | accountChangeType
  | accountEdit
  | commentDelete
  | commentUndelete
  | pkgbaseAdopt
  | pkgbaseSetKeywords
  | pkgbaseDelete
  | pkgbaseDisown
  | pkgbaseEditComaintainers
  | pkgbaseFlag
  | pkgbaseNotify
  | pkgbaseUnflag
  | pkgbaseVote
  | pkgbaseMerge
  | pkgreqClose
  | pmListVotes
  | pmVote
  deriving DecidableEq, Repr

/-- `package_maintainer_or_dev`. -/
def packageMaintainerOrDev : List AccountType :=
  [.packageMaintainer, .developer, .packageMaintainerAndDev]

/-- `package_maintainer`. -/
def packageMaintainer : List AccountType := [.packageMaintainer, .packageMaintainerAndDev]

/-- `user_developer_or_package_maintainer`. -/
def userDeveloperOrPackageMaintainer : List AccountType :=
  [.user, .packageMaintainer, .developer, .packageMaintainerAndDev]

/-- `cred_filters`. -/
def credFilters : Credential → List AccountType
  | .pkgbaseFlag => userDeveloperOrPackageMaintainer
  | .pkgbaseNotify => userDeveloperOrPackageMaintainer
  | .pkgbaseVote => userDeveloperOrPackageMaintainer
  | .accountChangeType => packageMaintainerOrDev
  | .accountEdit => packageMaintainerOrDev
  | .commentDelete => packageMaintainerOrDev
  | .commentUndelete => packageMaintainerOrDev
  | .pkgbaseAdopt => packageMaintainerOrDev
  | .pkgbaseSetKeywords => packageMaintainerOrDev
  | .pkgbaseDelete => packageMaintainerOrDev
  | .pkgbaseEditComaintainers => packageMaintainerOrDev
  | .pkgbaseDisown => packageMaintainerOrDev
  | .pkgbaseUnflag => packageMaintainerOrDev
  | .pkgbaseMerge => packageMaintainerOrDev
  | .pkgreqClose => packageMaintainerOrDev
  | .pmListVotes => packageMaintainerOrDev
  | .pmVote => packageMaintainer

/-- `has_credential`; an approved user is given by its id, `None` by `none`. -/
def hasCredential (user : User) (credential : Credential) (approved : List (Option Nat)) : Bool :=
  approved.contains (some user.id) || (credFilters credential).contains user.accountType

/-- `User.is_elevated`. -/
def User.isElevated (user : User) : Bool := packageMaintainerOrDev.contains user.accountType

theorem hasCredential_elevated {user : User} {c : Credential}
    (hc : credFilters c = packageMaintainerOrDev) :
    hasCredential user c [] = user.isElevated := by
  simp [hasCredential, User.isElevated, hc]

/-- What a route answers with; `errors` is what the rendered page reports, a success
included. -/
inductive Response
  | redirect (url : String)
  | render (status : Nat) (errors : List String)
  | httpException (status : Nat) (detail : String)
  | serverError (exception : String)
  deriving DecidableEq, Repr

end Aurweb
