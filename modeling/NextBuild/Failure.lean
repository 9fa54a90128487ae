import NextBuild.Calendar
import NextBuild.Strategy.Kind

/-!
# Failures

Everything that can go wrong in a selection, a recorded build or a command, with its message, its
class and what the user can do about it.  Two classes exist: mistakes of the user, such as a branch
pattern that cannot be read, and repositories that do not answer.  Finding nothing to build is not
a failure.
-/

namespace NextBuild

/-- What is wrong with a configuration. -/
inductive ConfigFault where
  | unknownStrategy (name : String)
  | notWrappable (kind : StrategyKind)
  | innerNotBase (kind : StrategyKind)
  | negativeAge (days : Int)
  | negativeConfiguredAge (days : Int)
  | ageOutOfRange (days : Int)
  | noCutoff (day : Date)
  | remoteWithSlash
  | remoteEntry
  | emptyJob
  | stated (text : String)
deriving DecidableEq, Repr

/-- The fault in words. -/
def ConfigFault.message : ConfigFault → String
  | unknownStrategy name =>
    "unknown strategy '" ++ name
      ++ "': must be default, inverse, ancestry, compound, or queue"
  | notWrappable kind =>
    "strategy '" ++ kind.name
      ++ "' cannot be wrapped by ancestry filtering; use default or inverse"
  | innerNotBase kind => "ancestry.inner must be default or inverse, got " ++ kind.name
  | negativeAge days => "max_age_days must be non-negative, got " ++ toString days
  | negativeConfiguredAge days =>
    "ancestry.max_age_days must be non-negative, got " ++ toString days
  | ageOutOfRange days => "max_age_days " ++ toString days ++ " is out of range"
  | noCutoff day => "no cutoff time for " ++ day.text
  | remoteWithSlash => "remote names must not contain '/'"
  | remoteEntry => "selection.remotes entries must be non-empty names without '/'"
  | emptyJob => "history.job must not be empty"
  | stated text => text

/-- What is wrong with an argument of a command. -/
inductive ArgumentFault where
  | unknownResult (text : String)
  | notAVariable (pair : String)
  | branchGlob (glob fault : String)
  | stated (text : String)
deriving DecidableEq, Repr

/-- The fault in words. -/
def ArgumentFault.message : ArgumentFault → String
  | unknownResult text =>
    "invalid build result '" ++ text
      ++ "': must be success, unstable, failure, not_built, or aborted"
  | notAVariable pair => "--env expects KEY=VALUE, got '" ++ pair ++ "'"
  | branchGlob glob fault => "invalid branch pattern '" ++ glob ++ "': " ++ fault
  | stated text => text

/-- What is wrong with the conversation with a graph agent. -/
inductive TransportFault where
  | closed
  | malformed (detail : String)
  | unexpected (detail : String)
  | stated (text : String)
deriving DecidableEq, Repr

/-- The fault in words. -/
def TransportFault.message : TransportFault → String
  | closed => "graph agent closed the connection"
  | malformed detail => "malformed response: " ++ detail
  | unexpected detail => "unexpected response: " ++ detail
  | stated text => text

/-- A failure of an operation. -/
inductive Failure where
  | notARepository (path : String)
  | repositoryNotFound (start : String)
  | invalidConfig (fault : ConfigFault)
  | invalidArgument (fault : ArgumentFault)
  | invalidBranchSpec (spec reason : String)
  | invalidCommitId (text : String)
  | toml (detail : String)
  | refNotFound (name : String)
  | missingObject (id : String)
  | git (detail : String)
  | io (detail : String)
  | json (detail : String)
  | lockFailed (path : String)
  | transport (fault : TransportFault)
  | operationFailed (text : String)
deriving DecidableEq, Repr

namespace Failure

/-- The failure in words. -/
def message : Failure → String
  | notARepository path => "Not a git repository: " ++ path
  | repositoryNotFound start => "Repository not found from " ++ start
  | invalidConfig fault => "Invalid configuration: " ++ fault.message
  | invalidArgument fault => "Invalid argument: " ++ fault.message
  | invalidBranchSpec spec reason => "Invalid branch spec '" ++ spec ++ "': " ++ reason
  | invalidCommitId text => "Invalid commit id '" ++ text ++ "'"
  | toml detail => "TOML parse error: " ++ detail
  | refNotFound name => "Reference not found: " ++ name
  | missingObject id => "Missing object: " ++ id
  | git detail => "Git error: " ++ detail
  | io detail => "IO error: " ++ detail
  | json detail => "JSON error: " ++ detail
  | lockFailed path => "Lock acquisition failed: " ++ path
  | transport fault => "Graph agent transport failed: " ++ fault.message
  | operationFailed text => "Operation failed: " ++ text

/-- The user made a mistake; otherwise the repository did not answer. -/
def isUserError : Failure → Bool
  | notARepository _ | repositoryNotFound _ | invalidConfig _ | invalidArgument _
  | invalidBranchSpec _ _ | invalidCommitId _ | toml _ => true
  | _ => false

/-- The exit code of a command that ends with the failure. -/
def exitCode (f : Failure) : Nat :=
  if f.isUserError then 2 else 4

/-- The class of the failure in reports. -/
def className (f : Failure) : String :=
  if f.isUserError then "user_error" else "repository_failed"

/-- What the user can do about the failure. -/
def hint? : Failure → Option String
  | repositoryNotFound _ | notARepository _ =>
    some "run inside a git repository or pass --repo <path>"
  | invalidConfig _ | toml _ => some "fix .revsel.toml then retry"
  | invalidBranchSpec _ _ =>
    some "check the regular expression after ':' in the branch spec"
  | refNotFound _ => some "revsel refs"
  | lockFailed _ => some "retry once the other revsel process finishes"
  | transport _ => some "run the agent command by hand to see why it stopped"
  | _ => none

/-- The failure says only that a reference does not exist. -/
def isRefNotFound : Failure → Bool
  | refNotFound _ => true
  | _ => false

end Failure

end NextBuild
