/-!
# Faults of a command line

Why a command line is not carried out.  Asking for help or for the version is not a mistake, but
nothing else is done then.
-/

namespace NextBuild

/-- Why a command line is not carried out. -/
inductive UsageFault where
  | helpAsked
  | versionAsked
  /-- Nothing at all was said, and help is given. -/
  | nothingSaid
  | missingCommand
  | unknownCommand (word : String)
  | unknownArgument (word : String)
  /-- An option without its value, or with an empty one where that is no value. -/
  | missingValue (option : String)
  | invalidValue (option value : String)
  /-- A value for an option that takes none. -/
  | needlessValue (option : String)
  | repeated (option : String)
  | missingArgument (name : String)
deriving DecidableEq, Repr

namespace UsageFault

/-- The exit code: only what was asked for is a success. -/
def exitCode : UsageFault → Nat
  | helpAsked | versionAsked => 0
  | _ => 2

/-- The fault in words. -/
def message : UsageFault → String
  | helpAsked | nothingSaid =>
    "usage: revsel [--repo PATH] [--job JOB] [--json] [--quiet] COMMAND\n"
      ++ "commands: select, record, history, refs, graph-agent, help"
  | versionAsked => "revsel 0.1.0"
  | missingCommand => "a command is missing"
  | unknownCommand word => "unknown command '" ++ word ++ "'"
  | unknownArgument word => "unexpected argument '" ++ word ++ "'"
  | missingValue option => "'" ++ option ++ "' needs a value"
  | invalidValue option value => "invalid value '" ++ value ++ "' for '" ++ option ++ "'"
  | needlessValue option => "'" ++ option ++ "' takes no value"
  | repeated option => "'" ++ option ++ "' is given more than once"
  | missingArgument name => "'" ++ name ++ "' is missing"

end UsageFault

end NextBuild
