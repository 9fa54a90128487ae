import NextBuild.CommandLine.Grammar
import NextBuild.Report

/-!
# Invocations

A command with everything that a command line and the variables of its environment say about it.
Some options belong to all commands and may stand before or behind the name of the command; behind it
they count more, and a variable counts least.
-/

namespace NextBuild

/-- What a selection is told. -/
structure SelectArguments where
  poll : Bool
  strategy : Option String
  inner : Option String
  branches : List String
  target : Option String
  maxAge : Option Int
  ancestor : Option String
  priority : List String
  /-- Variables with values, each with a `=` between them. -/
  assignments : List String
  /-- The command of an agent that answers instead of the repository. -/
  agent : Option String
deriving DecidableEq, Repr

/-- What is told about a finished build. -/
structure RecordArguments where
  revision : String
  number : UInt64
  result : String
  branches : List String
  /-- The revision that asked for a merge. -/
  marked : Option String
deriving DecidableEq, Repr

/-- A command with its arguments. -/
inductive Command where
  | select (a : SelectArguments)
  | record (a : RecordArguments)
  | history (branch : Option String)
  | refs (branch : Option String)
  | graphAgent
deriving DecidableEq, Repr

/-- The name of a command. -/
def Command.name : Command → String
  | select _ => "select"
  | record _ => "record"
  | history _ => "history"
  | refs _ => "refs"
  | graphAgent => "graph-agent"

/-- A command with what is said about all commands. -/
structure Invocation where
  repository : Option String
  job : Option String
  style : Style
  command : Command
deriving DecidableEq, Repr

namespace Invocation

/-- The options of every command. -/
def commonOptions : List OptionForm :=
  [{ name := "repo", kind := .path, standIn := some "REVSEL_REPO" },
    { name := "job", standIn := some "REVSEL_JOB" },
    { name := "json", kind := .flag },
    { name := "quiet", letter := some 'q', kind := .flag },
    { name := "help", letter := some 'h', kind := .flag, stop? := some .helpAsked },
    { name := "version", letter := some 'V', kind := .flag, stop? := some .versionAsked }]

/-- The option that names branches, once or several times. -/
def branchOption (isRepeatable : Bool) : OptionForm where
  name := "branch"
  letter := some 'b'
  isRepeatable := isRepeatable

/-- The form of a selection. -/
def selectForm : CommandForm where
  name := "select"
  options := commonOptions ++
    [{ name := "poll", kind := .flag }, { name := "strategy" }, { name := "inner" },
      branchOption true, { name := "target", letter := some 't' },
      { name := "max-age", kind := .signed, takesNegative := true }, { name := "ancestor" },
      { name := "priority", isRepeatable := true }, { name := "env", isRepeatable := true },
      { name := "agent" }]

/-- The form of the command that records a build. -/
def recordForm : CommandForm where
  name := "record"
  options := commonOptions ++
    [{ name := "build-number", letter := some 'n', kind := .unsigned, isRequired := true },
      { name := "result" }, branchOption true, { name := "marked" }]
  operands := [{ name := "REVISION", isRequired := true }]

/-- The form of the command that shows recorded builds. -/
def historyForm : CommandForm where
  name := "history"
  options := commonOptions ++ [branchOption false]

/-- The form of the command that lists references. -/
def refsForm : CommandForm where
  name := "refs"
  options := commonOptions ++ [branchOption false]

/-- The form of the command that answers questions about the graph. -/
def graphAgentForm : CommandForm where
  name := "graph-agent"
  options := commonOptions

/-- The forms of the commands. -/
def forms : List CommandForm :=
  [selectForm, recordForm, historyForm, refsForm, graphAgentForm]

/-- The name of the command that gives help on the others. -/
def helpName : String := "help"

/-- The form of a whole command line. -/
def wholeForm : CommandForm where
  name := "revsel"
  options := commonOptions
  commands := forms.map (·.name) ++ [helpName]

/-- What is answered to a request for help on the command that words name. -/
def helpFault : List String → UsageFault
  | [] => .helpAsked
  | word :: rest =>
    if !wholeForm.commands.contains word then .unknownCommand word
    else match rest with
      | [] => .helpAsked
      | next :: _ => .unknownCommand next

/-- What was given before and behind the name of a command, with the variables. -/
structure Arguments where
  outer : Reading
  inner : Reading
  env : Text.Environment

namespace Arguments

/-- The values given under a name behind the name of the command. -/
def values (a : Arguments) (name : String) : List String :=
  (a.inner.given.filter fun e => e.1 == name).map (·.2)

/-- The value given under a name behind the name of the command. -/
def value? (a : Arguments) (name : String) : Option String :=
  a.inner.given.lookup name

/-- The value of an option of all commands, given anywhere or by a variable. -/
def commonValue? (a : Arguments) (name variableName : String) : Option String :=
  ((a.value? name).or (a.outer.given.lookup name)).or (a.env.lookup variableName)

/-- An option of all commands is given. -/
def hasFlag (a : Arguments) (name : String) : Bool :=
  a.inner.has name || a.outer.has name

/-- The command with a name. -/
def command? (a : Arguments) : String → Option Command
  | "select" => some <| .select
    { poll := a.inner.has "poll"
      strategy := a.value? "strategy"
      inner := a.value? "inner"
      branches := a.values "branch"
      target := a.value? "target"
      maxAge := (a.value? "max-age").bind ValueKind.signed?
      ancestor := a.value? "ancestor"
      priority := a.values "priority"
      assignments := a.values "env"
      agent := a.value? "agent" }
  | "record" => do
    return .record
      { revision := ← a.value? "REVISION"
        number := ← (a.value? "build-number").bind ValueKind.unsigned?
        result := (a.value? "result").getD "success"
        branches := a.values "branch"
        marked := a.value? "marked" }
  | "history" => some (.history (a.value? "branch"))
  | "refs" => some (.refs (a.value? "branch"))
  | "graph-agent" => some .graphAgent
  | _ => none

/-- The invocation of the command with a name. -/
def invocation? (a : Arguments) (name : String) : Option Invocation := do
  return {
    repository := a.commonValue? "repo" "REVSEL_REPO"
    job := a.commonValue? "job" "REVSEL_JOB"
    style := ⟨a.hasFlag "json", a.hasFlag "quiet"⟩
    command := ← a.command? name }

end Arguments

/-- The invocation that the words of a command line describe. -/
def ofWords (env : Text.Environment) (words : List String) : Except UsageFault Invocation := do
  match ← Reading.readWords wholeForm false words {} with
  | (outer, none) =>
    let outer ← wholeForm.complete env outer
    if outer.given.isEmpty && !wholeForm.hasVariable env then throw .nothingSaid
    else throw .missingCommand
  | (outer, some (name, rest)) =>
    if name = helpName then throw (helpFault rest)
    match forms.find? (·.name == name) with
    | none => throw (.unknownCommand name)
    | some form =>
      let inner ← form.read env rest
      let outer ← wholeForm.complete env outer
      match Arguments.invocation? ⟨outer, inner, env⟩ name with
      | some invocation => return invocation
      | none => throw (.unknownCommand name)

end Invocation

end NextBuild
