import NextBuild.CommandLine.Invocation
import NextBuild.CommandLine.Setting
import NextBuild.Json.Ledger

/-!
# The command that selects

Selects the revisions to build next, with the configured strategy as far as the arguments do not
change it.  Everything that can be wrong with the request is found before the graph is asked
anything.
-/

namespace NextBuild

namespace SelectArguments

/-- The strategy kind that an argument names. -/
def kindOfText (s : String) : Except Failure StrategyKind :=
  match StrategyKind.ofText? s with
  | some k => .ok k
  | none => .error (.invalidConfig (.unknownStrategy s))

/-- The strategy kind that an argument names, if it is given. -/
def kindOr (k : StrategyKind) : Option String → Except Failure StrategyKind
  | some s => kindOfText s
  | none => .ok k

/-- A list of arguments, or the configured one if there are none. -/
def listOr (configured given : List String) : List String :=
  if given.isEmpty then configured else given

/-- What the strategy is made from: what is given counts more than what is configured. -/
def options (a : SelectArguments) (c : Config) : Except Failure StrategyOptions := do
  let configured := c.options
  return { configured with
    kind := ← kindOr configured.kind a.strategy
    inner := ← kindOr configured.inner a.inner
    branches := listOr configured.branches a.branches
    target := a.target.or configured.target
    maxAgeDays := a.maxAge.or configured.maxAgeDays
    ancestor := a.ancestor.or configured.ancestor
    priority := if a.priority.isEmpty then configured.priority else readPriorities a.priority }

/-- The variable that a text sets: a name that is not blank, and behind the first `=` a value. -/
def variableOfText (pair : String) : Except Failure (String × String) :=
  match Text.splitOnce? '=' pair with
  | none => .error (.invalidArgument (.notAVariable pair))
  | some (name, value) =>
    if Text.allBlank name then .error (.invalidArgument (.notAVariable pair))
    else .ok (Text.trim name, value)

/-- The variables of the environment, with those that are set by arguments; the last one of a name
counts. -/
def environment (a : SelectArguments) (env : Text.Environment) :
    Except Failure Text.Environment := do
  return (← a.assignments.mapM variableOfText).reverse ++ env

end SelectArguments

/-- A selection that is ready to be made. -/
structure Preparation where
  workspace : Workspace
  strategy : Strategy
  request : Request
  ledger : Ledger

/-- What was selected. -/
structure Selection where
  kind : StrategyKind
  poll : Bool
  job : String
  target : Option String
  /-- The only candidate was built before and is offered again. -/
  isRebuild : Bool
  candidates : List Revision
  /-- Nothing was ever built. -/
  isFirst : Bool

namespace Selection

/-- A candidate as data. -/
def candidateJson (r : Revision) : Json :=
  .record [("commit", r.commit.json), ("branches", .ofTexts r.names)]

/-- The selection as data. -/
def json (s : Selection) : Json :=
  .record <| [("strategy", .ofText s.kind.name), ("poll", .bool s.poll), ("job", .ofText s.job)]
    ++ Json.memberIfSome "target" .ofText s.target
    ++ [("rebuild", .bool s.isRebuild), ("candidates", .array (s.candidates.map candidateJson))]

/-- The number of candidates in words. -/
def header (s : Selection) : String :=
  match s.candidates.length with
  | 0 => "Nothing to build"
  | 1 => "1 candidate to build"
  | n => toString n ++ " candidates to build"

/-- Why there is nothing to build. -/
def emptyReason (s : Selection) : String :=
  if s.kind = .inverse then "every branch was excluded or already built"
  else if s.isFirst then "no reference matched the branch specs"
  else "every matching revision was already built or filtered out"

/-- What to mind about the selection. -/
def warnings (s : Selection) : List String :=
  match s.candidates with
  | [] => ["nothing to build: " ++ s.emptyReason]
  | r :: _ =>
    if s.isRebuild then
      ["nothing new to build; selecting already built " ++ r.commit.text ++ " again"]
    else []

/-- The command that records the first candidate, unless nothing is going to be built. -/
def nextSteps (s : Selection) : List String :=
  match s.candidates with
  | r :: _ => if s.poll then [] else ["revsel record " ++ r.commit.text ++ " --build-number <N>"]
  | [] => []

/-- The report of the selection. -/
def report (s : Selection) : Report where
  header := s.header
  summary := [("strategy", s.kind.name), ("mode", if s.poll then "poll" else "build"),
      ("job", s.job)] ++ (s.target.map fun t => ("target", t)).toList
  details := s.candidates.map fun r => r.commit.short ++ " " ++ ", ".intercalate r.names
  warnings := s.warnings
  nextSteps := s.nextSteps

end Selection

namespace Preparation

/-- The only candidate of a build was built before. -/
def isRebuild (p : Preparation) : List Revision → Bool
  | [only] => !p.request.poll && p.ledger.hasBuilt only.commit
  | _ => false

/-- The candidates, from the agent if one is asked for. -/
def candidates (p : Preparation) (agent : Option Agent) : Except Failure (List Revision) :=
  let inquiry := p.strategy.select p.request p.ledger
  match agent with
  | some agent => agent.peer.run inquiry
  | none => inquiry.run p.workspace.repository.answers

/-- Make the selection. -/
def select (p : Preparation) (agent : Option Agent) : Except Failure Selection := do
  let candidates ← p.candidates agent
  return {
    kind := p.strategy.kind
    poll := p.request.poll
    job := p.workspace.job
    target := p.request.target
    isRebuild := p.isRebuild candidates
    candidates
    isFirst := p.ledger.isEmpty }

end Preparation

/-- Prepare a selection in a workspace. -/
def SelectArguments.prepareIn (a : SelectArguments) (setting : Setting) (w : Workspace) :
    FileAction Preparation := do
  let options ← a.options w.config
  let strategy ← Strategy.ofOptions options
  let env ← a.environment setting.env
  let ledger ← w.store.load w.job
  let request := ⟨a.poll, options.target, env, setting.today, setting.offset⟩
  return ⟨w, strategy, request, ledger⟩

/-- Prepare a selection. -/
def SelectArguments.prepare (a : SelectArguments) (setting : Setting)
    (repository job : Option String) : FileAction Preparation := do
  a.prepareIn setting (← Workspace.enter setting repository job)

end NextBuild
