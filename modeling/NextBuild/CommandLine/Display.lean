import NextBuild.CommandLine.Invocation
import NextBuild.CommandLine.Setting
import NextBuild.Text.Glob

/-!
# The commands that show something

One command shows the recorded builds of a job, for the branches that a glob matches.  Another one
lists the references that a selection sees, as far as a branch spec matches them.
-/

namespace NextBuild

/-- The recorded builds of a job. -/
structure Display where
  job : String
  ledger : Ledger
  /-- The last builds for the branches that are shown. -/
  builds : List (String × Build)
  /-- The jobs that have a ledger. -/
  jobs : List String

namespace Display

/-- A build in short, as data. -/
def buildMembers (b : Build) : List (String × Json) :=
  [("build_number", .ofInt b.number.toNat), ("result", .ofText b.result.name),
      ("commit", b.revision.commit.json)]
    ++ Json.memberIfSome "marked" (fun c => c.commit.json) b.cause

/-- The display as data. -/
def json (d : Display) : Json :=
  .record <| [("job", .ofText d.job),
      ("branches", .array (d.builds.map fun e =>
        .record (("branch", .ofText e.1) :: buildMembers e.2)))]
    ++ Json.memberIfSome "last_build" (fun b => .record (buildMembers b)) d.ledger.last
    ++ [("jobs", .ofTexts d.jobs)]

/-- A build in one line. -/
def buildText (b : Build) : String :=
  "#" ++ toString b.number.toNat ++ " " ++ b.result.name ++ " " ++ b.revision.commit.short

/-- The report of the display; where nothing is recorded, other jobs are pointed out. -/
def report (d : Display) : Report where
  header :=
    if d.ledger.isEmpty then "No builds recorded for job " ++ d.job
    else "Build history for job " ++ d.job
  summary := (d.ledger.last.map fun b => ("last build", buildText b)).toList
    ++ [("branches", toString d.builds.length)]
  details := d.builds.map fun e => e.1 ++ " " ++ buildText e.2
  warnings :=
    if d.ledger.isEmpty && !d.jobs.isEmpty then
      ["jobs with recorded builds: " ++ ", ".intercalate d.jobs]
    else []
  nextSteps :=
    match d.ledger.isEmpty, d.jobs with
    | true, other :: _ => ["revsel --job " ++ other ++ " history"]
    | _, _ => []

/-- The glob of an argument. -/
def globOfText (s : String) : Except Failure Glob :=
  match Glob.ofText s with
  | .ok g => .ok g
  | .error fault => .error (.invalidArgument (.branchGlob s fault.message))

/-- The glob of an argument, if it is given. -/
def globOr : Option String → Except Failure (Option Glob)
  | some s => (globOfText s).map some
  | none => .ok none

/-- The branch is shown: the glob matches it, or there is none. -/
def isShown (glob : Option Glob) (branch : String) : Bool :=
  glob.all (·.isMatch branch)

/-- Collect the recorded builds of a job. -/
def collect (branch : Option String) (setting : Setting) (repository job : Option String) :
    FileAction Display := do
  let w ← Workspace.enter setting repository job
  let glob ← globOr branch
  let ledger ← w.store.load w.job
  let builds := ledger.byBranch.entries.filter fun e => isShown glob e.1
  return ⟨w.job, ledger, builds, ← w.store.jobs⟩

end Display

/-- The listed references. -/
structure Listing where
  /-- The branch spec that they match. -/
  spec : Option String
  /-- The number of all references that are listed without it. -/
  total : Nat
  references : List Branch

namespace Listing

/-- The listing as data. -/
def json (l : Listing) : Json :=
  .record <| Json.memberIfSome "branch" .ofText l.spec
    ++ [("references", .array (l.references.map Branch.json))]

/-- The report of the listing. -/
def report (l : Listing) : Report where
  header := toString l.references.length ++ " references"
  summary := match l.spec with
    | some spec => [("branch spec", spec), ("listed", toString l.total)]
    | none => []
  details := l.references.map fun b => b.commit.short ++ " " ++ b.name
  warnings :=
    if l.total = 0 then ["no remote branches or tags; fetch first"]
    else if l.references.isEmpty then ["the branch spec matches none of the listed references"]
    else []

/-- The references that a spec matches, in their order. -/
def keepMatching (spec : BranchSpec) (env : Text.Environment) (listed : List Branch) :
    Except Failure (List Branch) := do
  let names ← spec.filter env (listed.map (·.name))
  return listed.filter fun b => names.contains b.name

/-- Collect the references that a spec matches, or all of them. -/
def collect (spec : Option String) (setting : Setting) (repository : Option String) :
    FileAction Listing := do
  let w ← Workspace.enter setting repository none
  let listed ← w.repository.answers .references
  let references ← match spec with
    | some s => do keepMatching (← BranchSpec.ofText s) setting.env listed
    | none => pure listed
  return ⟨spec, listed.length, references⟩

end Listing

end NextBuild
