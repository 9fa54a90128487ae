import NextBuild.CommandLine.Invocation
import NextBuild.CommandLine.Setting

/-!
# The command that records a build

Records that a revision was built, under the branches that are given or else under the references
that point to it.  The revision that asked for a merge lends its branches to a merge without any.
-/

namespace NextBuild

/-- A build that was recorded. -/
structure Recording where
  job : String
  build : Build
  /-- The last build for some branch had built the commit before. -/
  isRebuild : Bool

namespace Recording

/-- The recording as data. -/
def json (r : Recording) : Json :=
  .record <| [("job", .ofText r.job), ("build_number", .ofInt r.build.number.toNat),
      ("result", .ofText r.build.result.name), ("commit", r.build.revision.commit.json),
      ("branches", .ofTexts r.build.marked.names)]
    ++ Json.memberIfSome "marked" (fun c => c.commit.json) r.build.cause
    ++ [("rebuild", .bool r.isRebuild)]

/-- The report of the recording. -/
def report (r : Recording) : Report where
  header := "Recorded build #" ++ toString r.build.number.toNat
  summary := [("job", r.job), ("result", r.build.result.name),
      ("commit", r.build.revision.commit.text)]
    ++ (r.build.cause.map fun c => ("marked", c.commit.text)).toList
    ++ [("branches", ", ".intercalate r.build.marked.names)]
  warnings :=
    if r.isRebuild then ["commit " ++ r.build.revision.commit.text ++ " was already built"] else []

end Recording

/-- A revision under another revision's branches if it has none, and else as detached. -/
def Revision.orLabelled (fallback : Option Revision) (r : Revision) : Revision :=
  let r := if r.hasBranches then r else r.addAll ((fallback.map Revision.names).getD [])
  if r.hasBranches then r else r.add detached

/-- The revision that a name denotes, under the given branches that are not blank, or else under the
references that point to it. -/
def namedRevision (name : String) (branches : List String) (fallback : Option Revision) :
    Inquiry Revision := do
  let commit ← .query (.resolve (Text.trim name))
  let given := (Revision.ofCommit commit).addAll ((branches.map Text.trim).filter (!·.isEmpty))
  if given.hasBranches then return given
  let listed ← .query .references
  let there := (listed.filter fun b => b.commit == commit).map (·.name)
  return (given.addAll there).orLabelled fallback

namespace RecordArguments

/-- The build that the arguments describe; the revision that asked for it is looked up first. -/
def build (a : RecordArguments) (result : BuildResult) : Inquiry Build := do
  let cause ← match a.marked with
    | some name => do pure (some (← namedRevision name a.branches none))
    | none => pure none
  return ⟨← namedRevision a.revision a.branches cause, cause, a.number, result⟩

/-- Record a build in a ledger. -/
def recordIn (job : String) (b : Build) (l : Ledger) : Recording × Ledger :=
  (⟨job, b, l.isReferenced b.revision.commit⟩, l.record b)

/-- Record the build. -/
def run (a : RecordArguments) (setting : Setting) (repository job : Option String) :
    FileAction Recording := do
  let w ← Workspace.enter setting repository job
  let result ← BuildResult.ofText a.result
  let b ← (a.build result).run w.repository.answers
  w.store.update w.job fun l => .ok (recordIn w.job b l)

end RecordArguments

end NextBuild
