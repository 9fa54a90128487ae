import NextBuild.Failure
import NextBuild.Revision
import NextBuild.Table

/-!
# The ledger of finished builds

For every branch name the ledger keeps the last build that covered it, and besides the most recent
build of all.  A build covers the commit that was built and the commit that asked for it, which
differ when a merge was built.  A commit has been built when a build that is kept covers it.
-/

namespace NextBuild

/-- The outcome of a build. -/
inductive BuildResult where
  | success
  | unstable
  | failure
  | notBuilt
  | aborted
deriving DecidableEq, Repr

namespace BuildResult

/-- All outcomes. -/
def all : List BuildResult := [success, unstable, failure, notBuilt, aborted]

/-- The name of an outcome. -/
def name : BuildResult → String
  | success => "SUCCESS"
  | unstable => "UNSTABLE"
  | failure => "FAILURE"
  | notBuilt => "NOT_BUILT"
  | aborted => "ABORTED"

/-- The outcome with exactly this name. -/
def ofName? (s : String) : Option BuildResult :=
  all.find? fun r => r.name == s

/-- A dash becomes an underscore and a small letter a capital one. -/
def nameChar (c : Char) : Char :=
  if c = '-' then '_' else c.toUpper

/-- The outcome that a text names in any case, with blanks around it and dashes allowed. -/
def ofText (s : String) : Except Failure BuildResult :=
  match ofName? (String.ofList ((Text.trimChars s.toList).map nameChar)) with
  | some r => .ok r
  | none => .error (.invalidArgument (.unknownResult s))

/-- A result is found by its name. -/
theorem ofName?_name (r : BuildResult) : ofName? r.name = some r := by
  cases r <;> decide

end BuildResult

/-- A finished build. -/
structure Build where
  /-- The revision that was built. -/
  revision : Revision
  /-- The revision that asked for a merge; nothing if the built revision did. -/
  cause : Option Revision
  number : UInt64
  result : BuildResult
deriving DecidableEq

namespace Build

/-- The revision that asked for the build. -/
def marked (b : Build) : Revision :=
  b.cause.getD b.revision

/-- The built revision is a merge for another revision. -/
def isMerge (b : Build) : Bool :=
  b.cause.isSome

/-- The commit was built or asked for the build. -/
def covers (b : Build) (c : CommitId) : Bool :=
  b.revision.commit == c || b.marked.commit == c

end Build

/-- The builds of a job that are kept. -/
structure Ledger where
  /-- The last build for each branch name. -/
  byBranch : Table Build
  /-- The most recent build. -/
  last : Option Build
deriving DecidableEq

namespace Ledger

/-- The ledger of a job that was never built. -/
def empty : Ledger := ⟨.empty, none⟩

instance : Inhabited Ledger := ⟨empty⟩

/-- The ledger after one more build. -/
def record (l : Ledger) (b : Build) : Ledger :=
  ⟨b.marked.names.foldl (fun t name => t.insert name b) l.byBranch, some b⟩

/-- The build with the greatest number, the last of several. -/
def greatest? : List Build → Option Build
  | [] => none
  | b :: bs => match greatest? bs with
    | some d => if d.number < b.number then some b else some d
    | none => some b

/-- The build that covers a commit: the most recent build if it does, else the one of the builds for
branches that does and has the greatest number. -/
def buildOfCommit? (l : Ledger) (c : CommitId) : Option Build :=
  match l.last.filter (·.covers c) with
  | some b => some b
  | none => greatest? (l.byBranch.values.filter (·.covers c))

/-- A build that is kept covers the commit. -/
def hasBuilt (l : Ledger) (c : CommitId) : Bool :=
  (l.buildOfCommit? c).isSome

/-- The last build for a branch name. -/
def buildOfBranch? (l : Ledger) (name : String) : Option Build :=
  l.byBranch.get? name

/-- The revision of the most recent build. -/
def lastRevision? (l : Ledger) : Option Revision :=
  l.last.map (·.revision)

/-- The last build for some branch built the commit. -/
def isReferenced (l : Ledger) (c : CommitId) : Bool :=
  l.byBranch.values.any fun b => b.revision.commit == c

/-- The builds of a list without those whose number occurred before. -/
def distinct (bs : List Build) : List Build :=
  (bs.foldl (fun seen b => if seen.any (·.number == b.number) then seen else b :: seen) []).reverse

/-- The builds for branches, one for each number, the greatest number first. -/
def builds (l : Ledger) : List Build :=
  (distinct l.byBranch.values).mergeSort fun a b => b.number ≤ a.number

/-- Nothing is kept. -/
def isEmpty (l : Ledger) : Bool :=
  l.last.isNone && l.byBranch.isEmpty

end Ledger

end NextBuild
