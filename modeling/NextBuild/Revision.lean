import NextBuild.CommitId

/-!
# Branches and revisions

A branch is a reference name with the commit it points to.  A revision is a commit with the branches
that point to it; grouping a list of branches gives one revision per commit, in the order in which
the commits are first seen.
-/

namespace NextBuild

/-- A reference name and the commit it points to. -/
structure Branch where
  name : String
  commit : CommitId
deriving DecidableEq

namespace Branch

/-- The branch is a pointer to the default branch, such as `origin/HEAD`. -/
def isHeadPointer (b : Branch) : Bool :=
  b.name == "HEAD" || Text.endsWith "/HEAD" b.name

/-- The name with the abbreviated commit. -/
def text (b : Branch) : String :=
  b.name ++ "@" ++ b.commit.short

end Branch

/-- The label of a commit that was requested by its id. -/
def detached : String := "detached"

/-- A commit and the branches that point to it. -/
structure Revision where
  commit : CommitId
  branches : List Branch
deriving DecidableEq

namespace Revision

/-- The commit without branches. -/
def ofCommit (c : CommitId) : Revision := ⟨c, []⟩

/-- The names of the branches. -/
def names (r : Revision) : List String :=
  r.branches.map (·.name)

/-- A branch of that name is present. -/
def hasName (r : Revision) (name : String) : Bool :=
  r.branches.any fun b => b.name == name

/-- Some branch is present. -/
def hasBranches (r : Revision) : Bool :=
  !r.branches.isEmpty

/-- The revision with a branch of that name; a name that is present stays where it is. -/
def add (r : Revision) (name : String) : Revision :=
  if r.hasName name then r else ⟨r.commit, r.branches ++ [⟨name, r.commit⟩]⟩

/-- The revision with branches of these names added one by one. -/
def addAll (r : Revision) (names : List String) : Revision :=
  names.foldl add r

/-- A commit under a single label. -/
def labelled (c : CommitId) (label : String) : Revision :=
  (ofCommit c).add label

/-- The revision with the branches that `keep` accepts. -/
def filter (r : Revision) (keep : Branch → Bool) : Revision :=
  ⟨r.commit, r.branches.filter keep⟩

/-- Two revisions are the same revision when they have the same commit. -/
def same (a b : Revision) : Bool :=
  a.commit == b.commit

/-- The commit with the names of its branches. -/
def text (r : Revision) : String :=
  r.commit.text ++ " (" ++ ", ".intercalate r.names ++ ")"

/-- Add a branch to the revision of its commit, or start a new revision at the end. -/
def insertBranch (b : Branch) : List Revision → List Revision
  | [] => [labelled b.commit b.name]
  | r :: rs => if r.commit = b.commit then r.add b.name :: rs else r :: insertBranch b rs

/-- One revision per commit, in the order in which the commits are first seen. -/
def group (bs : List Branch) : List Revision :=
  bs.foldl (fun rs b => insertBranch b rs) []

/-- Adding a name does not change the commit. -/
@[simp]
theorem commit_add (r : Revision) (name : String) : (r.add name).commit = r.commit := by
  unfold add
  split <;> rfl

/-- A labelled revision has the commit that it is made for. -/
@[simp]
theorem commit_labelled (c : CommitId) (label : String) : (labelled c label).commit = c := by
  simp [labelled, ofCommit]

/-- A labelled commit is told by the commit and the label. -/
theorem labelled_inj {c d : CommitId} {a b : String} :
    labelled c a = labelled d b ↔ c = d ∧ a = b := by
  simp [labelled, add, ofCommit, hasName, and_comm]

end Revision

end NextBuild
