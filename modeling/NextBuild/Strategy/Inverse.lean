import NextBuild.Strategy.Candidates

/-!
# The inverse strategy

Builds all branches that the configured specs do not match, for a job that takes what more specific
jobs leave over.  Pointers to default branches are never built, and a requested branch is ignored.
-/

namespace NextBuild

/-- The inverse strategy. -/
structure InverseStrategy where
  excluded : List BranchSpec

namespace InverseStrategy

/-- The strategy for the texts of branch specs. -/
def ofTexts (branches : List String) : Except Failure InverseStrategy := do
  return ⟨← BranchSpec.ofTexts branches⟩

/-- The branch is neither a pointer to a default branch nor excluded. -/
def isEligible (s : InverseStrategy) (env : Text.Environment) (b : Branch) :
    Except Failure Bool := do
  if b.isHeadPointer then return false
  else if ← BranchSpec.head.isMatch env b.name then return false
  else return !(← BranchSpec.anyMatch s.excluded env b.name)

/-- The revisions to build. -/
def select (s : InverseStrategy) (req : Request) (ledger : Ledger) : Inquiry (List Revision) := do
  let listed ← listedRevisions
  let left ← Inquiry.ofExcept (listed.mapM (Revision.filterNames (s.isEligible req.env)))
  match ← tips (left.filter (·.hasBranches)) with
  | [] => return []
  | newest => match dropBuilt ledger newest with
    | ([], again) => return if req.poll then [] else again.toList
    | (fresh, _) => sortOldestFirst fresh

end InverseStrategy

end NextBuild
