import NextBuild.BranchSpec
import NextBuild.Revision

/-!
# The order of branches in a revision

The branches of a revision are put into the order of a list of specs: a branch comes where the first
spec stands that matches its name, and branches that no spec matches come last.
-/

namespace NextBuild

namespace BranchSpec

/-- The place of the first spec that matches a name; behind all specs if none does. -/
def rank (env : Text.Environment) (name : String) : List BranchSpec → Except Failure Nat
  | [] => .ok 0
  | spec :: specs => do
    if ← spec.isMatch env name then return 0
    else return (← rank env name specs) + 1

end BranchSpec

namespace Revision

/-- The branches with their places in a list of specs. -/
def rankedBranches (specs : List BranchSpec) (env : Text.Environment) (r : Revision) :
    Except Failure (List (Nat × Branch)) :=
  r.branches.mapM fun b => do return (← BranchSpec.rank env b.name specs, b)

/-- The revision with its branches in the order of the specs, where branches of the same place keep
their order.  When a spec cannot be matched, the failure comes with a revision that has lost its
branches. -/
def sortBranches (specs : List BranchSpec) (env : Text.Environment) (r : Revision) :
    Option Failure × Revision :=
  match r.rankedBranches specs env with
  | .ok ranked => (none, ⟨r.commit, (ranked.mergeSort fun a b => a.1 ≤ b.1).map (·.2)⟩)
  | .error f => (some f, ofCommit r.commit)

/-- Sorting the branches does not change the commit, also where it fails. -/
theorem commit_sortBranches (r : Revision) (specs : List BranchSpec) (env : Text.Environment) :
    (r.sortBranches specs env).2.commit = r.commit := by
  unfold sortBranches
  split <;> rfl

end Revision

end NextBuild
