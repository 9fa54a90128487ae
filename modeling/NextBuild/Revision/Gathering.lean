import NextBuild.Revision

/-!
# Gathering with an index

The grouping of branches in one pass: the revisions stand in a list that grows at its end, and an
index beside it says at which place the revision of a commit stands.  Nothing but the index is asked
where a branch belongs, so a place that is not in the list would leave the branch without a revision;
then there is no answer.
-/

namespace NextBuild

/-- Revisions that are being gathered. -/
structure Gathering where
  /-- The places of the commits that were seen. -/
  places : List (CommitId × Nat)
  revisions : List Revision

namespace Gathering

/-- Nothing is gathered yet. -/
def start : Gathering := ⟨[], []⟩

/-- The place of a commit; a commit that is seen for the first time gets a revision at the end. -/
def place (s : Gathering) (c : CommitId) : Nat × Gathering :=
  match s.places.lookup c with
  | some i => (i, s)
  | none =>
    (s.revisions.length, ⟨(c, s.revisions.length) :: s.places, s.revisions ++ [.ofCommit c]⟩)

/-- Add a branch to the revision at the place of its commit. -/
def put? (s : Gathering) (b : Branch) : Option Gathering :=
  let (i, t) := s.place b.commit
  t.revisions[i]?.map fun r => { t with revisions := t.revisions.set i (r.add b.name) }

/-- The revisions of a list of branches. -/
def gather? (bs : List Branch) : Option (List Revision) :=
  (bs.foldlM put? start).map (·.revisions)

end Gathering

end NextBuild
