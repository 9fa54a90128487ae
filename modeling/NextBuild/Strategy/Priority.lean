import NextBuild.Revision
import NextBuild.Text.Lines

/-!
# Priorities

A priority is a text that names of branches may contain.  Revisions are put into the order of the
first priority that one of their branches contains; those without any come last.  The place of a
revision is looked for once for each commit.
-/

namespace NextBuild

/-- The priorities that texts list, one on a line; blank lines are left out. -/
def readPriorities (entries : List String) : List String :=
  ((entries.flatMap Text.lines).map Text.trim).filter (!·.isEmpty)

/-- The place of the first priority that a branch of the revision contains; behind all priorities if
there is none. -/
def priorityOf (priorities : List String) (r : Revision) : Nat :=
  priorities.findIdx fun p => r.names.any (Text.contains p)

/-- The revisions in the order of the priorities, where revisions of the same place keep their
order. -/
def sortByPriority (priorities : List String) (rs : List Revision) : List Revision :=
  rs.mergeSort fun a b => priorityOf priorities a ≤ priorityOf priorities b

/-- The revisions with their places.  The place that was found for a commit is kept for it. -/
def placeRevisions (priorities : List String) :
    List (CommitId × Nat) → List Revision → List (Nat × Revision)
  | _, [] => []
  | kept, r :: rs => match kept.lookup r.commit with
    | some place => (place, r) :: placeRevisions priorities kept rs
    | none =>
      let place := priorityOf priorities r
      (place, r) :: placeRevisions priorities ((r.commit, place) :: kept) rs

/-- The revisions in the order of the places that are kept for their commits.  Without priorities they
stay as they are. -/
def arrangeByPriority (priorities : List String) (rs : List Revision) : List Revision :=
  if priorities.isEmpty then rs
  else ((placeRevisions priorities [] rs).mergeSort fun a b => a.1 ≤ b.1).map (·.2)

end NextBuild
