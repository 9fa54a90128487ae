import NextBuild.Graph.Dag
import NextBuild.Heap

/-!
# Where two histories meet

A common walk from two commits to their ancestors, the newest commit first, finds the commits that
both have among their ancestors one after the other.  Of several best common ancestors of the same
time, the one that is found last is taken.
-/

namespace NextBuild

/-- From where the walk has come to a commit. -/
structure Trail where
  left : Bool := false
  right : Bool := false
  /-- From a commit that was reached from both sides. -/
  shared : Bool := false
deriving DecidableEq, Repr

namespace Trail

/-- Everything that the second trail knows is known to the first. -/
def includes (t u : Trail) : Bool :=
  (t.left || !u.left) && (t.right || !u.right) && (t.shared || !u.shared)

/-- What either of two trails knows. -/
def union (t u : Trail) : Trail :=
  ⟨t.left || u.left, t.right || u.right, t.shared || u.shared⟩

/-- Both sides have come here, and not through a commit that both had reached. -/
def isMeeting (t : Trail) : Bool :=
  t.left && t.right && !t.shared

end Trail

/-- The state of the walk from two commits. -/
structure Meeting where
  /-- The trails so far; the first entry of a commit counts. -/
  trails : List (CommitId × Trail)
  /-- The commits to visit. -/
  queue : Heap Node
  /-- The commits at which the sides met, the last one first. -/
  found : List CommitId

namespace Meeting

/-- The trail of a commit. -/
def trail (m : Meeting) (c : CommitId) : Trail :=
  (m.trails.lookup c).getD {}

/-- Come to a commit, which is visited unless everything was known about it. -/
def come (g : Dag) (t : Trail) (m : Meeting) (c : CommitId) : Meeting :=
  let known := m.trail c
  if known.includes t then m
  else match g.find? c with
    | none => m
    | some n => { m with
        trails := (c, known.union t) :: m.trails
        queue := m.queue.push Node.isLater n }

/-- Visit a commit and come to its parents. -/
def visit (g : Dag) (m : Meeting) (n : Node) : Meeting :=
  let t := m.trail n.id
  if t.isMeeting then
    let found := if m.found.contains n.id then m.found else n.id :: m.found
    n.parents.foldl (come g { t with shared := true }) { m with found }
  else n.parents.foldl (come g t) m

/-- Visit at most `visits` commits. -/
def run (g : Dag) : Nat → Meeting → Meeting
  | 0, m => m
  | visits + 1, m => match m.queue.pop? Node.isLater with
    | none => m
    | some (n, queue) => run g visits (visit g { m with queue } n)

/-- The walk from two commits.  A commit is visited again only if more is known about it, so three
visits to each commit are enough, besides the two that begin the walk. -/
def between (g : Dag) (a b : CommitId) : Meeting :=
  let start := come g { right := true } (come g { left := true } ⟨[], .empty, []⟩ a) b
  run g (3 * g.nodes.length + 2) start

end Meeting

namespace Dag

/-- Of two commits the first one is newer, or of the same time and found later. -/
def isPreferred (found : List CommitId) (a b : Node) : Bool :=
  a.isLater b || (a.time == b.time && decide (found.idxOf a.id ≤ found.idxOf b.id))

/-- The newest of the best common ancestors, of several the one at which the histories meet last. -/
def meetingPoint (g : Dag) (a b : CommitId) : Except Failure (Option CommitId) := do
  let best ← (← g.bestCommonAncestors a b).mapM g.node
  let found := (Meeting.between g a b).found
  return (best.mergeSort (isPreferred found)).head?.map (·.id)

end Dag

end NextBuild
