import NextBuild.Graph.Dag
import NextBuild.Heap

/-!
# The order of a log

A log lists the commits reachable from its starts.  They are gathered from new to old and then put
into an order in which every commit comes after all its children; of the commits that could be next,
one with the greatest time is.
-/

namespace NextBuild.Dag

/-- Put a commit before the first older one. -/
def insertByTime (n : Node) : List Node → List Node
  | [] => [n]
  | m :: ms => if m.time < n.time then n :: m :: ms else m :: insertByTime n ms

/-- An insertion adds one commit. -/
@[simp]
theorem length_insertByTime (n : Node) (ns : List Node) :
    (insertByTime n ns).length = ns.length + 1 := by
  induction ns with
  | nil => rfl
  | cons m ms ih =>
    unfold insertByTime
    split <;> simp [ih]

/-- Put the parents of a commit that are not seen yet among the commits to list. -/
def gatherParents (g : Dag) :
    List CommitId → List CommitId → List Node → Except Failure (List CommitId × List Node)
  | [], seen, todo => .ok (seen, todo)
  | p :: ps, seen, todo =>
    if seen.contains p then g.gatherParents ps seen todo
    else match g.find? p with
      | some m => g.gatherParents ps (p :: seen) (insertByTime m todo)
      | none => .error (.missingObject p.text)

/-- A parent that is put among the commits to list was not seen before. -/
theorem length_of_gatherParents {g : Dag} {ps seen seen' : List CommitId} {todo todo' : List Node}
    (h : g.gatherParents ps seen todo = .ok (seen', todo')) :
    (g.unseen seen').length + todo'.length ≤ (g.unseen seen).length + todo.length := by
  fun_induction gatherParents g ps seen todo with
  | case1 seen todo => grind
  | case2 _ _ _ _ _ ih => exact ih h
  | case3 p ps seen todo hp m hm ih =>
    have := ih h
    have := length_unseen_lt hm hp
    simp only [length_insertByTime] at *
    omega
  | case4 => simp at h

/-- List the commits to list and everything reachable from them, from new to old. -/
def gather (g : Dag) (seen : List CommitId) : List Node → Except Failure (List Node)
  | [] => .ok []
  | n :: todo =>
    match _h : g.gatherParents n.parents seen todo with
    | .error f => .error f
    | .ok (seen', todo') => do return n :: (← g.gather seen' todo')
termination_by todo => (g.unseen seen).length + todo.length
decreasing_by
  have := length_of_gatherParents _h
  simp only [List.length_cons]
  omega

/-- Strike a parent off the list of parents that wait for a child, and put it among the commits that
can be next if it waits for no other child. -/
def release (g : Dag) (s : List CommitId × Heap Node) (p : CommitId) :
    List CommitId × Heap Node :=
  let waiting := s.1.erase p
  if waiting.contains p then (waiting, s.2)
  else match g.find? p with
    | some m => (waiting, s.2.push Node.isLater m)
    | none => (waiting, s.2)

/-- The next commits, at most `count`.  For each child that is not listed yet, `waiting` holds its
parents. -/
def childrenFirst (g : Dag) : Nat → List CommitId → Heap Node → List Node
  | 0, _, _ => []
  | count + 1, waiting, ready => match ready.pop? Node.isLater with
    | none => []
    | some (n, ready) =>
      let (waiting, ready) := n.parents.foldl g.release (waiting, ready)
      n :: g.childrenFirst count waiting ready

/-- The commits reachable from the starts of a log, in its order. -/
def log (g : Dag) (starts : List CommitId) : Except Failure (List LogEntry) := do
  let starts := starts.eraseDups
  let ns ← g.gather starts (← starts.mapM g.node)
  let waiting := ns.flatMap (·.parents)
  let ready := (ns.filter fun n => !waiting.contains n.id).foldl (·.push Node.isLater ·) .empty
  return (g.childrenFirst ns.length waiting ready).map fun n => ⟨n.id, n.time⟩

end NextBuild.Dag
