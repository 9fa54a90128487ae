import NextBuild.Graph.Query

/-!
# Commits and their ancestors

Commits with their parents and times.  Every parent is a commit of the graph when it is named, so
the walk from a commit to its ancestors meets commits of the graph alone.  It ends because each
round either shortens the list of commits to visit or sees a commit for the first time.  Commits are
numbered in the order in which they are added; of two commits of the same time the later one counts
as newer.
-/

namespace NextBuild

/-- A commit of a graph. -/
structure Node where
  id : CommitId
  parents : List CommitId
  time : Int64
  /-- The number of commits that were there when the commit was added. -/
  order : Nat
deriving DecidableEq

/-- The first commit of two has the greater time. -/
def Node.isLater (a b : Node) : Bool :=
  decide (b.time < a.time)

/-- The commits of a graph. -/
structure Dag where
  nodes : List Node
deriving DecidableEq

namespace Dag

/-- The graph without commits. -/
def empty : Dag := ⟨[]⟩

instance : Inhabited Dag := ⟨empty⟩

/-- The commit with an id. -/
def find? (g : Dag) (c : CommitId) : Option Node :=
  g.nodes.find? fun n => n.id == c

/-- The commit with an id, which has to be there. -/
def node (g : Dag) (c : CommitId) : Except Failure Node :=
  match g.find? c with
  | some n => .ok n
  | none => .error (.missingObject c.text)

/-- The graph with one more commit, whose parents have to be there.  A commit that is there already
is replaced. -/
def add (g : Dag) (id : CommitId) (parents : List CommitId) (time : Int64) : Except Failure Dag :=
  match parents.find? fun p => (g.find? p).isNone with
  | some p => .error (.missingObject p.text)
  | none =>
    .ok ⟨g.nodes.filter (fun n => n.id != id) ++ [⟨id, parents, time, g.nodes.length⟩]⟩

/-- The only commit whose id starts with at least four hexadecimal digits. -/
def abbreviated? (g : Dag) (digits : String) : Option CommitId :=
  if digits.utf8ByteSize < 4 || !digits.toList.all Text.isHexDigit then none
  else
    match g.nodes.filter fun n => Text.startsWith (Text.lowerAscii digits) n.id.text with
    | [n] => some n.id
    | _ => none

/-- The commits of the graph that are not seen yet. -/
def unseen (g : Dag) (seen : List CommitId) : List Node :=
  g.nodes.filter fun n => !seen.contains n.id

/-- A stronger condition that leaves out an entry leaves fewer of them. -/
theorem length_filter_lt {p q : Node → Bool} {ns : List Node} {n : Node} (h : ∀ m, p m → q m)
    (hn : n ∈ ns) (hp : p n = false) (hq : q n = true) :
    (ns.filter p).length < (ns.filter q).length := by
  induction ns with
  | nil => simp at hn
  | cons m ms ih =>
    have hle : (ms.filter p).length ≤ (ms.filter q).length := by
      rw [← List.countP_eq_length_filter, ← List.countP_eq_length_filter]
      exact List.countP_mono_left fun m _ => h m
    rcases List.mem_cons.1 hn with rfl | hn
    · simp [hp, hq]
      omega
    · have := ih hn
      by_cases hm : p m
      · simp [hm, h m hm, this]
      · by_cases hm' : q m <;> simp [hm, hm'] <;> omega

/-- A commit that is seen for the first time leaves fewer commits unseen. -/
theorem length_unseen_lt {g : Dag} {c : CommitId} {n : Node} {seen : List CommitId}
    (hn : g.find? c = some n) (hc : ¬ seen.contains c) :
    (g.unseen (c :: seen)).length < (g.unseen seen).length := by
  have hid : n.id = c := by simpa using List.find?_some hn
  refine length_filter_lt (n := n) ?_ (List.mem_of_find?_eq_some hn) ?_ ?_
  · intro m
    simp
  · simp [hid]
  · simpa [hid] using hc

/-- The commits reachable from `todo`, added to those that are seen. -/
def reach (g : Dag) (seen : List CommitId) : List CommitId → Except Failure (List CommitId)
  | [] => .ok seen
  | c :: todo =>
    if _hc : seen.contains c then g.reach seen todo
    else match _hn : g.find? c with
      | some n => g.reach (c :: seen) (n.parents ++ todo)
      | none => .error (.missingObject c.text)
termination_by todo => ((g.unseen seen).length, todo.length)
decreasing_by
  · exact .right _ (Nat.lt_succ_self _)
  · exact .left _ _ (length_unseen_lt _hn _hc)

/-- A commit and everything reachable from it. -/
def ancestors (g : Dag) (c : CommitId) : Except Failure (List CommitId) :=
  g.reach [] [c]

/-- The first commit of two is the newer one: by time, and of the same time by number. -/
def isNewer (a b : Node) : Bool :=
  a.isLater b || (a.time == b.time && decide (b.order ≤ a.order))

/-- The commits of a list, the newest first. -/
def newestFirst (g : Dag) (cs : List CommitId) : Except Failure (List LogEntry) := do
  let ns ← cs.mapM g.node
  return (ns.mergeSort isNewer).map fun n => ⟨n.id, n.time⟩

/-- The common ancestors of two commits that are not reachable from another common ancestor. -/
def bestCommonAncestors (g : Dag) (a b : CommitId) : Except Failure (List CommitId) := do
  let left ← g.ancestors a
  let right ← g.ancestors b
  let common := left.filter right.contains
  let parents ← common.mapM fun c => (g.node c).map (·.parents)
  let shadowed ← g.reach [] parents.flatten
  return common.filter fun c => !shadowed.contains c

/-- The newest of the best common ancestors. -/
def mergeBase (g : Dag) (a b : CommitId) : Except Failure (Option CommitId) := do
  let best ← g.newestFirst (← g.bestCommonAncestors a b)
  return best.head?.map (·.commit)

/-- The first commit is the second or reachable from it; both have to be there. -/
def isMergedInto (g : Dag) (ancestor candidate : CommitId) : Except Failure Bool := do
  let _ ← g.node ancestor
  let closure ← g.ancestors candidate
  return closure.contains ancestor

end Dag

end NextBuild
