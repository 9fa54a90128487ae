import NextBuild.Graph.Dag
import NextBuild.Table

/-!
# Graphs in memory

A graph in memory holds its commits and a table of references, whose targets are commits of the
graph.
-/

namespace NextBuild

/-- A graph in memory. -/
structure MemoryGraph where
  dag : Dag
  /-- The references under their full names. -/
  refs : Table CommitId
  fetchHead : Option CommitId
  /-- Local branches are listed too. -/
  localBranches : Bool
deriving DecidableEq

namespace MemoryGraph

/-- The graph without commits. -/
def empty : MemoryGraph := ⟨.empty, .empty, none, false⟩

instance : Inhabited MemoryGraph := ⟨empty⟩

/-- The graph with one more commit, whose parents have to be there. -/
def addCommit (g : MemoryGraph) (id : CommitId) (parents : List CommitId) (time : Int64) :
    Except Failure MemoryGraph := do
  return { g with dag := ← g.dag.add id parents time }

/-- The graph with a reference set to a commit, which has to be there. -/
def setRef (g : MemoryGraph) (name : String) (c : CommitId) : Except Failure MemoryGraph := do
  let _ ← g.dag.node c
  return { g with refs := g.refs.insert name c }

/-- The graph without a reference. -/
def removeRef (g : MemoryGraph) (name : String) : MemoryGraph :=
  { g with refs := g.refs.erase name }

/-- The target of the first reference that a name may mean. -/
def lookupRef? (g : MemoryGraph) (name : String) : Option CommitId :=
  (fullNames name).findSome? g.refs.get?

/-- The commit of the last fetch, which has to be there. -/
def fetched (g : MemoryGraph) : Except Failure CommitId :=
  match g.fetchHead with
  | some c => .ok c
  | none => .error (.refNotFound "FETCH_HEAD")

/-- The commit that a reference name or a commit id denotes. -/
def resolve (g : MemoryGraph) (name : String) : Except Failure CommitId :=
  if name = "FETCH_HEAD" then g.fetched
  else match g.lookupRef? name with
    | some c => .ok c
    | none => match g.dag.abbreviated? name with
      | some c => .ok c
      | none => .error (.refNotFound name)

/-- The listed references under their short names, in the order of these. -/
def branches (g : MemoryGraph) : List Branch :=
  ((g.refs.entries.filter fun e => isListed g.localBranches e.1).map
    fun e => Branch.mk (displayName e.1) e.2).mergeSort fun a b => Text.le a.name b.name

/-- The commits reachable from a reference, or from every reference, the newest first. -/
def log (g : MemoryGraph) (reference : Option String) : Except Failure (List LogEntry) := do
  let starts ← match reference with
    | some name => (g.resolve name).map fun c => [c]
    | none => .ok g.refs.values
  g.dag.newestFirst (← g.dag.reach [] starts)

/-- The answers of the graph. -/
def answers (g : MemoryGraph) : CommitGraph
  | .references => .ok g.branches
  | .resolve name => g.resolve name
  | .mergeBase a b => g.dag.mergeBase a b
  | .timestamp c => (g.dag.node c).map (·.time)
  | .log reference => g.log reference
  | .fetchHead => g.fetched
  | .openWalk => .ok ()
  | .isMergedInto a c => g.dag.isMergedInto a c
  | .commitTime c => (g.dag.node c).map (·.time)

end MemoryGraph

end NextBuild
