import NextBuild.Graph.Memory
import NextBuild.Graph.Session

/-!
# Serving a graph in memory

A session with a graph in memory opens a walk when it is told to, or before the first question that
belongs to one.  The walk gathers the ancestors of a commit when it is first asked what was merged
into it, and keeps them for later questions.  A text with a question on each line is served line by
line: every line that is not blank is answered on a line of its own, and the answers are counted.
-/

namespace NextBuild

/-- A walk through a graph in memory. -/
structure Walk where
  /-- The ancestors that were gathered so far, each list with its commit. -/
  closures : List (CommitId × List CommitId) := []
deriving DecidableEq

namespace Walk

/-- The first commit is the second or reachable from it; both have to be there.  What is gathered for
the second one is kept. -/
def isMergedInto (g : Dag) (ancestor candidate : CommitId) (w : Walk) :
    Except Failure Bool × Walk :=
  match g.node ancestor with
  | .error f => (.error f, w)
  | .ok _ => match w.closures.lookup candidate with
    | some closure => (.ok (closure.contains ancestor), w)
    | none => match g.ancestors candidate with
      | .error f => (.error f, w)
      | .ok closure => (.ok (closure.contains ancestor), ⟨(candidate, closure) :: w.closures⟩)

end Walk

/-- What was written and how many lines were answered. -/
structure Served where
  output : String := ""
  handled : Nat := 0
deriving DecidableEq, Repr

namespace MemoryGraph

/-- The answers of the graph, with what the walk keeps that was opened last. -/
def answersInWalk (g : MemoryGraph) : (q : Query) → StateM Walk (Except Failure q.Answer)
  | .openWalk => do
    set ({} : Walk)
    return .ok ()
  | .isMergedInto a c => modifyGet (Walk.isMergedInto g.dag a c)
  | q => return g.answers q

/-- The response to a question, with the walk that is open afterwards. -/
def respond (g : MemoryGraph) (q : Query) (walk : Option Walk) : Response × Option Walk :=
  match q with
  | .openWalk => (.opened, some {})
  | .isMergedInto ancestor candidate =>
    let (merged, w) := (walk.getD {}).isMergedInto g.dag ancestor candidate
    (.ofResult (.isMergedInto ancestor candidate) merged, some w)
  | .commitTime c => (.ofResult (.commitTime c) (g.answers (.commitTime c)), some (walk.getD {}))
  | q => (.ofResult q (g.answers q), walk)

/-- The response to a line. -/
def respondToLine (g : MemoryGraph) (line : String) (walk : Option Walk) :
    Response × Option Walk :=
  match Query.ofText? line with
  | some q => g.respond q walk
  | none => (Session.malformed, walk)

/-- Answer lines, in their order, and pass over the blank ones. -/
def serveLines (g : MemoryGraph) : List String → Option Walk → Served → Served
  | [], _, s => s
  | line :: rest, walk, s =>
    if Text.allBlank line then g.serveLines rest walk s
    else
      let (r, walk) := g.respondToLine line walk
      g.serveLines rest walk ⟨s.output ++ r.text ++ "\n", s.handled + 1⟩

/-- Answer the lines of a text. -/
def serve (g : MemoryGraph) (input : String) : Served :=
  g.serveLines (Text.lines input) none {}

end MemoryGraph

end NextBuild
