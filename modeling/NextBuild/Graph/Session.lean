import NextBuild.Graph.Message
import NextBuild.Text.Lines

/-!
# Sessions with an agent

The agent answers the questions of one connection from its own graph.  It opens a walk when it is
told to, or before the first question that belongs to one.  Lines that ask nothing it knows are
answered too, and blank lines are passed over.
-/

namespace NextBuild

/-- What an agent remembers of a connection. -/
structure Session where
  /-- A walk is open. -/
  walking : Bool := false
deriving DecidableEq, Repr

namespace Session

/-- The question belongs to a walk. -/
def isWalkQuery : Query → Bool
  | .isMergedInto _ _ | .commitTime _ => true
  | _ => false

/-- The response to a question, which opens a walk if it needs one. -/
def respond (g : CommitGraph) (q : Query) (s : Session) : Response × Session :=
  let reply := match g q with
    | .ok a => Response.ofAnswer q a
    | .error f => .ofFailure f
  if q = .openWalk then
    match g .openWalk with
    | .ok _ => (.opened, ⟨true⟩)
    | .error f => (.ofFailure f, s)
  else if isWalkQuery q && !s.walking then
    match g .openWalk with
    | .ok _ => (reply, ⟨true⟩)
    | .error f => (.ofFailure f, s)
  else (reply, s)

/-- What is answered to a line that asks nothing. -/
def malformed : Response :=
  .failed .repository "malformed request: the line is no question about a graph"

/-- The response to a line. -/
def respondToLine (g : CommitGraph) (line : String) (s : Session) : Response × Session :=
  match Query.ofText? line with
  | some q => s.respond g q
  | none => (malformed, s)

/-- The responses to lines, in their order. -/
def respondToLines (g : CommitGraph) : List String → Session → List Response
  | [], _ => []
  | line :: rest, s =>
    let (r, t) := respondToLine g line s
    r :: respondToLines g rest t

/-- The responses to a text with a question on each line that is not blank. -/
def serve (g : CommitGraph) (input : String) : List Response :=
  respondToLines g ((Text.lines input).filter fun l => !Text.allBlank l) {}

end Session

end NextBuild
