import NextBuild.Graph.Inquiry
import NextBuild.Graph.Session

/-!
# Graphs behind a line

A question can be sent as a line of text, and its answer is read from the next line that comes back.
The loopback sends every message through its text, but asks a graph that is at hand.
-/

namespace NextBuild

/-- A line to an agent: what is still to be read, and what was written, in reverse. -/
structure Line where
  incoming : List Char
  sent : List String

namespace Line

/-- The line on which a text comes in. -/
def ofText (s : String) : Line := ⟨s.toList, []⟩

/-- Send a question and read the response. -/
def ask (q : Query) : StateM Line (Except Failure q.Answer) := do
  let line ← get
  let sent := q.text :: line.sent
  match Text.nextLine? line.incoming with
  | none =>
    set (Line.mk [] sent)
    return .error (.transport .closed)
  | some (text, rest) =>
    set (Line.mk rest sent)
    match Response.ofText? (String.ofList (Text.trimChars text)) with
    | some r => return r.answer q
    | none => return .error (.transport (.malformed "the line is no response"))

/-- Run an inquiry over the line. -/
def run {α : Type} (x : Inquiry α) : StateM Line (Except Failure α) :=
  x.runWith ask

end Line

namespace Loopback

/-- Send a question through its text to a session with a graph, and the response back. -/
def ask (g : CommitGraph) (q : Query) : StateM Session (Except Failure q.Answer) := do
  match Query.ofText? q.text with
  | none => return .error (.json "the text is no question")
  | some q' =>
    let (r, s) := (← get).respond g q'
    set s
    match Response.ofText? r.text with
    | some r' => return r'.answer q
    | none => return .error (.json "the text is no response")

/-- Run an inquiry in a session of its own. -/
def run {α : Type} (g : CommitGraph) (x : Inquiry α) : Except Failure α :=
  ((x.runWith (ask g)).run {}).1

end Loopback

/-- What is at the other end of a line. -/
inductive Peer where
  /-- An agent with a graph. -/
  | agent (g : CommitGraph)
  /-- Something that says a text, whatever it is asked. -/
  | speaker (text : String)

/-- Run an inquiry over a line to a peer. -/
def Peer.run {α : Type} (x : Inquiry α) : Peer → Except Failure α
  | agent g => Loopback.run g x
  | speaker text => ((Line.run x).run (.ofText text)).1

end NextBuild
