import NextBuild.Graph.LogOrder
import NextBuild.Graph.Meeting
import NextBuild.Table
import NextBuild.Text.Lines

/-!
# Repositories

A repository holds commits and references, of which some point to other references.  A name is
resolved in three steps: as the full id of a commit, as a reference, and as the begin of an id that
only one commit has.  The references that are listed and those from which a log starts may lead to no
commit; such references are passed over wherever that is no sign of a damaged repository.
-/

namespace NextBuild

/-- What a reference points to. -/
inductive RefTarget where
  | commit (c : CommitId)
  /-- Another reference. -/
  | symbolic (name : String)
  /-- An object that is no commit. -/
  | other
deriving DecidableEq

/-- A repository. -/
structure Repository where
  dag : Dag
  /-- The references under their full names, `HEAD` among them. -/
  refs : Table RefTarget
  /-- The text that the last fetch left. -/
  fetchHead : Option String
  /-- Local branches are listed too. -/
  localBranches : Bool
deriving DecidableEq

/-- Where a reference leads. -/
inductive Destination where
  | commit (c : CommitId)
  | other
  | nowhere
  | unreadable (reason : String)
deriving DecidableEq

namespace Repository

/-- The repository without commits. -/
def empty : Repository := ⟨.empty, .empty, none, false⟩

instance : Inhabited Repository := ⟨empty⟩

/-- The greatest number of references on the way from one to its commit. -/
def maxHops : Nat := 5

/-- Where a target leads in at most `hops` further references. -/
def follow (r : Repository) : Nat → RefTarget → Destination
  | _, .commit c => .commit c
  | _, .other => .other
  | 0, .symbolic _ => .unreadable "the reference leads over too many others"
  | hops + 1, .symbolic name => match r.refs.get? name with
    | some t => r.follow hops t
    | none => .nowhere

/-- The character ends an id in the text of the last fetch. -/
def endsId (c : Char) : Bool :=
  c == ' ' || ('\t' ≤ c && c ≤ '\r')

/-- Where the text of the last fetch leads: to the id at its begin. -/
def fetchDestination (text : String) : Destination :=
  let digits := text.toList.take 40
  if digits.all Text.isHexDigit && (text.toList.drop 40).head?.all endsId then
    match CommitId.ofText? (String.ofList digits) with
    | some c => .commit c
    | none => .unreadable "the text of the last fetch holds no id"
  else .unreadable "the text of the last fetch does not begin with an id"

/-- Where a full reference name leads. -/
def destination (r : Repository) (name : String) : Destination :=
  match name, r.fetchHead with
  | "FETCH_HEAD", some text => fetchDestination text
  | _, _ => match r.refs.get? name with
    | some t => r.follow maxHops t
    | none => .nowhere

/-- The names that a name may stand for, in the order in which they are tried. -/
def candidateNames (name : String) : List String :=
  fullNames name ++ ["refs/remotes/" ++ name ++ "/HEAD"]

/-- Where the first of several references leads that leads anywhere. -/
def firstDestination (r : Repository) : List String → Destination
  | [] => .nowhere
  | name :: names => match r.destination name with
    | .nowhere => r.firstDestination names
    | d => d

/-- A text for which no name is looked up: it holds a null character, or asks for a prepared file. -/
def isNoName (name : String) : Bool :=
  Text.hasChar '\x00' name || (Text.startsWith ":" name && !Text.startsWith ":/" name)

/-- The commit whose full id a text is. -/
def fullId? (r : Repository) (name : String) : Option CommitId :=
  if name.toList.length = 40 then r.dag.abbreviated? name else none

/-- The commit whose id begins with the text. -/
def shortId? (r : Repository) (name : String) : Option CommitId :=
  if name.utf8ByteSize < 40 then r.dag.abbreviated? name else none

/-- The commit that a name denotes. -/
def resolve (r : Repository) (name : String) : Except Failure CommitId :=
  if isNoName name then .error (.git "the text is no name")
  else match r.fullId? name with
    | some c => .ok c
    | none => match r.firstDestination (candidateNames name) with
      | .commit c => if (r.dag.find? c).isSome then .ok c else .error (.refNotFound name)
      | .other => .error (.refNotFound name)
      | .unreadable reason => .error (.git reason)
      | .nowhere => match r.shortId? name with
        | some c => .ok c
        | none => .error (.refNotFound name)

/-- The branch that a listed reference is, if it leads to a commit. -/
def branch (r : Repository) (e : String × RefTarget) : Except Failure (Option Branch) :=
  match r.follow (maxHops + 1) e.2 with
  | .commit c => .ok (some ⟨displayName e.1, c⟩)
  | .nowhere => .ok none
  | .other => .error (.git "the reference points to no commit")
  | .unreadable reason => .error (.git reason)

/-- The listed references under their short names, in the order of these. -/
def branches (r : Repository) : Except Failure (List Branch) := do
  let found ← (r.refs.entries.filter fun e => isListed r.localBranches e.1).mapM r.branch
  return (found.filterMap id).mergeSort fun a b => Text.le a.name b.name

/-- The commit from which a log of all references starts at one of them. -/
def start (r : Repository) (name : String) : Except Failure (Option CommitId) :=
  match r.destination name with
  | .commit c => .ok (some c)
  | .nowhere | .other => .ok none
  | .unreadable reason => .error (.git reason)

/-- The commit from which a log of all references starts at the head, which may not be born. -/
def headStart (r : Repository) : Except Failure (Option CommitId) :=
  match r.destination "HEAD" with
  | .commit c => .ok (some c)
  | .nowhere | .unreadable _ => .ok none
  | .other => .error (.git "the head points to no commit")

/-- The commits from which a log of all references starts, those of the head first. -/
def starts (r : Repository) : Except Failure (List CommitId) := do
  let below := fun lead => r.refs.keys.filter (Text.startsWith lead)
  let names := below "refs/remotes/" ++ below "refs/tags/" ++ below "refs/heads/"
  let found ← names.mapM r.start
  return ((found ++ [← r.headStart]).filterMap id).reverse

/-- The commits reachable from a reference, or from every reference. -/
def log (r : Repository) (reference : Option String) : Except Failure (List LogEntry) := do
  match reference with
  | some name => r.dag.log [← r.resolve name]
  | none => r.dag.log (← r.starts)

/-- The commit with an id, which has to be the id of an object. -/
def node (r : Repository) (c : CommitId) : Except Failure Node :=
  if c.isObjectId then r.dag.node c else .error (.invalidCommitId c.text)

/-- The first word of the first line that is not blank. -/
def fetchedWord? (text : String) : Option String :=
  ((Text.lines text).find? fun l => !Text.allBlank l).bind Text.firstWord?

/-- The commit of the last fetch. -/
def fetched (r : Repository) : Except Failure CommitId :=
  match r.fetchHead.bind fetchedWord? with
  | none => .error (.refNotFound "FETCH_HEAD")
  | some word => match CommitId.ofText? word with
    | none => .error (.operationFailed ("malformed FETCH_HEAD entry '" ++ word ++ "'"))
    | some c => (r.node c).map (·.id)

/-- A best common ancestor of two commits. -/
def mergeBase (r : Repository) (a b : CommitId) : Except Failure (Option CommitId) := do
  let left ← r.node a
  let right ← r.node b
  r.dag.meetingPoint left.id right.id

/-- The first commit is the second or reachable from it. -/
def isMergedInto (r : Repository) (ancestor candidate : CommitId) : Except Failure Bool := do
  let left ← r.node ancestor
  let right ← r.node candidate
  r.dag.isMergedInto left.id right.id

/-- The answers of the repository. -/
def answers (r : Repository) : CommitGraph
  | .references => r.branches
  | .resolve name => r.resolve name
  | .mergeBase a b => r.mergeBase a b
  | .timestamp c => (r.node c).map (·.time)
  | .log reference => r.log reference
  | .fetchHead => r.fetched
  | .openWalk => .ok ()
  | .isMergedInto a c => r.isMergedInto a c
  | .commitTime c => (r.node c).map (·.time)

end Repository

end NextBuild
