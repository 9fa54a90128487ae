import NextBuild.Graph.Query
import NextBuild.Json.Printer
import NextBuild.Json.Reader
import NextBuild.Json.Revision
import NextBuild.Json.Tagged

/-!
# Messages about a graph

The questions and answers that go over a line, one JSON text on a line of its own.  A failure keeps
its class if it says that something does not exist or is no commit id; every other failure travels
as its text.
-/

namespace NextBuild

namespace LogEntry

/-- A log entry is a commit and a time. -/
def json (e : LogEntry) : Json :=
  .record [("commit", e.commit.json), ("time", .ofInt e.time.toInt)]

/-- The log entry of a record. -/
def ofJson? (v : Json) : Option LogEntry := do
  match ← v.fields? ["commit", "time"] with
  | [some commit, some time] => return ⟨← CommitId.ofJson? commit, ← time.int64?⟩
  | _ => none

end LogEntry

namespace Query

/-- The message that asks a question. -/
def json : Query → Json
  | references => .record [("op", .ofText "list_reference_commits")]
  | resolve name => .record [("op", .ofText "resolve"), ("name", .ofText name)]
  | mergeBase a b => .record [("op", .ofText "merge_base"), ("a", a.json), ("b", b.json)]
  | timestamp c => .record [("op", .ofText "commit_timestamp"), ("commit", c.json)]
  | log reference =>
    .record [("op", .ofText "log_all"), ("reference", .ofOption .ofText reference)]
  | fetchHead => .record [("op", .ofText "resolve_fetch_head")]
  | openWalk => .record [("op", .ofText "open_traversal")]
  | isMergedInto a c =>
    .record [("op", .ofText "is_merged_into"), ("ancestor", a.json), ("candidate", c.json)]
  | commitTime c => .record [("op", .ofText "commit_time"), ("commit", c.json)]

/-- The commits in the fields with two names. -/
def twoCommits? (first second : String) (fields : Json) : Option (CommitId × CommitId) := do
  match ← fields.fields? [first, second] with
  | [some a, some b] => return (← CommitId.ofJson? a, ← CommitId.ofJson? b)
  | _ => none

/-- The commit in the only field. -/
def oneCommit? (fields : Json) : Option CommitId := do
  match ← fields.fields? ["commit"] with
  | [some c] => CommitId.ofJson? c
  | _ => none

/-- The question of a message. -/
def ofJson? (v : Json) : Option Query := do
  let (op, fields) ← v.tagged? "op"
  match op with
  | "list_reference_commits" => return ← (fields.noFields?).map fun _ => references
  | "resolve" => match ← fields.fields? ["name"] with
    | [some name] => return resolve (← name.text?)
    | _ => none
  | "merge_base" =>
    let (a, b) ← twoCommits? "a" "b" fields
    return mergeBase a b
  | "commit_timestamp" => return timestamp (← oneCommit? fields)
  | "log_all" => match ← fields.fields? ["reference"] with
    | [reference] => return log (← Json.optionalField? Json.text? fields reference)
    | _ => none
  | "resolve_fetch_head" => return ← (fields.noFields?).map fun _ => fetchHead
  | "open_traversal" => return ← (fields.noFields?).map fun _ => openWalk
  | "is_merged_into" =>
    let (a, c) ← twoCommits? "ancestor" "candidate" fields
    return isMergedInto a c
  | "commit_time" => return commitTime (← oneCommit? fields)
  | _ => none

/-- The question that a line asks. -/
def ofText? (s : String) : Option Query := do
  ofJson? (← Json.read? s)

/-- The line that asks a question. -/
def text (q : Query) : String := q.json.compact

end Query

/-- The class of a failure that is told over a line. -/
inductive FailureClass where
  | refNotFound
  | missingObject
  | invalidCommitId
  | repository
deriving DecidableEq, Repr

namespace FailureClass

/-- All classes. -/
def all : List FailureClass := [refNotFound, missingObject, invalidCommitId, repository]

/-- The name of a class. -/
def name : FailureClass → String
  | refNotFound => "ref_not_found"
  | missingObject => "missing_object"
  | invalidCommitId => "invalid_commit_id"
  | repository => "repository"

/-- The class with a name. -/
def ofName? (s : String) : Option FailureClass :=
  all.find? fun c => c.name == s

/-- The failure that a class and a text tell. -/
def failure (c : FailureClass) (message : String) : Failure :=
  match c with
  | refNotFound => .refNotFound message
  | missingObject => .missingObject message
  | invalidCommitId => .invalidCommitId message
  | repository => .operationFailed ("graph agent: " ++ message)

end FailureClass

/-- The class and the text that tell a failure. -/
def Failure.told : Failure → FailureClass × String
  | .refNotFound name => (.refNotFound, name)
  | .missingObject id => (.missingObject, id)
  | .invalidCommitId text => (.invalidCommitId, text)
  | f => (.repository, f.message)

/-- The answer of an agent. -/
inductive Response where
  | references (branches : List Branch)
  | commit (c : CommitId)
  | mergeBase (c : Option CommitId)
  | timestamp (time : Int64)
  | log (entries : List LogEntry)
  | merged (b : Bool)
  | opened
  | failed (c : FailureClass) (message : String)
deriving DecidableEq

namespace Response

/-- The message of an answer. -/
def json : Response → Json
  | references bs =>
    .record [("kind", .ofText "references"), ("branches", .array (bs.map Branch.json))]
  | commit c => .record [("kind", .ofText "commit"), ("commit", c.json)]
  | mergeBase c =>
    .record [("kind", .ofText "merge_base"), ("commit", .ofOption CommitId.json c)]
  | timestamp time => .record [("kind", .ofText "timestamp"), ("time", .ofInt time.toInt)]
  | log es => .record [("kind", .ofText "log"), ("entries", .array (es.map LogEntry.json))]
  | merged b => .record [("kind", .ofText "merged"), ("merged", .bool b)]
  | opened => .record [("kind", .ofText "opened")]
  | failed c message =>
    .record [("kind", .ofText "error"), ("error", .ofText c.name), ("message", .ofText message)]

/-- The value of the only field. -/
def oneField? {α : Type} (name : String) (f : Json → Option α) (fields : Json) : Option α := do
  match ← fields.fields? [name] with
  | [some v] => f v
  | _ => none

/-- The answer of a message. -/
def ofJson? (v : Json) : Option Response := do
  let (kind, fields) ← v.tagged? "kind"
  match kind with
  | "references" => return references (← oneField? "branches" (·.list? Branch.ofJson?) fields)
  | "commit" => return commit (← oneField? "commit" CommitId.ofJson? fields)
  | "merge_base" => match ← fields.fields? ["commit"] with
    | [c] => return mergeBase (← Json.optionalField? CommitId.ofJson? fields c)
    | _ => none
  | "timestamp" => return timestamp (← oneField? "time" Json.int64? fields)
  | "log" => return log (← oneField? "entries" (·.list? LogEntry.ofJson?) fields)
  | "merged" => return merged (← oneField? "merged" Json.bool? fields)
  | "opened" => return ← (fields.noFields?).map fun _ => opened
  | "error" => match ← fields.fields? ["error", "message"] with
    | [some c, some message] =>
      return failed (← FailureClass.ofName? (← c.emptyChoice?)) (← message.text?)
    | _ => none
  | _ => none

/-- The answer of a line. -/
def ofText? (s : String) : Option Response := do
  ofJson? (← Json.read? s)

/-- The line of an answer. -/
def text (r : Response) : String := r.json.compact

/-- The response that tells a failure. -/
def ofFailure (f : Failure) : Response :=
  failed f.told.1 f.told.2

/-- The response that gives the answer to a question. -/
def ofAnswer : (q : Query) → q.Answer → Response
  | .references, bs => references bs
  | .resolve _, c => commit c
  | .mergeBase _ _, c => mergeBase c
  | .timestamp _, time => timestamp time
  | .log _, es => log es
  | .fetchHead, c => commit c
  | .openWalk, () => opened
  | .isMergedInto _ _, b => merged b
  | .commitTime _, time => timestamp time

/-- The response that gives the result of a question. -/
def ofResult (q : Query) : Except Failure q.Answer → Response
  | .ok a => ofAnswer q a
  | .error f => ofFailure f

/-- The answer to a question that a response gives. -/
def answer (r : Response) (q : Query) : Except Failure q.Answer :=
  match q, r with
  | _, failed c message => .error (c.failure message)
  | .references, references bs => .ok bs
  | .resolve _, commit c => .ok c
  | .mergeBase _ _, mergeBase c => .ok c
  | .timestamp _, timestamp time => .ok time
  | .log _, log es => .ok es
  | .fetchHead, commit c => .ok c
  | .openWalk, opened => .ok ()
  | .isMergedInto _ _, merged b => .ok b
  | .commitTime _, timestamp time => .ok time
  | _, r => .error (.transport (.unexpected r.text))

end Response

end NextBuild
