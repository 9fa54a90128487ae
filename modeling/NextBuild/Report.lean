import NextBuild.Failure
import NextBuild.Json.Printer
import NextBuild.Text.Blank

/-!
# Reports of commands

What a command prints.  As text, a report is a header, aligned summary lines, indented details and
the next steps, with a blank line before each block that is not empty; warnings go to the error
stream, so that a quiet command still warns.  As JSON, a command prints one envelope, which holds
either data or an error.
-/

namespace NextBuild

/-- What a command writes. -/
structure Streams where
  out : String := ""
  err : String := ""
deriving DecidableEq, Repr

namespace Streams

/-- One line for the output. -/
def ofOutLine (s : String) : Streams := { out := s ++ "\n" }

/-- Lines for the error stream. -/
def ofErrLines (ss : List String) : Streams := { err := String.join (ss.map (· ++ "\n")) }

/-- Write one after the other. -/
def append (a b : Streams) : Streams := ⟨a.out ++ b.out, a.err ++ b.err⟩

end Streams

/-- How a command prints. -/
structure Style where
  json : Bool
  quiet : Bool
deriving DecidableEq, Repr

/-- The report of a command. -/
structure Report where
  header : String
  /-- Names with values. -/
  summary : List (String × String) := []
  /-- One line for each listed item. -/
  details : List String := []
  warnings : List String := []
  nextSteps : List String := []
deriving DecidableEq, Repr

namespace Report

/-- The width of the names of the summary: the most bytes that one of them takes. -/
def nameWidth (summary : List (String × String)) : Nat :=
  summary.foldl (fun w e => max w e.1.utf8ByteSize) 0

/-- A line of the summary, in which the name takes at least a width. -/
def summaryLine (width : Nat) (e : String × String) : String :=
  let padding := List.replicate (width - e.1.length) ' '
  Text.trimEnd ("  " ++ e.1 ++ String.ofList padding ++ "  " ++ e.2)

/-- The blocks of lines below the header. -/
def blocks (r : Report) : List (List String) :=
  [r.summary.map (summaryLine (nameWidth r.summary)), r.details.map ("  " ++ ·),
    r.nextSteps.map ("next: " ++ ·)]

/-- The report as text. -/
def text (r : Report) : String :=
  let shown := r.blocks.filter fun b => !b.isEmpty
  r.header ++ String.join (shown.map fun b => "\n\n" ++ "\n".intercalate b)

end Report

/-- The name of the form of envelopes. -/
def schemaVersion : String := "revsel.v1"

/-- A member with a list of texts, or none if the list is empty. -/
def listMember (name : String) (ss : List String) : List (String × Json) :=
  if ss.isEmpty then [] else [(name, .ofTexts ss)]

/-- The envelope of a command around its body. -/
def envelope (command status : String) (body : String × Json)
    (warnings nextSteps : List String) : Json :=
  .record <| [("schema_version", .ofText schemaVersion), ("command", .ofText command),
      ("status", .ofText status), body]
    ++ listMember "warnings" warnings ++ listMember "next_steps" nextSteps

/-- What a command writes that succeeded. -/
def Report.streams (r : Report) (style : Style) (command : String) (data : Json) : Streams :=
  if style.json then
    .ofOutLine (envelope command "success" ("data", data) r.warnings r.nextSteps).pretty
  else
    (Streams.ofErrLines (r.warnings.map ("warning: " ++ ·))).append
      (if style.quiet then {} else .ofOutLine r.text)

namespace Failure

/-- What is known about a failure besides its message. -/
def details? : Failure → Option Json
  | invalidBranchSpec spec reason =>
    some (.record [("reason", .ofText reason), ("spec", .ofText spec)])
  | refNotFound name => some (.record [("reference", .ofText name)])
  | lockFailed path => some (.record [("lock", .ofText path)])
  | _ => none

/-- The body of the envelope of a failure. -/
def body (f : Failure) : Json :=
  .record <| [("message", .ofText f.message), ("code", .ofInt f.exitCode),
      ("kind", .ofText f.className)]
    ++ match f.details? with
      | some d => [("details", d)]
      | none => []

/-- What a command writes that failed. -/
def streams (f : Failure) (json : Bool) (command : String) : Streams :=
  if json then
    .ofOutLine (envelope command "error" ("error", f.body) [] f.hint?.toList).pretty
  else .ofErrLines (("error: " ++ f.message) :: f.hint?.toList.map ("hint: " ++ ·))

end Failure

end NextBuild
