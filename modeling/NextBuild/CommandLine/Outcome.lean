import NextBuild.CommandLine.Display
import NextBuild.CommandLine.Record
import NextBuild.CommandLine.Select

/-!
# Outcomes of command lines

A command line is read, its command is carried out on the files, and what comes of it is printed: a
report, a failure, the answers of an agent, or what is wrong with the command line.
-/

namespace NextBuild

/-- How a command line ends. -/
inductive Ending where
  /-- The command line is not carried out. -/
  | refused (fault : UsageFault)
  /-- The command failed. -/
  | failed (command : String) (json : Bool) (f : Failure)
  /-- The command wrote a report. -/
  | reported (s : Streams)
  /-- The command answered questions. -/
  | answered (responses : List Response)

/-- What comes of a command line. -/
structure Outcome where
  ending : Ending
  /-- What an agent wrote to the error stream before the end. -/
  complaints : String := ""

namespace Ending

/-- The exit code. -/
def exitCode : Ending → Nat
  | refused fault => fault.exitCode
  | failed _ _ f => f.exitCode
  | reported _ | answered _ => 0

/-- What is written at the end. -/
def streams : Ending → Streams
  | refused fault =>
    if fault.exitCode = 0 then .ofOutLine fault.message else .ofErrLines [fault.message]
  | failed command json f => f.streams json command
  | reported s => s
  | answered rs => { out := String.join (rs.map fun r => r.text ++ "\n") }

end Ending

namespace Outcome

/-- The exit code. -/
def exitCode (o : Outcome) : Nat := o.ending.exitCode

/-- Everything that is written. -/
def streams (o : Outcome) : Streams :=
  ({ err := o.complaints } : Streams).append o.ending.streams

end Outcome

namespace Invocation

/-- The ending of the command with a result. -/
def ending {α : Type} (i : Invocation) (done : α → Ending) : Except Failure α → Ending
  | .ok a => done a
  | .error f => .failed i.command.name i.style.json f

/-- The ending of a command that wrote a report with data. -/
def reported (i : Invocation) (r : Report) (data : Json) : Ending :=
  .reported (r.streams i.style i.command.name data)

/-- Carry out a selection.  What an agent complains about is kept also if the selection fails. -/
def runSelect (i : Invocation) (a : SelectArguments) (setting : Setting) :
    StateM Files Outcome := do
  match ← (a.prepare setting i.repository i.job).run with
  | .error f => return ⟨i.ending (α := Empty) nofun (.error f), ""⟩
  | .ok p =>
    let agent := a.agent.map setting.agent
    let ending := i.ending (fun (s : Selection) => i.reported s.report s.json) (p.select agent)
    return ⟨ending, (agent.map Agent.complaints).getD ""⟩

/-- Answer the questions of a text from the repository. -/
def answer (setting : Setting) (repository : Option String) (input : String) :
    FileAction (List Response) := do
  let w ← Workspace.enter setting repository none
  return Session.serve w.repository.answers input

/-- Carry out an invocation; `input` is what it may read. -/
def run (i : Invocation) (setting : Setting) (input : String) : StateM Files Outcome := do
  match i.command with
  | .select a => i.runSelect a setting
  | .record a =>
    let r ← (a.run setting i.repository i.job).run
    return ⟨i.ending (fun (r : Recording) => i.reported r.report r.json) r, ""⟩
  | .history branch =>
    let d ← (Display.collect branch setting i.repository i.job).run
    return ⟨i.ending (fun (d : Display) => i.reported d.report d.json) d, ""⟩
  | .refs spec =>
    let l ← (Listing.collect spec setting i.repository).run
    return ⟨i.ending (fun (l : Listing) => i.reported l.report l.json) l, ""⟩
  | .graphAgent =>
    let rs ← (answer setting i.repository input).run
    return ⟨i.ending .answered rs, ""⟩

end Invocation

/-- Carry out a command line; `input` is what it may read. -/
def runWords (setting : Setting) (words : List String) (input : String) :
    StateM Files Outcome :=
  match Invocation.ofWords setting.env words with
  | .error fault => return ⟨.refused fault, ""⟩
  | .ok i => i.run setting input

end NextBuild
