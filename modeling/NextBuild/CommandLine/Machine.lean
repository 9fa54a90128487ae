import NextBuild.CommandLine.Outcome
import NextBuild.Repository.Snapshot

/-!
# Machines

A machine is everything around the command lines that run on it, as a JSON text: the checkouts with
snapshots of their repositories, the files, the working directory, the variables and the day.  A
command line changes its files and nothing else.
-/

namespace NextBuild

/-- Everything around the command lines that run on a machine. -/
structure Machine where
  checkouts : List Checkout
  files : Files
  workingDirectory : String
  env : Text.Environment
  today : Date
  /-- The seconds by which local time is ahead of universal time. -/
  offset : Int

namespace Machine

/-- The value of a member, or a default if it is left out. -/
def memberOr {α : Type} (members : List (String × Json)) (name : String) (f : Json → Option α)
    (d : α) : Option α :=
  match members.lookup name with
  | some v => f v
  | none => some d

/-- The texts under the names of an object. -/
def textTable? (v : Json) : Option (List (String × String)) := do
  (← v.members?).mapM fun m => m.2.text?.map (m.1, ·)

/-- The checkout of a record; its git directory is shared unless another one is named. -/
def checkout? (v : Json) : Option Checkout := do
  let members ← v.members?
  let root ← (← members.lookup "root").text?
  let gitDirectory ← memberOr members "git_directory" Json.text? (Path.join root ".git")
  let commonDirectory ← memberOr members "common_directory" Json.text? gitDirectory
  let repository ← memberOr members "snapshot" Repository.ofJson? .empty
  return ⟨root, gitDirectory, commonDirectory, repository⟩

/-- The date of an array of year, month and day. -/
def date? (v : Json) : Option Date := do
  match ← v.list? Json.int? with
  | [year, month, day] => return ⟨year, month.toNat, day.toNat⟩
  | _ => none

/-- The files with these texts in these directories. -/
def filesOf (directories : List String) (texts : List (String × String)) : Files :=
  let build : FileAction Unit := do
    directories.forM Files.makeDirectory
    texts.forM fun e => Files.write e.1 e.2
  (build.run.run .empty).2

/-- The machine of a record. -/
def ofJson? (v : Json) : Option Machine := do
  let members ← v.members?
  let checkouts ← memberOr members "checkouts" (·.list? checkout?) []
  let directories ← memberOr members "directories" (·.list? Json.text?) []
  let texts ← memberOr members "files" textTable? []
  return {
    checkouts
    files := filesOf (checkouts.map (·.root) ++ directories) texts
    workingDirectory := ← memberOr members "working_directory" Json.text? "/"
    env := ← memberOr members "variables" textTable? []
    today := ← memberOr members "today" date? ⟨1970, 1, 1⟩
    offset := ← memberOr members "offset" Json.int? 0 }

/-- The machine of a text. -/
def ofText? (s : String) : Option Machine := do
  ofJson? (← Json.read? s)

/-- The texts of the files, as a member of the record of a machine. -/
def filesJson (fs : Files) : Json :=
  .record (fs.files.filterMap fun path => (fs.text? path).map fun s => ("/" ++ path, .ofText s))

/-- The record of a machine after its files have changed. -/
def updatedJson (before : List (String × Json)) (fs : Files) : Json :=
  .record (before.filter (fun m => m.1 != "files") ++ [("files", filesJson fs)])

/-- The text of a machine after its files have changed. -/
def updatedText? (before : String) (fs : Files) : Option String := do
  return (updatedJson (← (← Json.read? before).members?) fs).pretty ++ "\n"

/-- The setting of command lines on the machine.  An agent is not there to answer. -/
def setting (m : Machine) : Setting where
  checkouts := m.checkouts
  workingDirectory := m.workingDirectory
  env := m.env
  today := m.today
  offset := m.offset
  agent := fun _ => ⟨.speaker "", ""⟩

/-- The command line reads questions. -/
def readsInput (m : Machine) (words : List String) : Bool :=
  match Invocation.ofWords m.env words with
  | .ok ⟨_, _, _, .graphAgent⟩ => true
  | _ => false

/-- Run a command line, which may change the files. -/
def run (m : Machine) (words : List String) (input : String) : Outcome × Files :=
  (runWords m.setting words input).run m.files

end Machine

end NextBuild
