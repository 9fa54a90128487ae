import NextBuild.Failure
import NextBuild.Table
import NextBuild.Text.Search

/-!
# Files

A small file system: texts and directories at paths, and the locks that are held on files.  A file
action changes the file system also when it fails, so what it did before stays done.  A lock that is
held cannot be taken again, by nobody.
-/

namespace NextBuild

namespace Path

/-- The parts of a path with those so far in reverse; `.` is left out and `..` takes back a part. -/
def normalFrom : List String → List String → List String
  | done, [] => done.reverse
  | done, p :: ps =>
    if p = "" ∨ p = "." then normalFrom done ps
    else if p = ".." then normalFrom (done.drop 1) ps
    else normalFrom (p :: done) ps

/-- The parts of a path. -/
def parts (path : String) : List String :=
  normalFrom [] (Text.splitOn '/' path)

/-- The path with these parts, as the file system knows it. -/
def ofParts (ps : List String) : String :=
  "/".intercalate ps

/-- The path as the file system knows it. -/
def key (path : String) : String :=
  ofParts (parts path)

/-- The directories above a path, the outermost first. -/
def above (path : String) : List String :=
  let ps := parts path
  (List.range (ps.length - 1)).map fun n => ofParts (ps.take (n + 1))

/-- A path below a directory. -/
def join (directory path : String) : String :=
  if Text.startsWith "/" path then path
  else if directory.isEmpty || Text.endsWith "/" directory then directory ++ path
  else directory ++ "/" ++ path

end Path

/-- What is at a path. -/
inductive Entry where
  | file (text : String)
  | directory
deriving DecidableEq, Repr

/-- A file system. -/
structure Files where
  entries : Table Entry
  /-- The paths of files on which a lock is held. -/
  locked : List String
deriving DecidableEq

/-- A change of a file system with an outcome; the change counts also when the outcome is a
failure. -/
abbrev FileAction (α : Type) := ExceptT Failure (StateM Files) α

namespace Files

/-- The file system without files. -/
def empty : Files := ⟨.empty, []⟩

/-- What is at a path. -/
def get? (fs : Files) (path : String) : Option Entry :=
  if (Path.parts path).isEmpty then some .directory else fs.entries.get? (Path.key path)

/-- There is something at the path. -/
def has (fs : Files) (path : String) : Bool :=
  (fs.get? path).isSome

/-- The text of the file at a path. -/
def text? (fs : Files) (path : String) : Option String :=
  match fs.get? path with
  | some (.file text) => some text
  | _ => none

/-- There is a directory at the path. -/
def isDirectory (fs : Files) (path : String) : Bool :=
  fs.get? path == some .directory

/-- The paths of all files, in order. -/
def files (fs : Files) : List String :=
  (fs.entries.entries.filter fun e => e.2 != .directory).map (·.1)

/-- The names of what is right below a directory, in order. -/
def names (fs : Files) (directory : String) : List String :=
  let lead := Path.key directory ++ "/"
  (fs.entries.keys.filterMap (Text.afterLead? lead)).filter fun n => !Text.hasChar '/' n

/-- Put an entry at a path. -/
def put (path : String) (e : Entry) : FileAction Unit :=
  modify fun fs => { fs with entries := fs.entries.insert (Path.key path) e }

/-- Create the directories of a list that are not there yet. -/
def makeAll : List String → FileAction Unit
  | [] => return
  | d :: ds => do
    match (← get).get? d with
    | some (.file _) => throw (.io ("not a directory: " ++ d))
    | some .directory => makeAll ds
    | none =>
      put d .directory
      makeAll ds

/-- Create the directories above a path. -/
def makeParents (path : String) : FileAction Unit :=
  makeAll (Path.above path)

/-- Create a directory with the directories above it. -/
def makeDirectory (path : String) : FileAction Unit := do
  makeParents path
  makeAll [Path.key path]

/-- The text of a file. -/
def read (path : String) : FileAction String := do
  match (← get).text? path with
  | some text => return text
  | none => throw (.io ("no such file: " ++ path))

/-- Replace the text of a file as a whole, with the directories above it.  The text goes to a temporary
file beside the path, which then replaces the one at the path in a single step; the two are one change
here, and a temporary file that is left over where the replacement fails is not kept track of. -/
def write (path text : String) : FileAction Unit := do
  makeParents path
  if (← get).isDirectory path then throw (.io ("a directory: " ++ path))
  put path (.file text)

/-- The path of the file that guards another one. -/
def lockPath (path : String) : String :=
  path ++ ".lock"

/-- Create the file of a lock if it is not there yet. -/
def openLock (path : String) : FileAction Unit := do
  makeParents path
  match (← get).get? path with
  | some (.file _) => return
  | some .directory => throw (.io ("a directory: " ++ path))
  | none => put path (.file "")

/-- Take a lock unless it is held, and tell whether it was free. -/
def tryLock (path : String) : FileAction Bool := do
  openLock path
  let fs ← get
  if fs.locked.contains (Path.key path) then return false
  else
    set { fs with locked := Path.key path :: fs.locked }
    return true

/-- Take a lock. -/
def lock (path : String) : FileAction Unit := do
  if !(← tryLock path) then throw (.lockFailed path)

/-- Give a lock back. -/
def unlock (path : String) : FileAction Unit :=
  modify fun fs => { fs with locked := fs.locked.erase (Path.key path) }

/-- Act while a lock is held, and give it back whatever the outcome. -/
def withLock {α : Type} (path : String) (action : FileAction α) : FileAction α := do
  lock path
  let outcome ← ExceptT.lift action.run
  unlock path
  match outcome with
  | .ok a => return a
  | .error f => throw f

end Files

end NextBuild
