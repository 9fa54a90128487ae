import NextBuild.Files
import NextBuild.Json.Ledger
import NextBuild.Json.Printer
import NextBuild.Json.Reader

/-!
# The store of ledgers

Every job has its ledger in a file of its own, below the git directory that all work trees of a
clone share.  Each reading and each change holds the lock of the file, and a change that fails
leaves the file as it was.
-/

namespace NextBuild

/-- The ledger of a text; a blank text is the empty ledger. -/
def Ledger.ofText (s : String) : Except Failure Ledger :=
  if Text.allBlank s then .ok .empty
  else match (Json.read? s).bind Ledger.ofJson? with
    | some l => .ok l
    | none => .error (.json "the text is no ledger")

/-- The text of a ledger in its file. -/
def Ledger.text (l : Ledger) : String := l.json.pretty

/-- The store of the ledgers below a git directory. -/
structure Store where
  gitDirectory : String
deriving DecidableEq

namespace Store

/-- The character may stand in the name of a file. -/
def isKeyChar (c : Char) : Bool :=
  c.isAlphanum || c == '-' || c == '_' || c == '.'

/-- The name of a job in names of files: other characters than letters, digits, `-`, `_` and `.`
become `_`, and nothing but dots becomes `_` too. -/
def key (job : String) : String :=
  let cs := (Text.trimChars job.toList).map fun c => if isKeyChar c then c else '_'
  if cs.all (· == '.') then "_" else String.ofList cs

/-- The directory of the ledgers. -/
def directory (s : Store) : String :=
  Path.join s.gitDirectory "revsel/history"

/-- The file of a job's ledger. -/
def file (s : Store) (job : String) : String :=
  Path.join s.directory (key job ++ ".json")

/-- The ledger in a file; no file is the empty ledger. -/
def readLedger (path : String) : FileAction Ledger := do
  if (← get).has path then Ledger.ofText (← Files.read path)
  else return .empty

/-- The ledger of a job. -/
def load (s : Store) (job : String) : FileAction Ledger :=
  let path := s.file job
  Files.withLock (Files.lockPath path) (readLedger path)

/-- Change the ledger of a job. -/
def update {α : Type} (s : Store) (job : String) (f : Ledger → Except Failure (α × Ledger)) :
    FileAction α := do
  let path := s.file job
  Files.makeParents path
  Files.withLock (Files.lockPath path) do
    let (a, l) ← f (← readLedger path)
    Files.write path l.text
    return a

/-- The part of a file name before its extension `json`. -/
def stem? (name : String) : Option String :=
  let cs := name.toList
  if Text.endsWith ".json" name && 5 < cs.length then some (String.ofList (cs.take (cs.length - 5)))
  else none

/-- The jobs that have a ledger, in order. -/
def jobs (s : Store) : FileAction (List String) := do
  let fs ← get
  match fs.get? s.directory with
  | none => return []
  | some (.file _) => throw (.io ("not a directory: " ++ s.directory))
  | some .directory => return ((fs.names s.directory).filterMap stem?).mergeSort Text.le

end Store

end NextBuild
