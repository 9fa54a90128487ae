import NextBuild.Toml.Document
import NextBuild.Toml.Scalar

/-!
# Reading TOML

A text is read line by line: keys with their values, headers of tables, comments and blank lines.
Arrays and inline tables nest up to a fixed depth, which is what the reading of values recurs on; the
loops over items and lines take at least one character each round.
-/

namespace NextBuild.Toml

/-- One more than the deepest nesting of values, and than the most parts of a key. -/
def nestingLimit : Nat := 80

/-- Take a comment, up to the end of its line. -/
def skipComment : Scan Unit := do
  if ← Scan.takeIf ['#'] then
    let _ ← Scan.takeWhile isPlainChar

/-- Take a line end. -/
def newline : Scan Unit := do
  set (← afterNewline? (← get))

/-- Take blanks, comments and line ends. -/
def skipLines : Nat → Scan Unit
  | 0 => return
  | fuel + 1 => do
    Scan.skipBlanks
    skipComment
    match afterNewline? (← get) with
    | some r =>
      set r
      skipLines fuel
    | none => return

/-- Take blanks, comments and line ends. -/
def skipAll : Scan Unit := do
  skipLines ((← get).length + 1)

/-- The character may stand in a bare key. -/
def isBareKeyChar (c : Char) : Bool :=
  c.isAlphanum || c == '-' || c == '_'

/-- Take one part of a key, with the blanks around it. -/
def keyPart : Scan String := do
  Scan.skipBlanks
  let c ← Scan.peek?
  let part ←
    if c == some '"' || c == some apostrophe then lineString
    else
      let cs ← Scan.takeWhile isBareKeyChar
      if cs.isEmpty then failure
      pure (String.ofList cs)
  Scan.skipBlanks
  return part

/-- Take the parts of a key after the first one. -/
def moreKeyParts : Nat → Scan (List String)
  | 0 => failure
  | fuel + 1 => do
    if ← Scan.takeIf ['.'] then
      let part ← keyPart
      return part :: (← moreKeyParts fuel)
    else return []

/-- Take a key: the parts before the last one, and the last one. -/
def key : Scan (List String × String) := do
  let first ← keyPart
  let parts := first :: (← moreKeyParts (nestingLimit - 1))
  return (parts.dropLast, parts.getLast?.getD first)

/-- Take the items of an array up to its end. -/
def arrayItems (item : Scan Toml) : Nat → Scan (List Toml)
  | 0 => failure
  | fuel + 1 => do
    skipAll
    if ← Scan.takeIf [']'] then return []
    let v ← item
    skipAll
    if ← Scan.takeIf [','] then return v :: (← arrayItems item fuel)
    Scan.expect [']']
    return [v]

/-- Take the entries of an inline table up to its end. -/
def inlineEntries (item : Scan Toml) : Nat → Entries → Scan Entries
  | 0, _ => failure
  | fuel + 1, es => do
    let (path, last) ← key
    Scan.expect ['=']
    Scan.skipBlanks
    let v ← item
    Scan.skipBlanks
    let es ← Entries.insert last v path es
    if ← Scan.takeIf [','] then inlineEntries item fuel es
    else
      Scan.expect ['}']
      return es

/-- The scalar of a token. -/
def scalar? (t : List Char) : Option Toml :=
  if t == "true".toList then some (.bool true)
  else if t == "false".toList then some (.bool false)
  else match integer? t with
    | some n => some (.integer n)
    | none => if isFloat t then some .float else if isDateTime t then some .dateTime else none

/-- Take a value that nests at most so many levels. -/
def value : Nat → Scan Toml
  | 0 => do
    match ← Scan.peek? with
    | some c =>
      if c == '"' || c == apostrophe then return .string (← anyString)
      else scalar? (← token)
    | none => failure
  | n + 1 => do
    let cs ← get
    match cs with
    | '[' :: r =>
      set r
      return .array (← arrayItems (value n) (cs.length + 1))
    | '{' :: r =>
      set r
      Scan.skipBlanks
      if ← Scan.takeIf ['}'] then return .table []
      return .table (entriesToml (← inlineEntries (value n) (cs.length + 1) []))
    | c :: _ =>
      if c == '"' || c == apostrophe then return .string (← anyString)
      else scalar? (← token)
    | [] => failure

/-- Take the end of a line that is finished. -/
def lineEnd : Scan Unit := do
  Scan.skipBlanks
  skipComment
  if !(← get).isEmpty then newline

/-- A document while it is read: the path of the open table, and everything so far. -/
structure Draft where
  path : List String
  root : Entries

/-- Take a header and open its table. -/
def header (d : Draft) : Scan Draft := do
  if ← Scan.takeIf ['[', '['] then
    let (path, last) ← key
    Scan.expect [']', ']']
    return ⟨path ++ [last], ← Entries.change (Entries.openItem last) path d.root⟩
  else
    Scan.expect ['[']
    let (path, last) ← key
    Scan.expect [']']
    return ⟨path ++ [last], ← Entries.change (Entries.openTable last) path d.root⟩

/-- Take a key with its value and put it into the open table. -/
def entry (d : Draft) : Scan Draft := do
  let (path, last) ← key
  Scan.expect ['=']
  Scan.skipBlanks
  let v ← value (nestingLimit - 1)
  return ⟨d.path, ← Entries.change (Entries.insert last v path) d.path d.root⟩

/-- Take the lines of a document. -/
def documentLines : Nat → Draft → Scan Draft
  | 0, _ => failure
  | fuel + 1, d => do
    skipAll
    match ← Scan.peek? with
    | none => return d
    | some c =>
      let d ← if c == '[' then header d else entry d
      lineEnd
      documentLines fuel d

/-- The entries of the document that a text writes; a byte-order mark may stand in front. -/
def read? (s : String) : Option (List (String × Toml)) := do
  let cs := match s.toList with
    | '\uFEFF' :: r => r
    | cs => cs
  let (d, _) ← (documentLines (cs.length + 1) ⟨[], []⟩).run cs
  return entriesToml d.root

end NextBuild.Toml
