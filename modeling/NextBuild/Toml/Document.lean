/-!
# Documents of TOML

A document is put together line by line.  A table comes into being by its header, on the way to the
header of a table inside it, or by a dotted key; it can be defined only once, and only tables made by
dotted keys can be extended by dotted keys.
-/

namespace NextBuild

/-- A value of a TOML document. -/
inductive Toml where
  | string (s : String)
  | integer (n : Int)
  | bool (b : Bool)
  | float
  | dateTime
  | array (items : List Toml)
  | table (entries : List (String × Toml))
deriving Inhabited, Repr

namespace Toml

/-- How a table came into being. -/
inductive Origin where
  | header
  /-- On the way to the header of a table inside it. -/
  | passage
  | dottedKey
deriving DecidableEq, Repr

/-- A part of a document that is being put together. -/
inductive Node where
  | value (v : Toml)
  | table (origin : Origin) (entries : List (String × Node))
  | tables (items : List (List (String × Node)))
deriving Inhabited

/-- The entries of a table that is being put together. -/
abbrev Entries := List (String × Node)

namespace Entries

/-- The entries with another node for a key that is there. -/
def replace (es : Entries) (key : String) (n : Node) : Entries :=
  es.map fun e => if e.1 == key then (key, n) else e

/-- The entries with a value at a dotted key. -/
def insert (key : String) (v : Toml) : List String → Entries → Option Entries
  | [], es => if (es.lookup key).isSome then none else some (es ++ [(key, .value v)])
  | p :: ps, es => match es.lookup p with
    | none => do return es ++ [(p, .table .dottedKey (← insert key v ps []))]
    | some (.table origin inner) =>
      if origin == .header || (ps.isEmpty && origin != .dottedKey) then none
      else do return es.replace p (.table origin (← insert key v ps inner))
    | some (.tables items) =>
      if ps.isEmpty then none
      else do
        let last ← items.getLast?
        return es.replace p (.tables (items.dropLast ++ [← insert key v ps last]))
    | some (.value _) => none

/-- The entries after a change of the table at a path of headers. -/
def change (f : Entries → Option Entries) : List String → Entries → Option Entries
  | [], es => f es
  | p :: ps, es => match es.lookup p with
    | none => do return es ++ [(p, .table .passage (← change f ps []))]
    | some (.table origin inner) => do return es.replace p (.table origin (← change f ps inner))
    | some (.tables items) => do
      let last ← items.getLast?
      return es.replace p (.tables (items.dropLast ++ [← change f ps last]))
    | some (.value _) => none

/-- The entries with a new table. -/
def openTable (key : String) (es : Entries) : Option Entries :=
  match es.lookup key with
  | none => some (es ++ [(key, .table .header [])])
  | some (.table .passage inner) => some (es.replace key (.table .header inner))
  | some _ => none

/-- The entries with a new table at the end of a list of tables. -/
def openItem (key : String) (es : Entries) : Option Entries :=
  match es.lookup key with
  | none => some (es ++ [(key, .tables [[]])])
  | some (.tables items) => some (es.replace key (.tables (items ++ [[]])))
  | some _ => none

end Entries

mutual

/-- The value of a finished node. -/
def Node.toml : Node → Toml
  | .value v => v
  | .table _ es => .table (entriesToml es)
  | .tables items => .array (itemsToml items)

/-- The values of finished entries. -/
def entriesToml : List (String × Node) → List (String × Toml)
  | [] => []
  | e :: es => (e.1, e.2.toml) :: entriesToml es

/-- The tables of a finished list. -/
def itemsToml : List (List (String × Node)) → List Toml
  | [] => []
  | es :: rest => .table (entriesToml es) :: itemsToml rest

end

end Toml

end NextBuild
