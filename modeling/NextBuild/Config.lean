import NextBuild.Files
import NextBuild.Strategy.Basic
import NextBuild.Toml.Reader

/-!
# Configurations

The configuration of a repository is read from a file in its root.  Whatever is left out has a
default, and what nobody knows is passed over.  A configuration is checked when it is loaded, so that
a strategy can be made from it afterwards.
-/

namespace NextBuild

/-- The priorities as they are configured: one text with a priority on each line, or a list. -/
inductive PriorityList where
  | text (s : String)
  | list (ss : List String)
deriving DecidableEq, Repr

namespace PriorityList

/-- The texts that list the priorities. -/
def texts : PriorityList → List String
  | text s => [s]
  | list ss => ss

/-- The priorities. -/
def entries (p : PriorityList) : List String :=
  readPriorities p.texts

end PriorityList

/-- The configuration of a repository. -/
structure Config where
  strategy : StrategyKind := .default
  branches : List String := ["**"]
  remotes : List String := ["origin"]
  /-- The branch to build if none is asked for. -/
  target : Option String := none
  /-- Local branches are listed too. -/
  localBranches : Bool := false
  /-- The strategy whose candidates are bounded. -/
  inner : StrategyKind := .default
  maxAgeDays : Option Int := none
  ancestor : Option String := none
  priority : PriorityList := .list []
  /-- The job whose ledger is used. -/
  job : String := "default"
  /-- The milliseconds to wait for the lock of a ledger. -/
  lockTimeout : Nat := 5000
deriving DecidableEq, Repr

namespace Toml

/-- The text of a string. -/
def text? : Toml → Option String
  | string s => some s
  | _ => none

/-- The number of an integer. -/
def int? : Toml → Option Int
  | integer n => some n
  | _ => none

/-- The truth value. -/
def bool? : Toml → Option Bool
  | bool b => some b
  | _ => none

/-- The texts of an array. -/
def texts? : Toml → Option (List String)
  | array vs => vs.mapM text?
  | _ => none

/-- The fields with these names: of a table, or of an array in the order of the names, whose further
items do not count.  A date has none of them. -/
def fields? (names : List String) : Toml → Option (List (Option Toml))
  | table es => some (names.map fun n => es.lookup n)
  | array vs =>
    some ((vs.take names.length).map some ++ List.replicate (names.length - vs.length) none)
  | dateTime => some (names.map fun _ => none)
  | _ => none

/-- The name of a choice: a string, or the only key of a table whose value is empty. -/
def choice? : Toml → Option String
  | string s => some s
  | table [(key, table [])] => some key
  | table [(key, array [])] => some key
  | _ => none

end Toml

namespace Config

/-- The value of a field, or its default. -/
def orDefault {α : Type} (f : Toml → Option α) (d : α) : Option Toml → Option α
  | none => some d
  | some v => f v

/-- The value of a field that may be left out. -/
def optional {α : Type} (f : Toml → Option α) : Option Toml → Option (Option α)
  | none => some none
  | some v => (f v).map some

/-- The strategy that a value names. -/
def strategyKind? (v : Toml) : Option StrategyKind := do
  StrategyKind.ofName? (← v.choice?)

/-- The priorities of a value. -/
def priorityList? : Toml → Option PriorityList
  | .string s => some (.text s)
  | v => v.texts?.map .list

/-- The number of a value that is not negative. -/
def natural? (v : Toml) : Option Nat := do
  let n ← v.int?
  if 0 ≤ n then some n.toNat else none

/-- The configuration with the selection that a value describes. -/
def readSelection (c : Config) (v : Toml) : Option Config := do
  match ← v.fields? ["strategy", "branches", "remotes", "target", "local_branches"] with
  | [strategy, branches, remotes, target, localBranches] =>
    return { c with
      strategy := ← orDefault strategyKind? c.strategy strategy
      branches := ← orDefault Toml.texts? c.branches branches
      remotes := ← orDefault Toml.texts? c.remotes remotes
      target := ← optional Toml.text? target
      localBranches := ← orDefault Toml.bool? c.localBranches localBranches }
  | _ => none

/-- The configuration with the bounds that a value describes. -/
def readBounds (c : Config) (v : Toml) : Option Config := do
  match ← v.fields? ["inner", "max_age_days", "ancestor_commit"] with
  | [inner, maxAgeDays, ancestor] =>
    return { c with
      inner := ← orDefault strategyKind? c.inner inner
      maxAgeDays := ← optional Toml.int? maxAgeDays
      ancestor := ← optional Toml.text? ancestor }
  | _ => none

/-- The configuration with the priorities that a value describes. -/
def readPriority (c : Config) (v : Toml) : Option Config := do
  match ← v.fields? ["branches"] with
  | [branches] => return { c with priority := ← orDefault priorityList? c.priority branches }
  | _ => none

/-- The configuration with the place of the ledger that a value describes. -/
def readLedger (c : Config) (v : Toml) : Option Config := do
  match ← v.fields? ["job", "lock_timeout_ms"] with
  | [job, lockTimeout] =>
    return { c with
      job := ← orDefault Toml.text? c.job job
      lockTimeout := ← orDefault natural? c.lockTimeout lockTimeout }
  | _ => none

/-- The configuration of a document. -/
def ofToml? (document : List (String × Toml)) : Option Config := do
  let part := fun (name : String) (read : Config → Toml → Option Config) (c : Config) =>
    match document.lookup name with
    | some v => read c v
    | none => some c
  let c ← part "selection" readSelection {}
  let c ← part "ancestry" readBounds c
  let c ← part "priority" readPriority c
  part "history" readLedger c

/-- Nothing is wrong with the configuration. -/
def check (c : Config) : Except Failure Unit := do
  let _ ← BranchSpec.ofTexts c.branches
  if c.remotes.any fun r => Text.allBlank r || Text.hasChar '/' r then
    throw (.invalidConfig .remoteEntry)
  if let some target := c.target then
    let _ ← BranchSpec.ofText target
  if !c.inner.isBase then throw (.invalidConfig (.innerNotBase c.inner))
  if let some days := c.maxAgeDays then
    if days < 0 then throw (.invalidConfig (.negativeConfiguredAge days))
  if let some text := c.ancestor then
    let text := Text.trim text
    if !text.isEmpty && (CommitId.ofText? text).isNone then throw (.invalidCommitId text)
  if Text.allBlank c.job then throw (.invalidConfig .emptyJob)

/-- The configuration that a text describes. -/
def ofText (s : String) : Except Failure Config := do
  match (Toml.read? s).bind ofToml? with
  | none => throw (.toml "the text is no configuration")
  | some c =>
    c.check
    return c

/-- The name of the file in the root of a repository. -/
def fileName : String := ".revsel.toml"

/-- The configuration of a repository with a root directory. -/
def load (root : String) : FileAction Config := do
  let path := Path.join root fileName
  if (← get).has path then ofText (← Files.read path)
  else return {}

/-- What the configured strategy is made from. -/
def options (c : Config) : StrategyOptions where
  kind := c.strategy
  inner := c.inner
  branches := c.branches
  remotes := c.remotes
  target := c.target
  maxAgeDays := c.maxAgeDays
  ancestor := c.ancestor
  priority := c.priority.entries

end Config

end NextBuild
