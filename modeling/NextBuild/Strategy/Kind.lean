import NextBuild.Text.Blank
import NextBuild.Text.Search

/-!
# Names of the selection strategies
-/

namespace NextBuild

/-- The five ways to select revisions. -/
inductive StrategyKind where
  | default
  | inverse
  | ancestry
  | compound
  | queue
deriving DecidableEq, Repr

namespace StrategyKind

/-- All kinds, in the order in which messages list them. -/
def all : List StrategyKind := [default, inverse, ancestry, compound, queue]

/-- The name of a kind in configurations, reports and arguments. -/
def name : StrategyKind → String
  | default => "default"
  | inverse => "inverse"
  | ancestry => "ancestry"
  | compound => "compound"
  | queue => "queue"

/-- The kind with exactly this name. -/
def ofName? (s : String) : Option StrategyKind :=
  all.find? fun k => k.name == s

/-- The kind that a text names, with blanks around it and capitals allowed. -/
def ofText? (s : String) : Option StrategyKind :=
  ofName? (Text.lowerAscii (Text.trim s))

/-- The kind selects by itself and may be wrapped by another strategy. -/
def isBase : StrategyKind → Bool
  | default | inverse => true
  | _ => false

/-- A kind is found by its name. -/
theorem ofName?_name (k : StrategyKind) : ofName? k.name = some k := by
  cases k <;> decide

end StrategyKind

end NextBuild
