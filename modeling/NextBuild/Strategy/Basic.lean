import NextBuild.Strategy.Bounds
import NextBuild.Strategy.Default
import NextBuild.Strategy.Inverse
import NextBuild.Strategy.Priority
import NextBuild.Strategy.Queue

/-!
# Strategies

The five strategies, made from options.  Everything that can be wrong with the options is found when
the strategy is made, before a graph is asked anything.
-/

namespace NextBuild

/-- What a strategy is made from. -/
structure StrategyOptions where
  kind : StrategyKind := .default
  /-- The strategy whose candidates are bounded. -/
  inner : StrategyKind := .default
  branches : List String := ["**"]
  remotes : List String := ["origin"]
  target : Option String := none
  maxAgeDays : Option Int := none
  ancestor : Option String := none
  priority : List String := []

/-- A strategy that selects by itself. -/
inductive BaseStrategy where
  | default (s : DefaultStrategy)
  | inverse (s : InverseStrategy)

namespace BaseStrategy

/-- The base strategy of a kind. -/
def ofOptions (o : StrategyOptions) : StrategyKind → Except Failure BaseStrategy
  | .default => (DefaultStrategy.ofTexts o.branches o.remotes).map default
  | .inverse => (InverseStrategy.ofTexts o.branches).map inverse
  | kind => .error (.invalidConfig (.notWrappable kind))

/-- The revisions to build. -/
def select (req : Request) (ledger : Ledger) : BaseStrategy → Inquiry (List Revision)
  | default s => s.select req ledger
  | inverse s => s.select req ledger

end BaseStrategy

/-- A selection strategy. -/
inductive Strategy where
  | base (s : BaseStrategy)
  | bounded (inner : BaseStrategy) (bounds : Bounds)
  | prioritized (inner : BaseStrategy) (bounds : Bounds) (priorities : List String)
  | queue (s : QueueStrategy)

namespace Strategy

/-- The kind of a strategy. -/
def kind : Strategy → StrategyKind
  | base (.default _) => .default
  | base (.inverse _) => .inverse
  | bounded _ _ => .ancestry
  | prioritized _ _ _ => .compound
  | queue _ => .queue

/-- The inner strategy with the bounds on its candidates. -/
def boundedParts (o : StrategyOptions) : Except Failure (BaseStrategy × Bounds) := do
  let inner ← BaseStrategy.ofOptions o o.inner
  return (inner, ← Bounds.ofTexts o.maxAgeDays o.ancestor)

/-- The strategy that options describe. -/
def ofOptions (o : StrategyOptions) : Except Failure Strategy :=
  match o.kind with
  | .default => (BaseStrategy.ofOptions o .default).map base
  | .inverse => (BaseStrategy.ofOptions o .inverse).map base
  | .ancestry => (boundedParts o).map fun (inner, b) => bounded inner b
  | .compound => (boundedParts o).map fun (inner, b) =>
    prioritized inner b (readPriorities o.priority)
  | .queue => .ok (queue (.ofText o.target))

/-- The revisions to build next, in their order. -/
def select (req : Request) (ledger : Ledger) : Strategy → Inquiry (List Revision)
  | base s => s.select req ledger
  | bounded inner b => do b.filter req (← inner.select req ledger)
  | prioritized inner b priorities => do
    return arrangeByPriority priorities (← b.filter req (← inner.select req ledger))
  | queue s => s.select req ledger

end Strategy

end NextBuild
