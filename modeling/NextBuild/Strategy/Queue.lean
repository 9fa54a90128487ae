import NextBuild.Strategy.Candidates

/-!
# The queue strategy

Builds every commit of one line of history, one at a time.  The log of the line is put into the
order of time; of commits of the same time the one further down the log counts as newer.  The next
commit to build is the oldest one that is newer than the last one built.
-/

namespace NextBuild

/-- The queue strategy. -/
structure QueueStrategy where
  /-- The reference whose history is built. -/
  target : Option String

namespace QueueStrategy

/-- The strategy for a reference; a blank one counts as none. -/
def ofText (target : Option String) : QueueStrategy :=
  ⟨(target.map Text.trim).filter (!·.isEmpty)⟩

/-- The reference to log: the requested branch if it is definite, else the configured one. -/
def logTarget? (s : QueueStrategy) (req : Request) : Option String :=
  let definite := (req.target.map Text.trim).filter fun spec =>
    !spec.isEmpty && !Text.hasChar '*' spec && !Text.startsWith ":" spec
  (definite.or s.target).map (Text.expand req.env)

/-- The newer entry first, and of the same time the one with the greater place in the log. -/
def isNewer (a b : LogEntry × Nat) : Bool :=
  decide (b.1.time < a.1.time) || (a.1.time == b.1.time && decide (b.2 ≤ a.2))

/-- The entries of a log from new to old. -/
def newestFirst (log : List LogEntry) : List LogEntry :=
  (log.zipIdx.mergeSort isNewer).map (·.1)

/-- The revisions to build. -/
def select (s : QueueStrategy) (req : Request) (ledger : Ledger) : Inquiry (List Revision) := do
  let target := s.logTarget? req
  let label := target.getD detached
  let log ← .query (.log target)
  match ledger.last with
  | none => return ((newestFirst log).map fun e => .labelled e.commit label).reverse
  | some build =>
    let newer := (newestFirst log).takeWhile fun e => e.commit != build.marked.commit
    match newer.getLast? with
    | some e => return [.labelled e.commit label]
    | none => return if req.poll then [] else [build.revision]

end QueueStrategy

end NextBuild
