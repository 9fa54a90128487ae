import NextBuild.BranchSpec
import NextBuild.Calendar
import NextBuild.Graph.Inquiry
import NextBuild.Ledger

/-!
# Candidates of a selection

What the strategies have in common: the request that they answer, the revisions that the references
of a graph point to, the removal of revisions that another one contains, and the order by time.
-/

namespace NextBuild

/-- What a selection is asked for. -/
structure Request where
  /-- Only revisions that were never built are asked for. -/
  poll : Bool
  /-- The branch that is asked for. -/
  target : Option String
  /-- The values of variables in branch specs. -/
  env : Text.Environment
  /-- The day on which the selection is made. -/
  today : Date
  /-- The seconds by which local time is ahead of universal time. -/
  offset : Int

/-- One revision for each commit that a listed reference points to. -/
def listedRevisions : Inquiry (List Revision) := do
  return Revision.group (← .query .references)

/-- The revision with the branches whose names `keep` accepts; the first failure counts. -/
def Revision.filterNames (keep : Branch → Except Failure Bool) (r : Revision) :
    Except Failure Revision := do
  return ⟨r.commit, ← r.branches.filterM keep⟩

/-- Compare a revision with the others that are left, until one contains it.  Answers whether the
revision stays, and the others that stay. -/
def compareWith (r : Revision) : List Revision → Inquiry (Bool × List Revision)
  | [] => return (true, [])
  | s :: ss => do
    if r.commit = s.commit then
      let (kept, rest) ← compareWith r ss
      return (kept, s :: rest)
    else
      let base ← .query (.mergeBase r.commit s.commit)
      if base = some r.commit then return (false, s :: ss)
      else
        let (kept, rest) ← compareWith r ss
        return (kept, if base = some s.commit then rest else s :: rest)

/-- The revisions that are in no other revision of the list, for lists of at most `rounds`. -/
def tipsWithin : Nat → List Revision → Inquiry (List Revision)
  | _, [] => return []
  | 0, rs => return rs
  | rounds + 1, r :: rs => do
    let (kept, rest) ← compareWith r rs
    let tips ← tipsWithin rounds rest
    return if kept then r :: tips else tips

/-- The revisions whose commits no other revision of the list has among its ancestors, in their
order.  Revisions of the same commit do not remove each other. -/
def tips (rs : List Revision) : Inquiry (List Revision) :=
  tipsWithin rs.length rs

/-- The older revision first, and of the same time the one with the smaller id. -/
def isOlder (a b : Int64 × Revision) : Bool :=
  decide (a.1 < b.1) || (a.1 == b.1 && Text.le a.2.commit.text b.2.commit.text)

/-- The revisions from old to new; all times are read before the order is changed. -/
def sortOldestFirst (rs : List Revision) : Inquiry (List Revision) := do
  if rs.length < 2 then return rs
  .query .openWalk
  let timed ← rs.mapM fun r => do return (← .query (.commitTime r.commit), r)
  return (timed.mergeSort isOlder).map (·.2)

/-- Commits in the order of their ids. -/
def compareIds (a b : Revision) : Ordering :=
  compare a.commit.text b.commit.text

/-- Compare two revisions by time, given the first failure of earlier comparisons.  After a failure
ids alone are compared, and the failure is kept. -/
def compareTimes (failed : Option Failure) (a b : Revision) :
    Inquiry (Ordering × Option Failure) := do
  if failed.isSome then return (compareIds a b, failed)
  match ← .attempt (.commitTime a.commit) with
  | .error f => return (compareIds a b, some f)
  | .ok left => match ← .attempt (.commitTime b.commit) with
    | .error f => return (compareIds a b, some f)
    | .ok right => return ((compare left.toInt right.toInt).then (compareIds a b), none)

/-- Split off the revisions that were built.  Besides what is left, this gives the revision to build
again: the last one built, with its present branches if it is among the revisions. -/
def dropBuilt (ledger : Ledger) (rs : List Revision) : List Revision × Option Revision :=
  let built := rs.filter fun r => ledger.hasBuilt r.commit
  (rs.filter fun r => !ledger.hasBuilt r.commit,
    ledger.lastRevision?.map fun last =>
      built.foldl (fun again r => if again.same r then r else again) last)

end NextBuild
