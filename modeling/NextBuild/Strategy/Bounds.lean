import NextBuild.Strategy.Candidates

/-!
# Bounds on age and ancestry

Two bounds on the candidates of another strategy: a commit may be too old, and it may lack a commit
that it has to contain.  A bound on the age in days is turned into a time: the local midnight of that
many days before today.
-/

namespace NextBuild

/-- The time before which commits are too old, in seconds from 1970, as an almanac tells it. -/
def ageCutoffBy (a : Almanac) (today : Date) (offset days : Int) : Except Failure Int :=
  if days < 0 then .error (.invalidConfig (.negativeAge days))
  else match a.daysBefore today days.toNat with
    | none => .error (.invalidConfig (.ageOutOfRange days))
    | some day => match a.midnight day offset with
      | none => .error (.invalidConfig (.noCutoff day))
      | some instant => .ok instant

/-- The time before which commits are too old, in seconds from 1970. -/
def ageCutoff (today : Date) (offset days : Int) : Except Failure Int :=
  ageCutoffBy .gregorian today offset days

/-- Bounds on candidates. -/
structure Bounds where
  /-- The greatest age in days. -/
  maxAgeDays : Option Int
  /-- A commit that every candidate has to contain. -/
  ancestor : Option CommitId

namespace Bounds

/-- The bounds for an age and the text of a commit id; a blank text counts as none. -/
def ofTexts (maxAgeDays : Option Int) (ancestor : Option String) : Except Failure Bounds := do
  match maxAgeDays with
  | some days => if days < 0 then throw (.invalidConfig (.negativeAge days))
  | none => pure ()
  match (ancestor.map Text.trim).filter (!·.isEmpty) with
  | none => return ⟨maxAgeDays, none⟩
  | some text => match CommitId.ofText? text with
    | some c => return ⟨maxAgeDays, some c⟩
    | none => throw (.invalidCommitId text)

/-- The candidate is within the bounds. -/
def admits (cutoff : Option Int) (ancestor : Option CommitId) (r : Revision) : Inquiry Bool := do
  match cutoff with
  | some limit =>
    let time ← .query (.commitTime r.commit)
    if time.toInt < limit then return false
  | none => pure ()
  match ancestor with
  | some a => .query (.isMergedInto a r.commit)
  | none => return true

/-- The candidates within the bounds, in their order.  A required ancestor has to exist, whether
there are candidates or not. -/
def filter (b : Bounds) (req : Request) (candidates : List Revision) :
    Inquiry (List Revision) := do
  if b.maxAgeDays.isNone && b.ancestor.isNone then return candidates
  let cutoff ← Inquiry.ofExcept (b.maxAgeDays.mapM (ageCutoff req.today req.offset))
  .query .openWalk
  match b.ancestor with
  | some a => let _ ← .query (.commitTime a)
  | none => pure ()
  candidates.filterM (admits cutoff b.ancestor)

end Bounds

end NextBuild
