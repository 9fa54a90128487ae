import NextBuild.Graph.Inquiry
import NextBuild.Repository.Basic

/-!
# The library behind a repository

A repository is read through a library.  In which order it lists the references, and which one of
several best common ancestors it picks, is up to the library, so its answers are a parameter here.
A walk keeps what the library told it about two commits, and does not ask about them again.
-/

namespace NextBuild

/-- Why the library does not answer. -/
structure LibraryFault where
  /-- What was asked for does not exist. -/
  notFound : Bool
  reason : String
deriving DecidableEq, Repr

/-- The failure that a fault is passed on as. -/
def LibraryFault.failure (f : LibraryFault) : Failure :=
  .git f.reason

/-- The answers of the library about one repository. -/
structure Library where
  /-- All references with their targets; reading one of them may fail while they are listed. -/
  references : Except LibraryFault (List (Except LibraryFault (String × RefTarget)))
  /-- A common ancestor of two commits. -/
  mergeBase (a b : CommitId) : Except LibraryFault CommitId
  /-- The first commit is another one than the second, which is reachable from it. -/
  descends (commit ancestor : CommitId) : Except LibraryFault Bool

/-- What a walk keeps: whether the first commit of two is reachable from the second. -/
abbrev Library.Kept : Type := List ((CommitId × CommitId) × Bool)

namespace Library

/-- The branch that an entry of the listing is, if it is listed and leads to a commit. -/
def branch (r : Repository) : Except LibraryFault (String × RefTarget) →
    Except Failure (Option Branch)
  | .error f => .error f.failure
  | .ok e => if isListed r.localBranches e.1 then r.branch e else .ok none

/-- The listed references under their short names, in the order of these. -/
def branches (l : Library) (r : Repository) : Except Failure (List Branch) := do
  let entries ← l.references.mapError LibraryFault.failure
  let found ← entries.mapM (branch r)
  return (found.filterMap id).mergeSort fun a b => Text.le a.name b.name

/-- A best common ancestor of two commits, which have to be there. -/
def meet (l : Library) (r : Repository) (a b : CommitId) : Except Failure (Option CommitId) := do
  let left ← r.node a
  let right ← r.node b
  match l.mergeBase left.id right.id with
  | .ok c => return some c
  | .error f => if f.notFound then return none else throw f.failure

/-- The first commit is the second or reachable from it; both have to be there.  What the library
says is kept. -/
def isMergedInto (l : Library) (r : Repository) (ancestor candidate : CommitId) (kept : Kept) :
    Except Failure Bool × Kept :=
  match r.node ancestor with
  | .error f => (.error f, kept)
  | .ok a => match r.node candidate with
    | .error f => (.error f, kept)
    | .ok c =>
      if a.id = c.id then (.ok true, kept)
      else match kept.lookup (a.id, c.id) with
        | some merged => (.ok merged, kept)
        | none => match l.descends c.id a.id with
          | .error f => (.error f.failure, kept)
          | .ok merged => (.ok merged, ((a.id, c.id), merged) :: kept)

/-- The answers about a repository without a walk. -/
def answers (l : Library) (r : Repository) : CommitGraph
  | .references => l.branches r
  | .mergeBase a b => l.meet r a b
  | .isMergedInto a c => (l.isMergedInto r a c []).1
  | q => r.answers q

/-- The answers about a repository, with what the walk keeps that was opened last. -/
def answersInWalk (l : Library) (r : Repository) :
    (q : Query) → StateM Kept (Except Failure q.Answer)
  | .openWalk => do
    set ([] : Kept)
    return .ok ()
  | .isMergedInto a c => modifyGet (l.isMergedInto r a c)
  | q => return l.answers r q

end Library

end NextBuild
