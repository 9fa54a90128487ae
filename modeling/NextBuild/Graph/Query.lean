import NextBuild.Failure
import NextBuild.Revision

/-!
# Questions about a commit graph

Selection knows a repository only through these questions.  Each has its own type of answers, and a
graph is whatever answers all of them.  Any of them may fail; that a name does not exist is one of
the failures, and none of them stands for an empty answer.
-/

namespace NextBuild

/-- A commit of a log with its committer time, in seconds from 1970. -/
structure LogEntry where
  commit : CommitId
  time : Int64
deriving DecidableEq

/-- A question about a commit graph. -/
inductive Query where
  /-- The branches and tags with the commits they point to. -/
  | references
  /-- The commit that a reference name or a commit id denotes. -/
  | resolve (name : String)
  /-- A best common ancestor of two commits. -/
  | mergeBase (a b : CommitId)
  /-- The committer time of a commit. -/
  | timestamp (c : CommitId)
  /-- The commits reachable from a reference, or from every reference. -/
  | log (reference : Option String)
  /-- The commit of the last fetch. -/
  | fetchHead
  /-- The begin of a walk that the two questions below belong to. -/
  | openWalk
  /-- The first commit is the second or is reachable from it. -/
  | isMergedInto (ancestor candidate : CommitId)
  /-- The committer time of a commit, within a walk. -/
  | commitTime (c : CommitId)
deriving DecidableEq

namespace Query

/-- The answers to a question. -/
abbrev Answer : Query → Type
  | references => List Branch
  | resolve _ => CommitId
  | mergeBase _ _ => Option CommitId
  | timestamp _ => Int64
  | log _ => List LogEntry
  | fetchHead => CommitId
  | openWalk => Unit
  | isMergedInto _ _ => Bool
  | commitTime _ => Int64

end Query

/-- What answers every question about a graph. -/
abbrev CommitGraph := (q : Query) → Except Failure q.Answer

/-- The names under which a reference may be stored, in the order in which they are tried. -/
def fullNames (name : String) : List String :=
  [name, "refs/" ++ name, "refs/tags/" ++ name, "refs/heads/" ++ name, "refs/remotes/" ++ name]

/-- A full name is listed: remote branches and tags are, and local branches on demand. -/
def isListed (localBranches : Bool) (name : String) : Bool :=
  Text.startsWith "refs/remotes/" name || Text.startsWith "refs/tags/" name
    || (localBranches && Text.startsWith "refs/heads/" name)

/-- The short form of a full reference name: without the lead of remote branches. -/
def displayName (name : String) : String :=
  (Text.afterLead? "refs/remotes/" name).getD name

/-- What is listed without local branches is listed with them. -/
theorem isListed_true {localBranches : Bool} {name : String}
    (h : isListed localBranches name = true) :
    isListed true name = true := by
  cases localBranches with
  | true => exact h
  | false =>
    simp only [isListed, Bool.false_and, Bool.or_false, Bool.true_and] at *
    rw [h, Bool.true_or]

/-- Whatever is listed has a full name. -/
theorem startsWith_refs_of_isListed {localBranches : Bool} {name : String}
    (h : isListed localBranches name = true) : Text.startsWith "refs/" name = true := by
  have h := isListed_true h
  simp only [isListed, Bool.true_and, Bool.or_eq_true] at h
  rcases h with (h | h) | h
  all_goals exact Text.startsWith_trans (by decide) h

end NextBuild
