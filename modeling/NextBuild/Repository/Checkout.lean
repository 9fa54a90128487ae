import NextBuild.Files
import NextBuild.Repository.Basic

/-!
# Checkouts

A checkout is a place in the file system at which a repository is found: a directory with the files
of one commit, or a bare repository.  It is found from its own directory and from all below it, and
from its git directory.  Several work trees of a clone share a directory, in which the ledgers are.
-/

namespace NextBuild

/-- A place in the file system at which a repository is found. -/
structure Checkout where
  /-- The directory of the files, or the git directory of a bare repository. -/
  root : String
  gitDirectory : String
  /-- The git directory that all work trees of a clone share. -/
  commonDirectory : String
  repository : Repository

namespace Checkout

/-- The path is that of the checkout. -/
def isAt (path : String) (c : Checkout) : Bool :=
  Path.key c.root == path || Path.key c.gitDirectory == path

/-- A path and the directories above it, the innermost first. -/
def pathsUp (path : String) : List String :=
  Path.key path :: (Path.above path).reverse

/-- The innermost checkout around a path. -/
def around? (cs : List Checkout) (path : String) : Option Checkout :=
  (pathsUp path).findSome? fun p => cs.find? (isAt p)

/-- The name of the file that a fetch leaves in the git directory. -/
def fetchHeadName : String := "FETCH_HEAD"

/-- The checkout around a path, or around the working directory, as it is now.  A path that does not
exist is in no checkout. -/
def discover (cs : List Checkout) (workingDirectory : String) (start : Option String) :
    FileAction Checkout := do
  let path := match start with
    | some p => Path.join workingDirectory p
    | none => workingDirectory
  let fs ← get
  match if fs.has path then around? cs path else none with
  | none => throw (.repositoryNotFound (start.getD workingDirectory))
  | some c =>
    let fetchHead := fs.text? (Path.join c.gitDirectory fetchHeadName)
    return { c with repository := { c.repository with fetchHead } }

end Checkout

end NextBuild
