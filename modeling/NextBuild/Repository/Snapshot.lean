import NextBuild.Json.Revision
import NextBuild.Repository.Basic

/-!
# Snapshots of repositories

The commits and references of a repository as a JSON text, for graphs that are read from elsewhere.
Commits are listed after their parents; whatever is left out is empty, and the head is a local
branch unless it is given as a reference name or as an id.
-/

namespace NextBuild.Repository

/-- The items of a list, which may be left out. -/
def listed {α : Type} (name : String) (f : Json → Option α) (members : List (String × Json)) :
    Option (List α) :=
  match members.lookup name with
  | some v => v.list? f
  | none => some []

/-- A name with a value of its own. -/
def named? {α : Type} (f : Json → Option α) (v : Json) : Option (String × α) := do
  match ← v.items? with
  | [name, value] => return (← name.text?, ← f value)
  | _ => none

/-- The commit of a record, added to a graph. -/
def addCommit? (g : Dag) (v : Json) : Option Dag := do
  let members ← v.members?
  let id ← CommitId.ofJson? (← members.lookup "id")
  let parents ← listed "parents" CommitId.ofJson? members
  let time ← (← members.lookup "time").int64?
  (g.add id parents time).toOption

/-- The head that a text describes. -/
def headTarget (s : String) : RefTarget :=
  match CommitId.ofText? s with
  | some c => .commit c
  | none => .symbolic s

/-- The head of a repository in which nothing is said about it. -/
def defaultHead : String := "refs/heads/master"

/-- The repository of a snapshot. -/
def ofJson? (v : Json) : Option Repository := do
  let members ← v.members?
  let commits ← listed "commits" some members
  let refs ← listed "refs" (named? CommitId.ofJson?) members
  let tags ← listed "annotated_tags" (named? CommitId.ofJson?) members
  let links ← listed "symrefs" (named? Json.text?) members
  let others ← listed "tree_refs" Json.text? members
  let head ← match members.lookup "head" with
    | some h => h.optional? Json.text?
    | none => some none
  let dag ← commits.foldlM addCommit? .empty
  let targets := refs.map (fun e => (e.1, RefTarget.commit e.2))
    ++ tags.map (fun e => ("refs/tags/" ++ e.1, .commit e.2))
    ++ links.map (fun e => (e.1, .symbolic e.2))
    ++ others.map (fun name => (name, .other))
    ++ [("HEAD", headTarget (head.getD defaultHead))]
  return ⟨dag, .ofList targets, none, false⟩

end NextBuild.Repository
