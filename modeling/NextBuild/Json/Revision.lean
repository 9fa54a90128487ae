import NextBuild.Json.Value
import NextBuild.Revision

/-!
# The JSON form of revisions
-/

namespace NextBuild

namespace CommitId

/-- A commit id is a string. -/
def json (c : CommitId) : Json := .ofText c.text

/-- The commit id of a string. -/
def ofJson? (v : Json) : Option CommitId := do
  ofText? (← v.text?)

end CommitId

namespace Branch

/-- A branch is a name and a commit. -/
def json (b : Branch) : Json :=
  .record [("name", .ofText b.name), ("commit", b.commit.json)]

/-- The branch of a record. -/
def ofJson? (v : Json) : Option Branch := do
  match ← v.fields? ["name", "commit"] with
  | [some name, some commit] => return ⟨← name.text?, ← CommitId.ofJson? commit⟩
  | _ => none

end Branch

/-- The values of the items of an array. -/
def Json.list? {α : Type} (f : Json → Option α) (v : Json) : Option (List α) := do
  (← v.items?).mapM f

namespace Revision

/-- A revision is a commit and its branches. -/
def json (r : Revision) : Json :=
  .record [("commit", r.commit.json), ("branches", .array (r.branches.map Branch.json))]

/-- The revision of a record; its branches may be left out. -/
def ofJson? (v : Json) : Option Revision := do
  match ← v.fields? ["commit", "branches"] with
  | [some commit, branches] =>
    let branches ← match branches with
      | some bs => bs.list? Branch.ofJson?
      | none => some []
    return ⟨← CommitId.ofJson? commit, branches⟩
  | _ => none

end Revision

end NextBuild
