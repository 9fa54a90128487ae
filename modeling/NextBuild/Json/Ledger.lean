import NextBuild.Json.Revision
import NextBuild.Ledger

/-!
# The JSON form of ledgers
-/

namespace NextBuild

namespace BuildResult

/-- An outcome is its name. -/
def json (r : BuildResult) : Json := .ofText r.name

/-- The outcome of a choice. -/
def ofJson? (v : Json) : Option BuildResult := do
  ofName? (← v.choice?)

end BuildResult

/-- The members for a value that may be missing: none if it is. -/
def Json.memberIfSome {α : Type} (name : String) (f : α → Json) : Option α → List (String × Json)
  | some a => [(name, f a)]
  | none => []

namespace Build

/-- A build is a record, without the revision that asked for a merge if there is none. -/
def json (b : Build) : Json :=
  .record <| ("revision", b.revision.json) :: Json.memberIfSome "marked" Revision.json b.cause
    ++ [("build_number", .ofInt b.number.toNat), ("result", b.result.json)]

/-- The build of a record. -/
def ofJson? (v : Json) : Option Build := do
  match ← v.fields? ["revision", "marked", "build_number", "result"] with
  | [some revision, cause, some number, some result] =>
    let cause ← match cause with
      | some c => c.optional? Revision.ofJson?
      | none => some none
    return ⟨← Revision.ofJson? revision, cause, ← number.uint64?, ← BuildResult.ofJson? result⟩
  | _ => none

end Build

namespace Ledger

/-- A ledger is a record of the builds by branch and the most recent build. -/
def json (l : Ledger) : Json :=
  .record <| ("builds_by_branch", .record (l.byBranch.entries.map fun e => (e.1, e.2.json)))
    :: Json.memberIfSome "last_build" Build.json l.last

/-- The ledger of a record; of several builds for one name the last counts. -/
def ofJson? (v : Json) : Option Ledger := do
  match ← v.fields? ["builds_by_branch", "last_build"] with
  | [builds, last] =>
    let builds ← match builds with
      | some bs => (← bs.members?).mapM fun m => (Build.ofJson? m.2).map (m.1, ·)
      | none => some []
    let last ← match last with
      | some b => b.optional? Build.ofJson?
      | none => some none
    return ⟨Table.ofList builds, last⟩
  | _ => none

end Ledger

end NextBuild
