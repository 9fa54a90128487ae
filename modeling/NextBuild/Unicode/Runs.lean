/-!
# Tables over the code points

A short table lists ranges of code points.  A long one gives every code point a tag: it is written as
runs from code point 0 on, each as its length in decimal followed by the tag, so `3N2Y` tags the code
points 0, 1, 2 with `N` and 3, 4 with `Y`.
-/

namespace NextBuild.Unicode

/-- Ranges of code points, each by its first and its last. -/
abbrev Spans := List (Nat × Nat)

/-- The character is in one of the ranges. -/
def Spans.has (spans : Spans) (c : Char) : Bool :=
  spans.any fun s => s.1 ≤ c.toNat && c.toNat ≤ s.2

/-- A character is in the spans if one of them holds its code point. -/
theorem Spans.has_iff {spans : Spans} {c : Char} :
    spans.has c = true ↔ ∃ s ∈ spans, s.1 ≤ c.toNat ∧ c.toNat ≤ s.2 := by
  simp [Spans.has]

/-- The runs of a table with the code points where they start. -/
def runsFrom (start length : Nat) (tag : List Char) : List Char → List (Nat × String)
  | [] => [(start, String.ofList tag.reverse)]
  | c :: r =>
    if c.isDigit then
      if tag.isEmpty then runsFrom start (10 * length + (c.toNat - 48)) [] r
      else (start, String.ofList tag.reverse) :: runsFrom (start + length) (c.toNat - 48) [] r
    else runsFrom start length (c :: tag) r

/-- A table of tags, as the starts of its runs. -/
structure Runs where
  starts : Array (Nat × String)

namespace Runs

/-- The table written in pieces of text. -/
def ofPieces (pieces : List String) : Runs :=
  ⟨(runsFrom 0 0 [] (pieces.flatMap String.toList)).toArray⟩

/-- The tag of the last run that starts at or before `n`, searched between two positions. -/
def search (starts : Array (Nat × String)) (n : Nat) : Nat → Nat → Nat → String
  | 0, lo, _ => match starts[lo]? with
    | some (_, tag) => tag
    | none => ""
  | fuel + 1, lo, hi =>
    if hi ≤ lo + 1 then search starts n 0 lo hi
    else
      let mid := (lo + hi) / 2
      match starts[mid]? with
      | some (s, _) => if s ≤ n then search starts n fuel mid hi else search starts n fuel lo mid
      | none => search starts n fuel lo mid

/-- The tag of a character. -/
def tag (t : Runs) (c : Char) : String :=
  search t.starts c.toNat t.starts.size 0 t.starts.size

end Runs

end NextBuild.Unicode
