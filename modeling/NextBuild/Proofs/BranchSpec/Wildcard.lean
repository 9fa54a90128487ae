import NextBuild.BranchSpec
import NextBuild.Proofs.Regex.Spelling

/-!
# The pattern of a wildcard

A wildcard has pieces: pairs of stars, single stars and characters.  Its pattern matches a name as a
whole: one of the leads that references carry, or nothing, and behind it the pieces of the wildcard up
to the end of the name.
-/

namespace NextBuild

/-- One piece of a wildcard. -/
inductive WildcardPart where
  /-- `**`: any text without a line feed. -/
  | anything
  /-- `*`: any text without a `/`. -/
  | segment
  | exactly (c : Char)
deriving DecidableEq, Repr

namespace WildcardPart

/-- The pieces of a wildcard; stars pair up from left to right. -/
def ofChars : List Char → List WildcardPart
  | '*' :: '*' :: r => anything :: ofChars r
  | '*' :: r => segment :: ofChars r
  | c :: r => exactly c :: ofChars r
  | [] => []

/-- The pattern of a piece. -/
def pattern : WildcardPart → Regex.Pattern
  | anything => .star (.chars (.compl (.single '\n')))
  | segment => .star (.chars (.compl (.single '/')))
  | exactly c => .char c

end WildcardPart

namespace BranchSpec

open Regex Pattern

/-- A nonempty text without a `/`. -/
def remotePattern : Pattern :=
  let notSlash := Pattern.chars (.compl (.single '/'))
  .seq notSlash (.star notSlash)

/-- A text, the name of a remote and a `/`. -/
def remoteLead (text : String) : Pattern :=
  .seqs (text.toList.map char ++ [remotePattern, char '/'])

/-- What may stand before the part that a wildcard describes. -/
def leadPattern (spec : String) : Pattern :=
  let text := fun (s : String) => Pattern.literal s.toList
  .alts (text "refs/heads/" ::
    if isUnqualified spec then [remoteLead "refs/remotes/", remoteLead "remotes/", remoteLead ""]
    else [text "refs/remotes/", text "remotes/"])

/-- What stands between the two ends of a name that a wildcard matches. -/
def wildcardParts (spec : String) : List Pattern :=
  .optional (leadPattern spec) :: (WildcardPart.ofChars spec.toList).map WildcardPart.pattern

/-- The pattern of a wildcard, for whole names. -/
def wildcardPattern (spec : String) : Pattern :=
  .seqs (.look .textStart :: (wildcardParts spec ++ [.look .textEnd]))

/-- A wildcard matches from the begin of a name, behind a lead or without one, to its end. -/
theorem isMatch_wildcardPattern_iff {spec name : String} :
    (wildcardPattern spec).isMatch name = true ↔
      ∃ k, Leads name.toList (.optional (leadPattern spec)) 0 k ∧
        Leads name.toList (seqs ((WildcardPart.ofChars spec.toList).map WildcardPart.pattern)) k
          name.toList.length := by
  simp only [isMatch_iff, wildcardPattern, wildcardParts, List.cons_append, leads_seqs_cons,
    leads_seqs_append, leads_textStart_iff, leads_textEnd_iff]
  constructor
  · intro h
    obtain ⟨_, _, _, ⟨rfl, rfl⟩, k, hlead, _, hbody, _, ⟨rfl, -⟩, -⟩ := h
    exact ⟨k, hlead, hbody⟩
  · intro h
    obtain ⟨k, hlead, hbody⟩ := h
    exact ⟨0, _, 0, ⟨rfl, rfl⟩, k, hlead, _, hbody, _, ⟨rfl, rfl⟩, .empty _ (Nat.le_refl _)⟩

end BranchSpec

end NextBuild
