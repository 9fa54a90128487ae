import Mathlib.Algebra.GroupWithZero.Nat
import NextBuild.Proofs.BranchSpec.Glob
import NextBuild.Proofs.BranchSpec.Translation
import NextBuild.Revision

/-!
# Wildcards as specs

A wildcard is refused exactly if the machine of its expression is too big.  An accepted one matches a
name if a lead, perhaps an empty one, and a rest make up the name, and the wildcard matches the rest as
a glob.  The spec of the pointers to default branches therefore matches nothing but names that end like
such a pointer; and a long run of stars, which matches every name as a glob, is no spec.
-/

namespace NextBuild.BranchSpec

open Regex Pattern

variable {name : String}

/-- A name that is neither empty nor deferred is matched by its pattern. -/
theorem Matcher.ofName_eq_map_pattern {name : String} (hne : name ≠ "")
    (hreference : Text.hasReference name = false) :
    Matcher.ofName name = (pattern name).map .fixed := by
  have hempty : ¬ name.isEmpty = true := mt String.isEmpty_iff.1 hne
  rw [Matcher.ofName, if_neg hempty, hreference]
  rfl

/-- A spec that is known by its name matches what its wildcard matches. -/
theorem isMatch_ofName (h : (Matcher.ofName name).toBool = true) (hne : name ≠ "")
    (hreference : Text.hasReference name = false) (hbody : regexBody? name = none)
    (env : Text.Environment) (other : String) :
    (ofName name h).isMatch env other = .ok ((wildcardPattern name).isMatch other) := by
  obtain ⟨t, p, -, -, -, hsame, hpattern⟩ := exists_pattern_wildcard hbody
  have hmatcher := Matcher.ofName_eq_map_pattern hne hreference
  rw [hpattern] at hmatcher
  split at hmatcher
  · rw [hmatcher] at h
    cases h
  · rw [ofName_eq h hmatcher, ← hsame]
    rfl

/-- The spec of the pointers to default branches is matched by its wildcard. -/
theorem isMatch_head (env : Text.Environment) (name : String) :
    head.isMatch env name = .ok ((wildcardPattern "*/HEAD").isMatch name) :=
  isMatch_ofName _ (by decide) (Text.hasReference_eq_false (by decide)) (by decide) env name

/-- What the spec of the pointers to default branches matches is such a pointer. -/
theorem isHeadPointer_of_head_isMatch {env : Text.Environment} {b : Branch}
    (h : head.isMatch env b.name = .ok true) : b.isHeadPointer = true := by
  have hmatch : (wildcardPattern "*/HEAD").isMatch b.name = true :=
    Except.ok.inj ((isMatch_head env b.name).symm.trans h)
  obtain ⟨k, -, hbody⟩ := isMatch_wildcardPattern_iff.1 hmatch
  have hparts : (WildcardPart.ofChars "*/HEAD".toList).map WildcardPart.pattern =
      WildcardPart.segment.pattern :: "/HEAD".toList.map char := by decide
  rw [hparts, leads_seqs_cons] at hbody
  obtain ⟨l, -, htail⟩ := hbody
  obtain ⟨hl, hlength, hbegin⟩ := leads_literal_iff.1 htail
  have hrest : b.name.toList.drop l = "/HEAD".toList := by
    refine (hbegin.eq_of_length ?_).symm
    rw [List.length_drop]
    omega
  have hsuffix : "/HEAD".toList <:+ b.name.toList := hrest ▸ List.drop_suffix l _
  simp only [Branch.isHeadPointer, Text.endsWith, Bool.or_eq_true]
  exact .inr (List.isSuffixOf_iff_suffix.2 hsuffix)

end NextBuild.BranchSpec
