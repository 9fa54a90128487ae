import Mathlib.Data.List.DropRight
import NextBuild.BranchSpec
import NextBuild.Proofs.Text.Pieces

/-!
# Specs that wait for values

A spec without references is compiled when it is read, and one with references at each match, when
the values of its variables are known.  Whether there are references is seen by a look behind each
`$`; a text is expanded by cutting it into pieces from left to right, where a `$` inside a reference
begins none.  Both ways agree on whether there is anything to replace.  So expanding first and
compiling then, at each match and for every spec, would give the same answers and the same faults.
-/

namespace NextBuild

namespace Text

variable {env : Environment} {s : String}

/-! ## References -/

/-- The text holds a reference when one of its pieces is one. -/
theorem holdsReference_eq (cs : List Char) :
    holdsReference cs = (segments cs).any Segment.isReference := by
  induction cs using segments.induct with
  | case1 => rw [holdsReference, segments, List.any_nil]
  | case2 r seg r' href _ =>
    -- The first reference settles it, whatever a further `$` in it begins.
    have hbegins : beginsReference r = true := by
      rw [← isSome_referenceAfterDollar?, href, Option.isSome_some]
    rw [holdsReference, hbegins, segments_of_reference href, List.any_cons,
      isReference_of_referenceAfterDollar? href]
    rfl
  | case3 r href ih =>
    have hbegins : beginsReference r = false := by
      rw [← isSome_referenceAfterDollar?, href, Option.isSome_none]
    rw [holdsReference, hbegins, ih, segments_of_lone href, List.any_cons]
    rfl
  | case4 c r hc ih =>
    rw [holdsReference, beq_false_of_ne hc, ih, segments_cons_of_ne hc, List.any_cons]
    rfl

/-! ## Expansion -/

/-- Where no piece is a reference, nothing is replaced. -/
theorem expand_eq_self_of_hasReference (h : hasReference s = false) (env : Environment) :
    expand env s = s := by
  have hvalue : ∀ seg ∈ segments s.toList, seg.value env = seg.written := by
    intro seg hseg
    rw [hasReference, holdsReference_eq, List.any_eq_false] at h
    cases seg with
    | plain c => rfl
    | reference name w => exact absurd rfl (h _ hseg)
  rw [expand, List.flatMap_congr hvalue, flatMap_written_segments, String.ofList_toList]

/-- A reference makes room for a value that is longer than the whole text. -/
theorem exists_expand_ne (h : hasReference s = true) : ∃ env, expand env s ≠ s := by
  rw [hasReference, holdsReference_eq, List.any_eq_true] at h
  obtain ⟨seg, hseg, href⟩ := h
  cases seg with
  | plain c => cases href
  | reference name w =>
    let long := List.replicate (s.toList.length + 1) 'a'
    refine ⟨[(String.ofList name, String.ofList long)], fun heq => ?_⟩
    obtain ⟨before, after, hsplit⟩ := List.append_of_mem hseg
    have hvalue : (Segment.reference name w).value [(String.ofList name, String.ofList long)] = long := by
      simp [Segment.value]
    have hlength := congrArg (fun t : String => t.toList.length) heq
    simp only [expand, hsplit, List.flatMap_append, List.flatMap_cons, hvalue, String.toList_ofList,
      List.length_append, long, List.length_replicate] at hlength
    omega

/-- A text holds a reference exactly when the values of variables can make a difference to it. -/
theorem hasReference_iff : hasReference s = true ↔ ∃ env, expand env s ≠ s := by
  constructor
  · exact exists_expand_ne
  · rintro ⟨env, hne⟩
    by_contra hnone
    exact hne (expand_eq_self_of_hasReference (Bool.not_eq_true _ ▸ hnone) env)

/-- Nothing is left to trim at the ends of a text that was trimmed. -/
theorem trim_trim (s : String) : trim (trim s) = trim s := by
  have htrimEnd (cs : List Char) : trimEndChars cs = cs.rdropWhile isBlank := rfl
  have hfront (cs : List Char) : (trimChars cs).dropWhile isBlank = trimChars cs := by
    apply dropWhile_eq_self
    intro c hc
    have hbegin : trimChars cs <+: cs.dropWhile isBlank := List.rdropWhile_prefix isBlank _
    obtain ⟨rest, hrest⟩ := hbegin
    apply head?_dropWhile cs c
    rw [← hrest, Option.mem_def, List.head?_append, Option.mem_def.1 hc, Option.some_or]
  apply String.toList_injective
  rw [toList_trim, toList_trim, trimChars, hfront, htrimEnd, trimChars, htrimEnd,
    List.rdropWhile_idempotent]

end Text

namespace BranchSpec

variable {s : String}

/-- What a text matches if it is expanded first and compiled then, at each match. -/
def isMatchExpanded (s : String) (env : Text.Environment) (name : String) : Except Failure Bool :=
  let expanded := Text.trim (Text.expand env (Text.trim s))
  if expanded.isEmpty then .ok false
  else (pattern expanded).map fun p => p.isMatch name

/-- Where nothing is replaced, every match compiles the same text. -/
theorem isMatchExpanded_of_not_hasReference (hempty : ¬ (Text.trim s).isEmpty = true)
    (href : ¬ Text.hasReference (Text.trim s) = true) (env : Text.Environment) (name : String) :
    isMatchExpanded s env name = (pattern (Text.trim s)).map fun p => p.isMatch name := by
  have hself := Text.expand_eq_self_of_hasReference (Bool.not_eq_true _ ▸ href) env
  rw [isMatchExpanded, hself, Text.trim_trim, if_neg hempty]

/-- A text holds a reference exactly when some values change it.  And whether a spec is compiled when
it is read or at each match cannot be told from what it matches: each match gives what expanding and
compiling anew would give, and a text that is refused as a spec would have failed with that fault at
every match. -/
theorem isMatch_eq_isMatchExpanded (s : String) :
    (Text.hasReference s = true ↔ ∃ env, Text.expand env s ≠ s) ∧
    ∀ env name, (ofText s >>= fun spec => spec.isMatch env name) = isMatchExpanded s env name := by
  refine ⟨Text.hasReference_iff, fun env name => ?_⟩
  by_cases hempty : (Text.trim s).isEmpty = true
  · have hnever : Matcher.ofName (Text.trim s) = .ok .never := if_pos hempty
    have hfalse : isMatchExpanded s env name = .ok false := by
      rw [isMatchExpanded, String.isEmpty_iff.1 hempty, Text.expand_eq_self (by decide)]
      rfl
    rw [ofText_eq_ok hnever, hfalse]
    rfl
  by_cases href : Text.hasReference (Text.trim s) = true
  · have hdeferred : Matcher.ofName (Text.trim s) = .ok .deferred := by
      rw [Matcher.ofName, if_neg hempty, if_pos href]
    rw [ofText_eq_ok hdeferred]
    simp only [bind, Except.bind, isMatch, isMatchExpanded]
  have hfixed : Matcher.ofName (Text.trim s) = (pattern (Text.trim s)).map .fixed := by
    rw [Matcher.ofName, if_neg hempty, if_neg href]
  rw [isMatchExpanded_of_not_hasReference hempty href]
  cases hp : pattern (Text.trim s) with
  | ok p =>
    rw [ofText_eq_ok (hfixed.trans (congrArg _ hp))]
    rfl
  | error f =>
    rw [ofText_eq_error (hfixed.trans (congrArg _ hp))]
    rfl

end BranchSpec

end NextBuild
