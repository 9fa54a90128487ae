import NextBuild.Proofs.BranchSpec.Wildcard
import NextBuild.Proofs.Regex.Reading

/-!
# The translation of wildcards

A wildcard stands for a regular expression that is put together as a text: the leads as a group that
may be left out, a class with a star for each star on its own, a dot with a star for each pair, and
every character that has a meaning of its own behind a backslash.  Read back, the text is an
expression that matches the same names as the pieces of the wildcard.  It is never nested deeply, so
that its size alone can make it a fault.
-/

namespace NextBuild

open Regex Pattern

namespace WildcardPart

/-- The text of the expression for a piece. -/
def text : WildcardPart → List Char
  | anything => ".*".toList
  | segment => "[^/]*".toList
  | exactly c => BranchSpec.escaped c

/-- The text of a piece writes its pattern, whatever the character. -/
theorem writes_text (part : WildcardPart) : Writes 2 part.text [part.pattern] := by
  cases part with
  | anything => exact .dots
  | segment => exact .notSlashes
  | exactly c =>
    by_cases hc : Reader.isMeta c = true
    · rw [text, BranchSpec.escaped, if_pos hc]
      exact .escaped hc
    · rw [text, BranchSpec.escaped, if_neg hc]
      exact .literal (by simpa using hc)

/-- The texts of the parts write their patterns. -/
theorem writes_texts (parts : List WildcardPart) :
    Writes 2 (parts.flatMap text) (parts.map pattern) := by
  induction parts with
  | nil => exact .nil
  | cons part parts ih => exact part.writes_text.append ih

end WildcardPart

namespace BranchSpec

/-- The characters of a wildcard are translated piece by piece; a star that is pending belongs to the
pieces that are still to come. -/
theorem translated_eq (cs : List Char) :
    translated false cs = (WildcardPart.ofChars cs).flatMap WildcardPart.text ∧
      translated true cs = (WildcardPart.ofChars ('*' :: cs)).flatMap WildcardPart.text := by
  induction cs with
  | nil => exact ⟨rfl, rfl⟩
  | cons c cs ih =>
    by_cases hc : c = '*'
    · subst hc
      refine ⟨?_, ?_⟩
      · rw [translated, if_pos rfl, if_neg Bool.false_ne_true, ih.2]
      · rw [translated, if_pos rfl, if_pos rfl, ih.1, WildcardPart.ofChars, List.flatMap_cons]
        rfl
    · have hchar : WildcardPart.ofChars (c :: cs) = .exactly c :: WildcardPart.ofChars cs := by
        rw [WildcardPart.ofChars] <;> simp [hc]
      have hstar : WildcardPart.ofChars ('*' :: c :: cs) =
          .segment :: WildcardPart.ofChars (c :: cs) := by
        rw [WildcardPart.ofChars]
        simp [hc]
      refine ⟨?_, ?_⟩
      · rw [translated, if_neg hc, if_neg Bool.false_ne_true, ih.1, hchar, List.flatMap_cons]
        rfl
      · rw [translated, if_neg hc, if_pos rfl, ih.1, hstar, hchar, List.flatMap_cons,
          List.flatMap_cons]
        rfl

/-! ## The text of a wildcard -/

/-- The name of any remote and the `/` behind it, after a text that stands for itself. -/
theorem writes_remoteLead {lead : String} (h : ∀ c ∈ lead.toList, Reader.isMeta c = false) :
    Writes 2 (lead.toList ++ ("[^/]+".toList ++ ['/']))
      (lead.toList.map char ++ [remotePattern, char '/']) :=
  (Writes.literal h).append
    (Writes.notSlashRun.append (.literal (List.forall_mem_singleton.2 (by decide))))

/-- The group in front of a wildcard writes the pattern of its leads. -/
theorem writes_leadText (spec : String) :
    Writes 6 (leadText spec).toList [.look .textStart, .optional (leadPattern spec)] := by
  have hplain (lead : String) (h : lead.toList.any Reader.isMeta = false) :
      ∀ c ∈ lead.toList, Reader.isMeta c = false := by simpa using h
  have hheads := hplain "refs/heads/" (by decide)
  have hrefs := hplain "refs/remotes/" (by decide)
  have hremotes := hplain "remotes/" (by decide)
  have hnothing := hplain "" (by decide)
  by_cases hkind : isUnqualified spec = true
  · have hchoices := Writes.Choices.bar (.literal hheads)
      (.bar (writes_remoteLead hrefs) (.bar (writes_remoteLead hremotes)
        (.last (writes_remoteLead hnothing))))
    rw [leadPattern, if_pos hkind]
    refine (Writes.lineStart.append hchoices.optionalGroup).of_eq ?_
    refine (congrArg (fun r => ("^(?:refs/heads/" ++ r ++ ")?").toList) (if_pos hkind)).trans ?_
    decide
  · have hchoices := Writes.Choices.bar (d := 2) (.literal hheads)
      (.bar (.literal hrefs) (.last (.literal hremotes)))
    rw [leadPattern, if_neg hkind]
    refine (Writes.lineStart.append hchoices.optionalGroup).of_eq ?_
    refine (congrArg (fun r => ("^(?:refs/heads/" ++ r ++ ")?").toList) (if_neg hkind)).trans ?_
    decide

/-- The text of a wildcard writes the parts of its pattern. -/
theorem writes_wildcardText (spec : String) : Writes 6 (wildcardText spec).toList
    (.look .textStart :: (wildcardParts spec ++ [.look .textEnd])) := by
  have hpieces := (WildcardPart.writes_texts (WildcardPart.ofChars spec.toList)).mono
    (by decide : 2 ≤ 6)
  rw [← (translated_eq spec.toList).1] at hpieces
  refine (((writes_leadText spec).append hpieces).append .lineEnd).of_eq ?_
  simp only [wildcardText, String.toList_append, String.toList_ofList]
  rfl

/-- A wildcard is read as an expression that matches the same names.  It is refused for no other reason
than the size of its machine. -/
theorem exists_pattern_wildcard {spec : String} (hbody : regexBody? spec = none) :
    ∃ t p, Tree.ofText (wildcardText spec) = .ok t ∧ t.pattern {} = .ok (p, {}) ∧
      p.machineSize = (wildcardPattern spec).machineSize ∧
      (∀ name, p.isMatch name = (wildcardPattern spec).isMatch name) ∧
      pattern spec = if sizeLimit < p.machineSize
        then .error (.invalidBranchSpec spec Fault.tooBig.message) else .ok p := by
  obtain ⟨t, p, ht, hdepth, hp, hsize, hleads⟩ := (writes_wildcardText spec).ofText
  rw [String.ofList_toList] at ht
  refine ⟨t, p, ht, hp, hsize, fun name => ?_, ?_⟩
  · rw [Bool.eq_iff_iff, isMatch_iff, isMatch_iff]
    simp only [hleads, wildcardPattern]
  · have hshallow : t.depth ≤ depthLimit := hdepth.trans (by decide)
    rw [pattern, expressionText, hbody, Pattern.ofText_eq_ite ht hshallow hp]
    split <;> rfl

end BranchSpec

end NextBuild
