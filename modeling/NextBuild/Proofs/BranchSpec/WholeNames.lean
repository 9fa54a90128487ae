import NextBuild.Proofs.BranchSpec.Deferral
import NextBuild.Proofs.Regex.Splicing

/-!
# Specs that are regular expressions

The expression behind the `:` of a spec is put in a group between anchors, as a text, so that it has
to match whole names.  A spec that is accepted matches the names that its expression leads over from
begin to end, if it has one of its own.
-/

namespace NextBuild.BranchSpec

open Regex (Pattern Tree depthLimit sizeLimit)

variable {b : String}

/-- Nothing is trimmed from a trimmed text behind a `:`. -/
theorem trim_colon (hne : b ≠ "") (hblank : Text.trim b = b) : Text.trim (":" ++ b) = ":" ++ b := by
  have hcs : b.toList ≠ [] := fun h => hne (String.toList_injective h)
  have hend : b.toList.rdropWhile Text.isBlank = b.toList := by
    have htrim : Text.trimEndChars (b.toList.dropWhile Text.isBlank) = b.toList := by
      rw [← Text.trimChars, ← Text.toList_trim, hblank]
    rw [← htrim]
    exact List.rdropWhile_idempotent Text.isBlank _
  have hlast := List.rdropWhile_eq_self_iff.1 hend hcs
  have hcolon : (':' :: b.toList).rdropWhile Text.isBlank = ':' :: b.toList := by
    rw [List.rdropWhile_eq_self_iff]
    intro _
    rw [List.getLast_cons hcs]
    exact hlast
  apply String.toList_injective
  rw [Text.toList_trim, String.toList_append]
  exact hcolon

/-- The colon in front is no reference. -/
theorem hasReference_colon (b : String) : Text.hasReference (":" ++ b) = Text.hasReference b := by
  rw [Text.hasReference, Text.hasReference, String.toList_append]
  rfl

/-- A spec that is an expression is read as its body between anchors. -/
theorem pattern_colon (hne : b ≠ "") :
    pattern (":" ++ b) = (Pattern.ofText ("^(?:" ++ b ++ ")$")).mapError fun fault =>
      .invalidBranchSpec (":" ++ b) fault.message := by
  have hbody : regexBody? (":" ++ b) = some b := by
    obtain ⟨c, r, hcs⟩ := List.exists_cons_of_ne_nil fun h => hne (String.toList_injective h)
    have hcolon : (":" ++ b).toList = ':' :: c :: r := by rw [String.toList_append, hcs]; rfl
    rw [regexBody?, hcolon]
    exact congrArg some (hcs ▸ String.ofList_toList)
  rw [pattern, expressionText, hbody]

/-- The spec is accepted exactly when its body between anchors is an expression, and matches what
that matches. -/
theorem ofText_colon (hne : b ≠ "") (hblank : Text.trim b = b) (href : Text.hasReference b = false) :
    (∃ q spec, Pattern.ofText ("^(?:" ++ b ++ ")$") = .ok q ∧ ofText (":" ++ b) = .ok spec ∧
      spec.matcher = .fixed q) ∨
    ∃ fault f, Pattern.ofText ("^(?:" ++ b ++ ")$") = .error fault ∧ ofText (":" ++ b) = .error f := by
  have hfilled : ¬ (":" ++ b).isEmpty = true := by
    rw [String.isEmpty_iff]
    intro h
    cases congrArg String.toList h ▸ String.toList_append (s := ":") (t := b)
  have hname : Matcher.ofName (Text.trim (":" ++ b)) = (pattern (":" ++ b)).map .fixed := by
    rw [trim_colon hne hblank, Matcher.ofName, if_neg hfilled, hasReference_colon, href]
    rfl
  rw [pattern_colon hne] at hname
  cases hq : Pattern.ofText ("^(?:" ++ b ++ ")$") with
  | ok q =>
    rw [hq] at hname
    exact .inl ⟨q, _, rfl, ofText_eq_ok hname, rfl⟩
  | error fault =>
    rw [hq] at hname
    exact .inr ⟨fault, _, rfl, ofText_eq_error hname⟩

/-- The body of a spec that is accepted is an expression, and the spec matches the names that the
expression leads over from begin to end, or the body closes the group that it is put in.  An expression
is accepted as a spec exactly when a parenthesis behind it is seen, which no open comment takes, and
it leaves room for the group and the anchors. -/
theorem ofText_colon_iff (hne : b ≠ "") (hblank : Text.trim b = b)
    (href : Text.hasReference b = false) :
    (∀ spec, ofText (":" ++ b) = .ok spec →
      Tree.ofText b = .error .unopenedGroup ∨ ∃ p, Pattern.ofText b = .ok p ∧
        ∀ env name, ∃ v, spec.isMatch env name = .ok v ∧
          (v = true ↔ p.Leads name.toList 0 name.toList.length)) ∧
    ∀ t p, Tree.ofText b = .ok t → Pattern.ofText b = .ok p →
      ((∃ spec, ofText (":" ++ b) = .ok spec) ↔
        Tree.ofText (b ++ ")$") = .error .unopenedGroup ∧ t.depth + 2 ≤ depthLimit ∧
          p.machineSize + 64 ≤ sizeLimit) := by
  constructor
  · intro spec hspec
    rcases ofText_colon hne hblank href with ⟨q, spec', hq, hspec', hmatcher⟩ | ⟨_, f, -, hf⟩
    · cases hspec.symm.trans hspec'
      rcases Pattern.ofText_of_anchored hq with hopen | ⟨p, hp⟩
      · exact .inl hopen
      · refine .inr ⟨p, hp, fun env name => ?_⟩
        obtain ⟨t, f, ht, -, hpattern, -⟩ := Pattern.ofText_eq_ok_iff.1 hp
        obtain ⟨-, -, p', f', hpattern', -, rfl⟩ := (Pattern.ofText_anchored_iff ht).1 hq
        cases hpattern.symm.trans hpattern'
        refine ⟨_, ?_, Pattern.isMatch_anchored_iff⟩
        rw [isMatch, hmatcher]
    · cases hspec.symm.trans hf
  · intro t p ht hp
    obtain ⟨t', f, ht', -, hpattern, -⟩ := Pattern.ofText_eq_ok_iff.1 hp
    cases ht.symm.trans ht'
    rcases ofText_colon hne hblank href with ⟨q, spec, hq, hspec, -⟩ | ⟨fault, f', hq, hf⟩
    · obtain ⟨hseen, hdepth, p', f', hpattern', hsize, -⟩ := (Pattern.ofText_anchored_iff ht).1 hq
      cases hpattern.symm.trans hpattern'
      exact ⟨fun _ => ⟨hseen, hdepth, hsize⟩, fun _ => ⟨spec, hspec⟩⟩
    · constructor
      · rintro ⟨spec, hspec⟩
        cases hspec.symm.trans hf
      · rintro ⟨hseen, hdepth, hsize⟩
        have hq' := (Pattern.ofText_anchored_iff ht).2 ⟨hseen, hdepth, p, f, hpattern, hsize, rfl⟩
        cases hq.symm.trans hq'

/-- A choice of two branches of one remote matches their names, and no longer ones. -/
theorem ofText_masterOrDevelop :
    "origin/(master|develop)" ≠ "" ∧
    Text.trim "origin/(master|develop)" = "origin/(master|develop)" ∧
    Text.hasReference "origin/(master|develop)" = false ∧
    ∃ spec, ofText (":" ++ "origin/(master|develop)") = .ok spec ∧
      spec.isMatch [] "origin/develop" = .ok true ∧
      spec.isMatch [] "origin/development" = .ok false := by
  have hne : "origin/(master|develop)" ≠ "" := by decide
  have hblank : Text.trim "origin/(master|develop)" = "origin/(master|develop)" := by decide
  have href : Text.hasReference "origin/(master|develop)" = false := by decide
  have htree : ∃ t, Tree.ofText "origin/(master|develop)" = .ok t ∧ t.depth + 2 ≤ depthLimit :=
    ⟨_, rfl, by decide⟩
  have hpattern : ∃ p, Pattern.ofText "origin/(master|develop)" = .ok p ∧
      p.machineSize + 64 ≤ sizeLimit ∧
      (Pattern.seq (.look .textStart) (.seq p (.look .textEnd))).isMatch "origin/develop" = true ∧
      (Pattern.seq (.look .textStart) (.seq p (.look .textEnd))).isMatch "origin/development" =
        false :=
    ⟨_, rfl, by decide, by decide, by decide⟩
  obtain ⟨t, ht, hdepth⟩ := htree
  obtain ⟨p, hp, hsize, hshort, hlong⟩ := hpattern
  have hseen : Tree.ofText ("origin/(master|develop)" ++ ")$") = .error .unopenedGroup := rfl
  obtain ⟨hmatch, haccepted⟩ := ofText_colon_iff hne hblank href
  obtain ⟨spec, hspec⟩ := (haccepted t p ht hp).2 ⟨hseen, hdepth, hsize⟩
  refine ⟨hne, hblank, href, spec, hspec, ?_⟩
  rcases hmatch spec hspec with hopen | ⟨p', hp', hnames⟩
  · cases hopen.symm.trans ht
  · cases hp.symm.trans hp'
    obtain ⟨v, hv, hiff⟩ := hnames [] "origin/develop"
    obtain ⟨w, hw, hiff'⟩ := hnames [] "origin/development"
    have hdevelop : v = true := hiff.2 (Pattern.isMatch_anchored_iff.1 hshort)
    have hdevelopment : w = false := by
      rw [← hlong, Bool.eq_iff_iff, hiff', Pattern.isMatch_anchored_iff]
    exact ⟨hdevelop ▸ hv, hdevelopment ▸ hw⟩

/-- Two halves of a choice make a spec, whose anchors stand one on each side of the choice, but they
are no expression. -/
theorem not_ofText_colon_iff_halves : ¬ ∀ b, b ≠ "" → Text.trim b = b → Text.hasReference b = false →
    ((∃ spec, ofText (":" ++ b) = .ok spec) ↔ ∃ p, Pattern.ofText b = .ok p) := by
  intro h
  have hne : "a)|(b" ≠ "" := by decide
  have hblank : Text.trim "a)|(b" = "a)|(b" := by decide
  have href : Text.hasReference "a)|(b" = false := by decide
  have hspec : ∃ spec, ofText (":" ++ "a)|(b") = .ok spec := by
    rcases ofText_colon hne hblank href with ⟨q, spec, -, hspec, -⟩ | ⟨fault, f, hq, -⟩
    · exact ⟨spec, hspec⟩
    · have hread : (Pattern.ofText ("^(?:" ++ "a)|(b" ++ ")$")).toBool = true := by decide +kernel
      rw [hq] at hread
      cases hread
  obtain ⟨p, hp⟩ := (h "a)|(b" hne hblank href).1 hspec
  obtain ⟨t, f, ht, -⟩ := Pattern.ofText_eq_ok_iff.1 hp
  have hopen : Tree.ofText "a)|(b" = .error .unopenedGroup := rfl
  cases hopen.symm.trans ht

end NextBuild.BranchSpec
