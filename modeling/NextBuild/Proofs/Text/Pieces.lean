import Mathlib.Data.List.TakeWhile
import NextBuild.Text.Blank
import NextBuild.Text.Variables

/-!
# The pieces of a text

A text is cut in one way into references and other characters, read from left to right: a reference
begins at the first `$` at which one can begin, and it is as long as it can be.  Put together, the
pieces are the text.
-/

namespace NextBuild.Text

variable {cs after name rest : List Char} {segs : List Segment} {seg : Segment}

/-! ## References -/

/-- A character that may begin a name is a letter or `_`. -/
theorem isNameChar_and_not_isDigit (c : Char) :
    (isNameChar c && !c.isDigit) = (c.isAlpha || c == '_') := by
  have hletter : c.isAlpha = true → c.isDigit = false := by
    delta Char.isAlpha Char.isUpper Char.isLower Char.isDigit
    simp only [UInt32.le_iff_toNat_le]
    grind
  have hscore : c = '_' → c.isDigit = false := by
    rintro rfl
    rfl
  unfold isNameChar Char.isAlphanum
  grind

/-- The name of a reference without braces. -/
structure IsBareName (name : List Char) : Prop where
  nonempty : name ≠ []
  chars : ∀ c ∈ name, isNameChar c = true
  first : ∀ c ∈ name.head?, c.isDigit = false

/-- A name in braces is a reference up to its brace. -/
theorem referenceAfterDollar?_braced (hname : '}' ∉ name) :
    referenceAfterDollar? ('{' :: (name ++ '}' :: rest)) =
      some (.reference name ('$' :: '{' :: name ++ ['}']), rest) := by
  have hinside : ∀ c ∈ name, (c != '}') = true := by
    intro c hc
    rw [bne_iff_ne]
    rintro rfl
    exact hname hc
  have htake : (name ++ '}' :: rest).takeWhile (· != '}') = name := by
    rw [List.takeWhile_append_of_pos hinside, List.takeWhile_cons_of_neg (by simp), List.append_nil]
  have hdrop : (name ++ '}' :: rest).dropWhile (· != '}') = '}' :: rest := by
    rw [List.dropWhile_append_of_pos hinside, List.dropWhile_cons_of_neg (by simp)]
  have hclosed : (name ++ '}' :: rest).contains '}' = true := by simp
  simp only [referenceAfterDollar?, if_pos hclosed, htake, hdrop, List.drop_one, List.tail_cons]

/-- Where no brace follows, the longest run of name characters decides. -/
theorem referenceAfterDollar?_of_not_brace (h : after.head? ≠ some '{') :
    referenceAfterDollar? after =
      if (after.takeWhile isNameChar).isEmpty || (after.takeWhile isNameChar).head?.any Char.isDigit
      then none
      else some (.reference (after.takeWhile isNameChar) ('$' :: after.takeWhile isNameChar),
        after.dropWhile isNameChar) := by
  unfold referenceAfterDollar?
  split
  · exact absurd rfl h
  · next c cs _ =>
    by_cases hc : isNameChar c = true
    · by_cases hdigit : c.isDigit = true <;> simp [hc, hdigit]
    · simp [hc]
  · rfl

/-- A bare name is a reference as far as it goes. -/
theorem referenceAfterDollar?_bare (h : IsBareName name)
    (hlong : ∀ c ∈ rest.head?, isNameChar c = false) :
    referenceAfterDollar? (name ++ rest) = some (.reference name ('$' :: name), rest) := by
  obtain ⟨c, cs, rfl⟩ := List.exists_cons_of_ne_nil h.nonempty
  have hbrace : ((c :: cs) ++ rest).head? ≠ some '{' := by
    rw [List.cons_append, List.head?_cons, Ne, Option.some.injEq]
    rintro rfl
    exact absurd (h.chars _ List.mem_cons_self) (by decide)
  have hstop : rest.takeWhile isNameChar = [] ∧ rest.dropWhile isNameChar = rest := by
    cases rest with
    | nil => exact ⟨rfl, rfl⟩
    | cons d ds =>
      have hd := hlong d rfl
      exact ⟨List.takeWhile_cons_of_neg (by simp [hd]), List.dropWhile_cons_of_neg (by simp [hd])⟩
  have htake : ((c :: cs) ++ rest).takeWhile isNameChar = c :: cs := by
    rw [List.takeWhile_append_of_pos h.chars, hstop.1, List.append_nil]
  have hdrop : ((c :: cs) ++ rest).dropWhile isNameChar = rest := by
    rw [List.dropWhile_append_of_pos h.chars, hstop.2]
  have hdigit : c.isDigit = false := h.first c rfl
  rw [referenceAfterDollar?_of_not_brace hbrace, htake, hdrop]
  simp [hdigit]

/-- A reference has braces around a name, or a name as long as it can be. -/
theorem exists_of_referenceAfterDollar? (h : referenceAfterDollar? after = some (seg, rest)) :
    (∃ name, '}' ∉ name ∧ after = '{' :: (name ++ '}' :: rest) ∧
      seg = .reference name ('$' :: '{' :: name ++ ['}'])) ∨
    ∃ name, IsBareName name ∧ (∀ c ∈ rest.head?, isNameChar c = false) ∧ after = name ++ rest ∧
      seg = .reference name ('$' :: name) := by
  by_cases hbrace : after.head? = some '{'
  · obtain ⟨braced, rfl⟩ := List.head?_eq_some_iff.1 hbrace
    refine .inl ?_
    by_cases hclosed : '}' ∈ braced
    · obtain ⟨name, left, rfl, hname⟩ := List.eq_append_cons_of_mem hclosed
      rw [referenceAfterDollar?_braced hname, Option.some.injEq, Prod.mk.injEq] at h
      obtain ⟨rfl, rfl⟩ := h
      exact ⟨name, hname, rfl, rfl⟩
    · simp [referenceAfterDollar?, hclosed] at h
  · rw [referenceAfterDollar?_of_not_brace hbrace] at h
    split at h
    · cases h
    · next hstarts =>
      rw [Option.some.injEq, Prod.mk.injEq] at h
      obtain ⟨rfl, rfl⟩ := h
      rw [Bool.or_eq_true, not_or, List.isEmpty_iff] at hstarts
      refine .inr ⟨after.takeWhile isNameChar, ⟨hstarts.1, ?_, ?_⟩, ?_, ?_, rfl⟩
      · exact fun c hc => (List.mem_takeWhile_imp hc)
      · intro c hc
        rw [Option.mem_def.1 hc, Option.any_some, Bool.not_eq_true] at hstarts
        exact hstarts.2
      · intro c hc
        have := head?_dropWhile after c hc
        simpa using this
      · exact List.takeWhile_append_dropWhile.symm

/-- What begins a reference behind a `$` is what a reference is read from. -/
theorem isSome_referenceAfterDollar? (cs : List Char) :
    (referenceAfterDollar? cs).isSome = beginsReference cs := by
  unfold referenceAfterDollar? beginsReference
  split
  · split <;> simp_all
  · rw [← isNameChar_and_not_isDigit]
    split <;> simp_all
  · rfl

/-- What is found behind a dollar is a reference. -/
theorem isReference_of_referenceAfterDollar? (h : referenceAfterDollar? after = some (seg, rest)) :
    seg.isReference = true := by
  rcases exists_of_referenceAfterDollar? h with ⟨name, -, -, rfl⟩ | ⟨name, -, -, -, rfl⟩ <;> rfl

/-! ## Pieces -/

/-- A reference is cut off as a whole. -/
theorem segments_of_reference (h : referenceAfterDollar? cs = some (seg, rest)) :
    segments ('$' :: cs) = seg :: segments rest := by
  rw [segments, if_pos rfl]
  split
  · next href =>
    cases h.symm.trans href
    rfl
  · next hnone => cases h.symm.trans hnone

/-- A dollar that begins no reference stands for itself. -/
theorem segments_of_lone (h : referenceAfterDollar? cs = none) :
    segments ('$' :: cs) = .plain '$' :: segments cs := by
  rw [segments, if_pos rfl]
  split
  · next href => cases h.symm.trans href
  · rfl

/-- The piece that a `$` begins, and the text behind this piece. -/
def pieceAtDollar (after : List Char) : Segment × List Char :=
  (referenceAfterDollar? after).getD (.plain '$', after)

/-- At a dollar one piece is cut off, whichever it is. -/
theorem segments_dollar (after : List Char) :
    segments ('$' :: after) = (pieceAtDollar after).1 :: segments (pieceAtDollar after).2 := by
  unfold pieceAtDollar
  cases href : referenceAfterDollar? after with
  | none => rw [segments_of_lone href, Option.getD_none]
  | some found => rw [segments_of_reference href, Option.getD_some]

/-! ## Cuts -/

/-- A text is cut into pieces, from left to right. -/
inductive Cut : List Char → List Segment → Prop
  | done : Cut [] []
  | other {c : Char} {cs : List Char} {segs : List Segment} :
      c ≠ '$' → Cut cs segs → Cut (c :: cs) (.plain c :: segs)
  /-- The name in braces goes up to the first closing brace. -/
  | braced {name cs : List Char} {segs : List Segment} :
      '}' ∉ name → Cut cs segs →
      Cut ('$' :: '{' :: (name ++ '}' :: cs))
        (.reference name ('$' :: '{' :: name ++ ['}']) :: segs)
  /-- The name without braces goes on as long as there are characters for it. -/
  | bare {name cs : List Char} {segs : List Segment} :
      IsBareName name → (∀ c ∈ cs.head?, isNameChar c = false) → Cut cs segs →
      Cut ('$' :: (name ++ cs)) (.reference name ('$' :: name) :: segs)
  /-- A `$` stands alone when neither a closed brace nor a name follows. -/
  | lone {cs : List Char} {segs : List Segment} :
      (∀ name rest, cs ≠ '{' :: (name ++ '}' :: rest)) →
      (∀ name rest, IsBareName name → cs ≠ name ++ rest) → Cut cs segs →
      Cut ('$' :: cs) (.plain '$' :: segs)

/-- There is no other cut than the one into the pieces of the text. -/
theorem Cut.eq_segments (h : Cut cs segs) : segs = segments cs := by
  induction h with
  | done => rw [segments]
  | other hc _ ih => rw [segments_cons_of_ne hc, ih]
  | braced hname _ ih => rw [segments_of_reference (referenceAfterDollar?_braced hname), ih]
  | bare hname hlong _ ih => rw [segments_of_reference (referenceAfterDollar?_bare hname hlong), ih]
  | lone hbraced hbare _ ih =>
    rw [segments_of_lone ?_, ih]
    by_contra hsome
    obtain ⟨⟨seg, rest⟩, href⟩ := Option.ne_none_iff_exists'.1 hsome
    rcases exists_of_referenceAfterDollar? href with ⟨name, -, hcs, -⟩ | ⟨name, hname, -, hcs, -⟩
    · exact hbraced name rest hcs
    · exact hbare name rest hname hcs

/-- A brace with its end begins a reference. -/
theorem beginsReference_braced (name rest : List Char) :
    beginsReference ('{' :: (name ++ '}' :: rest)) = true := by
  simp [beginsReference]

/-- A bare name begins a reference. -/
theorem IsBareName.beginsReference (h : IsBareName name) (rest : List Char) :
    beginsReference (name ++ rest) = true := by
  obtain ⟨c, cs, rfl⟩ := List.exists_cons_of_ne_nil h.nonempty
  have hc : (isNameChar c && !c.isDigit) = true := by
    rw [h.chars c List.mem_cons_self, h.first c rfl]
    rfl
  have hbrace : c ≠ '{' := by
    rintro rfl
    exact absurd hc (by decide)
  rw [List.cons_append, beginsReference.eq_2 _ _ hbrace, ← isNameChar_and_not_isDigit, hc]

/-- The pieces of a text are a cut of it. -/
theorem cut_segments (cs : List Char) : Cut cs (segments cs) := by
  induction cs using segments.induct with
  | case1 =>
    rw [segments]
    exact .done
  | case2 r seg r' href ih =>
    rw [segments_of_reference href]
    rcases exists_of_referenceAfterDollar? href with
      ⟨name, hname, rfl, rfl⟩ | ⟨name, hname, hlong, rfl, rfl⟩
    · exact .braced hname ih
    · exact .bare hname hlong ih
  | case3 r href ih =>
    rw [segments_of_lone href]
    have hbegins : ¬ beginsReference r = true := by
      rw [← isSome_referenceAfterDollar?, href]
      simp
    refine .lone (fun name rest hr => hbegins ?_) (fun name rest hname hr => hbegins ?_) ih
    · rw [hr, beginsReference_braced]
    · rw [hr, hname.beginsReference]
  | case4 c r hc ih =>
    rw [segments_cons_of_ne hc]
    exact .other hc ih

/-- The pieces of a cut, put together, are the text. -/
theorem Cut.flatMap_written (h : Cut cs segs) : segs.flatMap Segment.written = cs := by
  induction h with
  | done => rfl
  | other _ _ ih => rw [List.flatMap_cons, ih]; rfl
  | braced _ _ ih => simp [Segment.written, ih]
  | bare _ _ _ ih => rw [List.flatMap_cons, ih]; rfl
  | lone _ _ _ ih => rw [List.flatMap_cons, ih]; rfl

/-- The pieces put together are the text. -/
theorem flatMap_written_segments (cs : List Char) : (segments cs).flatMap Segment.written = cs :=
  (cut_segments cs).flatMap_written

end NextBuild.Text
