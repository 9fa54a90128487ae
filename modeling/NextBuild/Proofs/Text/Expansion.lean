import NextBuild.Proofs.Text.Pieces
import NextBuild.Text.Slices

/-!
# Expansion in a single pass

How a text is cut into pieces depends on the text alone, so expansion is decided piece by piece, and a
value that is put in is never read again.  The scanner that works with byte offsets does the same.
Each of its rounds takes one piece that begins with a `$`, and all of its cuts are at the ends of
characters: a name without braces has characters of one byte each, so that their number is an offset,
and a `$` and the braces are such characters too.
-/

namespace NextBuild.Text

variable {cs before after : List Char} {c : Char} {n : Nat}

/-! ## Byte offsets -/

/-- The number of bytes that characters take. -/
def byteLength : List Char → Nat
  | [] => 0
  | c :: cs => c.utf8Size + byteLength cs

/-- An empty text has no bytes. -/
@[simp]
theorem byteLength_nil : byteLength [] = 0 := rfl

/-- The bytes of a text are those of its first character and those of the rest. -/
@[simp]
theorem byteLength_cons (c : Char) (cs : List Char) :
    byteLength (c :: cs) = c.utf8Size + byteLength cs := rfl

/-- Two texts in a row have the bytes of both. -/
@[simp]
theorem byteLength_append (as bs : List Char) :
    byteLength (as ++ bs) = byteLength as + byteLength bs := by
  induction as with
  | nil => simp
  | cons a as ih => simp [ih, Nat.add_assoc]

/-- A text without bytes is empty. -/
theorem byteLength_eq_zero_iff : byteLength cs = 0 ↔ cs = [] := by
  cases cs with
  | nil => simp
  | cons c cs =>
    have := c.utf8Size_pos
    simp only [byteLength_cons, reduceCtorEq, iff_false]
    omega

/-- A cut is made where the part before it has as many bytes. -/
theorem cutAt?_eq_some_iff {as bs : List Char} :
    cutAt? n cs = some (as, bs) ↔ as ++ bs = cs ∧ byteLength as = n := by
  fun_induction cutAt? n cs generalizing as with
  | case1 cs =>
    rw [Option.some.injEq, Prod.mk.injEq, byteLength_eq_zero_iff]
    constructor
    · rintro ⟨rfl, rfl⟩
      exact ⟨rfl, rfl⟩
    · rintro ⟨rfl, rfl⟩
      exact ⟨rfl, rfl⟩
  | case2 n =>
    simp only [reduceCtorEq, List.append_eq_nil_iff, false_iff, not_and]
    rintro ⟨rfl, -⟩
    simp
  | case3 n c cs hsize ih =>
    cases as with
    | nil => simp
    | cons a as =>
      have hrest := @ih as
      simp only [Option.map_eq_some_iff, Prod.exists, Prod.mk.injEq, List.cons.injEq,
        List.cons_append, byteLength_cons]
      constructor
      · rintro ⟨_, _, hcut, ⟨rfl, rfl⟩, rfl⟩
        obtain ⟨hcs, hlength⟩ := hrest.1 hcut
        exact ⟨⟨rfl, hcs⟩, by omega⟩
      · rintro ⟨⟨rfl, hcs⟩, hlength⟩
        exact ⟨as, bs, hrest.2 ⟨hcs, by omega⟩, ⟨rfl, rfl⟩, rfl⟩
  | case4 n c cs hsize =>
    cases as with
    | nil => simp
    | cons a as =>
      simp only [reduceCtorEq, List.cons_append, List.cons.injEq, byteLength_cons, false_iff, not_and,
        and_imp]
      rintro rfl -
      omega

/-- The size of a text is the number of its bytes. -/
theorem utf8ByteSize_eq (s : String) : s.utf8ByteSize = byteLength s.toList := by
  have hlist (cs : List Char) : (String.ofList cs).utf8ByteSize = byteLength cs := by
    induction cs with
    | nil => rfl
    | cons c cs ih =>
      rw [← List.singleton_append, String.ofList_append, String.utf8ByteSize_append, ih,
        ← String.singleton_eq_ofList, String.utf8ByteSize_singleton]
      simp
  rw [← hlist, String.ofList_toList]

/-- The places at which a text can be cut are the positions of its characters, and its end. -/
theorem isSome_cutAt?_iff {s : String} :
    (cutAt? n s.toList).isSome = true ↔ String.Pos.Raw.IsValid s ⟨n⟩ := by
  rw [String.Pos.Raw.isValid_iff_exists_append, Option.isSome_iff_exists]
  constructor
  · rintro ⟨⟨as, bs⟩, hcut⟩
    obtain ⟨hs, hn⟩ := cutAt?_eq_some_iff.1 hcut
    refine ⟨String.ofList as, String.ofList bs, ?_, ?_⟩
    · rw [← String.ofList_append, hs, String.ofList_toList]
    · rw [String.rawEndPos, utf8ByteSize_eq, String.toList_ofList, hn]
  · rintro ⟨s₁, s₂, rfl, hn⟩
    have hn : n = byteLength s₁.toList := by
      rw [← utf8ByteSize_eq]
      exact congrArg String.Pos.Raw.byteIdx hn
    exact ⟨_, cutAt?_eq_some_iff.2 ⟨String.toList_append.symm, hn.symm⟩⟩

/-- The slice up to the end of a part is this part. -/
theorem sliceTo?_append (as bs : List Char) : sliceTo? (byteLength as) (as ++ bs) = some as := by
  rw [sliceTo?, cutAt?_eq_some_iff.2 ⟨rfl, rfl⟩, Option.map_some]

/-- The slice from the end of a part is what follows it. -/
theorem sliceFrom?_append (as bs : List Char) : sliceFrom? (byteLength as) (as ++ bs) = some bs := by
  rw [sliceFrom?, cutAt?_eq_some_iff.2 ⟨rfl, rfl⟩, Option.map_some]

/-- Behind a character of one byte a text can be cut too. -/
theorem sliceFrom?_append_cons (hc : c.utf8Size = 1) (as bs : List Char) :
    sliceFrom? (byteLength as + 1) (as ++ c :: bs) = some bs := by
  have hslice := sliceFrom?_append (as ++ [c]) bs
  rw [byteLength_append, byteLength_cons, hc, byteLength_nil, Nat.add_zero, List.append_assoc,
    List.singleton_append] at hslice
  exact hslice

/-- The slice between the ends of two parts is what stands between them. -/
theorem slice?_append (as bs ds : List Char) :
    slice? (byteLength as) (byteLength as + byteLength bs) (as ++ (bs ++ ds)) = some bs := by
  rw [slice?, if_pos (Nat.le_add_right _ _), sliceFrom?_append, Option.bind_some,
    Nat.add_sub_cancel_left, sliceTo?_append]

/-- A character is found behind what does not hold it. -/
theorem offsetOf?_append (h : c ∉ before) :
    offsetOf? c (before ++ c :: after) = some (byteLength before) := by
  induction before with
  | nil => simp [offsetOf?]
  | cons d ds ih =>
    rw [List.mem_cons, not_or] at h
    obtain ⟨hd, hds⟩ := h
    rw [List.cons_append, offsetOf?, if_neg (Ne.symm hd), ih hds, Option.map_some, byteLength_cons]

/-- A character that is not there is not found. -/
theorem offsetOf?_eq_none (h : c ∉ cs) : offsetOf? c cs = none := by
  induction cs with
  | nil => rfl
  | cons d ds ih =>
    rw [List.mem_cons, not_or] at h
    obtain ⟨hd, hds⟩ := h
    rw [offsetOf?, if_neg (Ne.symm hd), ih hds, Option.map_none]

/-- An offset that is found is that of a first occurrence. -/
theorem exists_of_offsetOf? (h : offsetOf? c cs = some n) :
    ∃ before after, cs = before ++ c :: after ∧ c ∉ before ∧ n = byteLength before := by
  by_cases hmem : c ∈ cs
  · obtain ⟨before, after, rfl, hbefore⟩ := List.eq_append_cons_of_mem hmem
    rw [offsetOf?_append hbefore, Option.some.injEq] at h
    exact ⟨before, after, rfl, hbefore, h.symm⟩
  · rw [offsetOf?_eq_none hmem] at h
    cases h

/-- The characters of names have one byte. -/
theorem utf8Size_of_isNameChar (h : isNameChar c = true) : c.utf8Size = 1 := by
  have hscore : c = '_' → c.val ≤ 127 := by
    rintro rfl
    decide
  have halphanum : c.isAlphanum = true → c.val ≤ 127 := by
    delta Char.isAlphanum Char.isAlpha Char.isUpper Char.isLower Char.isDigit
    simp only [UInt32.le_iff_toNat_le]
    grind
  rw [isNameChar, Bool.or_eq_true, beq_iff_eq] at h
  exact Char.utf8Size_eq_one_iff.2 (h.elim halphanum hscore)

/-- The characters of a name take one byte each. -/
theorem byteLength_of_isNameChar (h : ∀ c ∈ cs, isNameChar c = true) :
    byteLength cs = cs.length := by
  induction cs with
  | nil => rfl
  | cons c cs ih =>
    rw [byteLength_cons, utf8Size_of_isNameChar (h c List.mem_cons_self),
      ih fun d hd => h d (List.mem_cons_of_mem c hd), List.length_cons, Nat.add_comm]

/-! ## The scanner -/

/-- A reference has its value, or is left as it is written. -/
theorem valueOr_written (env : Environment) (name w : List Char) :
    valueOr env name (some w) = some ((Segment.reference name w).value env) := by
  cases hvalue : env.lookup (String.ofList name) <;> simp only [valueOr, Segment.value, hvalue]

/-- A braced reference is replaced by its value, and what stands behind the brace is left. -/
theorem replaceBraced?_eq (env : Environment) (before name rest : List Char) :
    replaceBraced? env (before ++ '$' :: '{' :: (name ++ '}' :: rest)) (byteLength before)
        (name ++ '}' :: rest) (byteLength name) =
      some ((Segment.reference name ('$' :: '{' :: name ++ ['}'])).value env, rest) := by
  have hwritten : slice? (byteLength before) (byteLength before + byteLength name + 3)
      (before ++ '$' :: '{' :: (name ++ '}' :: rest)) = some ('$' :: '{' :: name ++ ['}']) := by
    have hlength : byteLength ('$' :: '{' :: name ++ ['}']) = byteLength name + 3 := by
      have hone : '$'.utf8Size = 1 ∧ '{'.utf8Size = 1 ∧ '}'.utf8Size = 1 := by decide
      simp only [List.cons_append, byteLength_cons, byteLength_append, byteLength_nil, hone]
      omega
    have hslice := slice?_append before ('$' :: '{' :: name ++ ['}']) rest
    rw [hlength, ← Nat.add_assoc] at hslice
    simpa using hslice
  have hleft : sliceFrom? (byteLength name + 1) (name ++ '}' :: rest) = some rest :=
    sliceFrom?_append_cons (by decide) name rest
  simp only [replaceBraced?, sliceTo?_append, hwritten, valueOr_written, hleft, Option.bind_eq_bind,
    Option.bind_some, Option.pure_def]

/-- The number of characters of a name cuts the name off, as it is the number of its bytes. -/
theorem replaceBare?_eq (env : Environment) (h : after.head? ≠ some '{') :
    replaceBare? env after =
      some ((pieceAtDollar after).1.value env, (pieceAtDollar after).2) := by
  have hbytes : byteLength (after.takeWhile isNameChar) = (after.takeWhile isNameChar).length :=
    byteLength_of_isNameChar fun c hc => List.mem_takeWhile_imp hc
  have hkey := sliceTo?_append (after.takeWhile isNameChar) (after.dropWhile isNameChar)
  have hleft := sliceFrom?_append (after.takeWhile isNameChar) (after.dropWhile isNameChar)
  rw [List.takeWhile_append_dropWhile, hbytes] at hkey hleft
  simp only [replaceBare?, hkey, hleft, valueOr_written, Option.bind_eq_bind, Option.bind_some,
    Option.pure_def, pieceAtDollar, referenceAfterDollar?_of_not_brace h]
  split <;> rfl

/-- What the scanner puts for a `$`, and what it leaves, is the value of the piece that begins there
and the text behind this piece. -/
theorem replace?_eq (env : Environment) (before after : List Char) :
    replace? env (before ++ '$' :: after) (byteLength before) after =
      some ((pieceAtDollar after).1.value env, (pieceAtDollar after).2) := by
  by_cases hbrace : after.head? = some '{'
  · obtain ⟨braced, rfl⟩ := List.head?_eq_some_iff.1 hbrace
    by_cases hclosed : '}' ∈ braced
    · obtain ⟨name, rest, rfl, hname⟩ := List.eq_append_cons_of_mem hclosed
      rw [pieceAtDollar, referenceAfterDollar?_braced hname]
      simp only [replace?, offsetOf?_append hname, replaceBraced?_eq, Option.getD_some]
    · have hlone : referenceAfterDollar? ('{' :: braced) = none := by
        simp [referenceAfterDollar?, hclosed]
      rw [pieceAtDollar, hlone, replace?, offsetOf?_eq_none hclosed]
      rfl
  · rw [← replaceBare?_eq env hbrace]
    unfold replace?
    split
    · exact absurd rfl hbrace
    · rfl

/-- One round of the scanner puts out what stands before the `$` and the value of one piece. -/
theorem scanDollar?_eq (env : Environment) (before after : List Char) :
    scanDollar? env (before ++ '$' :: after) (byteLength before) =
      some (before ++ (pieceAtDollar after).1.value env, (pieceAtDollar after).2) := by
  simp only [scanDollar?, sliceTo?_append, sliceFrom?_append_cons (c := '$') (by decide),
    replace?_eq, Option.bind_eq_bind, Option.bind_some, Option.pure_def]

/-- The rounds of the scanner put out the values of all pieces, one behind the other. -/
theorem scan?_eq (env : Environment) (out rest : List Char) :
    scan? env out rest = some (out ++ (segments rest).flatMap (Segment.value env)) := by
  fun_induction scan? env out rest with
  | case1 out rest hnone =>
    have hdollar : '$' ∉ rest := by
      intro hmem
      obtain ⟨before, after, rfl, hbefore⟩ := List.eq_append_cons_of_mem hmem
      cases (offsetOf?_append hbefore).symm.trans hnone
    rw [segments_eq_map_plain hdollar, flatMap_value_plain]
  | case2 out rest pos hpos hround =>
    obtain ⟨before, after, rfl, -, rfl⟩ := exists_of_offsetOf? hpos
    cases (scanDollar?_eq env before after).symm.trans hround
  | case3 out rest pos hpos text left hround ih =>
    obtain ⟨before, after, rfl, hbefore, rfl⟩ := exists_of_offsetOf? hpos
    rw [scanDollar?_eq, Option.some.injEq, Prod.mk.injEq] at hround
    obtain ⟨rfl, rfl⟩ := hround
    rw [ih, segments_append hbefore, segments_dollar, List.flatMap_append, List.flatMap_cons,
      flatMap_value_plain, List.append_assoc, List.append_assoc]

/-- There is one way to cut a text into references and other characters, whatever the environment is.
The pieces are the text; expansion puts the value of a known name for its reference and leaves every
other piece as it stands; and a scanner that cuts at byte offsets never cuts inside a character and
puts out the same text. -/
theorem expand_cuts_once (s : String) :
    ∃ segs, (∀ other, Cut s.toList other ↔ other = segs) ∧
      segs.flatMap Segment.written = s.toList ∧
      ∀ env, expand env s = String.ofList (segs.flatMap (Segment.value env)) ∧
        expandBySlices? env s = some (expand env s) := by
  refine ⟨segments s.toList, fun other => ⟨Cut.eq_segments, ?_⟩, flatMap_written_segments _,
    fun env => ⟨rfl, ?_⟩⟩
  · rintro rfl
    exact cut_segments _
  · rw [expandBySlices?, scan?_eq, List.nil_append, Option.map_some, expand]

/-- A value may write a reference, and a name may end in front of a character of several bytes. -/
example : expandBySlices? [("A", "x$A")] "é$A€$\x7bA\x7d$é" = some "éx$A€x$A$é" := by decide +kernel

end NextBuild.Text
