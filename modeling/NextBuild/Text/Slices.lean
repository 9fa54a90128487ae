import NextBuild.Text.Variables

/-!
# Expansion by slices

Expansion as a scanner does it that knows the bytes of a text in UTF-8: it looks for the next `$`,
cuts out what stands before it, the name behind it and what is left, and begins again with what is
left.  Every cut is made at a byte offset.  A cut inside a character, or behind the end of the text,
cannot be made, and then there is no answer.
-/

namespace NextBuild.Text

/-! ## Byte offsets -/

/-- The parts before and after a byte offset, if no character lies across it. -/
def cutAt? : Nat → List Char → Option (List Char × List Char)
  | 0, cs => some ([], cs)
  | _ + 1, [] => none
  | n + 1, c :: cs =>
    if c.utf8Size ≤ n + 1 then
      (cutAt? (n + 1 - c.utf8Size) cs).map fun p => (c :: p.1, p.2)
    else none

/-- The text up to a byte offset. -/
def sliceTo? (n : Nat) (cs : List Char) : Option (List Char) :=
  (cutAt? n cs).map (·.1)

/-- The text from a byte offset on. -/
def sliceFrom? (n : Nat) (cs : List Char) : Option (List Char) :=
  (cutAt? n cs).map (·.2)

/-- The text between two byte offsets. -/
def slice? (m n : Nat) (cs : List Char) : Option (List Char) :=
  if m ≤ n then (sliceFrom? m cs).bind (sliceTo? (n - m)) else none

/-- The byte offset of the first occurrence of a character. -/
def offsetOf? (c : Char) : List Char → Option Nat
  | [] => none
  | d :: cs => if d = c then some 0 else (offsetOf? c cs).map (d.utf8Size + ·)

/-! ## The scanner -/

/-- The value of a name, and for an unknown name the text that writes it. -/
def valueOr (env : Environment) (key : List Char) (written : Option (List Char)) :
    Option (List Char) :=
  match env.lookup (String.ofList key) with
  | some value => some value.toList
  | none => written

/-- What a braced reference is replaced by, and the text that is left, for a `$` at the offset `pos`
of `rest` that is followed by `{` and the text `braced`, with a `}` at the offset `stop` of it. -/
def replaceBraced? (env : Environment) (rest : List Char) (pos : Nat) (braced : List Char)
    (stop : Nat) : Option (List Char × List Char) := do
  let key ← sliceTo? stop braced
  let text ← valueOr env key (slice? pos (pos + stop + 3) rest)
  let left ← sliceFrom? (stop + 1) braced
  return (text, left)

/-- What a reference without braces is replaced by, and the text that is left.  The characters of the
name are counted, and their number is taken for a number of bytes. -/
def replaceBare? (env : Environment) (after : List Char) : Option (List Char × List Char) := do
  let len := (after.takeWhile isNameChar).length
  let key ← sliceTo? len after
  if key.isEmpty || key.head?.any Char.isDigit then
    return (['$'], after)
  else
    let text ← valueOr env key (some ('$' :: key))
    let left ← sliceFrom? len after
    return (text, left)

/-- What stands for a `$` at the offset `pos` of `rest` with the text `after` behind it, and the text
that is left. -/
def replace? (env : Environment) (rest : List Char) (pos : Nat) (after : List Char) :
    Option (List Char × List Char) :=
  match after with
  | '{' :: braced =>
    match offsetOf? '}' braced with
    | some stop => replaceBraced? env rest pos braced stop
    | none => some (['$'], after)
  | _ => replaceBare? env after

/-- One round of the scanner, for a `$` at the offset `pos`: what is put out, and the text that is
left. -/
def scanDollar? (env : Environment) (rest : List Char) (pos : Nat) :
    Option (List Char × List Char) := do
  let before ← sliceTo? pos rest
  let after ← sliceFrom? (pos + 1) rest
  let (text, left) ← replace? env rest pos after
  return (before ++ text, left)

/-- A slice is not longer than the text. -/
theorem length_of_sliceFrom? {n : Nat} {cs r : List Char} (h : sliceFrom? n cs = some r) :
    r.length ≤ cs.length := by
  unfold sliceFrom? at h
  fun_induction cutAt? n cs generalizing r with
  | case1 cs => simp_all
  | case2 => simp at h
  | case3 n c cs hsize ih =>
    simp only [Option.map_map, Function.comp_def] at h
    have := ih h
    rw [List.length_cons]
    omega
  | case4 => simp at h

/-- A cut behind a byte is made behind a character. -/
theorem length_of_sliceFrom?_succ {n : Nat} {cs r : List Char} (h : sliceFrom? (n + 1) cs = some r) :
    r.length < cs.length := by
  cases cs with
  | nil => simp [sliceFrom?, cutAt?] at h
  | cons c cs =>
    rw [sliceFrom?, cutAt?] at h
    split at h
    · rw [Option.map_map] at h
      exact Nat.lt_succ_of_le (length_of_sliceFrom? h)
    · simp at h

/-- A replacement leaves no more than there was. -/
theorem length_of_replace? {env : Environment} {rest after text left : List Char} {pos : Nat}
    (h : replace? env rest pos after = some (text, left)) : left.length ≤ after.length := by
  unfold replace? at h
  split at h
  · next braced =>
    split at h
    · simp only [replaceBraced?, Option.bind_eq_bind, Option.bind_eq_some_iff, Option.pure_def,
        Option.some.injEq, Prod.mk.injEq] at h
      obtain ⟨_, _, _, _, left, hleft, _, rfl⟩ := h
      exact Nat.le_succ_of_le (length_of_sliceFrom? hleft)
    · simp only [Option.some.injEq, Prod.mk.injEq] at h
      exact Nat.le_of_eq (congrArg List.length h.2.symm)
  · simp only [replaceBare?, Option.bind_eq_bind, Option.bind_eq_some_iff, Option.pure_def] at h
    obtain ⟨key, _, h⟩ := h
    split at h
    · simp only [Option.some.injEq, Prod.mk.injEq] at h
      exact Nat.le_of_eq (congrArg List.length h.2.symm)
    · simp only [Option.bind_eq_some_iff, Option.some.injEq, Prod.mk.injEq] at h
      obtain ⟨_, _, left, hleft, _, rfl⟩ := h
      exact length_of_sliceFrom? hleft

/-- At a dollar a character is taken at least. -/
theorem length_of_scanDollar? {env : Environment} {rest text left : List Char} {pos : Nat}
    (h : scanDollar? env rest pos = some (text, left)) : left.length < rest.length := by
  simp only [scanDollar?, Option.bind_eq_bind, Option.bind_eq_some_iff, Option.pure_def,
    Option.some.injEq, Prod.mk.injEq] at h
  obtain ⟨_, _, after, hafter, ⟨text', left'⟩, hreplace, _, rfl⟩ := h
  exact Nat.lt_of_le_of_lt (length_of_replace? hreplace) (length_of_sliceFrom?_succ hafter)

/-- The rounds of the scanner, behind what was put out so far. -/
def scan? (env : Environment) (out rest : List Char) : Option (List Char) :=
  match offsetOf? '$' rest with
  | none => some (out ++ rest)
  | some pos =>
    match _h : scanDollar? env rest pos with
    | none => none
    | some (text, left) => scan? env (out ++ text) left
termination_by rest.length
decreasing_by exact length_of_scanDollar? _h

/-- The text with every known reference replaced by its value, as the scanner makes it. -/
def expandBySlices? (env : Environment) (s : String) : Option String :=
  (scan? env [] s.toList).map String.ofList

end NextBuild.Text
