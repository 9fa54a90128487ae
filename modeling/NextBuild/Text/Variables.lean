/-!
# Variable references in texts

A `$` begins a reference when it is followed by `{` and a later `}`, or by a nonempty run of ASCII
letters, digits and `_` that does not start with a digit.  A text is cut, from left to right, into
such references and single characters; expansion replaces each reference by the value of its name
and never looks at the values again.  Whether a text holds a reference at all is seen without cutting
it, by a look at what stands behind each `$`.
-/

namespace NextBuild.Text

/-- Names with their values; the first entry of a name counts. -/
abbrev Environment := List (String × String)

/-- One piece of a text: a character of its own, or a reference with the text that writes it. -/
inductive Segment where
  | plain (c : Char)
  | reference (name written : List Char)
deriving DecidableEq, Repr

namespace Segment

/-- The characters that the piece takes in the text. -/
def written : Segment → List Char
  | plain c => [c]
  | reference _ w => w

/-- The piece is a reference. -/
def isReference : Segment → Bool
  | plain _ => false
  | reference _ _ => true

/-- The value of a known reference; every other piece as it is written. -/
def value (env : Environment) : Segment → List Char
  | plain c => [c]
  | reference name w => match env.lookup (String.ofList name) with
    | some v => v.toList
    | none => w

end Segment

/-- The character may occur in the name of an unbraced reference. -/
def isNameChar (c : Char) : Bool :=
  c.isAlphanum || c == '_'

/-- The name of a reference and the text after it, read after the `$`. -/
def referenceAfterDollar? (cs : List Char) : Option (Segment × List Char) :=
  match cs with
  | '{' :: r =>
    if r.contains '}' then
      let name := r.takeWhile (· != '}')
      some (.reference name ('$' :: '{' :: name ++ ['}']), (r.dropWhile (· != '}')).drop 1)
    else none
  | c :: _ =>
    if isNameChar c && !c.isDigit then
      let name := cs.takeWhile isNameChar
      some (.reference name ('$' :: name), cs.dropWhile isNameChar)
    else none
  | [] => none

/-- Dropping a leading run makes no list longer. -/
theorem length_dropWhile_le (p : Char → Bool) (cs : List Char) :
    (cs.dropWhile p).length ≤ cs.length := by
  induction cs with
  | nil => simp
  | cons c r ih =>
    by_cases h : p c <;> simp only [List.dropWhile_cons, h, if_true, List.length_cons] <;> grind

/-- A reference leaves no more than there was. -/
theorem length_of_referenceAfterDollar? {cs r : List Char} {seg : Segment}
    (h : referenceAfterDollar? cs = some (seg, r)) : r.length ≤ cs.length := by
  unfold referenceAfterDollar? at h
  split at h
  · split at h
    · next t _ =>
      have := length_dropWhile_le (· != '}') t
      simp only [Option.some.injEq, Prod.mk.injEq] at h
      rw [← h.2, List.length_drop, List.length_cons]
      omega
    · simp at h
  · split at h
    · simp only [Option.some.injEq, Prod.mk.injEq] at h
      rw [← h.2]
      exact length_dropWhile_le _ _
    · simp at h
  · simp at h

/-- The pieces of a text from left to right. -/
def segments : List Char → List Segment
  | [] => []
  | c :: r =>
    if c = '$' then
      match _h : referenceAfterDollar? r with
      | some (seg, r') => seg :: segments r'
      | none => .plain c :: segments r
    else .plain c :: segments r
termination_by cs => cs.length
decreasing_by
  all_goals simp only [List.length_cons]
  · have := length_of_referenceAfterDollar? _h
    omega
  all_goals omega

/-- The text with every known reference replaced by its value. -/
def expand (env : Environment) (s : String) : String :=
  String.ofList ((segments s.toList).flatMap (Segment.value env))

/-- What stands behind a `$` makes it begin a reference. -/
def beginsReference : List Char → Bool
  | '{' :: r => r.contains '}'
  | c :: _ => c.isAlpha || c == '_'
  | [] => false

/-- Some `$` begins a reference, wherever it stands. -/
def holdsReference : List Char → Bool
  | [] => false
  | c :: r => (c == '$' && beginsReference r) || holdsReference r

/-- The text holds a reference, whatever the names that are known. -/
def hasReference (s : String) : Bool :=
  holdsReference s.toList

/-- A character other than a dollar stands for itself. -/
theorem segments_cons_of_ne {c : Char} {cs : List Char} (h : c ≠ '$') :
    segments (c :: cs) = .plain c :: segments cs := by
  rw [segments, if_neg h]

/-- Up to the first `$` every character is a piece of its own. -/
theorem segments_append {before cs : List Char} (h : '$' ∉ before) :
    segments (before ++ cs) = before.map .plain ++ segments cs := by
  induction before with
  | nil => rfl
  | cons c before ih =>
    rw [List.mem_cons, not_or] at h
    rw [List.cons_append, segments_cons_of_ne (Ne.symm h.1), ih h.2, List.map_cons, List.cons_append]

/-- A text without a `$` is cut into its characters. -/
theorem segments_eq_map_plain {cs : List Char} (h : '$' ∉ cs) : segments cs = cs.map .plain := by
  have hend := @segments_append cs [] h
  rwa [List.append_nil, segments, List.append_nil] at hend

/-- Characters stand for themselves. -/
theorem flatMap_value_plain (env : Environment) (cs : List Char) :
    (cs.map Segment.plain).flatMap (Segment.value env) = cs := by
  induction cs with
  | nil => rfl
  | cons c cs ih =>
    rw [List.map_cons, List.flatMap_cons, ih]
    rfl

/-- A text without a `$` holds no reference. -/
theorem hasReference_eq_false {s : String} (h : '$' ∉ s.toList) : hasReference s = false := by
  unfold hasReference
  generalize s.toList = cs at h
  induction cs with
  | nil => rfl
  | cons c r ih =>
    have hc : (c == '$') = false := beq_false_of_ne fun hcd => h (hcd ▸ List.mem_cons_self)
    have hr : '$' ∉ r := fun hmem => h (List.mem_cons_of_mem c hmem)
    rw [holdsReference, hc, Bool.false_and, Bool.false_or, ih hr]

/-- A text without a `$` expands to itself. -/
theorem expand_eq_self {env : Environment} {s : String} (h : '$' ∉ s.toList) :
    expand env s = s := by
  rw [expand, segments_eq_map_plain h, flatMap_value_plain, String.ofList_toList]

end NextBuild.Text
