import NextBuild.Text.Search

/-!
# Globs

A glob describes whole texts.  `?` stands for one character and `*` for any text, a class in
brackets for one of its characters or, behind a `!`, for one of all others.  `**` has to be a whole
part of a path: it stands for nothing, for any number of whole parts, or for everything that is
left.
-/

namespace NextBuild

/-- One or several characters of a class. -/
structure GlobRange where
  low : Char
  high : Char
deriving DecidableEq, Repr

namespace GlobRange

/-- The character lies in the range. -/
def has (c : Char) (r : GlobRange) : Bool :=
  r.low ≤ c && c ≤ r.high

/-- The ranges of the body of a class: `a-b` is a range and any other character stands for
itself. -/
def ofChars : List Char → List GlobRange
  | a :: '-' :: b :: r => ⟨a, b⟩ :: ofChars r
  | a :: r => ⟨a, a⟩ :: ofChars r
  | [] => []

end GlobRange

/-- One piece of a glob. -/
inductive GlobPart where
  | exactly (c : Char)
  | anyChar
  /-- Any text. -/
  | sequence
  /-- Nothing, a text that ends with a `/`, or everything that is left. -/
  | parts
  /-- A character that lies in one of the ranges, or in none of them. -/
  | class (within : Bool) (ranges : List GlobRange)
deriving DecidableEq, Repr

namespace GlobPart

/-- The piece stands for a single character. -/
def accepts (c : Char) : GlobPart → Bool
  | exactly d => c == d
  | anyChar => true
  | .class within ranges => ranges.any (GlobRange.has c) == within
  | sequence | parts => false

end GlobPart

/-- What is wrong with a glob. -/
inductive GlobFault where
  | tooManyStars (position : Nat)
  | notAWholePart (position : Nat)
  | openClass (position : Nat)
deriving DecidableEq, Repr

namespace GlobFault

/-- The place of the fault, in characters from the begin. -/
def position : GlobFault → Nat
  | tooManyStars p | notAWholePart p | openClass p => p

/-- The rule that is broken. -/
def rule : GlobFault → String
  | tooManyStars _ => "wildcards are either regular `*` or recursive `**`"
  | notAWholePart _ => "recursive wildcards must form a single path component"
  | openClass _ => "invalid range pattern"

/-- The fault in words. -/
def message (f : GlobFault) : String :=
  "Pattern syntax error near position " ++ toString f.position ++ ": " ++ f.rule

end GlobFault

namespace Glob

/-- The body of a class, which holds at least one character, and what follows the class. -/
def classBody? : List Char → Option (List Char × List Char)
  | [] => none
  | c :: r => (Text.splitAtFirst? ']' r).map fun (body, rest) => (c :: body, rest)

/-- The class behind a `[`, and what follows it. -/
def class? : List Char → Option (GlobPart × List Char)
  | '!' :: r => (classBody? r).map fun (body, rest) => (.class false (GlobRange.ofChars body), rest)
  | r => (classBody? r).map fun (body, rest) => (.class true (GlobRange.ofChars body), rest)

/-- Behind the character less is left. -/
theorem length_of_splitAtFirst? {c : Char} {cs a b : List Char}
    (h : Text.splitAtFirst? c cs = some (a, b)) : b.length < cs.length := by
  induction cs generalizing a with
  | nil => simp [Text.splitAtFirst?] at h
  | cons d r ih =>
    unfold Text.splitAtFirst? at h
    split at h
    · simp only [Option.some.injEq, Prod.mk.injEq] at h
      simp [h.2]
    · obtain ⟨⟨u, v⟩, huv, h⟩ := Option.map_eq_some_iff.1 h
      simp only [Prod.mk.injEq] at h
      obtain ⟨-, rfl⟩ := h
      exact Nat.lt_succ_of_lt (ih huv)

/-- Behind a class less is left than from its begin. -/
theorem length_of_classBody? {cs body rest : List Char} (h : classBody? cs = some (body, rest)) :
    rest.length < cs.length := by
  cases cs with
  | nil => simp [classBody?] at h
  | cons c r =>
    obtain ⟨⟨u, v⟩, huv, h⟩ := Option.map_eq_some_iff.1 h
    simp only [Prod.mk.injEq] at h
    have := length_of_splitAtFirst? huv
    simp only [h.2, List.length_cons] at this ⊢
    omega

/-- A class takes a character at least. -/
theorem length_of_class? {cs rest : List Char} {p : GlobPart} (h : class? cs = some (p, rest)) :
    rest.length < cs.length := by
  unfold class? at h
  split at h
  all_goals
    obtain ⟨⟨u, v⟩, huv, h⟩ := Option.map_eq_some_iff.1 h
    simp only [Prod.mk.injEq] at h
    have := length_of_classBody? huv
    simp only [h.2, List.length_cons] at this ⊢
    omega

/-- The pieces of the characters from a position on.  A `**` may stand there if `first` holds: at
the begin and after a `/`. -/
def piecesFrom (position : Nat) (first : Bool) : List Char → Except GlobFault (List GlobPart)
  | [] => .ok []
  | '?' :: r => return .anyChar :: (← piecesFrom (position + 1) false r)
  | '*' :: '*' :: '*' :: _ => .error (.tooManyStars (position + 2))
  | '*' :: '*' :: r =>
    if !first then .error (.notAWholePart (position - 1))
    else match r with
      | [] => .ok [.parts]
      | '/' :: r => return .parts :: (← piecesFrom (position + 3) true r)
      | _ => .error (.notAWholePart (position + 2))
  | '*' :: r => return .sequence :: (← piecesFrom (position + 1) false r)
  | '[' :: r =>
    match _h : class? r with
    | none => .error (.openClass position)
    | some (p, rest) =>
      return p :: (← piecesFrom (position + 1 + (r.length - rest.length)) false rest)
  | c :: r => return .exactly c :: (← piecesFrom (position + 1) (c == '/') r)
termination_by cs => cs.length
decreasing_by
  all_goals simp only [List.length_cons]
  all_goals try omega
  have := length_of_class? _h
  omega

/-- The pieces match the characters. -/
def isMatchFrom : List GlobPart → List Char → Bool
  | [], cs => cs.isEmpty
  | .sequence :: ps, [] => isMatchFrom ps []
  | .sequence :: ps, c :: cs => isMatchFrom ps (c :: cs) || isMatchFrom (.sequence :: ps) cs
  | .parts :: ps, cs =>
    isMatchFrom ps cs || match _h : Text.splitAtFirst? '/' cs with
      | some (_, rest) => isMatchFrom (.parts :: ps) rest
      | none => isMatchFrom ps []
  | _ :: _, [] => false
  | p :: ps, c :: cs => p.accepts c && isMatchFrom ps cs
termination_by ps cs => (ps.length, cs.length)
decreasing_by
  all_goals first
    | exact .left _ _ (Nat.lt_succ_self _)
    | exact .right _ (Nat.lt_succ_self _)
    | exact .right _ (length_of_splitAtFirst? _h)

end Glob

/-- A glob, by its pieces. -/
structure Glob where
  pieces : List GlobPart
deriving DecidableEq, Repr

namespace Glob

/-- The glob that a text writes. -/
def ofText (s : String) : Except GlobFault Glob :=
  (piecesFrom 0 true s.toList).map Glob.mk

/-- The glob matches the whole text. -/
def isMatch (g : Glob) (s : String) : Bool :=
  isMatchFrom g.pieces s.toList

end Glob

end NextBuild
