import NextBuild.Regex.Pattern
import NextBuild.Regex.Reader

/-!
# The meaning of regular expressions

An expression as it is written becomes a pattern by applying its flags: a change of flags holds for
what follows it in its group.  Letters of either case are added to a class at each of its parts, and
before the class is negated.  Without the Unicode flag a class is a set of bytes, and an expression
that could match a byte outside of ASCII is refused.
-/

namespace NextBuild.Regex

/-- The values of the flags that change what matches. -/
structure Flags where
  ignoreCase : Bool := false
  multiLine : Bool := false
  dotAll : Bool := false
  unicode : Bool := true
  crlf : Bool := false
deriving DecidableEq, Repr

namespace Flags

/-- Set one flag. -/
def set (f : Flags) : Flag × Bool → Flags
  | (.ignoreCase, v) => { f with ignoreCase := v }
  | (.multiLine, v) => { f with multiLine := v }
  | (.dotAll, v) => { f with dotAll := v }
  | (.unicode, v) => { f with unicode := v }
  | (.crlf, v) => { f with crlf := v }
  | (.swapGreed, _) | (.skipBlanks, _) => f

/-- Apply changes from left to right. -/
def apply (f : Flags) (changes : FlagChanges) : Flags :=
  changes.foldl set f

/-- The set with the other case of its characters, if case is ignored. -/
def fold (f : Flags) (s : CharSet) : CharSet :=
  if f.ignoreCase then (if f.unicode then .cases s else .asciiCases s) else s

end Flags

/-- The ASCII part of a shorthand class. -/
def Shorthand.asciiSet : Shorthand → CharSet
  | digit => .ranges [(48, 57)]
  | space => .ranges [(9, 13), (32, 32)]
  | word => .ranges [(48, 57), (65, 90), (95, 95), (97, 122)]

/-- The characters of a shorthand class. -/
def Shorthand.unicodeSet : Shorthand → CharSet
  | digit => .property .digit
  | space => .property (.trait .whiteSpace)
  | word => .property .word

/-- The set holds no byte outside of ASCII. -/
def isByteSafe (s : CharSet) : Bool :=
  (List.range 128).all fun n => !s.mem (Char.ofNat (n + 128))

/-- The set, or its complement. -/
def negateIf (negated : Bool) (s : CharSet) : CharSet :=
  if negated then .compl s else s

/-- The set of bytes, if it holds ASCII alone. -/
def safeBytes (s : CharSet) : Except Fault CharSet :=
  if isByteSafe s then .ok s else .error .invalidUtf8

/-- The set with case ignored as the flags say, and then negated. -/
def foldAndNegate (f : Flags) (negated : Bool) (s : CharSet) : Except Fault CharSet :=
  let t := negateIf negated (f.fold s)
  if f.unicode then .ok t else safeBytes t

/-- The set of a shorthand class. -/
def Shorthand.set (f : Flags) (s : Shorthand) (negated : Bool) : Except Fault CharSet :=
  if f.unicode then .ok (negateIf negated s.unicodeSet)
  else safeBytes (negateIf negated s.asciiSet)

/-- The set of a property. -/
def Property.set (f : Flags) (p : Property) (negated : Bool) : Except Fault CharSet :=
  if f.unicode then foldAndNegate f negated (.property p) else .error .needsUnicode

/-- A character of a class, which is a byte without the Unicode flag. -/
def classChar (f : Flags) (c : Char) (byte : Bool) : Except Fault Nat :=
  if f.unicode || c.toNat < 128 then .ok c.toNat
  else .error (if byte then .invalidUtf8 else .needsUnicode)

namespace ClassTree

/-- The set of a class. -/
def set (f : Flags) : ClassTree → Except Fault CharSet
  | nothing => .ok .nothing
  | literal c byte => do
    let n ← classChar f c byte
    return .range n n
  | range low lowByte high highByte => do
    let l ← classChar f low lowByte
    let h ← classChar f high highByte
    return .range l h
  | ranges rs negated => foldAndNegate f negated (.ranges rs)
  | shorthand s negated => s.set f negated
  | property p negated => p.set f negated
  | both a b => do
    let s ← a.set f
    let t ← b.set f
    return .union s t
  | operator op a b => do
    let s ← a.set f
    let t ← b.set f
    return match op with
      | .inter => .inter (f.fold s) (f.fold t)
      | .diff => .diff (f.fold s) (f.fold t)
      | .symmDiff => .symmDiff (f.fold s) (f.fold t)
  | bracketed negated a => do
    foldAndNegate f negated (← a.set f)

end ClassTree

/-- The condition on a place that an assertion is under the flags. -/
def Assertion.look (f : Flags) : Assertion → Look
  | lineStart => if f.multiLine then .lineStart f.crlf else .textStart
  | lineEnd => if f.multiLine then .lineEnd f.crlf else .textEnd
  | textStart => .textStart
  | textEnd => .textEnd
  | wordBoundary => .wordBoundary f.unicode
  | notWordBoundary => .notWordBoundary f.unicode
  | wordStart => .wordStart f.unicode
  | wordEnd => .wordEnd f.unicode
  | wordStartHalf => .wordStartHalf f.unicode
  | wordEndHalf => .wordEndHalf f.unicode

/-- The characters that a dot matches. -/
def dotSet (f : Flags) : CharSet :=
  if f.dotAll then .property .any
  else if f.crlf then .compl (.ranges [(10, 10), (13, 13)])
  else .compl (.range 10 10)

namespace Tree

/-- The pattern of an expression under the flags, and the flags for what follows it. -/
def pattern (f : Flags) : Tree → Except Fault (Pattern × Flags)
  | empty => .ok (.empty, f)
  | literal c byte =>
    if !f.unicode && byte && 128 ≤ c.toNat then .error .invalidUtf8
    else if f.ignoreCase && !f.unicode && 128 ≤ c.toNat then .ok (.chars (.single c), f)
    else .ok (.chars (f.fold (.single c)), f)
  | dot => if f.unicode then .ok (.chars (dotSet f), f) else .error .invalidUtf8
  | assertion a => .ok (.look (a.look f), f)
  | shorthand s negated => do return (.chars (← s.set f negated), f)
  | property p negated => do return (.chars (← p.set f negated), f)
  | bracketed negated a => do return (.chars (← foldAndNegate f negated (← a.set f)), f)
  | flags changes => .ok (.empty, f.apply changes)
  | group changes a => do return ((← a.pattern (f.apply changes)).1, f)
  | repeated a low high => do
    let (p, g) ← a.pattern f
    if p.isZeroWidth then return (.repeated p (min low 1) (some (min (high.getD 1) 1)), g)
    else return (.repeated p low high, g)
  | seq a b => do
    let (p, g) ← a.pattern f
    let (q, h) ← b.pattern g
    return (.seq p q, h)
  | alt a b => do
    let (p, g) ← a.pattern f
    let (q, h) ← b.pattern g
    return (.alt p q, h)

end Tree

/-- The deepest nesting of an expression. -/
def depthLimit : Nat := 250

/-- The most room that the machine of a pattern may take, which the estimate is held against. -/
def sizeLimit : Nat := 10 * 1024 * 1024

/-- The pattern that a regular expression writes. -/
def Pattern.ofText (s : String) : Except Fault Pattern := do
  let t ← Tree.ofText s
  if depthLimit < t.depth then throw .tooDeep
  let (p, _) ← t.pattern {}
  if sizeLimit < p.machineSize then throw .tooBig
  return p

end NextBuild.Regex
