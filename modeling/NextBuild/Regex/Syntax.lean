import NextBuild.Regex.CharSet

/-!
# The syntax of regular expressions

The tree of a regular expression as it is written, before its flags are applied, and the faults of
texts that are no regular expressions.
-/

namespace NextBuild.Regex

/-- Why a text is no regular expression. -/
inductive Fault where
  | unexpectedEnd
  | unclosedGroup
  | unopenedGroup
  | unclosedClass
  | invalidRange
  | notACharacter
  | groupName
  | repeatedGroupName
  | lookAround
  | unknownFlag
  | repeatedFlag
  | danglingNegation
  | nothingToRepeat
  | repetitionCount
  | backReference
  | unknownEscape
  | hexEscape
  | wordBoundary
  | unknownProperty
  | needsUnicode
  | invalidUtf8
  | tooDeep
  | tooBig
deriving DecidableEq, Repr

/-- The fault in words. -/
def Fault.message : Fault → String
  | unexpectedEnd => "the expression ends too early"
  | unclosedGroup => "unclosed group"
  | unopenedGroup => "unopened group"
  | unclosedClass => "unclosed character class"
  | invalidRange => "invalid character class range"
  | notACharacter => "not a character of a class"
  | groupName => "invalid capture group name"
  | repeatedGroupName => "duplicate capture group name"
  | lookAround => "look-around is not supported"
  | unknownFlag => "unrecognized flag"
  | repeatedFlag => "duplicate flag"
  | danglingNegation => "dangling flag negation operator"
  | nothingToRepeat => "repetition operator missing expression"
  | repetitionCount => "invalid repetition count"
  | backReference => "backreferences are not supported"
  | unknownEscape => "unrecognized escape sequence"
  | hexEscape => "invalid hexadecimal escape"
  | wordBoundary => "unrecognized special word boundary"
  | unknownProperty => "unknown character property"
  | needsUnicode => "Unicode is not allowed here"
  | invalidUtf8 => "the expression can match invalid UTF-8"
  | tooDeep => "the expression is nested too deeply"
  | tooBig => "the compiled expression is too big"

/-- The flags that groups may change. -/
inductive Flag where
  | ignoreCase
  | multiLine
  | dotAll
  | swapGreed
  | unicode
  | crlf
  | skipBlanks
deriving DecidableEq, Repr

/-- Flags with the values that they are set to. -/
abbrev FlagChanges := List (Flag × Bool)

/-- A condition on a place, before the flags are applied. -/
inductive Assertion where
  | lineStart
  | lineEnd
  | textStart
  | textEnd
  | wordBoundary
  | notWordBoundary
  | wordStart
  | wordEnd
  | wordStartHalf
  | wordEndHalf
deriving DecidableEq, Repr

/-- The classes with an escape of one letter. -/
inductive Shorthand where
  | digit
  | space
  | word
deriving DecidableEq, Repr

/-- The set operators of bracketed classes. -/
inductive SetOperator where
  | inter
  | diff
  | symmDiff
deriving DecidableEq, Repr

/-- A class in brackets, or a part of one. -/
inductive ClassTree where
  | nothing
  /-- A character; `byte` when it is written as a byte, with two hexadecimal digits. -/
  | literal (c : Char) (byte : Bool)
  | range (low : Char) (lowByte : Bool) (high : Char) (highByte : Bool)
  | ranges (rs : List (Nat × Nat)) (negated : Bool)
  | shorthand (s : Shorthand) (negated : Bool)
  | property (p : Property) (negated : Bool)
  | both (a b : ClassTree)
  | operator (op : SetOperator) (a b : ClassTree)
  | bracketed (negated : Bool) (a : ClassTree)
deriving DecidableEq, Repr

namespace ClassTree

/-- The number of parts that are put side by side. -/
def width : ClassTree → Nat
  | nothing => 0
  | both a b => a.width + b.width
  | _ => 1

/-- The levels of nesting, where parts side by side take a level of their own. -/
def depth : ClassTree → Nat
  | both a b => max a.depth b.depth
  | operator _ a b =>
    1 + max (a.depth + (if 1 < a.width then 1 else 0)) (b.depth + (if 1 < b.width then 1 else 0))
  | bracketed _ a => 1 + a.depth + (if 1 < a.width then 1 else 0)
  | _ => 0

end ClassTree

/-- A regular expression as it is written. -/
inductive Tree where
  | empty
  | literal (c : Char) (byte : Bool)
  | dot
  | assertion (a : Assertion)
  | shorthand (s : Shorthand) (negated : Bool)
  | property (p : Property) (negated : Bool)
  | bracketed (negated : Bool) (a : ClassTree)
  | flags (changes : FlagChanges)
  | group (changes : FlagChanges) (a : Tree)
  | repeated (a : Tree) (low : Nat) (high : Option Nat)
  | seq (a b : Tree)
  | alt (a b : Tree)
deriving DecidableEq, Repr

namespace Tree

/-- The levels of nesting; `inSeq` and `inAlt` tell that a sequence or a choice is already open. -/
def depthIn : Bool → Bool → Tree → Nat
  | _, _, bracketed n a => (ClassTree.bracketed n a).depth
  | _, _, group _ a => 1 + a.depthIn false false
  | _, _, repeated a _ _ => 1 + a.depthIn false false
  | inSeq, _, seq a b =>
    (if inSeq then 0 else 1) + max (a.depthIn true false) (b.depthIn true false)
  | _, inAlt, alt a b =>
    (if inAlt then 0 else 1) + max (a.depthIn false true) (b.depthIn false true)
  | _, _, _ => 0

/-- The levels of nesting of an expression. -/
def depth (t : Tree) : Nat := t.depthIn false false

/-- A repetition operator can follow the expression. -/
def isRepeatable : Tree → Bool
  | empty | flags _ => false
  | _ => true

/-- One expression after the other. -/
def ofList : List Tree → Tree
  | [] => empty
  | [t] => t
  | t :: ts => seq t (ofList ts)

/-- One of several expressions. -/
def ofBranches : List Tree → Tree
  | [] => empty
  | [t] => t
  | t :: ts => alt t (ofBranches ts)

end Tree

end NextBuild.Regex
