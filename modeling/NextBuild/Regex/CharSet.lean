import NextBuild.Unicode.Age
import NextBuild.Unicode.Boundary
import NextBuild.Unicode.Folding
import NextBuild.Unicode.Trait

/-!
# Sets of characters

The sets that bracketed classes and shorthands of regular expressions denote.  A set is kept as it
was put together, and membership is decided one character at a time, so no set is ever enumerated.
-/

namespace NextBuild.Regex

/-- A property of characters that a set may refer to. -/
inductive Property where
  | any
  | ascii
  | assigned
  | word
  | digit
  | categories (tags : List String)
  | script (tag : String)
  /-- Used by a script. -/
  | usedBy (tag : String)
  /-- Assigned by a version of the standard. -/
  | assignedBy (version : String)
  | trait (t : Unicode.Trait)
  | grapheme (c : Unicode.GraphemeClass)
  | inWord (c : Unicode.WordClass)
  | inSentence (c : Unicode.SentenceClass)
deriving DecidableEq, Repr

namespace Property

/-- The character has the property. -/
def holds : Property → Char → Bool
  | any, _ => true
  | ascii, c => c.toNat < 128
  | assigned, c => Unicode.category c != "Cn"
  | word, c => Unicode.isWordChar c
  | digit, c => Unicode.isDecimalDigit c
  | categories tags, c => tags.contains (Unicode.category c)
  | script tag, c => Unicode.script c == tag
  | usedBy tag, c => (Unicode.scriptsUsing c).contains tag
  | assignedBy version, c => Unicode.isAssignedBy version c
  | trait t, c => t.holds c
  | grapheme k, c => Unicode.GraphemeClass.of c == k
  | inWord k, c => Unicode.WordClass.of c == k
  | inSentence k, c => Unicode.SentenceClass.of c == k

/-- The characters of a name in small letters, without blanks, `_` and `-`. -/
def bareName (cs : List Char) : List Char :=
  (cs.filter fun c => c.toNat < 128 && c != ' ' && c != '_' && c != '-').map Char.toLower

/-- Names of properties are compared in small letters, without blanks, `_`, `-` and a leading
`is`. -/
def normalName (cs : List Char) : String :=
  match (cs.take 2).map Char.toLower, bareName (cs.drop 2) with
  | ['i', 's'], ['c'] => "isc"
  | ['i', 's'], name => String.ofList name
  | _, _ => String.ofList (bareName cs)

/-- The property that a general category or a special name denotes. -/
def ofCategoryName? (name : String) : Option Property :=
  if name == "any" then some .any
  else if name == "ascii" then some .ascii
  else if name == "assigned" then some .assigned
  else (Unicode.categoriesNamed? name).map .categories

/-- The property with a name: a trait, else a category, else a script. -/
def ofName? (cs : List Char) : Option Property :=
  let name := normalName cs
  (((Unicode.Trait.named? name).map trait).or (ofCategoryName? name)).or
    ((Unicode.scriptNamed? name).map script)

/-- The value with a name in a list of values with their names. -/
def valueNamed? {α : Type} (values : List (List String × α)) (name : String) : Option α :=
  (values.find? fun e => e.1.contains name).map (·.2)

/-- The property that has a value. -/
def ofNameAndValue? (name value : List Char) : Option Property :=
  let value := normalName value
  match normalName name with
  | "generalcategory" | "gc" => ofCategoryName? value
  | "script" | "sc" => (Unicode.scriptNamed? value).map script
  | "scriptextensions" | "scx" => (Unicode.scriptNamed? value).map usedBy
  | "age" => (Unicode.versionTag? value).map assignedBy
  | "graphemeclusterbreak" | "gcb" => (valueNamed? Unicode.GraphemeClass.names value).map grapheme
  | "wordbreak" | "wb" => (valueNamed? Unicode.WordClass.names value).map inWord
  | "sentencebreak" | "sb" => (valueNamed? Unicode.SentenceClass.names value).map inSentence
  | _ => none

end Property

/-- A set of characters. -/
inductive CharSet where
  | nothing
  | range (low high : Nat)
  | property (p : Property)
  | union (a b : CharSet)
  | inter (a b : CharSet)
  | diff (a b : CharSet)
  | symmDiff (a b : CharSet)
  | compl (a : CharSet)
  /-- The characters that differ from a character of the set in case only. -/
  | cases (a : CharSet)
  /-- The same for the letters of ASCII alone. -/
  | asciiCases (a : CharSet)
deriving DecidableEq, Repr

namespace CharSet

/-- The other case of an ASCII letter. -/
def swapAsciiCase (c : Char) : Char :=
  if c.isUpper then c.toLower else if c.isLower then c.toUpper else c

/-- The character belongs to the set. -/
def mem : CharSet → Char → Bool
  | nothing, _ => false
  | range low high, c => low ≤ c.toNat && c.toNat ≤ high
  | property p, c => p.holds c
  | union a b, c => a.mem c || b.mem c
  | inter a b, c => a.mem c && b.mem c
  | diff a b, c => a.mem c && !b.mem c
  | symmDiff a b, c => a.mem c != b.mem c
  | compl a, c => !a.mem c
  | cases a, c => a.mem c || (Unicode.caseVariants c).any a.mem
  | asciiCases a, c => a.mem c || a.mem (swapAsciiCase c)

/-- The set of one character. -/
def single (c : Char) : CharSet := range c.toNat c.toNat

/-- The union of a list of sets. -/
def unions (ss : List CharSet) : CharSet :=
  ss.foldl union nothing

/-- The set of the ranges of a list. -/
def ranges (rs : List (Nat × Nat)) : CharSet :=
  unions (rs.map fun r => range r.1 r.2)

/-- A bound for the number of ranges of code points that make up the set. -/
def pieces : CharSet → Nat
  | nothing => 0
  | range _ _ => 1
  | property p => match p with
    | .any | .ascii | .trait .asciiHexDigit | .trait .hexDigit => 1
    | .trait .whiteSpace => 10
    | .digit => 60
    | _ => 700
  | union a b | inter a b | diff a b | symmDiff a b => a.pieces + b.pieces
  | compl a => a.pieces + 1
  | cases a | asciiCases a => 3 * a.pieces

/-- The set holds ASCII characters alone, as far as its parts show. -/
def isAscii : CharSet → Bool
  | nothing => true
  | range _ high => high < 128
  | property p => p == .ascii || p == .trait .asciiHexDigit
  | union a b | symmDiff a b => a.isAscii && b.isAscii
  | inter a b => a.isAscii || b.isAscii
  | diff a _ => a.isAscii
  | compl _ => false
  | cases a | asciiCases a => a.isAscii

end CharSet

end NextBuild.Regex
