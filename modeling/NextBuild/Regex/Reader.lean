import NextBuild.Regex.Syntax
import NextBuild.Text.Search

/-!
# Reading regular expressions

The reader goes once over the characters of a text, from left to right.  Its state is what is left
of the text, the names of groups that are taken, and whether blanks and comments are skipped.  Every
round of the two loops, over the items of a group and over the items of a bracketed class, takes at
least one character, so the number of characters bounds the rounds.
-/

namespace NextBuild.Regex

/-- The state of the reader. -/
structure ReadState where
  /-- What is left of the text. -/
  rest : List Char
  /-- The names of the groups read so far. -/
  names : List String
  /-- Blanks and comments between items are skipped. -/
  skipBlanks : Bool
deriving Repr

/-- A step of the reader. -/
abbrev Reader := StateT ReadState (Except Fault)

namespace Reader

/-- The characters behind the blanks and comments at the front. -/
def dropBlanks : Nat → List Char → List Char
  | 0, cs => cs
  | fuel + 1, cs => match cs with
    | '#' :: r => dropBlanks fuel ((r.dropWhile (· != '\n')).drop 1)
    | c :: r => if Text.isBlank c then dropBlanks fuel r else cs
    | [] => []

/-- Skip blanks and comments if the state says so. -/
def skip : Reader Unit :=
  modify fun s =>
    if s.skipBlanks then { s with rest := dropBlanks (s.rest.length + 1) s.rest } else s

/-- The next character, which stays. -/
def peek? : Reader (Option Char) := do
  return (← get).rest.head?

/-- Take one character. -/
def bump : Reader Unit :=
  modify fun s => { s with rest := s.rest.drop 1 }

/-- Take one character and the blanks after it. -/
def bumpSkip : Reader Unit := do
  bump
  skip

/-- The next character, or a fault at the end of the text. -/
def peek (fault : Fault) : Reader Char := do
  match ← peek? with
  | some c => return c
  | none => throw fault

/-- The next character is `c`. -/
def nextIs (c : Char) : Reader Bool := do
  return (← peek?) == some c

/-- Take the characters `lead` if they come next. -/
def takeIf (lead : List Char) : Reader Bool := do
  let s ← get
  if lead.isPrefixOf s.rest then
    set { s with rest := s.rest.drop lead.length }
    return true
  else return false

/-- The character after the next one, behind blanks if they are skipped. -/
def peekSecond? : Reader (Option Char) := do
  let s ← get
  let after := s.rest.drop 1
  if s.skipBlanks then
    match after.dropWhile Text.isBlank with
    | '#' :: r => return (r.dropWhile Text.isBlank).head?
    | r => return r.head?
  else return after.head?

/-- Take characters as long as `keep` holds, with the blanks after each of them. -/
def takeSkipping (keep : Char → Bool) : Nat → Reader (List Char)
  | 0 => return []
  | fuel + 1 => do
    match ← peek? with
    | some c =>
      if keep c then
        bumpSkip
        return c :: (← takeSkipping keep fuel)
      else return []
    | none => return []

/-- Take characters as long as `keep` holds, with the blanks after each of them. -/
def takeAll (keep : Char → Bool) : Reader (List Char) := do
  takeSkipping keep ((← get).rest.length + 1)

/-- The flag that a letter names. -/
def flagOfLetter? : Char → Option Flag
  | 'i' => some .ignoreCase
  | 'm' => some .multiLine
  | 's' => some .dotAll
  | 'U' => some .swapGreed
  | 'u' => some .unicode
  | 'R' => some .crlf
  | 'x' => some .skipBlanks
  | _ => none

/-- The flag changes that letters with at most one `-` write; `negated` tells that the `-` is
behind, `dangling` that it stands right before. -/
def flagChanges (negated dangling : Bool) : List Char → FlagChanges → Except Fault FlagChanges
  | [], done => if dangling then .error .danglingNegation else .ok done
  | '-' :: r, done =>
    if negated then .error .danglingNegation else flagChanges true true r done
  | c :: r, done => match flagOfLetter? c with
    | none => .error .unknownFlag
    | some f =>
      if done.any (·.1 == f) then .error .repeatedFlag
      else flagChanges negated false r (done ++ [(f, !negated)])

/-- What a group begins with. -/
inductive GroupHead where
  | flags (changes : FlagChanges)
  | group (changes : FlagChanges)
deriving Repr

/-- The character may stand in the name of a group. -/
def isGroupNameChar (c : Char) : Bool :=
  c == '_' || c == '.' || c == '[' || c == ']' || Unicode.isAlphabetic c || Unicode.isNumeric c

/-- Take the name of a group and the `>` after it. -/
def groupName : Reader Unit := do
  let s ← get
  let name := s.rest.takeWhile (· != '>')
  match name with
  | [] => throw .groupName
  | c :: r =>
    if s.rest.length == name.length then throw .groupName
    if !((c == '_' || Unicode.isAlphabetic c) && r.all isGroupNameChar) then throw .groupName
    if s.names.contains (String.ofList name) then throw .repeatedGroupName
    set { s with rest := s.rest.drop (name.length + 1), names := String.ofList name :: s.names }

/-- A look-around begins with these characters. -/
def startsLookAround (cs : List Char) : Bool :=
  ["?=", "?!", "?<=", "?<!"].any fun lead => lead.toList.isPrefixOf cs

/-- Take the mark of a group with a name, in either spelling. -/
def takeNameMark : Reader Bool := do
  if ← takeIf "?P<".toList then return true
  else takeIf "?<".toList

/-- Take the begin of a group, from its parenthesis to its flags or its name. -/
def groupHead : Reader GroupHead := do
  bumpSkip
  if startsLookAround (← get).rest then throw .lookAround
  if ← takeNameMark then
    groupName
    return .group []
  if ← takeIf "?".toList then
    let s ← get
    let letters := s.rest.takeWhile fun c => c != ':' && c != ')'
    let changes ← flagChanges false false letters []
    match s.rest.drop letters.length with
    | [] => throw .unclosedGroup
    | close :: r =>
      set { s with rest := r }
      if close == ')' then
        if letters.isEmpty then throw .nothingToRepeat
        return .flags changes
      else return .group changes
  else return .group []

/-- The character with a number, if there is one. -/
def charOfCode? (n : Nat) : Option Char :=
  if n.isValidChar then some (Char.ofNat n) else none

/-- Take exactly `n` hexadecimal digits, with the blanks after each of them. -/
def hexDigits : Nat → Reader (List Char)
  | 0 => return []
  | n + 1 => do
    let c ← peek .unexpectedEnd
    if !Text.isHexDigit c then throw .hexEscape
    bumpSkip
    return c :: (← hexDigits n)

/-- Take the number of a character behind `\x`, `\u` or `\U`, in braces or with `width` digits. -/
def hexChar (width : Nat) : Reader (Char × Bool) := do
  bumpSkip
  let first ← peek .unexpectedEnd
  if first == '{' then
    bumpSkip
    let digits ← takeAll Text.isHexDigit
    if (← peek .unexpectedEnd) != '}' then throw .hexEscape
    bumpSkip
    if digits.isEmpty then throw .hexEscape
    match charOfCode? (Text.digitsValue 16 digits) with
    | some c => return (c, false)
    | none => throw .hexEscape
  else
    let digits ← hexDigits width
    match charOfCode? (Text.digitsValue 16 digits) with
    | some c => return (c, width == 2)
    | none => throw .hexEscape

/-- The parts around the first `!=`, with the sign that it negates, else around the first `:`, else
around the first `=`. -/
def propertyParts (cs : List Char) : List Char × Option (List Char) × Bool :=
  let rec atUnequal : List Char → Option (List Char × List Char)
    | '!' :: '=' :: r => some ([], r)
    | c :: r => (atUnequal r).map fun (a, b) => (c :: a, b)
    | [] => none
  match atUnequal cs with
  | some (n, v) => (n, some v, true)
  | none => match Text.splitAtFirst? ':' cs with
    | some (n, v) => (n, some v, false)
    | none => match Text.splitAtFirst? '=' cs with
      | some (n, v) => (n, some v, false)
      | none => (cs, none, false)

/-- Take the property behind `\p` or `\P`; the flag tells that it is negated. -/
def propertyClass (negated : Bool) : Reader (Property × Bool) := do
  bumpSkip
  let first ← peek .unexpectedEnd
  if first == '{' then
    bumpSkip
    let name ← takeAll (· != '}')
    let _ ← peek .unexpectedEnd
    bump
    match propertyParts name with
    | (n, none, _) => match Property.ofName? n with
      | some p => return (p, negated)
      | none => throw .unknownProperty
    | (n, some v, unequal) => match Property.ofNameAndValue? n v with
      | some p => return (p, negated != unequal)
      | none => throw .unknownProperty
  else
    if first == '\\' then throw .unknownProperty
    bumpSkip
    match Property.ofName? [first] with
    | some p => return (p, negated)
    | none => throw .unknownProperty

/-- What a single item is, inside brackets or outside. -/
inductive Item where
  | literal (c : Char) (byte : Bool)
  | dot
  | assertion (a : Assertion)
  | shorthand (s : Shorthand) (negated : Bool)
  | property (p : Property) (negated : Bool)
deriving Repr

/-- The tree of a single item. -/
def Item.tree : Item → Tree
  | literal c byte => .literal c byte
  | dot => .dot
  | assertion a => .assertion a
  | shorthand s negated => .shorthand s negated
  | property p negated => .property p negated

/-- The characters that have a meaning of their own somewhere in an expression. -/
def isMeta (c : Char) : Bool :=
  "\\.+*?()|[]\x7b\x7d^$#&-~".toList.contains c

/-- The character stands for itself behind a backslash. -/
def standsForItself (c : Char) : Bool :=
  isMeta c || (c.toNat < 128 && !c.isAlphanum && c != '<' && c != '>')

/-- The kind of word boundary that a name in braces writes; braces with anything but a name in front
are a repetition and stay. -/
def namedBoundary : Reader Assertion := do
  let before ← get
  let isNamePart := fun (c : Char) => c.isAlpha || c == '-'
  bumpSkip
  let first ← peek .wordBoundary
  if !isNamePart first then
    set before
    return .wordBoundary
  let name ← takeAll isNamePart
  if (← peek .wordBoundary) != '}' then throw .wordBoundary
  bump
  match String.ofList name with
  | "start" => return .wordStart
  | "end" => return .wordEnd
  | "start-half" => return .wordStartHalf
  | "end-half" => return .wordEndHalf
  | _ => throw .wordBoundary

/-- Take an escape, from its backslash on. -/
def escape : Reader Item := do
  bump
  let c ← peek .unexpectedEnd
  match c with
  | 'x' => let (c, byte) ← hexChar 2; return .literal c byte
  | 'u' => let (c, _) ← hexChar 4; return .literal c false
  | 'U' => let (c, _) ← hexChar 8; return .literal c false
  | 'p' => let (p, n) ← propertyClass false; return .property p n
  | 'P' => let (p, n) ← propertyClass true; return .property p n
  | _ =>
    if c.isDigit then throw .backReference
    bump
    if standsForItself c then return .literal c false
    match c with
    | 'd' => return .shorthand .digit false
    | 's' => return .shorthand .space false
    | 'w' => return .shorthand .word false
    | 'D' => return .shorthand .digit true
    | 'S' => return .shorthand .space true
    | 'W' => return .shorthand .word true
    | 'a' => return .literal '\x07' false
    | 'f' => return .literal '\x0c' false
    | 't' => return .literal '\t' false
    | 'n' => return .literal '\n' false
    | 'r' => return .literal '\r' false
    | 'v' => return .literal '\x0b' false
    | 'A' => return .assertion .textStart
    | 'z' => return .assertion .textEnd
    | 'b' => if ← nextIs '{' then return .assertion (← namedBoundary)
             else return .assertion .wordBoundary
    | 'B' => return .assertion .notWordBoundary
    | '<' => return .assertion .wordStart
    | '>' => return .assertion .wordEnd
    | _ => throw .unknownEscape

/-- The named classes of ASCII characters, by ranges of code points. -/
def asciiClasses : List (String × List (Nat × Nat)) := [
  ("alnum", [(48, 57), (65, 90), (97, 122)]),
  ("alpha", [(65, 90), (97, 122)]),
  ("ascii", [(0, 127)]),
  ("blank", [(9, 9), (32, 32)]),
  ("cntrl", [(0, 31), (127, 127)]),
  ("digit", [(48, 57)]),
  ("graph", [(33, 126)]),
  ("lower", [(97, 122)]),
  ("print", [(32, 126)]),
  ("punct", [(33, 47), (58, 64), (91, 96), (123, 126)]),
  ("space", [(9, 13), (32, 32)]),
  ("upper", [(65, 90)]),
  ("word", [(48, 57), (65, 90), (95, 95), (97, 122)]),
  ("xdigit", [(48, 57), (65, 70), (97, 102)])]

/-- The class that `[:name:]` writes, with what follows it. -/
def asciiClass? (cs : List Char) : Option (ClassTree × List Char) :=
  match cs with
  | '[' :: ':' :: r =>
    let negated := r.head? == some '^'
    let body := if negated then r.drop 1 else r
    let name := body.takeWhile (· != ':')
    match body.drop name.length with
    | ':' :: ']' :: after =>
      (asciiClasses.lookup (String.ofList name)).map fun rs => (.ranges rs negated, after)
    | _ => none
  | _ => none

/-- The part of a class that an item is, if it is one. -/
def Item.classTree : Item → Except Fault ClassTree
  | literal c byte => .ok (.literal c byte)
  | shorthand s negated => .ok (.shorthand s negated)
  | property p negated => .ok (.property p negated)
  | dot | assertion _ => .error .notACharacter

/-- The character that an item is, if it is one. -/
def Item.char : Item → Except Fault (Char × Bool)
  | literal c byte => .ok (c, byte)
  | _ => .error .notACharacter

/-- Take one item of a class. -/
def classItem : Reader Item := do
  let c ← peek .unclosedClass
  if c == '\\' then escape
  else
    bump
    return .literal c false

/-- Take one item of a class, or a range of two. -/
def classRange : Reader ClassTree := do
  let low ← classItem
  skip
  let c ← peek .unclosedClass
  let second ← peekSecond?
  if c != '-' || second == some ']' || second == some '-' then low.classTree
  else
    bumpSkip
    let high ← classItem
    let (l, lowByte) ← low.char
    let (h, highByte) ← high.char
    if h < l then throw .invalidRange
    return .range l lowByte h highByte

/-- Take dashes at the front of a class, which stand for themselves. -/
def classDashes : Nat → Reader ClassTree
  | 0 => return .nothing
  | fuel + 1 => do
    if ← nextIs '-' then
      bumpSkip
      let _ ← peek .unclosedClass
      return .both (.literal '-' false) (← classDashes fuel)
    else return .nothing

/-- Take the begin of a class: the bracket, the sign that negates it, and the characters that stand
for themselves in front only. -/
def classHead : Reader (Bool × ClassTree) := do
  bumpSkip
  let negated := (← peek .unclosedClass) == '^'
  if negated then
    bumpSkip
    let _ ← peek .unclosedClass
  let dashes ← classDashes ((← get).rest.length + 1)
  if dashes == .nothing && (← nextIs ']') then
    bumpSkip
    let _ ← peek .unclosedClass
    return (negated, .literal ']' false)
  return (negated, dashes)

/-- The parts of a class that is being read: the left operand with its operator, and the items after
it. -/
structure OpenClass where
  left : Option (ClassTree × SetOperator)
  items : ClassTree

namespace OpenClass

/-- The class so far, as one operand. -/
def operand (o : OpenClass) : ClassTree :=
  match o.left with
  | none => o.items
  | some (a, op) => .operator op a o.items

/-- The class with one more item. -/
def push (o : OpenClass) (a : ClassTree) : OpenClass :=
  { o with items := if o.items == .nothing then a else .both o.items a }

/-- The class with an operator after what is there. -/
def apply (o : OpenClass) (op : SetOperator) : OpenClass :=
  ⟨some (o.operand, op), .nothing⟩

end OpenClass

/-- Take the items of a class up to the bracket that closes it. -/
def classItems : Nat → OpenClass → Reader ClassTree
  | 0, _ => throw .unclosedClass
  | fuel + 1, o => do
    skip
    let c ← peek .unclosedClass
    let s ← get
    match c, s.rest.drop 1 with
    | '[', _ => match asciiClass? s.rest with
      | some (a, after) =>
        set { s with rest := after }
        classItems fuel (o.push a)
      | none =>
        let (negated, items) ← classHead
        let inner ← classItems fuel ⟨none, items⟩
        classItems fuel (o.push (.bracketed negated inner))
    | ']', _ =>
      bump
      return o.operand
    | '&', '&' :: r => set { s with rest := r }; classItems fuel (o.apply .inter)
    | '-', '-' :: r => set { s with rest := r }; classItems fuel (o.apply .diff)
    | '~', '~' :: r => set { s with rest := r }; classItems fuel (o.apply .symmDiff)
    | _, _ => classItems fuel (o.push (← classRange))

/-- Take a bracketed class. -/
def bracketedClass : Reader Tree := do
  let fuel := (← get).rest.length + 1
  let (negated, items) ← classHead
  let inner ← classItems fuel ⟨none, items⟩
  return .bracketed negated inner

/-- Take the blanks at the front, whatever the state says. -/
def dropPlainBlanks : Reader Unit :=
  modify fun s => { s with rest := s.rest.dropWhile Text.isBlank }

/-- Take a number of a repetition count, with blanks around it, or nothing. -/
def count? : Reader (Option Nat) := do
  dropPlainBlanks
  let digits ← takeAll Char.isDigit
  dropPlainBlanks
  skip
  if digits.isEmpty then return none
  let n := Text.decimalValue digits
  if n < UInt32.size then return some n else throw .repetitionCount

/-- A number that has to be there. -/
def required : Option Nat → Reader Nat
  | some n => return n
  | none => throw .repetitionCount

/-- Take the `?` that makes a repetition lazy; it does not change what matches. -/
def lazyMark : Reader Unit := do
  if ← nextIs '?' then bump

/-- Take the counts of a repetition, in braces. -/
def counts : Reader (Nat × Option Nat) := do
  bumpSkip
  let _ ← peek .repetitionCount
  let low ← count?
  let c ← peek .repetitionCount
  let bounds ← if c == ',' then do
      bumpSkip
      if (← peek .repetitionCount) == '}' then pure (← required low, none)
      else
        let low ← required low
        let high ← required (← count?)
        pure (low, some high)
    else do
      let low ← required low
      pure (low, some low)
  if (← peek .repetitionCount) != '}' then throw .repetitionCount
  bumpSkip
  lazyMark
  match bounds.2 with
  | some high => if high < bounds.1 then throw .repetitionCount
  | none => pure ()
  return bounds

/-- The items of a sequence, in reverse, with the last one repeated. -/
def repeatLast (low : Nat) (high : Option Nat) : List Tree → Except Fault (List Tree)
  | [] => .error .nothingToRepeat
  | t :: ts => if t.isRepeatable then .ok (.repeated t low high :: ts) else .error .nothingToRepeat

/-- Take the choices of a group, up to the parenthesis that closes it or, outside of groups, to the
end of the text.  `branches` holds the finished choices and `items` the open one in reverse. -/
def choices : Nat → (inGroup : Bool) → (branches items : List Tree) → Reader Tree
  | 0, _, _, _ => throw .tooDeep
  | fuel + 1, inGroup, branches, items => do
    skip
    match ← peek? with
    | none =>
      if inGroup then throw .unclosedGroup
      return Tree.ofBranches (branches ++ [Tree.ofList items.reverse])
    | some c => match c with
      | ')' =>
        if !inGroup then throw .unopenedGroup
        bump
        return Tree.ofBranches (branches ++ [Tree.ofList items.reverse])
      | '|' =>
        bump
        choices fuel inGroup (branches ++ [Tree.ofList items.reverse]) []
      | '(' => match ← groupHead with
        | .flags changes =>
          modify fun s => { s with skipBlanks := (changes.lookup .skipBlanks).getD s.skipBlanks }
          choices fuel inGroup branches (.flags changes :: items)
        | .group changes =>
          let outer := (← get).skipBlanks
          modify fun s => { s with skipBlanks := (changes.lookup .skipBlanks).getD outer }
          let inner ← choices fuel true [] []
          modify fun s => { s with skipBlanks := outer }
          choices fuel inGroup branches (.group changes inner :: items)
      | '[' => choices fuel inGroup branches ((← bracketedClass) :: items)
      | '*' =>
        bump
        lazyMark
        choices fuel inGroup branches (← repeatLast 0 none items)
      | '+' =>
        bump
        lazyMark
        choices fuel inGroup branches (← repeatLast 1 none items)
      | '?' =>
        bump
        lazyMark
        choices fuel inGroup branches (← repeatLast 0 (some 1) items)
      | '{' =>
        let (low, high) ← counts
        choices fuel inGroup branches (← repeatLast low high items)
      | '\\' => choices fuel inGroup branches ((← escape).tree :: items)
      | '.' =>
        bump
        choices fuel inGroup branches (.dot :: items)
      | '^' =>
        bump
        choices fuel inGroup branches (.assertion .lineStart :: items)
      | '$' =>
        bump
        choices fuel inGroup branches (.assertion .lineEnd :: items)
      | _ =>
        bump
        choices fuel inGroup branches (.literal c false :: items)

end Reader

/-- The expression that a text writes. -/
def Tree.ofText (s : String) : Except Fault Tree := do
  let cs := s.toList
  let (t, _) ← (Reader.choices (cs.length + 1) false [] []).run ⟨cs, [], false⟩
  return t

end NextBuild.Regex
