import NextBuild.Json.Number
import NextBuild.Text.Search

/-!
# Scalars of TOML

Strings in their four forms, numbers, truth values, and dates and times.  A scan takes characters
from the front of a text or fails.  Dates and times are only checked.
-/

namespace NextBuild.Toml

/-- A scan of the front of a text. -/
abbrev Scan := StateT (List Char) Option

/-- The mark around literal strings. -/
def apostrophe : Char := Char.ofNat 39

namespace Scan

/-- The next character, which stays. -/
def peek? : Scan (Option Char) := do
  return (← get).head?

/-- Take characters if they come next. -/
def takeIf (lead : List Char) : Scan Bool := do
  let cs ← get
  if lead.isPrefixOf cs then
    set (cs.drop lead.length)
    return true
  else return false

/-- Take characters that have to come next. -/
def expect (lead : List Char) : Scan Unit := do
  if !(← takeIf lead) then failure

/-- Take characters as long as `keep` holds. -/
def takeWhile (keep : Char → Bool) : Scan (List Char) := do
  let cs ← get
  set (cs.dropWhile keep)
  return cs.takeWhile keep

/-- Take blanks and tabs. -/
def skipBlanks : Scan Unit := do
  let _ ← takeWhile fun c => c == ' ' || c == '\t'

end Scan

/-- The character may stand in a comment or a literal string. -/
def isPlainChar (c : Char) : Bool :=
  c == '\t' || (32 ≤ c.toNat && c.toNat != 127)

/-- The character with a number, if there is one. -/
def charWithCode? (n : Nat) : Option Char :=
  if n.isValidChar then some (Char.ofNat n) else none

/-- The character of an escape behind its backslash, with what follows it. -/
def escape? : List Char → Option (Char × List Char)
  | 'b' :: r => some ('\x08', r)
  | 't' :: r => some ('\t', r)
  | 'n' :: r => some ('\n', r)
  | 'f' :: r => some ('\x0c', r)
  | 'r' :: r => some ('\r', r)
  | '"' :: r => some ('"', r)
  | '\\' :: r => some ('\\', r)
  | 'u' :: r => ofDigits 4 r
  | 'U' :: r => ofDigits 8 r
  | _ => none
where
  ofDigits (n : Nat) (r : List Char) : Option (Char × List Char) :=
    let ds := r.take n
    if ds.length == n && ds.all Text.isHexDigit then
      (charWithCode? (Text.digitsValue 16 ds)).map (·, r.drop n)
    else none

/-- The text of a basic string up to its closing quote, with what follows it; `fuel` bounds the
characters. -/
def basicBody : Nat → List Char → Option (List Char × List Char)
  | 0, _ => none
  | fuel + 1, cs => match cs with
    | '"' :: r => some ([], r)
    | '\\' :: r => do
      let (c, r) ← escape? r
      let (text, r) ← basicBody fuel r
      return (c :: text, r)
    | c :: r =>
      if isPlainChar c then (basicBody fuel r).map fun (text, r) => (c :: text, r) else none
    | [] => none

/-- What follows a line feed or a carriage return with a line feed. -/
def afterNewline? : List Char → Option (List Char)
  | '\n' :: r => some r
  | '\r' :: '\n' :: r => some r
  | _ => none

/-- What follows a backslash that ends a line: blanks up to the line end, and all blanks and line
ends behind it. -/
def afterLineContinuation? (cs : List Char) : Option (List Char) :=
  let isBlank := fun (c : Char) => c == ' ' || c == '\t'
  (afterNewline? (cs.dropWhile isBlank)).map fun r =>
    skip r.length r
where
  skip : Nat → List Char → List Char
    | 0, cs => cs
    | fuel + 1, cs => match cs with
      | ' ' :: r | '\t' :: r => skip fuel r
      | _ => match afterNewline? cs with
        | some r => skip fuel r
        | none => cs

/-- The quotes at the front, at most two, that belong to a string before its closing quotes. -/
def lastQuotes (quote : Char) (cs : List Char) : List Char × List Char :=
  let extra := (cs.take 2).takeWhile (· == quote)
  (extra, cs.drop extra.length)

/-- The text of a string of several lines up to its closing quotes, with what follows them. -/
def multiLineBody (quote : Char) (escapes : Bool) : Nat → List Char → Option (List Char × List Char)
  | 0, _ => none
  | fuel + 1, cs =>
    if [quote, quote, quote].isPrefixOf cs then some (lastQuotes quote (cs.drop 3))
    else match afterNewline? cs with
      | some r => (multiLineBody quote escapes fuel r).map fun (text, r) => ('\n' :: text, r)
      | none => match cs with
        | [] => none
        | c :: r =>
          if escapes && c == '\\' then
            match afterLineContinuation? r with
            | some r => multiLineBody quote escapes fuel r
            | none => do
              let (e, r) ← escape? r
              let (text, r) ← multiLineBody quote escapes fuel r
              return (e :: text, r)
          else if isPlainChar c then
            (multiLineBody quote escapes fuel r).map fun (text, r) => (c :: text, r)
          else none

/-- Take the text of a string between quotes of several lines. -/
def multiLine (quote : Char) (escapes : Bool) : Scan String := do
  let cs ← get
  let cs := (afterNewline? cs).getD cs
  let (text, r) ← multiLineBody quote escapes (cs.length + 1) cs
  set r
  return String.ofList text

/-- Take a string of one line: basic, or literal. -/
def lineString : Scan String := do
  if ← Scan.takeIf ['"'] then
    let cs ← get
    let (text, r) ← basicBody (cs.length + 1) cs
    set r
    return String.ofList text
  else
    Scan.expect [apostrophe]
    let text ← Scan.takeWhile fun c => c != apostrophe && isPlainChar c
    Scan.expect [apostrophe]
    return String.ofList text

/-- Take a string of any form. -/
def anyString : Scan String := do
  if ← Scan.takeIf ['"', '"', '"'] then multiLine '"' true
  else if ← Scan.takeIf [apostrophe, apostrophe, apostrophe] then multiLine apostrophe false
  else lineString

/-- The digits of a list in which single `_` may stand between digits. -/
def digits? (isDigit : Char → Bool) : List Char → Option (List Char)
  | [] => none
  | [c] => if isDigit c then some [c] else none
  | c :: '_' :: r => if isDigit c then (digits? isDigit r).map (c :: ·) else none
  | c :: r => if isDigit c then (digits? isDigit r).map (c :: ·) else none

/-- The sign at the front. -/
def sign (cs : List Char) : List Char × List Char :=
  match cs with
  | '+' :: r => (['+'], r)
  | '-' :: r => (['-'], r)
  | _ => ([], cs)

/-- The digits of a decimal number without needless zeros. -/
def decimalDigits? (cs : List Char) : Option (List Char) := do
  let ds ← digits? Char.isDigit cs
  if ds.head? == some '0' && 1 < ds.length then none else some ds

/-- The number, if it has 64 bits. -/
def inRange? (n : Int) : Option Int :=
  if Int64.minValue.toInt ≤ n && n ≤ Int64.maxValue.toInt then some n else none

/-- The integer that a token writes. -/
def integer? (token : List Char) : Option Int :=
  let based := fun (base : Nat) (isDigit : Char → Bool) (r : List Char) => do
    let ds ← digits? isDigit r
    inRange? (Text.digitsValue base ds)
  match token with
  | '0' :: 'x' :: r => based 16 Text.isHexDigit r
  | '0' :: 'o' :: r => based 8 (fun c => '0' ≤ c && c ≤ '7') r
  | '0' :: 'b' :: r => based 2 (fun c => c == '0' || c == '1') r
  | _ => do
    let (s, r) := sign token
    let ds ← decimalDigits? r
    let n : Int := Text.decimalValue ds
    inRange? (if s == ['-'] then -n else n)

/-- The token writes a floating-point number that is not too large. -/
def isFloat (token : List Char) : Bool :=
  let (s, r) := sign token
  if r == "inf".toList || r == "nan".toList then true
  else
    let isExponentMark := fun (c : Char) => c == 'e' || c == 'E'
    let mantissa := r.takeWhile fun c => !isExponentMark c
    let exponent := r.drop mantissa.length
    let whole := mantissa.takeWhile (· != '.')
    let fraction := mantissa.drop whole.length
    let fractionFits := fraction.isEmpty || (digits? Char.isDigit (fraction.drop 1)).isSome
    let exponentFits :=
      exponent.isEmpty || (digits? Char.isDigit (sign (exponent.drop 1)).2).isSome
    let plain := r.filter (· != '_')
    (decimalDigits? whole).isSome && fractionFits && exponentFits
      && !(fraction.isEmpty && exponent.isEmpty)
      && (s == ['-'] || !Json.Number.overflows plain)

/-- The number that exactly `n` digits at the front write, with what follows them. -/
def fixedDigits? (n : Nat) (cs : List Char) : Option (Nat × List Char) :=
  let ds := cs.take n
  if ds.length == n && ds.all Char.isDigit then some (Text.decimalValue ds, cs.drop n) else none

/-- What follows a character at the front. -/
def after? (c : Char) (cs : List Char) : Option (List Char) :=
  match cs with
  | d :: r => if c == d then some r else none
  | [] => none

/-- The number of days of a month. -/
def monthLength (year month : Nat) : Nat :=
  if month == 2 then
    if year % 4 == 0 && (year % 100 != 0 || year % 400 == 0) then 29 else 28
  else if [4, 6, 9, 11].contains month then 30
  else 31

/-- What follows a date at the front. -/
def afterDate? (cs : List Char) : Option (List Char) := do
  let (year, r) ← fixedDigits? 4 cs
  let (month, r) ← fixedDigits? 2 (← after? '-' r)
  let (day, r) ← fixedDigits? 2 (← after? '-' r)
  if 1 ≤ month && month ≤ 12 && 1 ≤ day && day ≤ monthLength year month then some r else none

/-- What follows a time at the front. -/
def afterTime? (cs : List Char) : Option (List Char) := do
  let (hour, r) ← fixedDigits? 2 cs
  let (minute, r) ← fixedDigits? 2 (← after? ':' r)
  let (second, r) ← fixedDigits? 2 (← after? ':' r)
  if 23 < hour || 59 < minute || 60 < second then none
  else match r with
    | '.' :: f =>
      let ds := f.takeWhile Char.isDigit
      if ds.isEmpty then none else some (f.drop ds.length)
    | _ => some r

/-- The characters are an offset from universal time, or none. -/
def isOffset (cs : List Char) : Bool :=
  match cs with
  | [] | ['Z'] | ['z'] => true
  | s :: r =>
    if s == '+' || s == '-' then
      match (fixedDigits? 2 r).bind fun (hour, r) =>
        (after? ':' r).bind fun r => (fixedDigits? 2 r).map fun (minute, r) => (hour, minute, r) with
      | some (hour, minute, []) => hour ≤ 23 && minute ≤ 59
      | _ => false
    else false

/-- The token is a date, alone or with a time, or a time. -/
def isDateTime (token : List Char) : Bool :=
  match afterDate? token with
  | some [] => true
  | some (d :: r) =>
    if d == 'T' || d == 't' || d == ' ' then
      match afterTime? r with
      | some o => isOffset o
      | none => false
    else false
  | none => afterTime? token == some []

/-- The character may stand in a number, a truth value or a date. -/
def isTokenChar (c : Char) : Bool :=
  c.isAlphanum || c == '_' || c == '+' || c == '-' || c == '.' || c == ':'

/-- Take a token; a time may follow a date after a blank. -/
def token : Scan (List Char) := do
  let word ← Scan.takeWhile isTokenChar
  match afterDate? word, (← get) with
  | some [], ' ' :: d :: r =>
    if d.isDigit then
      set (d :: r)
      let time ← Scan.takeWhile isTokenChar
      return word ++ ' ' :: time
    else return word
  | _, _ => return word

end NextBuild.Toml
