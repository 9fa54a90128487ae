import NextBuild.Text.Search

/-!
# Bodies of JSON strings

The body of a string is what stands between its quotes.  `encode` writes a text as a body: quotes,
backslashes and control characters are escaped and everything else is written as it is.  `decode?`
reads a body with any of the escapes of JSON; a half of a surrogate pair alone has no text.
-/

namespace NextBuild.Json.Quoted

/-- How a character is written in a body. -/
def escapeChar (c : Char) : List Char :=
  if c = '"' then ['\\', '"']
  else if c = '\\' then ['\\', '\\']
  else if c = '\n' then ['\\', 'n']
  else if c = '\r' then ['\\', 'r']
  else if c = '\t' then ['\\', 't']
  else if c = '\x08' then ['\\', 'b']
  else if c = '\x0c' then ['\\', 'f']
  else if c.toNat < 32 then
    ['\\', 'u', '0', '0', Text.hexDigit (c.toNat / 16), Text.hexDigit (c.toNat % 16)]
  else [c]

/-- The body that writes a text. -/
def encode (s : String) : List Char :=
  s.toList.flatMap escapeChar

/-- The character behind a backslash, other than `u`. -/
def simpleEscape? : Char → Option Char
  | '"' => some '"'
  | '\\' => some '\\'
  | '/' => some '/'
  | 'b' => some '\x08'
  | 'f' => some '\x0c'
  | 'n' => some '\n'
  | 'r' => some '\r'
  | 't' => some '\t'
  | _ => none

/-- A piece of a body: a character, or the number behind a `\u`. -/
inductive Piece where
  | plain (c : Char)
  | unit (n : Nat)
deriving DecidableEq, Repr

/-- The pieces of a body with the rest after its closing quote; `written` is the body itself. -/
structure Scanned where
  written : List Char
  pieces : List Piece
  rest : List Char

/-- The body in front of the first quote that is not escaped. -/
def scan? : List Char → Option Scanned
  | '"' :: r => some ⟨[], [], r⟩
  | '\\' :: 'u' :: a :: b :: c :: d :: r =>
    if [a, b, c, d].all Text.isHexDigit then
      (scan? r).map fun s =>
        ⟨'\\' :: 'u' :: a :: b :: c :: d :: s.written,
          .unit (Text.digitsValue 16 [a, b, c, d]) :: s.pieces, s.rest⟩
    else none
  | '\\' :: c :: r => match simpleEscape? c with
    | some e => (scan? r).map fun s => ⟨'\\' :: c :: s.written, .plain e :: s.pieces, s.rest⟩
    | none => none
  | c :: r =>
    if c.toNat < 32 || c == '\\' then none
    else (scan? r).map fun s => ⟨c :: s.written, .plain c :: s.pieces, s.rest⟩
  | [] => none

/-- The number is the first half of a surrogate pair. -/
def isHighSurrogate (n : Nat) : Bool := 0xD800 ≤ n && n ≤ 0xDBFF

/-- The number is the second half of a surrogate pair. -/
def isLowSurrogate (n : Nat) : Bool := 0xDC00 ≤ n && n ≤ 0xDFFF

/-- The text of a list of pieces. -/
def join? : List Piece → Option (List Char)
  | [] => some []
  | .plain c :: r => (join? r).map (c :: ·)
  | .unit h :: .unit l :: r =>
    if isHighSurrogate h then
      if isLowSurrogate l then
        (join? r).map (Char.ofNat (0x10000 + 0x400 * (h - 0xD800) + (l - 0xDC00)) :: ·)
      else none
    else if isLowSurrogate h then none
    else (join? (.unit l :: r)).map (Char.ofNat h :: ·)
  | .unit n :: r =>
    if isHighSurrogate n || isLowSurrogate n then none else (join? r).map (Char.ofNat n :: ·)

/-- The text that a body writes. -/
def decode? (body : List Char) : Option String := do
  let s ← scan? (body ++ ['"'])
  let cs ← join? s.pieces
  return String.ofList cs

end NextBuild.Json.Quoted
