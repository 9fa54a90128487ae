import NextBuild.Json.Number
import NextBuild.Json.Quoted

/-!
# Tokens of JSON texts
-/

namespace NextBuild.Json

/-- A token of a JSON text. -/
inductive Token where
  | openArray
  | closeArray
  | openObject
  | closeObject
  | comma
  | colon
  | null
  | bool (b : Bool)
  | number (lexeme : List Char)
  | string (body : List Char)
deriving DecidableEq, Repr

namespace Token

/-- The character may stand between tokens. -/
def isSpace (c : Char) : Bool :=
  c == ' ' || c == '\n' || c == '\t' || c == '\r'

/-- The token at the front, with what follows it. -/
def next? (cs : List Char) : Option (Token × List Char) :=
  match cs with
  | '[' :: r => some (openArray, r)
  | ']' :: r => some (closeArray, r)
  | '{' :: r => some (openObject, r)
  | '}' :: r => some (closeObject, r)
  | ',' :: r => some (comma, r)
  | ':' :: r => some (colon, r)
  | 'n' :: 'u' :: 'l' :: 'l' :: r => some (null, r)
  | 't' :: 'r' :: 'u' :: 'e' :: r => some (bool true, r)
  | 'f' :: 'a' :: 'l' :: 's' :: 'e' :: r => some (bool false, r)
  | '"' :: r => (Quoted.scan? r).map fun s => (string s.written, s.rest)
  | _ => (Number.lexeme? cs).map fun (l, r) => (number l, r)

/-- The tokens of a text; `fuel` bounds their number. -/
def tokensFrom : Nat → List Char → Option (List Token)
  | 0, cs => if cs.isEmpty then some [] else none
  | fuel + 1, cs => match cs.dropWhile isSpace with
    | [] => some []
    | c :: r => do
      let (t, rest) ← next? (c :: r)
      let ts ← tokensFrom fuel rest
      return t :: ts

/-- The tokens of a text; each takes at least one character. -/
def tokens? (cs : List Char) : Option (List Token) :=
  tokensFrom cs.length cs

end Token

end NextBuild.Json
