import NextBuild.Json.Value

/-!
# Writing JSON

A value has a compact form on one line and a form over several lines, in which every level is
indented by two more blanks.
-/

namespace NextBuild.Json

/-- A body between its quotes. -/
def quoted (body : List Char) : List Char :=
  '"' :: body ++ ['"']

mutual

/-- The characters of a value without any blanks between tokens. -/
def compactChars : Json → List Char
  | null => "null".toList
  | bool true => "true".toList
  | bool false => "false".toList
  | number lexeme => lexeme
  | string body => quoted body
  | array [] => ['[', ']']
  | array (v :: vs) => '[' :: compactChars v ++ compactItems vs
  | object [] => ['{', '}']
  | object (m :: ms) => '{' :: quoted m.1 ++ ':' :: compactChars m.2 ++ compactMembers ms

/-- The further items of an array, with its end. -/
def compactItems : List Json → List Char
  | [] => [']']
  | v :: vs => ',' :: compactChars v ++ compactItems vs

/-- The further members of an object, with its end. -/
def compactMembers : List (List Char × Json) → List Char
  | [] => ['}']
  | m :: ms => ',' :: quoted m.1 ++ ':' :: compactChars m.2 ++ compactMembers ms

end

/-- A line feed and the blanks of a level. -/
def newline (level : Nat) : List Char :=
  '\n' :: List.replicate (2 * level) ' '

mutual

/-- The characters of a value over several lines, on a level of indentation. -/
def prettyChars (level : Nat) : Json → List Char
  | null => "null".toList
  | bool true => "true".toList
  | bool false => "false".toList
  | number lexeme => lexeme
  | string body => quoted body
  | array [] => ['[', ']']
  | array (v :: vs) =>
    '[' :: newline (level + 1) ++ prettyChars (level + 1) v ++ prettyItems level vs
  | object [] => ['{', '}']
  | object (m :: ms) =>
    '{' :: newline (level + 1) ++ quoted m.1 ++ ':' :: ' ' :: prettyChars (level + 1) m.2
      ++ prettyMembers level ms

/-- The further items of an array, with its end. -/
def prettyItems (level : Nat) : List Json → List Char
  | [] => newline level ++ [']']
  | v :: vs =>
    ',' :: newline (level + 1) ++ prettyChars (level + 1) v ++ prettyItems level vs

/-- The further members of an object, with its end. -/
def prettyMembers (level : Nat) : List (List Char × Json) → List Char
  | [] => newline level ++ ['}']
  | m :: ms =>
    ',' :: newline (level + 1) ++ quoted m.1 ++ ':' :: ' ' :: prettyChars (level + 1) m.2
      ++ prettyMembers level ms

end

/-- The compact text of a value. -/
def compact (v : Json) : String :=
  String.ofList v.compactChars

/-- The text of a value over several lines. -/
def pretty (v : Json) : String :=
  String.ofList (v.prettyChars 0)

end NextBuild.Json
