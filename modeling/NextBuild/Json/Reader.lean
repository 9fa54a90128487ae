import NextBuild.Json.Token
import NextBuild.Json.Value

/-!
# Reading JSON

The reader is a push-down machine that takes one token at a time.  Its stack holds the arrays and
objects that are open, and its stage says what may come next.
-/

namespace NextBuild.Json

/-- An open array or object, with what it holds so far in reverse. -/
inductive Frame where
  | items (done : List Json)
  | members (done : List (List Char × Json)) (key : List Char)

/-- What may come next. -/
inductive Stage where
  | value
  /-- The first item of an array, or its end. -/
  | firstItem
  /-- The first key of an object, or its end. -/
  | firstKey
  | key (done : List (List Char × Json))
  | colon (done : List (List Char × Json)) (key : List Char)
  /-- A comma or the end of the innermost frame. -/
  | after (v : Json)

/-- The state of the reader. -/
structure Machine where
  stack : List Frame
  stage : Stage

namespace Machine

/-- Wait for a value without an open array or object. -/
def start : Machine := ⟨[], .value⟩

/-- Take the first token of a value. -/
def openValue (stack : List Frame) : Token → Option Machine
  | .openArray => some ⟨.items [] :: stack, .firstItem⟩
  | .openObject => some ⟨stack, .firstKey⟩
  | .null => some ⟨stack, .after .null⟩
  | .bool b => some ⟨stack, .after (.bool b)⟩
  | .number l => some ⟨stack, .after (.number l)⟩
  | .string s => some ⟨stack, .after (.string s)⟩
  | _ => none

/-- Take one token. -/
def step (m : Machine) (t : Token) : Option Machine :=
  match m.stage with
  | .value => openValue m.stack t
  | .firstItem => match t, m.stack with
    | .closeArray, _ :: stack => some ⟨stack, .after (.array [])⟩
    | _, _ => openValue m.stack t
  | .firstKey => match t with
    | .closeObject => some ⟨m.stack, .after (.object [])⟩
    | .string k => some ⟨m.stack, .colon [] k⟩
    | _ => none
  | .key done => match t with
    | .string k => some ⟨m.stack, .colon done k⟩
    | _ => none
  | .colon done k => match t with
    | .colon => some ⟨.members done k :: m.stack, .value⟩
    | _ => none
  | .after v => match t, m.stack with
    | .comma, .items done :: stack => some ⟨.items (v :: done) :: stack, .value⟩
    | .closeArray, .items done :: stack => some ⟨stack, .after (.array (v :: done).reverse)⟩
    | .comma, .members done k :: stack => some ⟨stack, .key ((k, v) :: done)⟩
    | .closeObject, .members done k :: stack =>
      some ⟨stack, .after (.object ((k, v) :: done).reverse)⟩
    | _, _ => none

/-- The value that is finished with nothing left open. -/
def result? (m : Machine) : Option Json :=
  match m.stack, m.stage with
  | [], .after v => some v
  | _, _ => none

end Machine

/-- The value that a list of tokens writes. -/
def ofTokens? (ts : List Token) : Option Json := do
  let m ← ts.foldlM Machine.step Machine.start
  m.result?

/-- The value that a text writes, with blanks around it allowed. -/
def read? (s : String) : Option Json := do
  let ts ← Token.tokens? s.toList
  ofTokens? ts

end NextBuild.Json
