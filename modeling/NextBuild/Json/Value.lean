import NextBuild.Json.Number
import NextBuild.Json.Quoted

/-!
# JSON values

A value is kept as it is written: numbers by their characters and strings by their bodies.  So what
is not looked at is never checked, and nothing is lost on the way through.
-/

namespace NextBuild

/-- A JSON value as it is written. -/
inductive Json where
  | null
  | bool (b : Bool)
  /-- A number, by its characters. -/
  | number (lexeme : List Char)
  /-- A string, by the body between its quotes. -/
  | string (body : List Char)
  | array (items : List Json)
  /-- The members of an object in their order; a key is the body between its quotes. -/
  | object (members : List (List Char × Json))
deriving Inhabited, Repr

namespace Json

/-- The string that holds a text. -/
def ofText (s : String) : Json := string (Quoted.encode s)

/-- The number that writes an integer. -/
def ofInt (n : Int) : Json := number (Number.ofInt n)

/-- The object with named members in this order. -/
def record (members : List (String × Json)) : Json :=
  object (members.map fun m => (Quoted.encode m.1, m.2))

/-- The array of the texts of a list. -/
def ofTexts (ss : List String) : Json := array (ss.map ofText)

/-- The value, or null for nothing. -/
def ofOption {α : Type} (f : α → Json) : Option α → Json
  | some a => f a
  | none => null

/-- The text of a string. -/
def text? : Json → Option String
  | string body => Quoted.decode? body
  | _ => none

/-- The integer of a number. -/
def int? : Json → Option Int
  | number lexeme => Number.int? lexeme
  | _ => none

/-- The signed number of 64 bits. -/
def int64? (v : Json) : Option Int64 := do
  let n ← v.int?
  if Int64.minValue.toInt ≤ n && n ≤ Int64.maxValue.toInt then some (Int64.ofInt n) else none

/-- The unsigned number of 64 bits. -/
def uint64? (v : Json) : Option UInt64 := do
  let n ← v.int?
  if 0 ≤ n && n < UInt64.size then some (UInt64.ofNat n.toNat) else none

/-- The truth value. -/
def bool? : Json → Option Bool
  | bool b => some b
  | _ => none

/-- The items of an array. -/
def items? : Json → Option (List Json)
  | array xs => some xs
  | _ => none

/-- The value is null. -/
def isNull : Json → Bool
  | null => true
  | _ => false

/-- The value that `f` finds, or nothing for null. -/
def optional? {α : Type} (f : Json → Option α) (v : Json) : Option (Option α) :=
  if v.isNull then some none else (f v).map some

/-- The members of an object with the texts of their keys. -/
def members? : Json → Option (List (String × Json))
  | object ms => ms.mapM fun m => (Quoted.decode? m.1).map (·, m.2)
  | _ => none

/-- No name of the list is a key twice. -/
def hasUnique (names : List String) (members : List (String × Json)) : Bool :=
  names.all fun n => (members.filter fun m => m.1 == n).length ≤ 1

/-- The fields with these names: the members of an object, of which a name is there at most once,
or the items of an array in the order of the names. -/
def fields? (names : List String) (v : Json) : Option (List (Option Json)) :=
  match v with
  | array xs =>
    if xs.length ≤ names.length then
      some (xs.map some ++ List.replicate (names.length - xs.length) none)
    else none
  | _ => do
    let ms ← v.members?
    if hasUnique names ms then some (names.map fun n => ms.lookup n) else none

/-- The name of a choice without contents: a string, or an object that has the name as its only key
and a null as its value. -/
def choice? (v : Json) : Option String :=
  match v with
  | string body => Quoted.decode? body
  | object [(key, null)] => Quoted.decode? key
  | _ => none

mutual

/-- The levels of arrays and objects. -/
def depth : Json → Nat
  | array xs => 1 + depthOfItems xs
  | object ms => 1 + depthOfMembers ms
  | _ => 0

/-- The most levels of an item. -/
def depthOfItems : List Json → Nat
  | [] => 0
  | v :: vs => max v.depth (depthOfItems vs)

/-- The most levels of a member. -/
def depthOfMembers : List (List Char × Json) → Nat
  | [] => 0
  | m :: ms => max m.2.depth (depthOfMembers ms)

end

mutual

/-- Every string has a text and every number a value. -/
def isReadable : Json → Bool
  | number lexeme => !Number.overflows lexeme
  | string body => (Quoted.decode? body).isSome
  | array xs => areItemsReadable xs
  | object ms => areMembersReadable ms
  | null | bool _ => true

/-- The items of an array are readable. -/
def areItemsReadable : List Json → Bool
  | [] => true
  | v :: vs => v.isReadable && areItemsReadable vs

/-- The members of an object are readable. -/
def areMembersReadable : List (List Char × Json) → Bool
  | [] => true
  | m :: ms => (Quoted.decode? m.1).isSome && m.2.isReadable && areMembersReadable ms

end

/-- The most levels of a value that is read as a whole. -/
def depthLimit : Nat := 127

/-- The value can be read as a whole before its form is known. -/
def isPlain (v : Json) : Bool :=
  v.depth ≤ depthLimit && v.isReadable

end Json

end NextBuild
