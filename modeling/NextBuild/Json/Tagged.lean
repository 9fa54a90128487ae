import NextBuild.Json.Value

/-!
# Tagged JSON values

A message is a record whose tag says which one of several it is, or an array that starts with the
tag.  The whole value has to be readable, also where the message does not look at it.
-/

namespace NextBuild.Json

/-- The tag of a value, with the fields besides it. -/
def tagged? (tag : String) (v : Json) : Option (String × Json) :=
  if !v.isPlain then none
  else match v with
    | object raw => do
      let ms ← v.members?
      match ms.filter fun m => m.1 == tag with
      | [(_, value)] =>
        let text ← value.text?
        return (text, object (raw.filter fun m => Quoted.decode? m.1 != some tag))
      | _ => none
    | array (first :: rest) => do return (← first.text?, array rest)
    | _ => none

/-- The fields of a message without fields: other members do not count, but items do. -/
def noFields? : Json → Option Unit
  | array (_ :: _) => none
  | _ => some ()

/-- The value of a field that a record may leave out or set to null; an array has to hold it. -/
def optionalField? {α : Type} (f : Json → Option α) (fields : Json) (field : Option Json) :
    Option (Option α) :=
  match field, fields with
  | some v, _ => v.optional? f
  | none, array _ => none
  | none, _ => some none

/-- The name of a choice without contents, in a value that was read as a whole: a string, or an
object that has the name as its only key and nothing as its value. -/
def emptyChoice? (v : Json) : Option String :=
  match v with
  | string body => Quoted.decode? body
  | object [(key, null)] => Quoted.decode? key
  | object [(key, object [])] => Quoted.decode? key
  | _ => none

end NextBuild.Json
