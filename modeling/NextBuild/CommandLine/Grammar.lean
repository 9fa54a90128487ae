import NextBuild.CommandLine.Usage
import NextBuild.Text.Search
import NextBuild.Text.Variables

/-!
# The grammar of a command line

The words of a command line are read from left to right.  An option takes its value from the same
word or from the next one; its value is looked at only when the next option or operand begins, or at
the end.  So of several faults the one counts that is met first in this order.
-/

namespace NextBuild

/-- What an option takes. -/
inductive ValueKind where
  /-- Nothing: the option is said or not. -/
  | flag
  | text
  /-- A text that is not empty. -/
  | path
  /-- A signed number of 64 bits. -/
  | signed
  /-- An unsigned number of 64 bits. -/
  | unsigned
deriving DecidableEq, Repr

namespace ValueKind

/-- The number that decimal digits write. -/
def natural? (digits : List Char) : Option Nat :=
  if digits.isEmpty || !digits.all Char.isDigit then none else some (Text.decimalValue digits)

/-- The integer of a text: digits behind at most one sign. -/
def integer? (s : String) : Option Int :=
  match s.toList with
  | '-' :: digits => (natural? digits).map fun n => -n
  | '+' :: digits => (natural? digits).map Int.ofNat
  | digits => (natural? digits).map Int.ofNat

/-- The signed number of a text. -/
def signed? (s : String) : Option Int :=
  (integer? s).filter fun n => Int64.minValue.toInt ≤ n && n ≤ Int64.maxValue.toInt

/-- The unsigned number of a text, which has no minus sign. -/
def unsigned? (s : String) : Option UInt64 :=
  if Text.startsWith "-" s then none
  else ((integer? s).filter fun n : Int => n < UInt64.size).map fun n => UInt64.ofNat n.toNat

/-- What is wrong with a value for an option of the kind. -/
def fault? (option value : String) : ValueKind → Option UsageFault
  | flag | text => none
  | path => if value.isEmpty then some (.missingValue option) else none
  | signed => if (signed? value).isSome then none else some (.invalidValue option value)
  | unsigned => if (unsigned? value).isSome then none else some (.invalidValue option value)

end ValueKind

/-- An option or an operand of a command. -/
structure OptionForm where
  name : String
  letter : Option Char := none
  kind : ValueKind := .text
  /-- It may be given more than once. -/
  isRepeatable : Bool := false
  /-- The next word is its value also if it is a negative number. -/
  takesNegative : Bool := false
  /-- The variable that holds the value if none is given. -/
  standIn : Option String := none
  isRequired : Bool := false
  /-- What is answered instead if the option is met. -/
  stop? : Option UsageFault := none

/-- The options, operands and commands that may follow a command. -/
structure CommandForm where
  name : String
  options : List OptionForm := []
  operands : List OptionForm := []
  /-- The names of the commands below it. -/
  commands : List String := []

/-- How far the words of a command are read. -/
structure Reading where
  /-- The names of what was given with the values, in their order. -/
  given : List (String × String) := []
  /-- What was begun last, with its value as soon as it is there. -/
  pending : Option (OptionForm × Option String) := none
  /-- The operands that are not given yet. -/
  operands : List OptionForm := []

namespace Reading

/-- Something was given under this name. -/
def has (s : Reading) (name : String) : Bool :=
  s.given.any fun e => e.1 == name

/-- The option that waits for its value. -/
def awaiting? (s : Reading) : Option OptionForm :=
  match s.pending with
  | some (o, none) => some o
  | _ => none

/-- Add a value. -/
def add (s : Reading) (o : OptionForm) (value : String) : Except UsageFault Reading :=
  if s.has o.name && !o.isRepeatable then .error (.repeated o.name)
  else match o.kind.fault? o.name value with
    | some fault => .error fault
    | none => .ok { s with given := s.given ++ [(o.name, value)] }

/-- Add what is pending. -/
def settle (s : Reading) : Except UsageFault Reading :=
  match s.pending with
  | none => .ok s
  | some (o, none) => .error (.missingValue o.name)
  | some (o, some value) => { s with pending := none }.add o value

/-- Meet an option without a value in its word. -/
def begin (s : Reading) (o : OptionForm) : Except UsageFault Reading := do
  let s ← s.settle
  match o.stop?, o.kind with
  | some fault, _ => throw fault
  | none, .flag => s.add o ""
  | none, _ => return { s with pending := some (o, none) }

/-- Meet an option with its value. -/
def take (s : Reading) (o : OptionForm) (value : String) : Except UsageFault Reading := do
  (← s.settle).add o value

/-- Read the word of an option by its name, behind the dashes. -/
def readLong (form : CommandForm) (s : Reading) (body : List Char) : Except UsageFault Reading :=
  let (name, value) := match Text.splitAtFirst? '=' body with
    | some (name, value) => (String.ofList name, some (String.ofList value))
    | none => (String.ofList body, none)
  match form.options.find? (·.name == name), value with
  | none, _ => .error (.unknownArgument ("--" ++ name))
  | some o, none => s.begin o
  | some o, some v => if o.kind = .flag then .error (.needlessValue name) else s.take o v

/-- Read a word of options by their letters, of which the last may take the rest as its value. -/
def readLetters (form : CommandForm) : Reading → List Char → Except UsageFault Reading
  | s, [] => .ok s
  | s, c :: r => match form.options.find? (·.letter == some c) with
    | none => .error (.unknownArgument (String.ofList ['-', c]))
    | some o =>
      if o.kind = .flag then do readLetters form (← s.begin o) r
      else match r with
        | [] => s.begin o
        | '=' :: value => s.take o (String.ofList value)
        | value => s.take o (String.ofList value)

/-- The characters are a number without its sign: digits with at most one point, not in front, and
after that at most one `e`, neither in front nor at the end. -/
def isUnsignedDecimal (cs : List Char) : Bool :=
  let mantissa := cs.takeWhile (· != 'e')
  let exponent := cs.dropWhile (· != 'e')
  let whole := mantissa.takeWhile (· != '.')
  let point := mantissa.dropWhile (· != '.')
  whole.all Char.isDigit && (point.drop 1).all Char.isDigit && (point.isEmpty || !whole.isEmpty)
    && (exponent.isEmpty || (!mantissa.isEmpty && 1 < exponent.length
      && (exponent.drop 1).all Char.isDigit))

/-- Read a word as an operand.  Behind a `--` the name of a command is an argument as any other. -/
def readOperand (form : CommandForm) (trailing : Bool) (s : Reading) (word : String) :
    Except UsageFault Reading :=
  match s.operands with
  | o :: operands => do return { ← s.settle with pending := some (o, some word), operands }
  | [] =>
    if form.commands.isEmpty || (trailing && form.commands.contains word) then
      .error (.unknownArgument word)
    else .error (.unknownCommand word)

/-- Read a word that begins with no dash, or with a number that an option waits for. -/
def readPlain (form : CommandForm) (s : Reading) (word : String) : Except UsageFault Reading :=
  match s.awaiting? with
  | some o => .ok { s with pending := some (o, some word) }
  | none => s.readOperand form false word

/-- Read a word other than a lone `--`. -/
def readWord (form : CommandForm) (s : Reading) (word : String) : Except UsageFault Reading :=
  match word.toList with
  | '-' :: '-' :: body => s.readLong form body
  | '-' :: c :: r =>
    if s.awaiting?.any (·.takesNegative) && isUnsignedDecimal (c :: r) then s.readPlain form word
    else s.readLetters form (c :: r)
  | _ => s.readPlain form word

/-- Read words up to the name of a command below, which is answered with the words behind it.  Behind
a `--` every word is an operand. -/
def readWords (form : CommandForm) :
    Bool → List String → Reading → Except UsageFault (Reading × Option (String × List String))
  | _, [], s => .ok (s, none)
  | true, w :: ws, s => do readWords form true ws (← s.readOperand form true w)
  | false, w :: ws, s =>
    if s.awaiting?.isNone && form.commands.contains w then .ok (s, some (w, ws))
    else if w = "--" then readWords form true ws s
    else do readWords form false ws (← s.readWord form w)

end Reading

namespace CommandForm

/-- What is wrong with the variables that stand in for options that are not given. -/
def variableFault? (form : CommandForm) (env : Text.Environment) (s : Reading) :
    Option UsageFault :=
  form.options.findSome? fun o => do
    if s.has o.name then none
    else o.kind.fault? o.name (← env.lookup (← o.standIn))

/-- Add what is pending and look at the variables. -/
def complete (form : CommandForm) (env : Text.Environment) (s : Reading) :
    Except UsageFault Reading := do
  let s ← s.settle
  match form.variableFault? env s with
  | some fault => throw fault
  | none => return s

/-- Some option is given by a variable. -/
def hasVariable (form : CommandForm) (env : Text.Environment) : Bool :=
  form.options.any fun o => (o.standIn.bind fun name => env.lookup name).isSome

/-- The first option or operand that is required and not given. -/
def missing? (form : CommandForm) (s : Reading) : Option String :=
  ((form.operands ++ form.options).find? fun o => o.isRequired && !s.has o.name).map (·.name)

/-- Read all words of a command without commands below it. -/
def read (form : CommandForm) (env : Text.Environment) (words : List String) :
    Except UsageFault Reading := do
  let (s, _) ← Reading.readWords form false words { operands := form.operands }
  let s ← form.complete env s
  match form.missing? s with
  | some name => throw (.missingArgument name)
  | none => return s

end CommandForm

end NextBuild
