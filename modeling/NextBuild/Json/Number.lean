import NextBuild.Text.Search

/-!
# Numbers of JSON

Numbers are kept as they are written.  An integer is a number without fraction and exponent, where
`-0` does not count.
-/

namespace NextBuild.Json.Number

/-- The digits at the front, with what follows them. -/
def digits (cs : List Char) : List Char × List Char :=
  (cs.takeWhile Char.isDigit, cs.dropWhile Char.isDigit)

/-- The sign at the front. -/
def sign : List Char → List Char × List Char
  | '-' :: r => (['-'], r)
  | cs => ([], cs)

/-- The whole part at the front, which starts with a zero only if it is zero. -/
def whole? (cs : List Char) : Option (List Char × List Char) :=
  match cs with
  | '0' :: r => some (['0'], r)
  | c :: _ => if c.isDigit then some (digits cs) else none
  | [] => none

/-- The fraction at the front, if a dot begins it. -/
def fraction? : List Char → Option (List Char × List Char)
  | '.' :: r =>
    let (ds, rest) := digits r
    if ds.isEmpty then none else some ('.' :: ds, rest)
  | cs => some ([], cs)

/-- The exponent at the front, if a letter begins it. -/
def exponent? (cs : List Char) : Option (List Char × List Char) :=
  match cs with
  | [] => some ([], [])
  | e :: r =>
    if e == 'e' || e == 'E' then
      let (s, r) := match r with
        | '+' :: r => (['+'], r)
        | '-' :: r => (['-'], r)
        | r => ([], r)
      let (ds, rest) := digits r
      if ds.isEmpty then none else some (e :: s ++ ds, rest)
    else some ([], cs)

/-- The number at the front as it is written, with what follows it. -/
def lexeme? (cs : List Char) : Option (List Char × List Char) := do
  let (s, r) := sign cs
  let (w, r) ← whole? r
  let (f, r) ← fraction? r
  let (e, r) ← exponent? r
  return (s ++ w ++ f ++ e, r)

/-- The integer that a number writes. -/
def int? (lexeme : List Char) : Option Int :=
  let (s, ds) := sign lexeme
  if ds.isEmpty || !ds.all Char.isDigit then none
  else
    let n := Text.decimalValue ds
    if s.isEmpty then some n else if n = 0 then none else some (-n)

/-- An integer as it is written. -/
def ofInt (n : Int) : List Char :=
  if n < 0 then '-' :: (toString n.natAbs).toList else (toString n.natAbs).toList

/-- The number is too large for a floating-point number of 64 bits: from the middle between the
largest finite number and 2^1024 on. -/
def overflows (lexeme : List Char) : Bool :=
  let (_, r) := sign lexeme
  let (w, r) := digits r
  let (f, r) := match r with
    | '.' :: r => digits r
    | r => ([], r)
  let (negative, es) := match r with
    | _ :: '-' :: ds => (true, ds)
    | _ :: '+' :: ds => (false, ds)
    | _ :: ds => (false, ds)
    | [] => (false, [])
  let e : Int := if negative then -Text.decimalValue es else Text.decimalValue es
  let ds := (w ++ f).dropWhile (· == '0')
  if ds.isEmpty then false
  else
    -- the number lies between 10^top / 10 and 10^top
    let top : Int := e - f.length + ds.length
    if 310 ≤ top then true
    else if top ≤ 308 then false
    else
      let bound := Nat.pow 2 1024 - Nat.pow 2 970
      let shift := e - f.length
      if 0 ≤ shift then bound ≤ Text.decimalValue ds * Nat.pow 10 shift.toNat
      else bound * Nat.pow 10 (-shift).toNat ≤ Text.decimalValue ds

end NextBuild.Json.Number
