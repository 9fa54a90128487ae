import NextBuild.Failure
import NextBuild.Regex.Meaning
import NextBuild.Text.Blank
import NextBuild.Text.Variables

/-!
# Branch specs

A spec says which reference names are branches to build.  It is a wildcard, in which `*` stays inside
one part of a path and `**` crosses parts, or a regular expression behind a `:`, which matches whole
names.  A wildcard also matches behind the leading parts that references carry; one without a `/`
and without `**` is a plain branch name and matches in every remote.

A spec may refer to variables; then it is read anew for each set of values.
-/

namespace NextBuild

namespace BranchSpec

open Regex (Pattern)

/-- The spec is a plain branch name, which matches in every remote. -/
def isUnqualified (spec : String) : Bool :=
  !Text.contains "**" spec && !Text.hasChar '/' spec

/-- The text of an expression that matches one character. -/
def escaped (c : Char) : List Char :=
  if Regex.Reader.isMeta c then ['\\', c] else [c]

/-- The text of the expression for the characters of a wildcard; `pending` tells that the character
before is a star that has found no other one yet. -/
def translated (pending : Bool) : List Char → List Char
  | [] => if pending then "[^/]*".toList else []
  | c :: r =>
    if c = '*' then
      if pending then ".*".toList ++ translated false r else translated true r
    else (if pending then "[^/]*".toList else []) ++ (escaped c ++ translated false r)

/-- The text of the expression for what may stand before the part that a wildcard describes. -/
def leadText (spec : String) : String :=
  "^(?:refs/heads/" ++
    (if isUnqualified spec then "|refs/remotes/[^/]+/|remotes/[^/]+/|[^/]+/"
     else "|refs/remotes/|remotes/") ++ ")?"

/-- The text of the expression that stands for a wildcard. -/
def wildcardText (spec : String) : String :=
  leadText spec ++ String.ofList (translated false spec.toList) ++ "$"

/-- The body of a spec that is a regular expression. -/
def regexBody? (spec : String) : Option String :=
  match spec.toList with
  | ':' :: c :: r => some (String.ofList (c :: r))
  | _ => none

/-- The text of the expression that a spec stands for, which matches whole names. -/
def expressionText (spec : String) : String :=
  match regexBody? spec with
  | some body => "^(?:" ++ body ++ ")$"
  | none => wildcardText spec

/-- The pattern of a spec without variables.  A fault of its expression is one of the spec; wildcards
have none but that the machine for a long one is too big. -/
def pattern (spec : String) : Except Failure Pattern :=
  (Pattern.ofText (expressionText spec)).mapError fun fault =>
    .invalidBranchSpec spec fault.message

/-- How a spec is matched. -/
inductive Matcher where
  /-- An empty spec matches nothing. -/
  | never
  | fixed (p : Pattern)
  /-- A spec with variables is read at each match. -/
  | deferred
deriving DecidableEq, Repr

/-- How a spec with a given name is matched. -/
def Matcher.ofName (name : String) : Except Failure Matcher :=
  if name.isEmpty then .ok .never
  else if Text.hasReference name then .ok .deferred
  else (pattern name).map .fixed

end BranchSpec

/-- A branch spec. -/
structure BranchSpec where
  /-- The spec as it is written, without blanks around it. -/
  name : String
  /-- How the spec is matched. -/
  matcher : BranchSpec.Matcher
  /-- The name decides how the spec is matched. -/
  matcher_eq : BranchSpec.Matcher.ofName name = .ok matcher

namespace BranchSpec

/-- The spec that a text writes. -/
def ofText (s : String) : Except Failure BranchSpec :=
  match h : Matcher.ofName (Text.trim s) with
  | .ok m => .ok ⟨Text.trim s, m, h⟩
  | .error f => .error f

/-- The name that a text leaves when it is trimmed decides about the spec. -/
theorem ofText_eq_ok {s : String} {m : Matcher} (h : Matcher.ofName (Text.trim s) = .ok m) :
    ofText s = .ok ⟨Text.trim s, m, h⟩ := by
  unfold ofText
  split
  · next d hd =>
    cases hd.symm.trans h
    rfl
  · next d hd => cases hd.symm.trans h

/-- A fault of the name is one of the text. -/
theorem ofText_eq_error {s : String} {f : Failure} (h : Matcher.ofName (Text.trim s) = .error f) :
    ofText s = .error f := by
  unfold ofText
  split
  · next d hd => cases hd.symm.trans h
  · next d hd => rw [Except.error.inj (hd.symm.trans h)]

/-- The specs of a list of texts; the first fault counts. -/
def ofTexts (ss : List String) : Except Failure (List BranchSpec) :=
  ss.mapM ofText

/-- The spec with a name that is known to be one.  No proof evaluates it; see `ofName_eq`. -/
@[irreducible]
def ofName (name : String) (h : (Matcher.ofName name).toBool = true) : BranchSpec :=
  match hm : Matcher.ofName name with
  | .ok m => ⟨name, m, hm⟩
  | .error _ => absurd h (by rw [hm]; exact Bool.false_ne_true)

/-- The name decides about the spec. -/
theorem ofName_eq {name : String} {m : Matcher} (h : (Matcher.ofName name).toBool = true)
    (hm : Matcher.ofName name = .ok m) : ofName name h = ⟨name, m, hm⟩ := by
  unfold ofName
  split
  · next d hd =>
    cases hd.symm.trans hm
    rfl
  · next d hd => cases hd.symm.trans hm

/-- The spec keeps its name. -/
theorem name_ofName {name : String} (h : (Matcher.ofName name).toBool = true) :
    (ofName name h).name = name := by
  unfold ofName
  split
  · rfl
  · next f hf =>
    rw [hf] at h
    cases h

/-- A name without blanks around it writes the spec with this name. -/
theorem ofText_eq_ofName {name : String} (h : (Matcher.ofName name).toBool = true)
    (htrim : Text.trim name = name) : ofText name = .ok (ofName name h) := by
  cases hm : Matcher.ofName name with
  | error f =>
    rw [hm] at h
    cases h
  | ok m =>
    rw [ofText_eq_ok (htrim.symm ▸ hm : Matcher.ofName (Text.trim name) = .ok m), ofName_eq h hm]
    simp [htrim]

/-- The spec of the pointers to the default branches of remotes. -/
def head : BranchSpec := ofName "*/HEAD" (by decide +kernel)

/-- The spec is a regular expression. -/
def isRegex (spec : BranchSpec) : Bool :=
  (regexBody? spec.name).isSome

/-- The spec matches a reference name, with variables replaced by their values. -/
def isMatch (spec : BranchSpec) (env : Text.Environment) (name : String) : Except Failure Bool :=
  match spec.matcher with
  | .never => .ok false
  | .fixed p => .ok (p.isMatch name)
  | .deferred =>
    let expanded := Text.trim (Text.expand env spec.name)
    if expanded.isEmpty then .ok false
    else (pattern expanded).map fun p => p.isMatch name

/-- The names that the spec matches, in their order; the first fault counts. -/
def filter (spec : BranchSpec) (env : Text.Environment) (names : List String) :
    Except Failure (List String) :=
  names.filterM (spec.isMatch env)

/-- Some spec matches the name; specs after the first match are not tried. -/
def anyMatch (specs : List BranchSpec) (env : Text.Environment) (name : String) :
    Except Failure Bool :=
  specs.anyM fun spec => spec.isMatch env name

end BranchSpec

end NextBuild
