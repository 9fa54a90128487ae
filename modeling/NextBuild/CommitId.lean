import NextBuild.Text.Blank
import NextBuild.Text.Search

/-!
# Commit ids

A commit id is its full text of 40 or 64 small hexadecimal digits; this is part of the type, so an
id read from its own text is the same id.  Capital digits are accepted by the reader and made
small.
-/

namespace NextBuild

/-- The characters are a full commit id: 40 or 64 small hexadecimal digits. -/
def isCommitText (cs : List Char) : Bool :=
  (cs.length == 40 || cs.length == 64) && cs.all (fun c => c.isDigit || ('a' ≤ c && c ≤ 'f'))

/-- The full id of a commit. -/
structure CommitId where
  /-- The digits of the id. -/
  text : String
  /-- The text is a full id. -/
  wellFormed : isCommitText text.toList = true
deriving DecidableEq

namespace CommitId

/-- The id that a text writes, with blanks around it and capital digits allowed. -/
def ofText? (s : String) : Option CommitId :=
  let low := (Text.trimChars s.toList).map Char.toLower
  if h : isCommitText low then some ⟨String.ofList low, by rw [String.toList_ofList]; exact h⟩
  else none

/-- The first seven digits. -/
def short (c : CommitId) : String :=
  String.ofList (c.text.toList.take 7)

/-- The id names an object of a repository, whose ids have 40 digits. -/
def isObjectId (c : CommitId) : Bool :=
  c.text.toList.length == 40

/-- Ids in the order of their digits. -/
def lt (a b : CommitId) : Bool :=
  decide (a.text < b.text)

/-- Six to forty digits or small letters up to `f`: a target that is taken for an abbreviated id. -/
def looksLikeAbbreviation (s : String) : Bool :=
  6 ≤ s.utf8ByteSize && s.utf8ByteSize ≤ 40
    && s.toList.all (fun c => c.isDigit || ('a' ≤ c && c ≤ 'f'))

/-- The digits of the bytes of a label, cut off or filled up with zeros to forty. -/
def labelDigits (label : String) : List Char :=
  let digits := label.toUTF8.toList.flatMap fun b =>
    [Text.hexDigit (b.toNat / 16), Text.hexDigit (b.toNat % 16)]
  digits.take 40 ++ List.replicate (40 - digits.length) '0'

/-- The id made from a short label, for graphs that are not read from a repository. -/
def ofLabel? (label : String) : Option CommitId :=
  ofText? (String.ofList (labelDigits label))

end CommitId

end NextBuild
