import NextBuild.Unicode.Category

/-!
# Characters of identifiers

With which characters identifiers begin and go on, by default and in the form that keeps identifiers
closed under normalization, and which characters are kept for the punctuation of languages.
-/

namespace NextBuild.Unicode

/-- The characters that are kept for the punctuation of languages. -/
def patternSyntaxSpans : Spans := [
  (0x21, 0x2F), (0x3A, 0x40), (0x5B, 0x5E), (0x60, 0x60), (0x7B, 0x7E), (0xA1, 0xA7),
  (0xA9, 0xA9), (0xAB, 0xAC), (0xAE, 0xAE), (0xB0, 0xB1), (0xB6, 0xB6), (0xBB, 0xBB),
  (0xBF, 0xBF), (0xD7, 0xD7), (0xF7, 0xF7), (0x2010, 0x2027), (0x2030, 0x203E), (0x2041, 0x2053),
  (0x2055, 0x205E), (0x2190, 0x245F), (0x2500, 0x2775), (0x2794, 0x2BFF), (0x2E00, 0x2E7F),
  (0x3001, 0x3003), (0x3008, 0x3020), (0x3030, 0x3030), (0xFD3E, 0xFD3F), (0xFE45, 0xFE46)]

/-- The characters that languages may take for blanks. -/
def patternWhiteSpaceSpans : Spans := [
  (0x9, 0xD), (0x20, 0x20), (0x85, 0x85), (0x200E, 0x200F), (0x2028, 0x2029)]

/-- The characters that begin identifiers, but are no letters. -/
def otherStartSpans : Spans := [
  (0x1885, 0x1886), (0x2118, 0x2118), (0x212E, 0x212E), (0x309B, 0x309C)]

/-- The characters that only go on with identifiers and have no category of such. -/
def otherContinueSpans : Spans := [(0xB7, 0xB7), (0x387, 0x387), (0x1369, 0x1371), (0x19DA, 0x19DA)]

/-- The characters whose compatible forms do not begin identifiers. -/
def unstableStartSpans : Spans := [
  (0x37A, 0x37A), (0xE33, 0xE33), (0xEB3, 0xEB3), (0x309B, 0x309C), (0xFC5E, 0xFC63),
  (0xFDFA, 0xFDFB), (0xFE70, 0xFE70), (0xFE72, 0xFE72), (0xFE74, 0xFE74), (0xFE76, 0xFE76),
  (0xFE78, 0xFE78), (0xFE7A, 0xFE7A), (0xFE7C, 0xFE7C), (0xFE7E, 0xFE7E), (0xFF9E, 0xFF9F)]

/-- The characters whose compatible forms do not go on with identifiers. -/
def unstableContinueSpans : Spans := [
  (0x37A, 0x37A), (0x309B, 0x309C), (0xFC5E, 0xFC63), (0xFDFA, 0xFDFB), (0xFE70, 0xFE70),
  (0xFE72, 0xFE72), (0xFE74, 0xFE74), (0xFE76, 0xFE76), (0xFE78, 0xFE78), (0xFE7A, 0xFE7A),
  (0xFE7C, 0xFE7C), (0xFE7E, 0xFE7E)]

/-- The character is kept for the punctuation of languages. -/
def isPatternSyntax (c : Char) : Bool :=
  patternSyntaxSpans.has c

/-- The character may be a blank of languages. -/
def isPatternWhiteSpace (c : Char) : Bool :=
  patternWhiteSpaceSpans.has c

/-- An identifier may begin with the character. -/
def isIdentifierStart (c : Char) : Bool :=
  (["Lu", "Ll", "Lt", "Lm", "Lo", "Nl"].contains (category c) && !isPatternSyntax c)
    || otherStartSpans.has c

/-- An identifier may go on with the character. -/
def isIdentifierContinue (c : Char) : Bool :=
  isIdentifierStart c || otherContinueSpans.has c
    || (["Mn", "Mc", "Nd", "Pc"].contains (category c) && !isPatternSyntax c)

/-- An identifier may begin with the character, also in compatible forms. -/
def isStableIdentifierStart (c : Char) : Bool :=
  isIdentifierStart c && !unstableStartSpans.has c

/-- An identifier may go on with the character, also in compatible forms. -/
def isStableIdentifierContinue (c : Char) : Bool :=
  isIdentifierContinue c && !unstableContinueSpans.has c

end NextBuild.Unicode
