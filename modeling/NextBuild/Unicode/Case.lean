import NextBuild.Unicode.Folding
import NextBuild.Unicode.Property

/-!
# Characters that change with case

Which characters have another form in small letters, in capital letters, as the begin of a title or
when case is folded.  Most of them have a character for the other form, which folding tells; a few
have a sequence of characters for it and are listed.
-/

namespace NextBuild.Unicode

/-- The characters without other cases of their own for which a sequence of characters stands. -/
def sequenceCaseSpans : Spans := [
  (0x130, 0x131), (0x149, 0x149), (0x1F0, 0x1F0), (0x390, 0x390), (0x3B0, 0x3B0), (0x587, 0x587),
  (0x1E96, 0x1E9A), (0x1F50, 0x1F50), (0x1F52, 0x1F52), (0x1F54, 0x1F54), (0x1F56, 0x1F56),
  (0x1FB2, 0x1FB2), (0x1FB4, 0x1FB4), (0x1FB6, 0x1FB7), (0x1FC2, 0x1FC2), (0x1FC4, 0x1FC4),
  (0x1FC6, 0x1FC7), (0x1FD2, 0x1FD3), (0x1FD6, 0x1FD7), (0x1FE2, 0x1FE4), (0x1FE6, 0x1FE7),
  (0x1FF2, 0x1FF2), (0x1FF4, 0x1FF4), (0x1FF6, 0x1FF7), (0xFB00, 0xFB06), (0xFB13, 0xFB17)]

/-- The characters that do not fold to a character but to a sequence of characters. -/
def sequenceFoldSpans : Spans := [
  (0xDF, 0xDF), (0x130, 0x130), (0x149, 0x149), (0x587, 0x587), (0x1E9A, 0x1E9A),
  (0x1F80, 0x1F87), (0x1F90, 0x1F97), (0x1FA0, 0x1FA7), (0x1FB2, 0x1FB4), (0x1FB7, 0x1FB7),
  (0x1FC2, 0x1FC4), (0x1FC7, 0x1FC7), (0x1FF2, 0x1FF4), (0x1FF7, 0x1FF7), (0xFB00, 0xFB06),
  (0xFB13, 0xFB17)]

/-- The capital digraphs, of which a title keeps only the first half capital. -/
def titleDigraphSpans : Spans := [(0x1C4, 0x1C4), (0x1C7, 0x1C7), (0x1CA, 0x1CA), (0x1F1, 0x1F1)]

/-- The small letters with capitals that titles do not use. -/
def untitledSpans : Spans := [(0x10D0, 0x10FA), (0x10FD, 0x10FF)]

/-- The punctuation marks inside of words, which do not count for case. -/
def midWordSpans : Spans := [
  (0x27, 0x27), (0x2E, 0x2E), (0x3A, 0x3A), (0xB7, 0xB7), (0x387, 0x387), (0x55F, 0x55F),
  (0x5F4, 0x5F4), (0x2018, 0x2019), (0x2024, 0x2024), (0x2027, 0x2027), (0xFE13, 0xFE13),
  (0xFE52, 0xFE52), (0xFE55, 0xFE55), (0xFF07, 0xFF07), (0xFF0E, 0xFF0E), (0xFF1A, 0xFF1A)]

/-- The characters with a dot that another accent replaces. -/
def softDottedSpans : Spans := [
  (0x69, 0x6A), (0x12F, 0x12F), (0x249, 0x249), (0x268, 0x268), (0x29D, 0x29D), (0x2B2, 0x2B2),
  (0x3F3, 0x3F3), (0x456, 0x456), (0x458, 0x458), (0x1D62, 0x1D62), (0x1D96, 0x1D96),
  (0x1DA4, 0x1DA4), (0x1DA8, 0x1DA8), (0x1E2D, 0x1E2D), (0x1ECB, 0x1ECB), (0x2071, 0x2071),
  (0x2148, 0x2149), (0x2C7C, 0x2C7C), (0x1D422, 0x1D423), (0x1D456, 0x1D457), (0x1D48A, 0x1D48B),
  (0x1D4BE, 0x1D4BF), (0x1D4F2, 0x1D4F3), (0x1D526, 0x1D527), (0x1D55A, 0x1D55B),
  (0x1D58E, 0x1D58F), (0x1D5C2, 0x1D5C3), (0x1D5F6, 0x1D5F7), (0x1D62A, 0x1D62B),
  (0x1D65E, 0x1D65F), (0x1D692, 0x1D693), (0x1DF1A, 0x1DF1A), (0x1E04C, 0x1E04D),
  (0x1E068, 0x1E068)]

/-- The character has a case. -/
def isCased (c : Char) : Bool :=
  isLowercase c || isUppercase c || category c == "Lt"

/-- The character does not count for the case of the characters around it. -/
def isCaseIgnorable (c : Char) : Bool :=
  ["Mn", "Me", "Cf", "Lm", "Sk"].contains (category c) || midWordSpans.has c

/-- The character has another form in another case. -/
def changesCase (c : Char) : Bool :=
  1 < (caseVariants c).length || sequenceCaseSpans.has c

/-- The character has another form in small letters. -/
def changesWhenLowercased (c : Char) : Bool :=
  changesCase c && !isLowercase c

/-- The character has another form in capital letters. -/
def changesWhenUppercased (c : Char) : Bool :=
  changesCase c && !isUppercase c

/-- The character has another form at the begin of a title. -/
def changesWhenTitlecased (c : Char) : Bool :=
  titleDigraphSpans.has c
    || (changesWhenUppercased c && category c != "Lt" && !untitledSpans.has c)

/-- The character has another form when case is folded. -/
def changesWhenCasefolded (c : Char) : Bool :=
  (folded c.toNat != c.toNat && c.toNat != 0x1FBE) || sequenceFoldSpans.has c

/-- The character has a dot that another accent replaces. -/
def isSoftDotted (c : Char) : Bool :=
  softDottedSpans.has c

end NextBuild.Unicode
