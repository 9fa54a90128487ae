import NextBuild.Unicode.Runs

/-!
# Ideographs

Characters that stand for words, their parts, and the characters that describe how they are put
together.
-/

namespace NextBuild.Unicode

/-- The ideographs. -/
def ideographSpans : Spans := [
  (0x3006, 0x3007), (0x3021, 0x3029), (0x3038, 0x303A), (0x3400, 0x4DBF), (0x4E00, 0x9FFF),
  (0xF900, 0xFA6D), (0xFA70, 0xFAD9), (0x16FE4, 0x16FE4), (0x17000, 0x187F7), (0x18800, 0x18CD5),
  (0x18D00, 0x18D08), (0x1B170, 0x1B2FB), (0x20000, 0x2A6DF), (0x2A700, 0x2B739),
  (0x2B740, 0x2B81D), (0x2B820, 0x2CEA1), (0x2CEB0, 0x2EBE0), (0x2F800, 0x2FA1D),
  (0x30000, 0x3134A), (0x31350, 0x323AF)]

/-- The ideographs that the scripts of several languages share. -/
def unifiedIdeographSpans : Spans := [
  (0x3400, 0x4DBF), (0x4E00, 0x9FFF), (0xFA0E, 0xFA0F), (0xFA11, 0xFA11), (0xFA13, 0xFA14),
  (0xFA1F, 0xFA1F), (0xFA21, 0xFA21), (0xFA23, 0xFA24), (0xFA27, 0xFA29), (0x20000, 0x2A6DF),
  (0x2A700, 0x2B739), (0x2B740, 0x2B81D), (0x2B820, 0x2CEA1), (0x2CEB0, 0x2EBE0),
  (0x30000, 0x3134A), (0x31350, 0x323AF)]

/-- The parts by which ideographs are ordered. -/
def radicalSpans : Spans := [(0x2E80, 0x2E99), (0x2E9B, 0x2EF3), (0x2F00, 0x2FD5)]

/-- The character is an ideograph. -/
def isIdeograph (c : Char) : Bool :=
  ideographSpans.has c

/-- The character is an ideograph that the scripts of several languages share. -/
def isUnifiedIdeograph (c : Char) : Bool :=
  unifiedIdeographSpans.has c

/-- The character is a part by which ideographs are ordered. -/
def isRadical (c : Char) : Bool :=
  radicalSpans.has c

/-- The character puts three parts of an ideograph together. -/
def joinsThreeParts (c : Char) : Bool :=
  c.toNat == 0x2FF2 || c.toNat == 0x2FF3

/-- The character puts two parts of an ideograph together. -/
def joinsTwoParts (c : Char) : Bool :=
  0x2FF0 ≤ c.toNat && c.toNat ≤ 0x2FFB && !joinsThreeParts c

end NextBuild.Unicode
