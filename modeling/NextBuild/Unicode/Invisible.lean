import NextBuild.Unicode.Property

/-!
# Characters that belong to others or are not seen

Marks that extend the character before them, and characters that control how text is shown without
being shown themselves.
-/

namespace NextBuild.Unicode

/-- The characters that extend others and are no marks without a width. -/
def otherExtendSpans : Spans := [
  (0x9BE, 0x9BE), (0x9D7, 0x9D7), (0xB3E, 0xB3E), (0xB57, 0xB57), (0xBBE, 0xBBE), (0xBD7, 0xBD7),
  (0xCC2, 0xCC2), (0xCD5, 0xCD6), (0xD3E, 0xD3E), (0xD57, 0xD57), (0xDCF, 0xDCF), (0xDDF, 0xDDF),
  (0x1B35, 0x1B35), (0x200C, 0x200C), (0x302E, 0x302F), (0xFF9E, 0xFF9F), (0x1133E, 0x1133E),
  (0x11357, 0x11357), (0x114B0, 0x114B0), (0x114BD, 0x114BD), (0x115AF, 0x115AF),
  (0x11930, 0x11930), (0x1D165, 0x1D165), (0x1D16E, 0x1D172), (0xE0020, 0xE007F)]

/-- The marks that take away a vowel or join consonants. -/
def viramaSpans : Spans := [
  (0x94D, 0x94D), (0x9CD, 0x9CD), (0xA4D, 0xA4D), (0xACD, 0xACD), (0xB4D, 0xB4D), (0xBCD, 0xBCD),
  (0xC4D, 0xC4D), (0xCCD, 0xCCD), (0xD3B, 0xD3C), (0xD4D, 0xD4D), (0xDCA, 0xDCA), (0xE3A, 0xE3A),
  (0xEBA, 0xEBA), (0xF84, 0xF84), (0x1039, 0x103A), (0x1714, 0x1715), (0x1734, 0x1734),
  (0x17D2, 0x17D2), (0x1A60, 0x1A60), (0x1B44, 0x1B44), (0x1BAA, 0x1BAB), (0x1BF2, 0x1BF3),
  (0x2D7F, 0x2D7F), (0xA806, 0xA806), (0xA82C, 0xA82C), (0xA8C4, 0xA8C4), (0xA953, 0xA953),
  (0xA9C0, 0xA9C0), (0xAAF6, 0xAAF6), (0xABED, 0xABED), (0x10A3F, 0x10A3F), (0x11046, 0x11046),
  (0x11070, 0x11070), (0x1107F, 0x1107F), (0x110B9, 0x110B9), (0x11133, 0x11134),
  (0x111C0, 0x111C0), (0x11235, 0x11235), (0x112EA, 0x112EA), (0x1134D, 0x1134D),
  (0x11442, 0x11442), (0x114C2, 0x114C2), (0x115BF, 0x115BF), (0x1163F, 0x1163F),
  (0x116B6, 0x116B6), (0x1172B, 0x1172B), (0x11839, 0x11839), (0x1193D, 0x1193E),
  (0x119E0, 0x119E0), (0x11A34, 0x11A34), (0x11A47, 0x11A47), (0x11A99, 0x11A99),
  (0x11C3F, 0x11C3F), (0x11D44, 0x11D45), (0x11D97, 0x11D97), (0x11F41, 0x11F42)]

/-- The characters that set the direction of writing. -/
def bidiControlSpans : Spans := [
  (0x61C, 0x61C), (0x200E, 0x200F), (0x202A, 0x202E), (0x2066, 0x2069)]

/-- The characters that select a form of the character before them. -/
def variationSpans : Spans := [
  (0x180B, 0x180D), (0x180F, 0x180F), (0xFE00, 0xFE0F), (0xE0100, 0xE01EF)]

/-- The format characters that stand before the digits they belong to. -/
def leadingMarkSpans : Spans := [
  (0x600, 0x605), (0x6DD, 0x6DD), (0x70F, 0x70F), (0x890, 0x891), (0x8E2, 0x8E2),
  (0x110BD, 0x110BD), (0x110CD, 0x110CD)]

/-- The characters that are not shown and are neither format characters nor select forms. -/
def otherIgnorableSpans : Spans := [
  (0x34F, 0x34F), (0x115F, 0x1160), (0x17B4, 0x17B5), (0x2065, 0x2065), (0x3164, 0x3164),
  (0xFFA0, 0xFFA0), (0xFFF0, 0xFFF8), (0xE0000, 0xE0000), (0xE0002, 0xE001F), (0xE0080, 0xE00FF),
  (0xE01F0, 0xE0FFF)]

/-- The format characters that are shown, besides those that stand before digits. -/
def shownFormatSpans : Spans := [(0xFFF9, 0xFFFB), (0x13430, 0x1343F)]

/-- The characters that should not be used any more. -/
def deprecatedSpans : Spans := [
  (0x149, 0x149), (0x673, 0x673), (0xF77, 0xF77), (0xF79, 0xF79), (0x17A3, 0x17A4),
  (0x206A, 0x206F), (0x2329, 0x232A), (0xE0001, 0xE0001)]

/-- The vowels that are written before their consonants. -/
def logicalOrderSpans : Spans := [
  (0xE40, 0xE44), (0xEC0, 0xEC4), (0x19B5, 0x19B7), (0x19BA, 0x19BA), (0xAAB5, 0xAAB6),
  (0xAAB9, 0xAAB9), (0xAABB, 0xAABC)]

/-- The character extends the one before it. -/
def isGraphemeExtend (c : Char) : Bool :=
  ["Mn", "Me"].contains (category c) || otherExtendSpans.has c

/-- The character can stand for itself. -/
def isGraphemeBase (c : Char) : Bool :=
  !(["Cc", "Cf", "Co", "Cn", "Zl", "Zp"].contains (category c) || isGraphemeExtend c)

/-- The character takes away a vowel or joins consonants. -/
def isGraphemeLink (c : Char) : Bool :=
  viramaSpans.has c

/-- The character sets the direction of writing. -/
def isBidiControl (c : Char) : Bool :=
  bidiControlSpans.has c

/-- The character joins or separates its neighbours. -/
def isJoinControl (c : Char) : Bool :=
  c.toNat == 0x200C || c.toNat == 0x200D

/-- The character selects a form of the one before it. -/
def isVariationSelector (c : Char) : Bool :=
  variationSpans.has c

/-- The character stands before the digits it belongs to. -/
def isLeadingMark (c : Char) : Bool :=
  leadingMarkSpans.has c

/-- The character is not shown where it is not supported. -/
def isDefaultIgnorable (c : Char) : Bool :=
  otherIgnorableSpans.has c || isVariationSelector c
    || (category c == "Cf" && !shownFormatSpans.has c && !isLeadingMark c)

/-- The character should not be used any more. -/
def isDeprecated (c : Char) : Bool :=
  deprecatedSpans.has c

/-- The character is a vowel that is written before its consonant. -/
def isLogicalOrderException (c : Char) : Bool :=
  logicalOrderSpans.has c

/-- The code point never becomes a character: the last two of each plane, and a range of its own. -/
def isNoncharacter (c : Char) : Bool :=
  0xFFFE ≤ c.toNat % 0x10000 || (0xFDD0 ≤ c.toNat && c.toNat ≤ 0xFDEF)

end NextBuild.Unicode
