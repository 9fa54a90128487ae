import NextBuild.Text.Blank
import NextBuild.Unicode.Emoji
import NextBuild.Unicode.Ideograph
import NextBuild.Unicode.Invisible
import NextBuild.Unicode.Punctuation
import NextBuild.Unicode.Script

/-!
# Boundaries in texts

The classes of characters by which texts are divided into the characters that a reader sees, into
words and into sentences.  Most classes follow from categories and scripts; what does not follow is
listed.
-/

namespace NextBuild.Unicode

/-- What a character does at the boundary of a character that a reader sees. -/
inductive GraphemeClass where
  | carriageReturn
  | lineFeed
  | control
  | extend
  | joiner
  | flagLetter
  | leading
  | spacingMark
  | hangulInitial
  | hangulVowel
  | hangulFinal
  | hangulOpen
  | hangulClosed
  | other
deriving DecidableEq, Repr

/-- What a character does at the boundary of a word. -/
inductive WordClass where
  | carriageReturn
  | lineFeed
  | newline
  | extend
  | joiner
  | format
  | flagLetter
  | katakana
  | hebrewLetter
  | letter
  | singleQuote
  | doubleQuote
  | midNumberOrLetter
  | midLetter
  | midNumber
  | numeric
  | connector
  | blank
  | other
deriving DecidableEq, Repr

/-- What a character does at the boundary of a sentence. -/
inductive SentenceClass where
  | carriageReturn
  | lineFeed
  | extend
  | separator
  | format
  | blank
  | lower
  | upper
  | letter
  | numeric
  | fullStop
  | continuation
  | terminator
  | closing
  | other
deriving DecidableEq, Repr

namespace GraphemeClass

/-- The code points without a character that are not shown. -/
def hiddenSpans : Spans := [
  (0x2065, 0x2065), (0xFFF0, 0xFFF8), (0xE0000, 0xE0000), (0xE0002, 0xE001F), (0xE0080, 0xE00FF),
  (0xE01F0, 0xE0FFF)]

/-- The letters that lead others, besides the marks that stand before digits. -/
def leadingSpans : Spans := [
  (0xD4E, 0xD4E), (0x111C2, 0x111C3), (0x1193F, 0x1193F), (0x11941, 0x11941), (0x11A3A, 0x11A3A),
  (0x11A84, 0x11A89), (0x11D46, 0x11D46), (0x11F02, 0x11F02)]

/-- The marks with a width that begin a new character. -/
def separateMarkSpans : Spans := [
  (0x102B, 0x102C), (0x1038, 0x1038), (0x1062, 0x1064), (0x1067, 0x106D), (0x1083, 0x1083),
  (0x1087, 0x108C), (0x108F, 0x108F), (0x109A, 0x109C), (0x1A61, 0x1A61), (0x1A63, 0x1A64),
  (0xAA7B, 0xAA7B), (0xAA7D, 0xAA7D), (0x11720, 0x11721)]

/-- The class of a letter of Hangul. -/
def ofHangul? (n : Nat) : Option GraphemeClass :=
  if (0x1100 ≤ n && n ≤ 0x115F) || (0xA960 ≤ n && n ≤ 0xA97C) then some hangulInitial
  else if (0x1160 ≤ n && n ≤ 0x11A7) || (0xD7B0 ≤ n && n ≤ 0xD7C6) then some hangulVowel
  else if (0x11A8 ≤ n && n ≤ 0x11FF) || (0xD7CB ≤ n && n ≤ 0xD7FB) then some hangulFinal
  else if 0xAC00 ≤ n && n ≤ 0xD7A3 then
    some (if (n - 0xAC00) % 28 = 0 then hangulOpen else hangulClosed)
  else none

/-- The class of a character. -/
def of (c : Char) : GraphemeClass :=
  if c == '\r' then carriageReturn
  else if c == '\n' then lineFeed
  else if isGraphemeExtend c || isEmojiModifier c then extend
  else if c.toNat == 0x200D then joiner
  else if isRegionalIndicator c then flagLetter
  else if isLeadingMark c || leadingSpans.has c then leading
  else if ["Zl", "Zp", "Cc", "Cf"].contains (category c) || hiddenSpans.has c then control
  else if (category c == "Mc" && !separateMarkSpans.has c) || c.toNat == 0xE33 || c.toNat == 0xEB3
    then spacingMark
  else (ofHangul? c.toNat).getD other

/-- The names of the classes, in small letters. -/
def names : List (List String × GraphemeClass) := [
  (["cr"], carriageReturn), (["lf"], lineFeed), (["cn", "control"], control),
  (["ex", "extend"], extend), (["zwj"], joiner), (["ri", "regionalindicator"], flagLetter),
  (["pp", "prepend"], leading), (["sm", "spacingmark"], spacingMark), (["l"], hangulInitial),
  (["v"], hangulVowel), (["t"], hangulFinal), (["lv"], hangulOpen), (["lvt"], hangulClosed)]

end GraphemeClass

namespace WordClass

/-- The characters of words that are no letters. -/
def otherLetterSpans : Spans := [
  (0x2C2, 0x2C5), (0x2D2, 0x2D7), (0x2DE, 0x2DF), (0x2E5, 0x2EB), (0x2ED, 0x2ED), (0x2EF, 0x2FF),
  (0x55A, 0x55C), (0x55E, 0x55E), (0x58A, 0x58A), (0x5F3, 0x5F3), (0xA708, 0xA716),
  (0xA720, 0xA721), (0xA789, 0xA78A), (0xAB5B, 0xAB5B)]

/-- The scripts that write no blanks between words. -/
def unspacedScripts : List String :=
  ["Thai", "Laoo", "Mymr", "Khmr", "Tale", "Talu", "Lana", "Tavt", "Ahom", "Hira"]

/-- The characters of several scripts that are used like Katakana. -/
def otherKatakanaSpans : Spans := [
  (0x3031, 0x3035), (0x309B, 0x309C), (0x30A0, 0x30A0), (0x30FC, 0x30FC), (0xFF70, 0xFF70)]

/-- The marks inside of words. -/
def midLetterSpans : Spans := [
  (0x3A, 0x3A), (0xB7, 0xB7), (0x387, 0x387), (0x55F, 0x55F), (0x5F4, 0x5F4), (0x2027, 0x2027),
  (0xFE13, 0xFE13), (0xFE55, 0xFE55), (0xFF1A, 0xFF1A)]

/-- The marks inside of numbers. -/
def midNumberSpans : Spans := [
  (0x2C, 0x2C), (0x3B, 0x3B), (0x37E, 0x37E), (0x589, 0x589), (0x60C, 0x60D), (0x66C, 0x66C),
  (0x7F8, 0x7F8), (0x2044, 0x2044), (0xFE10, 0xFE10), (0xFE14, 0xFE14), (0xFE50, 0xFE50),
  (0xFE54, 0xFE54), (0xFF0C, 0xFF0C), (0xFF1B, 0xFF1B)]

/-- The marks inside of words and of numbers. -/
def midNumberOrLetterSpans : Spans := [
  (0x2E, 0x2E), (0x2018, 0x2019), (0x2024, 0x2024), (0xFE52, 0xFE52), (0xFF07, 0xFF07),
  (0xFF0E, 0xFF0E)]

/-- The blanks with a width at which lines may be divided. -/
def blankSpans : Spans := [
  (0x20, 0x20), (0x1680, 0x1680), (0x2000, 0x2006), (0x2008, 0x200A), (0x205F, 0x205F),
  (0x3000, 0x3000)]

/-- The ends of lines that are neither a carriage return nor a line feed. -/
def newlineSpans : Spans := [(0xB, 0xC), (0x85, 0x85), (0x2028, 0x2029)]

/-- The character is a letter of a script that writes blanks between words. -/
def isSpacedLetter (c : Char) : Bool :=
  isAlphabetic c && !isIdeograph c && !unspacedScripts.contains (script c)

/-- The class of a character. -/
def of (c : Char) : WordClass :=
  if c == '\r' then carriageReturn
  else if c == '\n' then lineFeed
  else if newlineSpans.has c then newline
  else if isGraphemeExtend c || category c == "Mc" || isEmojiModifier c then extend
  else if c.toNat == 0x200D then joiner
  else if category c == "Cf" && c.toNat != 0x200B then format
  else if isRegionalIndicator c then flagLetter
  else if script c == "Kana" || otherKatakanaSpans.has c then katakana
  else if script c == "Hebr" && category c == "Lo" then hebrewLetter
  else if isSpacedLetter c || otherLetterSpans.has c then letter
  else if c == '\'' then singleQuote
  else if c == '"' then doubleQuote
  else if midNumberOrLetterSpans.has c then midNumberOrLetter
  else if midLetterSpans.has c then midLetter
  else if midNumberSpans.has c then midNumber
  else if category c == "Nd" || c.toNat == 0x66B then numeric
  else if category c == "Pc" || c.toNat == 0x202F then connector
  else if blankSpans.has c then blank
  else other

/-- The names of the classes, in small letters. -/
def names : List (List String × WordClass) := [
  (["cr"], carriageReturn), (["lf"], lineFeed), (["nl", "newline"], newline), (["extend"], extend),
  (["zwj"], joiner), (["fo", "format"], format), (["ri", "regionalindicator"], flagLetter),
  (["ka", "katakana"], katakana), (["hl", "hebrewletter"], hebrewLetter),
  (["le", "aletter"], letter), (["sq", "singlequote"], singleQuote),
  (["dq", "doublequote"], doubleQuote), (["mb", "midnumlet"], midNumberOrLetter),
  (["ml", "midletter"], midLetter), (["mn", "midnum"], midNumber), (["nu", "numeric"], numeric),
  (["ex", "extendnumlet"], connector), (["wsegspace"], blank)]

end WordClass

namespace SentenceClass

/-- The full stops. -/
def fullStopSpans : Spans := [
  (0x2E, 0x2E), (0x2024, 0x2024), (0xFE52, 0xFE52), (0xFF0E, 0xFF0E)]

/-- The marks inside of sentences. -/
def continuationSpans : Spans := [
  (0x2C, 0x2D), (0x3A, 0x3A), (0x55D, 0x55D), (0x60C, 0x60D), (0x7F8, 0x7F8), (0x1802, 0x1802),
  (0x1808, 0x1808), (0x2013, 0x2014), (0x3001, 0x3001), (0xFE10, 0xFE11), (0xFE13, 0xFE13),
  (0xFE31, 0xFE32), (0xFE50, 0xFE51), (0xFE55, 0xFE55), (0xFE58, 0xFE58), (0xFE63, 0xFE63),
  (0xFF0C, 0xFF0D), (0xFF1A, 0xFF1A), (0xFF64, 0xFF64)]

/-- The quotation marks that neither open nor close by their category. -/
def otherClosingSpans : Spans := [
  (0x22, 0x22), (0x27, 0x27), (0x275B, 0x2760), (0x2E00, 0x2E01), (0x2E06, 0x2E08),
  (0x2E0B, 0x2E0B), (0x1F676, 0x1F678)]

/-- The ends of lines that are neither a carriage return nor a line feed, but for those of pages. -/
def separatorSpans : Spans := [(0x85, 0x85), (0x2028, 0x2029)]

/-- The Georgian letters that have capitals but begin sentences themselves. -/
def uncasedSpans : Spans := [
  (0x10D0, 0x10FA), (0x10FD, 0x10FF), (0x1C90, 0x1CBA), (0x1CBD, 0x1CBF)]

/-- The class of a character. -/
def of (c : Char) : SentenceClass :=
  if c == '\r' then carriageReturn
  else if c == '\n' then lineFeed
  else if isGraphemeExtend c || category c == "Mc" || c.toNat == 0x200D then extend
  else if separatorSpans.has c then separator
  else if category c == "Cf" then format
  else if Text.isBlank c then blank
  else if isLowercase c && !uncasedSpans.has c then lower
  else if (isUppercase c || category c == "Lt") && !uncasedSpans.has c then upper
  else if isAlphabetic c || c.toNat == 0x5F3 then letter
  else if category c == "Nd" || c.toNat == 0x66B || c.toNat == 0x66C then numeric
  else if fullStopSpans.has c then fullStop
  else if continuationSpans.has c then continuation
  else if isSentenceEnd c then terminator
  else if ["Ps", "Pe", "Pi", "Pf"].contains (category c) || otherClosingSpans.has c then closing
  else other

/-- The names of the classes, in small letters. -/
def names : List (List String × SentenceClass) := [
  (["cr"], carriageReturn), (["lf"], lineFeed), (["ex", "extend"], extend),
  (["se", "sep"], separator), (["fo", "format"], format), (["sp"], blank), (["lo", "lower"], lower),
  (["up", "upper"], upper), (["le", "oletter"], letter), (["nu", "numeric"], numeric),
  (["at", "aterm"], fullStop), (["sc", "scontinue"], continuation), (["st", "sterm"], terminator),
  (["cl", "close"], closing)]

end SentenceClass

end NextBuild.Unicode
