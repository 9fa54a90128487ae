import NextBuild.Text.Blank
import NextBuild.Unicode.Case
import NextBuild.Unicode.Emoji
import NextBuild.Unicode.Identifier
import NextBuild.Unicode.Ideograph
import NextBuild.Unicode.Invisible
import NextBuild.Unicode.Property
import NextBuild.Unicode.Punctuation

/-!
# Traits of characters

The properties of the standard that a character has or lacks, with the names under which the standard
knows them.
-/

namespace NextBuild.Unicode

/-- A property that a character has or lacks. -/
inductive Trait where
  | asciiHexDigit
  | alphabetic
  | bidiControl
  | caseIgnorable
  | cased
  | changesWhenCasefolded
  | changesWhenCasemapped
  | changesWhenLowercased
  | changesWhenTitlecased
  | changesWhenUppercased
  | dash
  | defaultIgnorable
  | deprecated
  | diacritic
  | emoji
  | emojiComponent
  | emojiModifier
  | emojiModifierBase
  | emojiPresentation
  | pictograph
  | extender
  | graphemeBase
  | graphemeExtend
  | graphemeLink
  | hexDigit
  | hyphen
  | joinsTwoParts
  | joinsThreeParts
  | identifierContinue
  | identifierStart
  | ideograph
  | joinControl
  | logicalOrderException
  | lowercase
  | math
  | noncharacter
  | otherAlphabetic
  | otherIgnorable
  | otherExtend
  | otherContinue
  | otherStart
  | otherLowercase
  | otherMath
  | otherUppercase
  | patternSyntax
  | patternWhiteSpace
  | leadingMark
  | quotationMark
  | radical
  | regionalIndicator
  | sentenceEnd
  | softDotted
  | partEnd
  | unifiedIdeograph
  | uppercase
  | variationSelector
  | whiteSpace
  | stableContinue
  | stableStart
deriving DecidableEq, Repr

/-- The character is a hexadecimal digit, fullwidth forms included. -/
def isWideHexDigit (c : Char) : Bool :=
  let n := c.toNat
  c.isDigit || (65 ≤ n && n ≤ 70) || (97 ≤ n && n ≤ 102) || (0xFF10 ≤ n && n ≤ 0xFF19)
    || (0xFF21 ≤ n && n ≤ 0xFF26) || (0xFF41 ≤ n && n ≤ 0xFF46)

namespace Trait

/-- The character has the trait. -/
def holds : Trait → Char → Bool
  | asciiHexDigit, c => c.toNat < 128 && isWideHexDigit c
  | alphabetic, c => isAlphabetic c
  | bidiControl, c => isBidiControl c
  | caseIgnorable, c => isCaseIgnorable c
  | cased, c => isCased c
  | changesWhenCasefolded, c => Unicode.changesWhenCasefolded c
  | changesWhenCasemapped, c => changesCase c
  | changesWhenLowercased, c => Unicode.changesWhenLowercased c
  | changesWhenTitlecased, c => Unicode.changesWhenTitlecased c
  | changesWhenUppercased, c => Unicode.changesWhenUppercased c
  | dash, c => isDash c
  | defaultIgnorable, c => isDefaultIgnorable c
  | deprecated, c => isDeprecated c
  | diacritic, c => isDiacritic c
  | emoji, c => isEmoji c
  | emojiComponent, c => isEmojiComponent c
  | emojiModifier, c => isEmojiModifier c
  | emojiModifierBase, c => isEmojiModifierBase c
  | emojiPresentation, c => isEmojiPresentation c
  | pictograph, c => isPictograph c
  | extender, c => isExtender c
  | graphemeBase, c => isGraphemeBase c
  | graphemeExtend, c => isGraphemeExtend c
  | graphemeLink, c => isGraphemeLink c
  | hexDigit, c => isWideHexDigit c
  | hyphen, c => isHyphen c
  | joinsTwoParts, c => Unicode.joinsTwoParts c
  | joinsThreeParts, c => Unicode.joinsThreeParts c
  | identifierContinue, c => isIdentifierContinue c
  | identifierStart, c => isIdentifierStart c
  | ideograph, c => isIdeograph c
  | joinControl, c => isJoinControl c
  | logicalOrderException, c => isLogicalOrderException c
  | lowercase, c => isLowercase c
  | math, c => isMath c
  | noncharacter, c => isNoncharacter c
  | otherAlphabetic, c => otherAlphabeticRuns.tag c == "Y"
  | otherIgnorable, c => otherIgnorableSpans.has c
  | otherExtend, c => otherExtendSpans.has c
  | otherContinue, c => otherContinueSpans.has c
  | otherStart, c => otherStartSpans.has c
  | otherLowercase, c => otherLowercaseRuns.tag c == "Y"
  | otherMath, c => isOtherMath c
  | otherUppercase, c => otherUppercaseRuns.tag c == "Y"
  | patternSyntax, c => isPatternSyntax c
  | patternWhiteSpace, c => isPatternWhiteSpace c
  | leadingMark, c => isLeadingMark c
  | quotationMark, c => isQuotationMark c
  | radical, c => isRadical c
  | regionalIndicator, c => isRegionalIndicator c
  | sentenceEnd, c => isSentenceEnd c
  | softDotted, c => isSoftDotted c
  | partEnd, c => isPartEnd c
  | unifiedIdeograph, c => isUnifiedIdeograph c
  | uppercase, c => isUppercase c
  | variationSelector, c => isVariationSelector c
  | whiteSpace, c => Text.isBlank c
  | stableContinue, c => isStableIdentifierContinue c
  | stableStart, c => isStableIdentifierStart c

/-- The names of the traits, in small letters. -/
def names : List (List String × Trait) := [
  (["ahex", "asciihexdigit"], asciiHexDigit), (["alpha", "alphabetic"], alphabetic),
  (["bidic", "bidicontrol"], bidiControl), (["ci", "caseignorable"], caseIgnorable),
  (["cased"], cased), (["cwcf", "changeswhencasefolded"], changesWhenCasefolded),
  (["cwcm", "changeswhencasemapped"], changesWhenCasemapped),
  (["cwl", "changeswhenlowercased"], changesWhenLowercased),
  (["cwt", "changeswhentitlecased"], changesWhenTitlecased),
  (["cwu", "changeswhenuppercased"], changesWhenUppercased), (["dash"], dash),
  (["di", "defaultignorablecodepoint"], defaultIgnorable), (["dep", "deprecated"], deprecated),
  (["dia", "diacritic"], diacritic), (["emoji"], emoji),
  (["ecomp", "emojicomponent"], emojiComponent), (["emod", "emojimodifier"], emojiModifier),
  (["ebase", "emojimodifierbase"], emojiModifierBase),
  (["epres", "emojipresentation"], emojiPresentation),
  (["extpict", "extendedpictographic"], pictograph), (["ext", "extender"], extender),
  (["grbase", "graphemebase"], graphemeBase), (["grext", "graphemeextend"], graphemeExtend),
  (["grlink", "graphemelink"], graphemeLink), (["hex", "hexdigit"], hexDigit),
  (["hyphen"], hyphen), (["idsb", "idsbinaryoperator"], joinsTwoParts),
  (["idst", "idstrinaryoperator"], joinsThreeParts), (["idc", "idcontinue"], identifierContinue),
  (["ids", "idstart"], identifierStart), (["ideo", "ideographic"], ideograph),
  (["joinc", "joincontrol"], joinControl), (["loe", "logicalorderexception"], logicalOrderException),
  (["lower", "lowercase"], lowercase), (["math"], math),
  (["nchar", "noncharactercodepoint"], noncharacter),
  (["oalpha", "otheralphabetic"], otherAlphabetic),
  (["odi", "otherdefaultignorablecodepoint"], otherIgnorable),
  (["ogrext", "othergraphemeextend"], otherExtend), (["oidc", "otheridcontinue"], otherContinue),
  (["oids", "otheridstart"], otherStart), (["olower", "otherlowercase"], otherLowercase),
  (["omath", "othermath"], otherMath), (["oupper", "otheruppercase"], otherUppercase),
  (["patsyn", "patternsyntax"], patternSyntax),
  (["patws", "patternwhitespace"], patternWhiteSpace),
  (["pcm", "prependedconcatenationmark"], leadingMark), (["qmark", "quotationmark"], quotationMark),
  (["radical"], radical), (["ri", "regionalindicator"], regionalIndicator),
  (["sterm", "sentenceterminal"], sentenceEnd), (["sd", "softdotted"], softDotted),
  (["term", "terminalpunctuation"], partEnd), (["uideo", "unifiedideograph"], unifiedIdeograph),
  (["upper", "uppercase"], uppercase), (["vs", "variationselector"], variationSelector),
  (["wspace", "whitespace", "space"], whiteSpace), (["xidc", "xidcontinue"], stableContinue),
  (["xids", "xidstart"], stableStart)]

/-- The trait with a name. -/
def named? (name : String) : Option Trait :=
  (names.find? fun e => e.1.contains name).map (·.2)

end Trait

end NextBuild.Unicode
