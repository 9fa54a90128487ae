import NextBuild.Unicode.Category

/-!
# Letters, digits and words

Binary properties of characters, given by their general category and by the characters that have
the property besides.
-/

namespace NextBuild.Unicode

/-- The alphabetic characters that are neither letters nor letter numbers. -/
def otherAlphabeticRuns : Runs := Runs.ofPieces [
  "837N1Y618N14Y1N1Y1N2Y1N2Y1N1Y72N11Y48N13Y1N7Y16N1Y101N7Y4N4Y2N2Y4N1Y35N1Y30N16Y102N11Y",
  "101N2Y3N9Y1N3Y1N4Y167N12Y3N7Y6N20Y54N2Y2N15Y1N2Y5N3Y10N2Y29N3Y58N7Y2N2Y2N2Y10N1Y10N2Y29N",
  "3Y58N5Y4N2Y2N2Y4N1Y30N2Y3N1Y11N3Y58N8Y1N3Y1N2Y21N2Y22N3Y4N3Y58N7Y2N2Y2N2Y9N2Y10N2Y30N1Y",
  "59N5Y3N3Y1N3Y10N1Y40N5Y57N7Y1N3Y1N3Y8N2Y11N2Y29N3Y58N7Y1N3Y1N3Y8N2Y11N2Y15N1Y12N4Y58N7Y",
  "1N3Y1N3Y10N1Y10N2Y29N3Y75N6Y1N1Y1N8Y18N2Y61N1Y2N7Y18N1Y99N1Y2N6Y1N2Y16N1Y163N19Y9N11Y1N",
  "36Y110N12Y1N1Y2N4Y23N4Y4N3Y1N3Y2N7Y3N4Y13N12Y1N1Y10N4Y1652N2Y30N2Y30N2Y30N2Y66N19Y188N2Y",
  "34N1Y118N12Y4N9Y222N5Y57N10Y2N20Y74N2Y11N3Y49N5Y48N15Y60N3Y30N9Y2N2Y57N11Y50N19Y432N14Y",
  "1729N52Y2294N32Y30836N8Y34N2Y354N1Y8N1Y23N5Y88N2Y50N16Y1N1Y57N1Y38N5Y28N12Y45N4Y48N12Y",
  "37N1Y67N14Y12N1Y8N2Y45N3Y50N1Y1N3Y2N2Y5N1Y44N5Y5N1Y237N8Y20275N1Y2135N5Y1670N3Y1N2Y5N4Y",
  "788N4Y387N2Y339N3Y53N14Y45N2Y11N3Y45N9Y9N1Y61N3Y36N12Y18N2Y57N3Y48N13Y14N2Y92N9Y2N1Y6N1Y",
  "2N1Y157N10Y23N4Y58N7Y2N2Y2N2Y10N1Y10N2Y209N13Y1N3Y106N18Y237N7Y2N7Y29N2Y82N15Y1N1Y106N",
  "11Y103N14Y257N13Y247N6Y1N2Y2N2Y3N1Y1N1Y142N7Y2N6Y4N1Y28N10Y42N5Y1N4Y18N11Y46N14Y407N8Y1N",
  "7Y83N22Y1N14Y122N6Y3N1Y1N2Y1N3Y1N1Y3N1Y66N5Y1N2Y1N4Y348N4Y9N2Y1N1Y48N7Y3N3Y20494N1Y1N55Y",
  "7N4Y93N2Y19628N1Y9057N7Y1N17Y2N7Y1N2Y1N5Y100N1Y2231N1Y2024N26Y6N26Y6N26Y986742N"]

/-- The small characters that are not small letters. -/
def otherLowercaseRuns : Runs := Runs.ofPieces [
  "170N1Y15N1Y501N9Y7N2Y30N5Y96N1Y52N1Y3457N1Y3119N63Y13N1Y34N37Y689N1Y13N1Y16N13Y211N16Y",
  "848N26Y1938N2Y31262N2Y210N1Y129N3Y3N2Y866N4Y9N1Y23574N1Y2N3Y1N42Y1N9Y55413N62Y991122N"]

/-- The capital characters that are not capital letters. -/
def otherUppercaseRuns : Runs := Runs.ofPieces [
  "8544N16Y838N26Y117856N26Y6N26Y6N26Y986742N"]

/-- The character has the property `Alphabetic`. -/
def isAlphabetic (c : Char) : Bool :=
  if c.toNat < 128 then c.isAlpha
  else ["Lu", "Ll", "Lt", "Lm", "Lo", "Nl"].contains (category c)
    || otherAlphabeticRuns.tag c == "Y"

/-- The character has the property `Lowercase`. -/
def isLowercase (c : Char) : Bool :=
  category c == "Ll" || otherLowercaseRuns.tag c == "Y"

/-- The character has the property `Uppercase`. -/
def isUppercase (c : Char) : Bool :=
  category c == "Lu" || otherUppercaseRuns.tag c == "Y"

/-- The character is a decimal digit of some script. -/
def isDecimalDigit (c : Char) : Bool :=
  if c.toNat < 128 then c.isDigit else category c == "Nd"

/-- The character is a number of some kind. -/
def isNumeric (c : Char) : Bool :=
  if c.toNat < 128 then c.isDigit else ["Nd", "Nl", "No"].contains (category c)

/-- The character is part of words: alphabetic, a mark, a decimal digit, a connecting mark or a
joiner. -/
def isWordChar (c : Char) : Bool :=
  if c.toNat < 128 then c.isAlphanum || c == '_'
  else isAlphabetic c || ["Mn", "Mc", "Me", "Nd", "Pc"].contains (category c)
    || c.toNat == 0x200C || c.toNat == 0x200D

end NextBuild.Unicode
