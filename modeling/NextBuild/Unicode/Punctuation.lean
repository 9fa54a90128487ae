import NextBuild.Unicode.Category

/-!
# Punctuation, symbols and marks on letters

The characters that end sentences and parts of them, dashes and quotation marks, the signs of
mathematics, and the marks that change or lengthen letters.
-/

namespace NextBuild.Unicode

/-- The dashes. -/
def dashSpans : Spans := [
  (0x2D, 0x2D), (0x58A, 0x58A), (0x5BE, 0x5BE), (0x1400, 0x1400), (0x1806, 0x1806),
  (0x2010, 0x2015), (0x2053, 0x2053), (0x207B, 0x207B), (0x208B, 0x208B), (0x2212, 0x2212),
  (0x2E17, 0x2E17), (0x2E1A, 0x2E1A), (0x2E3A, 0x2E3B), (0x2E40, 0x2E40), (0x2E5D, 0x2E5D),
  (0x301C, 0x301C), (0x3030, 0x3030), (0x30A0, 0x30A0), (0xFE31, 0xFE32), (0xFE58, 0xFE58),
  (0xFE63, 0xFE63), (0xFF0D, 0xFF0D), (0x10EAD, 0x10EAD)]

/-- The dashes that join the parts of words. -/
def hyphenSpans : Spans := [
  (0x2D, 0x2D), (0xAD, 0xAD), (0x58A, 0x58A), (0x1806, 0x1806), (0x2010, 0x2011),
  (0x2E17, 0x2E17), (0x30FB, 0x30FB), (0xFE63, 0xFE63), (0xFF0D, 0xFF0D), (0xFF65, 0xFF65)]

/-- The quotation marks. -/
def quotationSpans : Spans := [
  (0x22, 0x22), (0x27, 0x27), (0xAB, 0xAB), (0xBB, 0xBB), (0x2018, 0x201F), (0x2039, 0x203A),
  (0x2E42, 0x2E42), (0x300C, 0x300F), (0x301D, 0x301F), (0xFE41, 0xFE44), (0xFF02, 0xFF02),
  (0xFF07, 0xFF07), (0xFF62, 0xFF63)]

/-- The marks at the end of sentences. -/
def sentenceEndRuns : Runs := Runs.ofPieces [
  "33N1Y12N1Y16N1Y1353N1Y147N3Y180N1Y43N3Y246N1Y61N1Y1N1Y3N2Y293N2Y1764N2Y790N1Y4N2Y773N1Y",
  "198N2Y204N1Y5N1Y314N2Y354N4Y174N2Y2N2Y29N2Y188N2Y65N2Y956N2Y9N3Y3556N1Y13N1Y22N2Y429N1Y",
  "29948N1Y270N2Y227N1Y3N1Y382N2Y86N2Y95N1Y152N2Y147N3Y144N2Y249N1Y21094N1Y3N2Y169N1Y12N1Y16N",
  "1Y65N1Y2804N2Y1277N5Y44N4Y189N2Y117N4Y127N3Y129N2Y6N1Y16N2Y88N2Y1N2Y108N1Y417N2Y373N2Y5N",
  "15Y105N2Y249N3Y517N1Y1N1Y251N2Y87N2Y420N2Y692N2Y74N2Y19241N2Y133N1Y65N2Y11N1Y851N1Y19974N",
  "1Y7656N1Y992631N"]

/-- The marks at the end of parts of sentences. -/
def innerEndRuns : Runs := Runs.ofPieces [
  "44N1Y13N2Y834N1Y8N1Y571N1Y72N1Y14N1Y231N8Y1N1Y235N1Y55N7Y1N1Y1N3Y33N1Y1531N2Y172N1Y4N6Y",
  "1102N1Y1N4Y900N3Y230N3Y3N1Y39N1Y1N2Y2N1Y852N1Y223N3Y4609N1Y10N1Y1N2Y433N1Y29948N1Y270N1Y",
  "230N3Y720N1Y279N1Y21360N2Y2N2Y182N1Y13N2Y72N1Y1082N1Y48N1Y1158N1Y199N1Y464N6Y68N6Y89N4Y",
  "1196N5Y492N1Y530N1Y12N2Y360N2Y1243N2Y416N1Y45N1Y2046N5Y18116N1Y861N1Y27631N1Y1N2Y992629N"]

/-- The signs of mathematics that are no mathematical symbols. -/
def otherMathRuns : Runs := Runs.ofPieces [
  "94N1Y881N3Y2N1Y26N2Y2N2Y7200N1Y27N3Y11N1Y32N4Y24N2Y14N2Y65N13Y4N1Y3N2Y4N5Y18N1Y4N1Y2N10Y1N",
  "1Y3N5Y6N1Y3N2Y2N2Y1N3Y1N6Y3N4Y5N5Y75N5Y2N4Y1N2Y1N2Y1N1Y1N5Y2N2Y4N2Y4N18Y2N2Y1N1Y1N7Y1N1Y6N",
  "2Y290N4Y168N2Y1N1Y24N1Y17N1Y445N2Y12N9Y5N5Y5N2Y2N2Y3N5Y14N1Y1N1Y2N6Y24N2Y57N1Y1N1Y29N4Y9N",
  "2Y342N2Y31N10Y403N22Y63N4Y32N2Y54371N1Y1N1Y4N1Y211N1Y1N1Y54465N85Y1N71Y1N2Y2N1Y2N2Y2N4Y1N",
  "12Y1N1Y1N7Y1N65Y1N4Y2N8Y1N7Y1N28Y1N4Y1N5Y1N1Y3N7Y1N340Y2N25Y1N25Y1N31Y1N25Y1N31Y1N25Y1N31Y",
  "1N25Y1N31Y1N25Y1N8Y2N50Y5632N4Y1N27Y1N2Y1N1Y2N1Y1N10Y1N4Y1N1Y1N1Y6N1Y4N1Y1N1Y1N1Y1N3Y1N2Y",
  "1N1Y2N1Y1N1Y1N1Y1N1Y1N1Y1N2Y1N1Y2N4Y1N7Y1N4Y1N4Y1N1Y1N10Y1N17Y5N3Y1N5Y1N17Y987460N"]

/-- The marks that change the sound of letters. -/
def diacriticRuns : Runs := Runs.ofPieces [
  "94N1Y1N1Y71N1Y6N1Y4N1Y2N2Y503N159Y1N8Y5N6Y17N2Y4N1Y9N2Y253N5Y209N1Y55N17Y1N27Y1N1Y1N2Y1N1Y",
  "134N8Y4N2Y134N2Y4N2Y3N3Y67N27Y91N11Y58N11Y34N2Y126N8Y41N10Y16N28Y61N1Y16N1Y3N4Y28N1Y74N1Y",
  "16N1Y110N1Y16N1Y110N1Y16N1Y47N3Y60N1Y16N1Y7N1Y119N1Y110N1Y16N1Y110N1Y16N1Y109N2Y16N1Y124N",
  "1Y124N6Y1N1Y107N1Y13N5Y75N2Y27N1Y1N1Y1N1Y4N2Y66N3Y1N2Y62N1Y112N1Y1N2Y40N2Y4N5Y25N7Y1N1Y10N",
  "2Y705N3Y948N2Y179N11Y9N1Y347N3Y313N8Y2N1Y48N15Y2N11Y104N1Y15N1Y38N9Y54N2Y138N2Y64N6Y82N25Y",
  "4N1Y6N1Y2N3Y50N63Y89N12Y37N11Y445N1Y1N3Y11N3Y13N3Y13N3Y13N2Y3312N3Y317N1Y506N6Y105N4Y95N1Y",
  "30066N1Y12N2Y1N1Y28N2Y82N2Y14N34Y102N3Y109N2Y202N1Y27N18Y57N4Y36N1Y95N1Y12N1Y36N1Y149N3Y",
  "65N4Y51N1Y100N5Y9N3Y128N2Y20272N1Y769N16Y270N1Y1N1Y47N1Y45N2Y67N1Y764N1Y1183N6Y1N42Y1N9Y",
  "810N2Y571N6Y469N3Y70N11Y49N4Y192N1Y41N1Y72N2Y120N2Y62N1Y76N1Y9N3Y104N2Y178N2Y81N1Y16N1Y24N",
  "7Y3N5Y205N1Y3N1Y123N2Y251N2Y126N1Y118N2Y115N1Y269N2Y258N2Y4N1Y156N1Y83N1Y18N1Y81N1Y421N1Y",
  "258N1Y1N2Y81N1Y5807N15Y13978N5Y59N7Y1112N17Y80N2Y16382N4Y1N7Y1N2Y7937N46Y2N23Y544N3Y3N6Y8N",
  "8Y2N7Y30N4Y3714N62Y194N7Y375N1Y61N4Y1504N7Y109N3Y1N3Y988853N"]

/-- The characters that lengthen or repeat the one before them. -/
def extenderSpans : Spans := [
  (0xB7, 0xB7), (0x2D0, 0x2D1), (0x640, 0x640), (0x7FA, 0x7FA), (0xB55, 0xB55), (0xE46, 0xE46),
  (0xEC6, 0xEC6), (0x180A, 0x180A), (0x1843, 0x1843), (0x1AA7, 0x1AA7), (0x1C36, 0x1C36),
  (0x1C7B, 0x1C7B), (0x3005, 0x3005), (0x3031, 0x3035), (0x309D, 0x309E), (0x30FC, 0x30FE),
  (0xA015, 0xA015), (0xA60C, 0xA60C), (0xA9CF, 0xA9CF), (0xA9E6, 0xA9E6), (0xAA70, 0xAA70),
  (0xAADD, 0xAADD), (0xAAF3, 0xAAF4), (0xFF70, 0xFF70), (0x10781, 0x10782), (0x1135D, 0x1135D),
  (0x115C6, 0x115C8), (0x11A98, 0x11A98), (0x16B42, 0x16B43), (0x16FE0, 0x16FE1),
  (0x16FE3, 0x16FE3), (0x1E13C, 0x1E13D), (0x1E944, 0x1E946)]

/-- The character is a dash. -/
def isDash (c : Char) : Bool :=
  dashSpans.has c

/-- The character joins the parts of words. -/
def isHyphen (c : Char) : Bool :=
  hyphenSpans.has c

/-- The character is a quotation mark. -/
def isQuotationMark (c : Char) : Bool :=
  quotationSpans.has c

/-- The character ends sentences. -/
def isSentenceEnd (c : Char) : Bool :=
  sentenceEndRuns.tag c == "Y"

/-- The character ends sentences or parts of them. -/
def isPartEnd (c : Char) : Bool :=
  isSentenceEnd c || innerEndRuns.tag c == "Y"

/-- The character is a sign of mathematics that is no mathematical symbol. -/
def isOtherMath (c : Char) : Bool :=
  otherMathRuns.tag c == "Y"

/-- The character is a sign of mathematics. -/
def isMath (c : Char) : Bool :=
  category c == "Sm" || isOtherMath c

/-- The character changes the sound of letters. -/
def isDiacritic (c : Char) : Bool :=
  diacriticRuns.tag c == "Y"

/-- The character lengthens or repeats the one before it. -/
def isExtender (c : Char) : Bool :=
  extenderSpans.has c

end NextBuild.Unicode
