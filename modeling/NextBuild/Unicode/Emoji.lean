import NextBuild.Unicode.Runs

/-!
# Emoji

The characters that may be shown as small pictures, those that are shown so by default, and the
characters that change or make up such pictures.
-/

namespace NextBuild.Unicode

/-- The characters that may be shown as pictures. -/
def emojiRuns : Runs := Runs.ofPieces [
  "35N1Y6N1Y5N10Y111N1Y4N1Y8077N1Y12N1Y216N1Y22N1Y90N6Y15N2Y367N2Y12N1Y166N1Y25N11Y4N3Y199N1Y",
  "231N2Y10N1Y9N1Y58N4Y1N5Y9N1Y2N1Y2N2Y2N1Y4N1Y2N1Y1N2Y2N1Y3N1Y3N2Y8N3Y5N1Y1N1Y5N12Y11N2Y2N1Y",
  "1N2Y1N1Y18N1Y2N2Y18N6Y1N1Y1N2Y3N2Y5N1Y2N2Y4N2Y11N2Y5N2Y2N1Y5N2Y1N1Y1N2Y20N2Y5N6Y1N4Y2N1Y4N",
  "1Y2N1Y2N6Y1N1Y2N1Y1N1Y1N1Y6N1Y3N1Y6N1Y10N2Y15N1Y2N1Y4N1Y1N1Y4N3Y1N1Y11N2Y48N3Y9N1Y14N1Y14N",
  "1Y372N2Y463N3Y19N2Y51N1Y4N1Y1242N1Y12N1Y601N1Y1N1Y114026N1Y202N1Y160N2Y12N2Y14N1Y2N10Y75N",
  "26Y1N2Y23N1Y20N1Y2N9Y21N2Y174N34Y2N112Y2N2Y1N3Y2N83Y2N3Y1N263Y1N63Y11N6Y1N24Y7N2Y2N8Y12N1Y",
  "2N4Y2N1Y4N2Y13N2Y2N1Y8N2Y9N1Y5N3Y12N3Y8N3Y2N1Y1N1Y4N1Y6N1Y3N1Y6N86Y48N70Y5N8Y2N3Y4N10Y3N1Y",
  "1N2Y3N1Y2N10Y227N12Y4N1Y283N47Y1N10Y1N185Y112N13Y3N9Y7N46Y1N7Y8N14Y4N9Y7N9Y984327N"]

/-- The characters that are shown as pictures unless something else is asked for. -/
def emojiPresentationRuns : Runs := Runs.ofPieces [
  "8986N2Y205N4Y3N1Y2N1Y521N2Y21N2Y50N12Y43N1Y19N1Y13N1Y8N2Y17N2Y5N2Y8N1Y5N1Y21N1Y7N2Y1N1Y4N",
  "1Y2N1Y7N1Y4N2Y28N1Y35N1Y1N1Y4N3Y1N1Y61N3Y24N1Y14N1Y859N2Y51N1Y4N1Y115886N1Y202N1Y190N1Y2N",
  "10Y75N26Y1N1Y24N1Y20N1Y2N5Y1N3Y21N2Y174N33Y12N9Y1N70Y1N22Y12N43Y4N5Y12N17Y3N1Y3N71Y1N1Y1N",
  "187Y2N63Y13N4Y1N24Y18N1Y26N2Y13N1Y86N85Y48N70Y6N1Y3N3Y2N3Y4N4Y11N2Y7N9Y227N12Y4N1Y283N47Y",
  "1N10Y1N185Y112N13Y3N9Y7N46Y1N7Y8N14Y4N9Y7N9Y984327N"]

/-- The characters that are pictures or are kept for pictures. -/
def pictographRuns : Runs := Runs.ofPieces [
  "169N1Y4N1Y8077N1Y12N1Y216N1Y22N1Y90N6Y15N2Y367N2Y12N1Y95N1Y70N1Y25N11Y4N3Y199N1Y231N2Y10N",
  "1Y9N1Y58N4Y1N6Y1N12Y1N114Y10N118Y2N11Y1N1Y1N1Y6N1Y3N1Y6N1Y10N2Y15N1Y2N1Y4N1Y1N1Y4N3Y1N1Y",
  "11N5Y45N3Y9N1Y14N1Y14N1Y372N2Y463N3Y19N2Y51N1Y4N1Y1242N1Y12N1Y601N1Y1N1Y114022N256Y13N3Y",
  "31N1Y60N6Y12N2Y14N1Y2N10Y18N57Y27N15Y10N1Y20N1Y2N9Y1N4Y9N434Y5N318Y8N266Y48N128Y116N12Y85N",
  "43Y12N4Y56N8Y10N6Y40N8Y30N82Y12N47Y1N10Y1N441Y256N1022Y983042N"]

/-- The pictures of which the tone of skin can be changed. -/
def emojiBaseSpans : Spans := [
  (0x261D, 0x261D), (0x26F9, 0x26F9), (0x270A, 0x270D), (0x1F385, 0x1F385), (0x1F3C2, 0x1F3C4),
  (0x1F3C7, 0x1F3C7), (0x1F3CA, 0x1F3CC), (0x1F442, 0x1F443), (0x1F446, 0x1F450),
  (0x1F466, 0x1F478), (0x1F47C, 0x1F47C), (0x1F481, 0x1F483), (0x1F485, 0x1F487),
  (0x1F48F, 0x1F48F), (0x1F491, 0x1F491), (0x1F4AA, 0x1F4AA), (0x1F574, 0x1F575),
  (0x1F57A, 0x1F57A), (0x1F590, 0x1F590), (0x1F595, 0x1F596), (0x1F645, 0x1F647),
  (0x1F64B, 0x1F64F), (0x1F6A3, 0x1F6A3), (0x1F6B4, 0x1F6B6), (0x1F6C0, 0x1F6C0),
  (0x1F6CC, 0x1F6CC), (0x1F90C, 0x1F90C), (0x1F90F, 0x1F90F), (0x1F918, 0x1F91F),
  (0x1F926, 0x1F926), (0x1F930, 0x1F939), (0x1F93C, 0x1F93E), (0x1F977, 0x1F977),
  (0x1F9B5, 0x1F9B6), (0x1F9B8, 0x1F9B9), (0x1F9BB, 0x1F9BB), (0x1F9CD, 0x1F9CF),
  (0x1F9D1, 0x1F9DD), (0x1FAC3, 0x1FAC5), (0x1FAF0, 0x1FAF8)]

/-- The characters that pictures of several characters are made up of. -/
def emojiComponentSpans : Spans := [
  (0x23, 0x23), (0x2A, 0x2A), (0x30, 0x39), (0x200D, 0x200D), (0x20E3, 0x20E3), (0xFE0F, 0xFE0F),
  (0x1F1E6, 0x1F1FF), (0x1F3FB, 0x1F3FF), (0x1F9B0, 0x1F9B3), (0xE0020, 0xE007F)]

/-- The character may be shown as a picture. -/
def isEmoji (c : Char) : Bool :=
  emojiRuns.tag c == "Y"

/-- The character is shown as a picture unless something else is asked for. -/
def isEmojiPresentation (c : Char) : Bool :=
  emojiPresentationRuns.tag c == "Y"

/-- The character is a picture or is kept for one. -/
def isPictograph (c : Char) : Bool :=
  pictographRuns.tag c == "Y"

/-- The character is a picture of which the tone of skin can be changed. -/
def isEmojiModifierBase (c : Char) : Bool :=
  emojiBaseSpans.has c

/-- The character changes the tone of skin of the picture before it. -/
def isEmojiModifier (c : Char) : Bool :=
  0x1F3FB ≤ c.toNat && c.toNat ≤ 0x1F3FF

/-- Pictures of several characters are made up of the character and others. -/
def isEmojiComponent (c : Char) : Bool :=
  emojiComponentSpans.has c

/-- The character is a letter of the two that make up a flag. -/
def isRegionalIndicator (c : Char) : Bool :=
  0x1F1E6 ≤ c.toNat && c.toNat ≤ 0x1F1FF

end NextBuild.Unicode
