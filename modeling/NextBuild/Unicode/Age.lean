import NextBuild.Unicode.Runs

/-!
# Ages of characters

The age of a code point is the version of the standard that assigned it.  The versions are tagged by
letters in their order, and a later letter than all of them stands for no version.
-/

namespace NextBuild.Unicode

/-- The version that assigned every code point. -/
def ageRuns : Runs := Runs.ofPieces [
  "502a4d30a8d1f1g18d3g11h14i89a5d2g47a1d10a5d17g70a9d1f8g5h3g2a1d13f4j2a2j2z1a3i1a1p4z7a1z1a",
  "1z20a1z44a1j7a1d2f1a1d1a1d1a1d1a1d18a2e1f5g4h1d12a1d66a1d12a1d41a1j2d2f4d53a2f2a2f2a2f1i",
  "28a2d8a2h2a6i16f4i16j2k2l8p1z38a2z7a1t39a1t1a1d2z2p1m1z17b1h13b10a1i9a1b3h8z27a4z1t5a11z4g",
  "1m1p5j1h1a9g5j1a1o1x1h1a1l26a5j19a3d3g6h1l14a2f72a2d5a1d15a1d30a2g10a5d1g14d1z30d3g27d2z3g",
  "30h18j49d1f14z59i2z3t46k2z15k1z28l2z1l1z11s5z31x1z2x6z8x1m1p11m6p2q1x8r10w11x1t15r1q27m1p",
  "1k3a1g53a2l18a1k1l5a1k2l25a2j5l1p2k2i1h2i1p3a1z8a2z2a2z22a1z7a1z1a3z4a2z1a1g7a2z2a2z3a1h8z",
  "1a4z2a1z5a2z21a1k2s1t2z1g1a1g1z6a4z2a2z22a1z7a1z2a1z2a1z2a2z1a1z5a4z2a2z3a3z1j7z4a1z1a7z",
  "15a1j1t10z3a1z7a1g1a1z3a1z22a1z7a1z2a1z5a2z10a1z3a1z3a2z1a15z1a3g2z10a1m1g7z1q6s1z3a1z8a2z",
  "2a2z22a1z7a1z2a1z1g4a2z8a1j2z2a2z3a7z1w2a4z2a1z3a2j2z11a1g6l10z2a1z6a3z3a1z4a3z2a1z1a1z2a",
  "3z2a3z3a3z8a1h3a4z5a3z3a1z4a2z1j6z1a14z1h12a8g5z1p3a1t8a1z3a1z23a1z10a1p5a2z1x1j7a1z3a1z4a",
  "7z2a1z2j1q2z1x2z2a2j2z10a7z1u8j1r1p2a1t8a1z3a1z23a1z10a1z5a2z2g7a1z3a1z4a7z2a6z1x1a1z2a2i",
  "2z10a1z2i1y12z1s1p2a1w8a1z3a1z23a1l16a1l2s1j6a1j1z3a1z4a1l1r4z3r1a7r1q2a2j2z10a6j3r7j1z1w",
  "2d1z18d3z24d1z9d1z1d2z7d3z1d4z6d1z1d1z8d6z10p2z3d12z58a4z29a37z2a1z1a1z1u2a1u1a1z1u1a6u4a",
  "1u7a1u3a1z1a1z1a2u2a1u13a1u3a2z5a1z1a1z6a1y1z10a2z2a2m32z72b1z33b1d2j4z27b4l6b1d1b1z21b3d",
  "7b1d1b3d1z15d1z1j1d2h3j4k2l37z34d1j5d1j2d1j7d3j4d6j26d64j4k2j38a1z1m5z1m2z39a2f2h1a1h3m90a",
  "5k68a5k82a6k7d1h63d1h1d1z4d2z7d1z1d1z4d2z39d1h1d1z4d2z31d1h1d1z4d2z7d1z1d1z4d2z7d1h7d1z23d",
  "1h31d1h1d1z4d2z7d1h39d1h19d2z2l2h28d3z26h6z85d1q2z6q2z1k630d9k29d3z81d8p7z13f1x7f1x9z1x23f",
  "9z20f12z13f1z3f1z2f12z93d1g2z10d6z10g6z15d1x10d6z88d1t7z42d1j5z70k10z29g2p1z12g4z12g4z1g3z",
  "42g2z5g11z42h2k4z26h6z10h1k3z2h32g28h2z2h63k1z29k2z11k6z10k6z14k2z15p2w14x49z76i1x3z45i2x",
  "1z43j3m12j6m52l8z4l56j3z15j3z51j9r7z43t2z3t8m8z35k4m1s2p1u5z108g88h7i28j15p4s1x1r1l1k2i",
  "155a1b4j90a6j22a2z6a2z38a2z6a2z8a1z1a1z1a1z1a1z31a2z53a1z15a1z14a2z6a1z19a2z3a1z9a1z47a1d",
  "23a1f6d5f2g2h1f7h5f1j1z4o7a1f2z27a1z5h8l3z11a1b1c3d2f4h3k1l1n3p1q1s1x15z18a2d7f1h4i1j15z",
  "57a2d1g1h15f1h2i1j3k48a1d1i4j1k2q4z91a9d12f242a14f1a1d121a1d1f30d52f2g11h12i1k11l7p4r1s37a",
  "2d25z11a21z139a20f1g150a10f80a8d8f20a2g2f1h1d86a2d12f2h10f8g11h1j2k2g16h1i10j3k4j10k1l19k",
  "1l1k4l24k1p4a1l4a2l28a1l35a1l1a1l4a3l1a1k7a2l7a14f31a3l24a1l14a1l7h4i1m1j1m2l28f4j16f256d",
  "512f14g6h7i5j4i41j3p5j5k26p2z32p1z1w34p3t12p1u8p1s25t4q15t1u47h1x47h1x13i3j1k3j4i6j2k107h",
  "7k2m5z45h1z1m5z1m2z54h2m7z1h1l14z1l23h9z7h1z7h1z7h1z7h1z7h1z7h1z7h1z7h1z32j24h4j2h19j1k10m",
  "7p2r5s5t1u3w11x34z26d1z89d12z214d26z12d4z56a3d3f1d1a1z84a2f2z6a2f94a1f5z40a1j1s1t1z94a1z",
  "16a24d3l5w16h20j12z16f29a2g1z36a12k1g15f28a2g1h50a15f12a4g47a1v119a4g99a2g31a1g6582d10w64g",
  "20902a22h8j8k1m9q21s5t13w3x1165d3z18d2f16d1f12d1f3d1f1d9z48k300j20z32j2l18j8m28j6p1q1m88k",
  "8z23h4i5j2i107j2l1q2l2m12p10l1m3p1r1t2p6q2t6u2x5u4w5z2x1z1x1z5x24z3x2w1p2m1l5j44h1w3z10k6z",
  "56i8z69j1r8z12j6z28k2q2t84j11z1j29k3z78k1z11k4z2k31p1z55j9z14j2z10j2z4j28k4p67k24z5k23m10z",
  "6l2z6l2z6l9z7l1z7l1z48p4q2p2u4w4z80q46k2z10k6z11172b12z23k4z49k4z2048b6702a2m59f3k2z106h",
  "38z7a12z5a5z1d25a1z5a1z1a1z2a1z2a1z108a16l1x16z365a16x64a2z54a7z1x32e12a1f1g2x16f10h6z4a3j",
  "7p2q21a2f2g10a1z19a1z4a4z3a1f1a1z135a2z1a1z94a2f94a3z6a2z6a2z6a2z3a3z7a1z7a10z3d1c3a12g1z",
  "26g1z19g1z2g1z15g2z14g34z123g5z3g4z45g3z9g75h2p2r1z12j1w3z1p47z46j130z29j3z49j15z28p4z31e",
  "1p4e9z3s27e5z43p5z30g1z1g36h4z14h42z38e2g38e80g2z10g6z36r4z36r4z40p8z52p11z1p11x1z15x1z7x",
  "1z2x1z11x1z15x1z7x1z2x67z311p9z22p10z8p24z6x1z42x1z9x69z6g2z1g1z44g1z2g3z1g2z1g22k1z9k63p",
  "8z9p48z19q1z2q5z5q26i2k3z1i26j5z1j64z56m4z2q2m16q2z46q4h1z2h5z8h1z3h1z27h2t2z3h4z9h1t7z9h",
  "7z32k32p32z39p4z12p9z54k3z29k2z27k5z8k18p7z4p12z7p80z73k55z51q13z51q7z6q40t8z10t294z31k1z",
  "42w1z3w2z2w75z3y40t8z42t22z26x38z28w20z23u9z78l4z30l6x9z1p66k1x10z1t2z25m7z10m6z53m1z14m3t",
  "1w8z39p9z73m4q1p2w10m1p5q1z20p11z18p1z43p1r3y62z7q1z1q1z4q1z15q1z11q6z59p5z10p6z1q3p1z8p2z",
  "2p2z22p1z7p1z2p1z5p1z1t9p2z2p2z3p2z1q6z1p5z7p2z7p3z5p139z90r1w1r1z1r1t1u2w30z72p8z10p166z",
  "54p2z18p20q34z69p11z10p6z13r19z56m1u1x6z10m54z26q1t2z15q4z16q7x185z60t100z83p12z1p7w2z1w2z",
  "8w1z2w1z30w1z2w2z12w9z10w70z8u2z46u2z11u27z72s8z52s2u23s1t5s13z16x57p7z10y246z9r1z45r1z14r",
  "10z29r3z32r2z22r1z14r73z7s1z2s1z44s3z1s1z2s1z9s8z10s6z6t1z2t1z37t1z2t1z6t7z10t310z25t7z17y",
  "1z41y3z28y86z1w15z50u13z1u879i42p1q102z99i12p1z4i1p11z196q2636z99x13z1071k1y9u29y4010z583q",
  "8633z569l7z31p1z10p4z2p79x1z10x6z30p2z6p10z70p10z10p1z7p1z21p5z19p688z91t101z69m6u4z1u47m",
  "9u7z17m64z1r1s2u1w11z2w14z6125r5t6u8z755r483w42z9w8935z4x1z7x1z2x1z2l285s4x15z1y29z3u2z1y",
  "14z4u8z396s2308z107p5z13p3z9p7z10p2z8p4700z46x2z23x9z116x60z246e10z39e2z1j180e11q2x21z70h",
  "122z20y12z20t12z87g9z18i7t135z85e1z71e1z2e2z1e2z2e2z4e1z12e1z1e1z4e1g2e1z65e1z4e2z8e1z7e1z",
  "28e1z4e1z5e1z1e3z7e1z338e2h2z290e2i2z50e652q15z5q1z15q1104z31x6z6y213z7r1z17r2z7r1z2r1z5r",
  "5z62y33z1y112z45u3z14u2z10u4z2u320z31x17z58u5z1u464z42y742z7x1z4x1z2x1z15x1z197p2z16p41z",
  "75r1u4z10r4z2r785z68t76z61u194z4m1z27m1z2m1z1m2z1m1z10m1z4m1z1m1z1m6z1m4z1m1z1m1z1m1z3m1z",
  "2m1z1m2z1m1z1m1z1m1z1m1z1m1z2m1z1m2z4m1z7m1z4m1z4m1z1m1z10m1z17m5z3m1z5m1z17m52z2m270z44j",
  "4z100j12z15l2z14l1p1z15l1z15l22p10z11k2p3w31k1t1l1k11l1k1l1k2l1k3l1k3l5k8l1k7l1k10l2m1u3w",
  "9l1k1l2k2l1k10l4k2l1k10l18r1w56z26l1k2l13z34k9l1r4z9k7z2l14z6s154z33l12p3q6l1p70l1p2q20l",
  "12p37l1p5l4p5q12p17l7p8q63l1p1l1p182l1p4l2p1q62l2p4m7p5q24l18p1r41p1r86p5l1m16l1m3l1m1l1m",
  "1l1m1l1m3l1m6l2m4l1m1l2m4l1m12l2p2q11l48p70l10p1q2r2s1u2w4z1y3x13p3z4p3r2s1t1u2w3z116l3y4z",
  "5y85p4t1y6z12u4z1x15z12p4z56p8z10p6z40p8z30p2z2w78z12s1w3u9q6r1s8r8s1r2s12r1u12r1s3t15r13s",
  "5t1u1w4t2w1x1t1u4t5q13r6s11t2w6u3w2u10t6u1q2t8u1w1x3u23s25t84u12z14t2z4u1w3y3u2x3z3u4w2y7z",
  "6u19w4x3y7w4x3y1z1y3w3x8z2y7w3x2y4z8x1y7z7x2y7z147w1z55w37z10w1028z2b42711e7w2x32z4149k4x",
  "1y6z222l2z5762q14z7473s3103z542e1504z2b4939w5z4192y56398z2b65534z2b65534z2b65534z2b65534z",
  "2b65534z2b65534z2b65534z2b65534z2b65534z2b65534z2b1z1e30z96e128z240g65038z131074b0z"]

/-- The versions in their order. -/
def versions : List String := [
  "1.1", "2.0", "2.1", "3.0", "3.1", "3.2", "4.0", "4.1", "5.0", "5.1", "5.2", "6.0", "6.1",
  "6.2", "6.3", "7.0", "8.0", "9.0", "10.0", "11.0", "12.0", "12.1", "13.0", "14.0", "15.0"]

/-- The tag of the version with a name: the version itself, or its digits behind a `v`. -/
def versionTag? (name : String) : Option String :=
  (versions.findIdx? fun v => name == v || name == "v" ++ v.replace "." "").map fun i =>
    String.singleton (Char.ofNat ('a'.toNat + i))

/-- The character was assigned in the version with a tag or in an earlier one. -/
def isAssignedBy (tag : String) (c : Char) : Bool :=
  decide (ageRuns.tag c ≤ tag)

end NextBuild.Unicode
