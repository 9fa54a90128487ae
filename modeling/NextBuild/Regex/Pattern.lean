import NextBuild.Regex.CharSet

/-!
# Patterns over texts

A pattern relates the places of a text: it leads from a place to those places where the part of the
text in between is a match.  `Leads` says this by rules, one for each form of pattern; `image`
computes, for a set of places, the set of places that the pattern leads to, and never backtracks.
A text matches when the pattern leads from some place to some place.
-/

namespace NextBuild.Regex

/-- A condition on the characters right before and right after a place. -/
inductive Look where
  | textStart
  | textEnd
  | lineStart (crlf : Bool)
  | lineEnd (crlf : Bool)
  | wordBoundary (unicode : Bool)
  | notWordBoundary (unicode : Bool)
  | wordStart (unicode : Bool)
  | wordEnd (unicode : Bool)
  | wordStartHalf (unicode : Bool)
  | wordEndHalf (unicode : Bool)
deriving DecidableEq, Repr

namespace Look

/-- There is a character of a word. -/
def isWord (unicode : Bool) : Option Char → Bool
  | none => false
  | some c =>
    if unicode then Unicode.isWordChar c else c.toNat < 128 && (c.isAlphanum || c == '_')

/-- The condition holds between two neighbours. -/
def holds : Look → Option Char → Option Char → Bool
  | textStart, before, _ => before.isNone
  | textEnd, _, after => after.isNone
  | lineStart false, before, _ => before.isNone || before == some '\n'
  | lineEnd false, _, after => after.isNone || after == some '\n'
  | lineStart true, before, after =>
    before.isNone || before == some '\n' || (before == some '\r' && after != some '\n')
  | lineEnd true, before, after =>
    after.isNone || after == some '\r' || (after == some '\n' && before != some '\r')
  | wordBoundary u, before, after => isWord u before != isWord u after
  | notWordBoundary u, before, after => isWord u before == isWord u after
  | wordStart u, before, after => !isWord u before && isWord u after
  | wordEnd u, before, after => isWord u before && !isWord u after
  | wordStartHalf u, before, _ => !isWord u before
  | wordEndHalf u, _, after => !isWord u after

/-- The truth of the condition at each place of a text, from a place with a given neighbour on. -/
def places (l : Look) : Option Char → List Char → List Bool
  | before, [] => [l.holds before none]
  | before, c :: r => l.holds before (some c) :: l.places (some c) r

/-- There is one more place than there are characters. -/
theorem length_places (l : Look) (before : Option Char) (cs : List Char) :
    (l.places before cs).length = cs.length + 1 := by
  induction cs generalizing before with
  | nil => rfl
  | cons c r ih => simp [places, ih]

end Look

/-- A pattern. -/
inductive Pattern where
  | empty
  | chars (s : CharSet)
  | look (l : Look)
  | seq (a b : Pattern)
  | alt (a b : Pattern)
  /-- Any number of matches of `a`, one after the other. -/
  | star (a : Pattern)
  /-- Exactly `n` matches of `a`. -/
  | times (a : Pattern) (n : Nat)
  /-- At most `n` matches of `a`. -/
  | upTo (a : Pattern) (n : Nat)
deriving DecidableEq, Repr

/-- A set of places of a text, as one truth value for each place. -/
abbrev Places := List Bool

namespace Places

/-- The places of both sets. -/
def union (s t : Places) : Places := List.zipWith or s t

/-- The places that `keep` holds too. -/
def inter (s keep : Places) : Places := List.zipWith and s keep

/-- Every place of a text. -/
def all (text : List Char) : Places := List.replicate (text.length + 1) true

/-- The places after a character of the set that stands at one of these places. -/
def step (s : CharSet) (text : List Char) (from_ : Places) : Places :=
  false :: List.zipWith (fun b c => b && s.mem c) from_ text

/-- Apply a function `n` times, or until it changes nothing. -/
def iterate (f : Places → Places) : Nat → Places → Places
  | 0, s => s
  | n + 1, s => let t := f s; if t == s then s else iterate f n t

end Places

namespace Pattern

/-- The pattern of one character. -/
def char (c : Char) : Pattern := chars (.single c)

/-- One pattern after the other. -/
def seqs : List Pattern → Pattern
  | [] => empty
  | [p] => p
  | p :: ps => seq p (seqs ps)

/-- The characters of a text, one after the other. -/
def literal (cs : List Char) : Pattern :=
  seqs (cs.map char)

/-- One of a list of patterns. -/
def alts : List Pattern → Pattern
  | [] => empty
  | [p] => p
  | p :: ps => alt p (alts ps)

/-- The pattern or nothing. -/
def optional (p : Pattern) : Pattern := upTo p 1

/-- At least `low` and, if there is a bound, at most `high` matches. -/
def repeated (p : Pattern) (low : Nat) : Option Nat → Pattern
  | none => seq (times p low) (star p)
  | some high => seq (times p low) (upTo p (high - low))

/-- The places of the text that the pattern leads to from a set of places. -/
def image (text : List Char) : Pattern → Places → Places
  | empty, s => s
  | chars set, s => Places.step set text s
  | look l, s => Places.inter s (l.places none text)
  | seq a b, s => image text b (image text a s)
  | alt a b, s => Places.union (image text a s) (image text b s)
  | star a, s =>
    Places.iterate (fun t => Places.union t (image text a t)) (text.length + 1) s
  | times a n, s => n.repeat (image text a) s
  | upTo a n, s => Places.iterate (fun t => Places.union t (image text a t)) n s

/-- Some part of the text is a match. -/
def isMatch (p : Pattern) (text : String) : Bool :=
  (image text.toList p (Places.all text.toList)).any id

/-- The part of `text` from place `i` to place `j` is a match. -/
inductive Leads (text : List Char) : Pattern → Nat → Nat → Prop where
  | empty (i) : i ≤ text.length → Leads text .empty i i
  | chars (s i c) : text[i]? = some c → s.mem c = true → Leads text (.chars s) i (i + 1)
  | look (l i) : i ≤ text.length →
      l.holds (if i = 0 then none else text[i - 1]?) text[i]? = true → Leads text (.look l) i i
  | seq (a b i j k) : Leads text a i j → Leads text b j k → Leads text (.seq a b) i k
  | altLeft (a b i j) : Leads text a i j → Leads text (.alt a b) i j
  | altRight (a b i j) : Leads text b i j → Leads text (.alt a b) i j
  | starNone (a i) : i ≤ text.length → Leads text (.star a) i i
  | starMore (a i j k) : Leads text a i j → Leads text (.star a) j k → Leads text (.star a) i k
  | timesNone (a i) : i ≤ text.length → Leads text (.times a 0) i i
  | timesMore (a n i j k) : Leads text a i j → Leads text (.times a n) j k →
      Leads text (.times a (n + 1)) i k
  | upToNone (a n i) : i ≤ text.length → Leads text (.upTo a n) i i
  | upToMore (a n i j k) : Leads text a i j → Leads text (.upTo a n) j k →
      Leads text (.upTo a (n + 1)) i k

/-- No match of the pattern takes a character. -/
def isZeroWidth : Pattern → Bool
  | empty | look _ => true
  | chars s => s == .nothing
  | seq a b | alt a b => a.isZeroWidth && b.isZeroWidth
  | star a => a.isZeroWidth
  | times a n | upTo a n => n == 0 || a.isZeroWidth

/-- An estimate, in bytes, of the room that a matching machine for the pattern takes.  What a machine
takes in fact depends on how its instructions are laid out and shared, so that a pattern whose estimate
is near a limit may be on the other side of it. -/
def machineSize : Pattern → Nat
  | empty => 32
  | look _ => 32
  | chars s => if s.isAscii then 32 + 8 * s.pieces else 300 + 64 * s.pieces
  | seq a b => a.machineSize + b.machineSize
  | alt a b => a.machineSize + b.machineSize + 40
  | star a => a.machineSize + 40
  | times a n => n * a.machineSize
  | upTo a n => n * (a.machineSize + 40)

end Pattern

end NextBuild.Regex
