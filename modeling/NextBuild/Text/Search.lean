/-!
# Searching in texts

Leading parts, occurrences and separators, stated on lists of characters so that each law is one
induction.
-/

namespace NextBuild.Text

/-- The text starts with `lead`. -/
def startsWith (lead s : String) : Bool :=
  lead.toList.isPrefixOf s.toList

/-- What follows `lead` in a text that starts with it. -/
def afterLead? (lead s : String) : Option String :=
  if startsWith lead s then some (String.ofList (s.toList.drop lead.toList.length)) else none

/-- The text ends with `tail`. -/
def endsWith (tail s : String) : Bool :=
  tail.toList.isSuffixOf s.toList

/-- The list `needle` occurs somewhere in a list of characters. -/
def occursIn (needle : List Char) : List Char → Bool
  | [] => needle.isEmpty
  | c :: r => needle.isPrefixOf (c :: r) || occursIn needle r

/-- The text `needle` occurs somewhere in `s`. -/
def contains (needle s : String) : Bool :=
  occursIn needle.toList s.toList

/-- The character occurs in the text. -/
def hasChar (c : Char) (s : String) : Bool :=
  s.toList.contains c

/-- The parts before and after the first `c`, if it occurs. -/
def splitAtFirst? (c : Char) : List Char → Option (List Char × List Char)
  | [] => none
  | d :: r => if d = c then some ([], r) else (splitAtFirst? c r).map fun (a, b) => (d :: a, b)

/-- The texts before and after the first `c`, if it occurs. -/
def splitOnce? (c : Char) (s : String) : Option (String × String) :=
  (splitAtFirst? c s.toList).map fun (a, b) => (String.ofList a, String.ofList b)

/-- The parts between the occurrences of `c`; `part` holds the open part in reverse. -/
def splitFrom (c : Char) (part : List Char) : List Char → List (List Char)
  | [] => [part.reverse]
  | d :: r => if d = c then part.reverse :: splitFrom c [] r else splitFrom c (d :: part) r

/-- The texts between the occurrences of `c`, at least one. -/
def splitOn (c : Char) (s : String) : List String :=
  (splitFrom c [] s.toList).map String.ofList

/-- An ASCII capital letter becomes small; every other character stays. -/
def lowerAscii (s : String) : String :=
  String.ofList (s.toList.map Char.toLower)

/-- The character is a digit or a letter from `a` to `f` in either case. -/
def isHexDigit (c : Char) : Bool :=
  c.isDigit || ('a' ≤ c && c ≤ 'f') || ('A' ≤ c && c ≤ 'F')

/-- The value of a hexadecimal digit. -/
def hexValue (c : Char) : Nat :=
  if c.isDigit then c.toNat - 48
  else if 'a' ≤ c && c ≤ 'f' then c.toNat - 87
  else c.toNat - 55

/-- The small hexadecimal digit for a value below sixteen. -/
def hexDigit (n : Nat) : Char :=
  if n < 10 then Char.ofNat (48 + n) else Char.ofNat (87 + n)

/-- The number that a list of decimal digits writes. -/
def decimalValue (ds : List Char) : Nat :=
  ds.foldl (fun n d => 10 * n + (d.toNat - 48)) 0

/-- The number that a list of digits writes in a base of at most sixteen. -/
def digitsValue (base : Nat) (ds : List Char) : Nat :=
  ds.foldl (fun n d => base * n + hexValue d) 0

/-- Strings in code-point order. -/
def le (a b : String) : Bool :=
  decide (¬ b < a)

/-- The comparison is the order of texts. -/
theorem le_iff {a b : String} : le a b = true ↔ a ≤ b := by
  rw [le, decide_eq_true_eq, String.not_lt]

/-- Sorting by a name puts a list into the order of the names. -/
theorem pairwise_mergeSort_le {α : Type} (name : α → String) (xs : List α) :
    (xs.mergeSort fun a b => le (name a) (name b)).Pairwise fun a b => name a ≤ name b := by
  refine (List.pairwise_mergeSort (fun a b c => ?_) (fun a b => ?_) xs).imp le_iff.1
  · rw [le_iff, le_iff, le_iff]
    exact String.le_trans
  · rw [Bool.or_eq_true, le_iff, le_iff]
    exact String.le_total _ _

/-- A text occurs if it is a part of the other one. -/
theorem occursIn_iff {needle cs : List Char} : occursIn needle cs = true ↔ needle <:+: cs := by
  induction cs with
  | nil => rw [occursIn, List.isEmpty_iff, List.infix_nil]
  | cons c cs ih =>
    rw [occursIn, Bool.or_eq_true, ih, List.isPrefixOf_iff_prefix, List.infix_cons_iff]

/-- A text that starts like another one does so whatever follows. -/
theorem startsWith_append {lead s : String} (t : String) (h : startsWith lead s = true) :
    startsWith lead (s ++ t) = true := by
  unfold startsWith at *
  rw [List.isPrefixOf_iff_prefix] at *
  rw [String.toList_append]
  exact h.trans (List.prefix_append _ _)

/-- The begin of a begin is a begin. -/
theorem startsWith_trans {lead lead' s : String} (h : startsWith lead lead' = true)
    (h' : startsWith lead' s = true) : startsWith lead s = true := by
  unfold startsWith at *
  rw [List.isPrefixOf_iff_prefix] at *
  exact h.trans h'

/-- Nothing is behind a lead that is not there. -/
theorem afterLead?_eq_none_iff (lead s : String) :
    afterLead? lead s = none ↔ startsWith lead s = false := by
  simp [afterLead?]

/-- Behind a lead is what it was put in front of. -/
theorem afterLead?_append (lead s : String) : afterLead? lead (lead ++ s) = some s := by
  have hlead : startsWith lead (lead ++ s) = true :=
    startsWith_append s (List.isPrefixOf_iff_prefix.2 (List.prefix_refl _))
  rw [afterLead?, if_pos hlead, String.toList_append, List.drop_left, String.ofList_toList]

/-- The parts of a text around its lead make up the text. -/
theorem append_of_afterLead? {lead s r : String} (h : afterLead? lead s = some r) :
    lead ++ r = s := by
  unfold afterLead? at h
  split at h
  · next hs =>
    simp only [Option.some.injEq] at h
    obtain ⟨t, ht⟩ := List.isPrefixOf_iff_prefix.1 hs
    apply String.toList_injective
    rw [← h, String.toList_append, String.toList_ofList, ← ht, List.drop_left]
  · simp at h

end NextBuild.Text
