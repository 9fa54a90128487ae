import NextBuild.Json.Value

/-!
# Integers and texts that are written

The characters that are written for an integer are a number of JSON, and the body that is written
for a text is the body of a string.  Both are found again in front of what follows them: a number
ends where no further digit, dot or exponent letter comes, and a body ends at the first quote, for
no quote stands in it unescaped.  What is found is read as the integer and the text it was.
-/

namespace NextBuild.Json

namespace Number

variable {cs ds rest : List Char} {n : Int}

/-- The character goes on with a number that stands in front of it. -/
def isPart (c : Char) : Bool :=
  c.isDigit || c == '.' || c == 'e' || c == 'E'

/-- A number in front of these characters ends there. -/
def Ends (rest : List Char) : Prop := ∀ c ∈ rest.head?, isPart c = false

/-- A number may end with the text. -/
theorem ends_nil : Ends [] := by simp [Ends]

/-- A number may end before a character that is no part of it. -/
theorem ends_cons {c : Char} (h : isPart c = false) : Ends (c :: rest) := by simpa [Ends] using h

/-- The digits in front of the end of a number are all its digits. -/
theorem digits_append (hds : ∀ c ∈ ds, c.isDigit = true) (h : Ends rest) :
    digits (ds ++ rest) = (ds, rest) := by
  have hstop : rest.takeWhile Char.isDigit = [] ∧ rest.dropWhile Char.isDigit = rest := by
    cases rest with
    | nil => exact ⟨rfl, rfl⟩
    | cons c r =>
      have hc : c.isDigit = false := by
        have := h c rfl
        simp only [isPart, Bool.or_eq_false_iff] at this
        exact this.1.1.1
      simp [hc]
  rw [digits, List.takeWhile_append_of_pos hds, List.dropWhile_append_of_pos hds, hstop.1, hstop.2,
    List.append_nil]

/-- The digits of a number are digits. -/
theorem isDigit_of_mem_toDigits {k : Nat} : ∀ c ∈ Nat.toDigits 10 k, c.isDigit = true := fun _ hc =>
  Nat.isDigit_of_mem_toDigits (by omega) (by omega) hc

/-- A digit stands in front of a natural number. -/
theorem exists_cons_toDigits (k : Nat) :
    ∃ c r, Nat.toDigits 10 k = c :: r ∧ c.isDigit = true := by
  cases hds : Nat.toDigits 10 k with
  | nil => exact absurd hds Nat.toDigits_ne_nil
  | cons c r => exact ⟨c, r, rfl, isDigit_of_mem_toDigits c (hds ▸ List.mem_cons_self)⟩

/-- Only zero is written with a zero in front. -/
theorem head?_toDigits {k : Nat} (hk : 0 < k) : (Nat.toDigits 10 k).head? ≠ some '0' := by
  induction k using Nat.strongRecOn with
  | ind k ih =>
    rw [Nat.toDigits_eq_if (by omega)]
    split
    · simp only [List.head?_cons, ne_eq, Option.some.injEq, Nat.digitChar_eq_zero]
      omega
    · have hhead := ih (k / 10) (by omega) (by omega)
      obtain ⟨c, r, hds, -⟩ := exists_cons_toDigits (k / 10)
      simpa [hds] using hhead

/-- The digits of a natural number are a whole part. -/
theorem whole?_toDigits (k : Nat) (h : Ends rest) :
    whole? (Nat.toDigits 10 k ++ rest) = some (Nat.toDigits 10 k, rest) := by
  rcases Nat.eq_zero_or_pos k with rfl | hk
  · rfl
  · have hdigits : digits (Nat.toDigits 10 k ++ rest) = (Nat.toDigits 10 k, rest) :=
      digits_append isDigit_of_mem_toDigits h
    have hhead := head?_toDigits hk
    obtain ⟨c, r, hds, hdigit⟩ := exists_cons_toDigits k
    rw [hds, List.cons_append] at hdigits
    rw [hds, List.cons_append]
    have hc : c ≠ '0' := by simpa [hds] using hhead
    unfold whole?
    split
    · next heq => exact absurd (List.cons.inj heq).1 hc
    · next heq =>
      obtain ⟨rfl, rfl⟩ := List.cons.inj heq
      rw [if_pos hdigit, hdigits]
    · next heq => cases heq

/-- A number that ends has no fraction. -/
theorem fraction?_of_ends (h : Ends rest) : fraction? rest = some ([], rest) := by
  cases rest with
  | nil => rfl
  | cons c r =>
    have hc := h c rfl
    unfold fraction?
    split
    · next heq =>
      obtain ⟨rfl, -⟩ := List.cons.inj heq
      exact absurd hc (by decide)
    · rfl

/-- A number that ends has no exponent. -/
theorem exponent?_of_ends (h : Ends rest) : exponent? rest = some ([], rest) := by
  cases rest with
  | nil => rfl
  | cons c r =>
    have hc := h c rfl
    simp only [isPart, Bool.or_eq_false_iff] at hc
    simp [exponent?, hc.1.2, hc.2]

/-- An integer is written as a sign, if it is negative, and the digits of its size. -/
theorem ofInt_eq (n : Int) :
    ofInt n = (if n < 0 then ['-'] else []) ++ Nat.toDigits 10 n.natAbs := by
  simp only [ofInt, Nat.toString_eq_ofList_toDigits, String.toList_ofList]
  split <;> rfl

/-- A minus sign or a digit stands in front of an integer. -/
theorem exists_cons_ofInt (n : Int) : ∃ c r, ofInt n = c :: r ∧ (c = '-' ∨ c.isDigit = true) := by
  rw [ofInt_eq]
  by_cases hn : n < 0
  · exact ⟨'-', Nat.toDigits 10 n.natAbs, by simp [hn], .inl rfl⟩
  · obtain ⟨c, r, hds, hdigit⟩ := exists_cons_toDigits n.natAbs
    exact ⟨c, r, by simp [hn, hds], .inr hdigit⟩

/-- The sign is told from the digits behind it. -/
theorem sign_ofInt (n : Int) (rest : List Char) :
    sign (ofInt n ++ rest) = (if n < 0 then ['-'] else [], Nat.toDigits 10 n.natAbs ++ rest) := by
  rw [ofInt_eq, List.append_assoc]
  by_cases hn : n < 0
  · simp [hn, sign]
  · obtain ⟨c, r, hds, hdigit⟩ := exists_cons_toDigits n.natAbs
    simp only [hn, if_false, List.nil_append, hds, List.cons_append]
    unfold sign
    split
    · next heq =>
      obtain ⟨rfl, -⟩ := List.cons.inj heq
      exact absurd hdigit (by decide)
    · rfl

/-- An integer in front of the end of a number is found as it was written. -/
theorem lexeme?_ofInt (n : Int) (h : Ends rest) :
    lexeme? (ofInt n ++ rest) = some (ofInt n, rest) := by
  simp only [lexeme?, sign_ofInt, whole?_toDigits n.natAbs h, fraction?_of_ends h,
    exponent?_of_ends h, Option.bind_eq_bind, Option.bind_some, List.append_nil, ← ofInt_eq]
  rfl

/-- The digits of a natural number have it as their value. -/
theorem decimalValue_toDigits (k : Nat) : Text.decimalValue (Nat.toDigits 10 k) = k := by
  have h := Nat.ofDigitChars_ten_toDigits (n := k)
  rwa [Nat.ofDigitChars_eq_foldl] at h

/-- An integer is read as it was written. -/
theorem int?_ofInt (n : Int) : int? (ofInt n) = some n := by
  have hsign := sign_ofInt n []
  rw [List.append_nil, List.append_nil] at hsign
  have hall : (Nat.toDigits 10 n.natAbs).all Char.isDigit = true :=
    List.all_eq_true.2 isDigit_of_mem_toDigits
  have hne : (Nat.toDigits 10 n.natAbs).isEmpty = false :=
    List.isEmpty_eq_false_iff.2 Nat.toDigits_ne_nil
  simp only [int?, hsign, hall, hne, decimalValue_toDigits, Bool.not_true, Bool.or_false,
    Bool.false_eq_true, if_false]
  by_cases hn : n < 0
  · have habs : n.natAbs ≠ 0 := by omega
    have hvalue : -(n.natAbs : Int) = n := by omega
    simp only [hn, if_true, List.isEmpty_cons, Bool.false_eq_true, if_false, habs, hvalue]
  · have hvalue : (n.natAbs : Int) = n := by omega
    simp only [hn, if_false, List.isEmpty_nil, if_true, hvalue]

/-- Numbers of at most 308 digits are not too large. -/
theorem overflows_ofInt (h : (Nat.toDigits 10 n.natAbs).length ≤ 308) :
    overflows (ofInt n) = false := by
  have hsign := sign_ofInt n []
  have hdigits : digits (Nat.toDigits 10 n.natAbs ++ []) = (Nat.toDigits 10 n.natAbs, []) :=
    digits_append isDigit_of_mem_toDigits ends_nil
  rw [List.append_nil] at hsign hdigits
  rw [List.append_nil] at hsign
  have hlength : ((Nat.toDigits 10 n.natAbs).dropWhile (· == '0')).length ≤ 308 :=
    Nat.le_trans (List.dropWhile_sublist _).length_le h
  simp only [overflows, hsign, hdigits, List.append_nil, List.length_nil]
  split
  · rfl
  · have hzero : Text.decimalValue [] = 0 := rfl
    rw [if_neg (by simp only [hzero, Bool.false_eq_true, if_false]; omega),
      if_pos (by simp only [hzero, Bool.false_eq_true, if_false]; omega)]

end Number

namespace Quoted

/-- How a character comes out of its body: control characters without a letter of their own as
their number. -/
def pieceOf (c : Char) : Piece :=
  if c.toNat < 32 && !(['\n', '\r', '\t', '\x08', '\x0c'].contains c) then .unit c.toNat
  else .plain c

/-- The digits of a control character write its number. -/
theorem hexDigits_of_lt {n : Nat} (h : n < 32) :
    ['0', '0', Text.hexDigit (n / 16), Text.hexDigit (n % 16)].all Text.isHexDigit = true ∧
      Text.digitsValue 16 ['0', '0', Text.hexDigit (n / 16), Text.hexDigit (n % 16)] = n := by
  revert n
  decide

/-- A character is scanned as it was escaped. -/
theorem scan?_escapeChar (c : Char) (r : List Char) :
    scan? (escapeChar c ++ r) = (scan? r).map fun s =>
      ⟨escapeChar c ++ s.written, pieceOf c :: s.pieces, s.rest⟩ := by
  by_cases hletter : c ∈ ['"', '\\', '\n', '\r', '\t', '\x08', '\x0c']
  · simp only [List.mem_cons, List.not_mem_nil, or_false] at hletter
    rcases hletter with rfl | rfl | rfl | rfl | rfl | rfl | rfl <;> rfl
  · simp only [List.mem_cons, List.not_mem_nil, or_false, not_or] at hletter
    obtain ⟨hquote, hslash, hn, hr, ht, hb, hf⟩ := hletter
    by_cases hlt : c.toNat < 32
    · obtain ⟨hall, hvalue⟩ := hexDigits_of_lt hlt
      simp only [escapeChar, hquote, hslash, hn, hr, ht, hb, hf, hlt, if_false, if_true,
        List.cons_append, List.nil_append, scan?, hall, hvalue]
      simp [pieceOf, hlt, hn, hr, ht, hb, hf]
    · have hplain : (c == '\\') = false := beq_false_of_ne hslash
      simp only [escapeChar, hquote, hslash, hn, hr, ht, hb, hf, hlt, if_false,
        List.singleton_append]
      rw [scan?]
      · simp [pieceOf, hlt, hplain]
      · exact hquote
      · exact fun _ _ _ _ _ h => absurd h hslash
      · exact fun _ _ h => absurd h hslash

/-- The body that writes a text ends at the quote behind it. -/
theorem scan?_encode (s : String) (rest : List Char) :
    scan? (encode s ++ '"' :: rest) = some ⟨encode s, s.toList.map pieceOf, rest⟩ := by
  unfold encode
  induction s.toList with
  | nil => rfl
  | cons c cs ih =>
    rw [List.flatMap_cons, List.append_assoc, scan?_escapeChar, ih]
    rfl

/-- The number of a character that is no surrogate stands for the character. -/
theorem join?_unit {n : Nat} (h : n < 32) (ps : List Piece) :
    join? (.unit n :: ps) = (join? ps).map (Char.ofNat n :: ·) := by
  have hhigh : isHighSurrogate n = false := by simp [isHighSurrogate]; omega
  have hlow : isLowSurrogate n = false := by simp [isLowSurrogate]; omega
  cases ps with
  | nil => simp [join?, hhigh, hlow]
  | cons p ps =>
    cases p with
    | plain c => simp [join?, hhigh, hlow]
    | unit m => simp [join?, hhigh, hlow]

/-- The pieces of a text are joined to the text. -/
theorem join?_map_pieceOf (cs : List Char) : join? (cs.map pieceOf) = some cs := by
  induction cs with
  | nil => rfl
  | cons c cs ih =>
    rw [List.map_cons, pieceOf]
    split
    · next h =>
      have hlt : c.toNat < 32 := by simp only [Bool.and_eq_true, decide_eq_true_eq] at h; exact h.1
      rw [join?_unit hlt, ih, Char.ofNat_toNat]
      rfl
    · rw [join?, ih]
      rfl

/-- A text is read from the body that writes it. -/
theorem decode?_encode (s : String) : decode? (encode s) = some s := by
  simp only [decode?, scan?_encode, Option.bind_eq_bind, Option.bind_some, join?_map_pieceOf,
    String.ofList_toList]
  rfl

/-- No control character stands in what is written for a character. -/
theorem le_toNat_of_mem_escapeChar {c d : Char} (h : d ∈ escapeChar c) : 32 ≤ d.toNat := by
  have hall : ((List.range 128).all fun n =>
      (escapeChar (Char.ofNat n)).all fun e => decide (32 ≤ e.toNat)) = true := by decide +kernel
  have hascii : ∀ n < 128, ∀ e ∈ escapeChar (Char.ofNat n), 32 ≤ e.toNat := by
    simpa only [List.all_eq_true, List.mem_range, decide_eq_true_eq] using hall
  by_cases hc : c.toNat < 128
  · exact hascii c.toNat hc d (by rwa [Char.ofNat_toNat])
  · have hself : escapeChar c = [c] := by
      have hne (e : Char) (he : e.toNat < 128) : c ≠ e := fun h => hc (h ▸ he)
      unfold escapeChar
      simp only [hne '"' (by decide), hne '\\' (by decide), hne '\n' (by decide),
        hne '\r' (by decide), hne '\t' (by decide), hne '\x08' (by decide), hne '\x0c' (by decide),
        if_false]
      rw [if_neg (by omega)]
    rw [hself, List.mem_singleton] at h
    rw [h]
    omega

/-- No control character stands in a body. -/
theorem le_toNat_of_mem_encode {s : String} {c : Char} (h : c ∈ encode s) : 32 ≤ c.toNat := by
  obtain ⟨d, -, hd⟩ := List.mem_flatMap.1 h
  exact le_toNat_of_mem_escapeChar hd

end Quoted

end NextBuild.Json
