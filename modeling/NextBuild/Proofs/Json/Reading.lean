import NextBuild.Json.Printer
import NextBuild.Json.Reader
import NextBuild.Proofs.Json.Scalars

/-!
# Reading JSON, step by step

The tokens of a value are read as this value: where the reader waits for a value, it goes over the
tokens, however deep they open arrays and objects, and has the value with nothing more left open
than before.  Characters spell tokens if these are found in front of whatever follows, as long as
what follows does not go on with a number; blanks in front of a token do not matter.
-/

namespace NextBuild.Json

open Number (Ends)

/-- A value that is made of texts and of integers below 2^64 in size, with at most `depth` levels of
arrays and objects. -/
inductive Composed : Nat → Json → Prop
  | null (depth : Nat) : Composed depth null
  | bool (depth : Nat) (b : Bool) : Composed depth (bool b)
  | integer (depth : Nat) {n : Int} : n.natAbs < UInt64.size → Composed depth (ofInt n)
  | text (depth : Nat) (s : String) : Composed depth (ofText s)
  | array {depth : Nat} {vs : List Json} :
      (∀ v ∈ vs, Composed depth v) → Composed (depth + 1) (array vs)
  | record {depth : Nat} {ms : List (String × Json)} :
      (∀ m ∈ ms, Composed depth m.2) → Composed (depth + 1) (record ms)

mutual

/-- The tokens of a value. -/
def tokens : Json → List Token
  | null => [.null]
  | bool b => [.bool b]
  | number lexeme => [.number lexeme]
  | string body => [.string body]
  | array [] => [.openArray, .closeArray]
  | array (v :: vs) => .openArray :: tokens v ++ itemTokens vs
  | object [] => [.openObject, .closeObject]
  | object (m :: ms) => .openObject :: .string m.1 :: .colon :: tokens m.2 ++ memberTokens ms

/-- The tokens of the further items of an array, with its end. -/
def itemTokens : List Json → List Token
  | [] => [.closeArray]
  | v :: vs => .comma :: tokens v ++ itemTokens vs

/-- The tokens of the further members of an object, with its end. -/
def memberTokens : List (List Char × Json) → List Token
  | [] => [.closeObject]
  | m :: ms => .comma :: .string m.1 :: .colon :: tokens m.2 ++ memberTokens ms

end

/-! ## From tokens to values -/

section Reader

variable {depth : Nat} {v : Json} {stack : List Frame} {ts : List Token}

/-- The reader waits for a value, as the first item of an array or elsewhere. -/
def Stage.AwaitsValue (stage : Stage) : Prop := stage = .value ∨ stage = .firstItem

/-- Where it waits for a value, the reader goes over the tokens of this one and has it. -/
def IsRead (v : Json) : Prop :=
  ∀ stage : Stage, stage.AwaitsValue → ∀ stack ts,
    (tokens v ++ ts).foldlM Machine.step ⟨stack, stage⟩ =
      ts.foldlM Machine.step ⟨stack, .after v⟩

/-- The further items of an array come behind those that are done. -/
theorem foldlM_itemTokens {vs : List Json} (h : ∀ v ∈ vs, IsRead v) (done : List Json) (v : Json) :
    (itemTokens vs ++ ts).foldlM Machine.step ⟨.items done :: stack, .after v⟩ =
      ts.foldlM Machine.step ⟨stack, .after (.array ((v :: done).reverse ++ vs))⟩ := by
  induction vs generalizing done v with
  | nil =>
    rw [List.append_nil]
    rfl
  | cons w vs ih =>
    have hw := h w List.mem_cons_self .value (.inl rfl) (.items (v :: done) :: stack)
      (itemTokens vs ++ ts)
    have hrest := ih (fun u hu => h u (List.mem_cons_of_mem _ hu)) (v :: done) w
    simp only [itemTokens, List.cons_append, List.append_assoc]
    show (tokens w ++ (itemTokens vs ++ ts)).foldlM Machine.step
      ⟨.items (v :: done) :: stack, .value⟩ = _
    rw [hw, hrest]
    simp

/-- The further members of an object come behind those that are done. -/
theorem foldlM_memberTokens {ms : List (List Char × Json)} (h : ∀ m ∈ ms, IsRead m.2)
    (done : List (List Char × Json)) (k : List Char) (v : Json) :
    (memberTokens ms ++ ts).foldlM Machine.step ⟨.members done k :: stack, .after v⟩ =
      ts.foldlM Machine.step ⟨stack, .after (.object (((k, v) :: done).reverse ++ ms))⟩ := by
  induction ms generalizing done k v with
  | nil =>
    rw [List.append_nil]
    rfl
  | cons m ms ih =>
    have hm := h m List.mem_cons_self .value (.inl rfl) (.members ((k, v) :: done) m.1 :: stack)
      (memberTokens ms ++ ts)
    have hrest := ih (fun u hu => h u (List.mem_cons_of_mem _ hu)) ((k, v) :: done) m.1 m.2
    simp only [memberTokens, List.cons_append, List.append_assoc]
    show (tokens m.2 ++ (memberTokens ms ++ ts)).foldlM Machine.step
      ⟨.members ((k, v) :: done) m.1 :: stack, .value⟩ = _
    rw [hm, hrest]
    simp

/-- An array is read when its items are. -/
theorem isRead_array {vs : List Json} (h : ∀ v ∈ vs, IsRead v) : IsRead (.array vs) := by
  intro stage hstage stack ts
  cases vs with
  | nil => rcases hstage with rfl | rfl <;> rfl
  | cons v vs =>
    have hfirst := h v List.mem_cons_self .firstItem (.inr rfl) (.items [] :: stack)
      (itemTokens vs ++ ts)
    have hopen : Machine.step ⟨stack, stage⟩ .openArray = some ⟨.items [] :: stack, .firstItem⟩ := by
      rcases hstage with rfl | rfl <;> rfl
    simp only [tokens, List.cons_append, List.append_assoc, List.foldlM_cons, hopen]
    show (tokens v ++ (itemTokens vs ++ ts)).foldlM Machine.step
      ⟨.items [] :: stack, .firstItem⟩ = _
    rw [hfirst, foldlM_itemTokens fun w hw => h w (List.mem_cons_of_mem _ hw)]
    rfl

/-- An object is read when the values of its members are. -/
theorem isRead_object {ms : List (List Char × Json)} (h : ∀ m ∈ ms, IsRead m.2) :
    IsRead (.object ms) := by
  intro stage hstage stack ts
  cases ms with
  | nil => rcases hstage with rfl | rfl <;> rfl
  | cons m ms =>
    have hfirst := h m List.mem_cons_self .value (.inl rfl) (.members [] m.1 :: stack)
      (memberTokens ms ++ ts)
    have hopen : Machine.step ⟨stack, stage⟩ .openObject = some ⟨stack, .firstKey⟩ := by
      rcases hstage with rfl | rfl <;> rfl
    simp only [tokens, List.cons_append, List.append_assoc, List.foldlM_cons, hopen]
    show (tokens m.2 ++ (memberTokens ms ++ ts)).foldlM Machine.step
      ⟨.members [] m.1 :: stack, .value⟩ = _
    rw [hfirst, foldlM_memberTokens fun u hu => h u (List.mem_cons_of_mem _ hu)]
    rfl

/-- The reader goes over the tokens of a composed value and has it. -/
theorem Composed.isRead (hv : Composed depth v) : IsRead v := by
  induction hv with
  | null => exact fun stage hstage stack ts => by rcases hstage with rfl | rfl <;> rfl
  | bool => exact fun stage hstage stack ts => by rcases hstage with rfl | rfl <;> rfl
  | integer => exact fun stage hstage stack ts => by rcases hstage with rfl | rfl <;> rfl
  | text => exact fun stage hstage stack ts => by rcases hstage with rfl | rfl <;> rfl
  | array _ ih => exact isRead_array ih
  | record _ ih =>
    refine isRead_object fun m hm => ?_
    obtain ⟨n, hn, rfl⟩ := List.mem_map.1 hm
    exact ih n hn

/-- The tokens of a value are read as the value. -/
theorem Composed.ofTokens?_tokens (hv : Composed depth v) : ofTokens? (tokens v) = some v := by
  have h := hv.isRead .value (.inl rfl) [] []
  rw [List.append_nil] at h
  simp only [ofTokens?, Machine.start, h]
  rfl

end Reader

/-! ## From characters to tokens -/

/-- The tokens of the characters, whatever bound on their number is given. -/
def Scans (cs : List Char) (ts : List Token) : Prop :=
  ∀ fuel, cs.length ≤ fuel → Token.tokensFrom fuel cs = some ts

/-- The characters spell the tokens in front of anything that does not go on with a number. -/
def Spells (cs : List Char) (ts : List Token) : Prop :=
  ∀ rest us, Ends rest → Scans rest us → Scans (cs ++ rest) (ts ++ us)

/-- An empty text has no tokens. -/
theorem scans_nil : Scans [] [] := by
  intro fuel _
  cases fuel <;> rfl

/-- A blank is passed over. -/
theorem Scans.space {cs : List Char} {ts : List Token} {c : Char} (hc : Token.isSpace c = true)
    (h : Scans cs ts) : Scans (c :: cs) ts := by
  intro fuel hfuel
  cases fuel with
  | zero => simp at hfuel
  | succ fuel =>
    have hlength : cs.length ≤ fuel + 1 := by
      simp only [List.length_cons] at hfuel
      omega
    rw [← h (fuel + 1) hlength]
    simp only [Token.tokensFrom, List.dropWhile_cons, hc, if_true]

/-- A token in front is taken off. -/
theorem Scans.token {cs rest : List Char} {ts : List Token} {c : Char} {t : Token}
    (hc : Token.isSpace c = false) (ht : Token.next? (c :: cs) = some (t, rest))
    (hlength : rest.length ≤ cs.length) (h : Scans rest ts) : Scans (c :: cs) (t :: ts) := by
  intro fuel hfuel
  cases fuel with
  | zero => simp at hfuel
  | succ fuel =>
    have hrest := h fuel (by simp only [List.length_cons] at hfuel; omega)
    simp only [Token.tokensFrom, List.dropWhile_cons, hc, Bool.false_eq_true, if_false, ht, hrest,
      Option.bind_eq_bind, Option.bind_some]
    rfl

/-- A digit or a minus sign begins a number. -/
theorem Token.next?_number {c : Char} {r : List Char} (hc : c = '-' ∨ c.isDigit = true) :
    Token.next? (c :: r) = (Number.lexeme? (c :: r)).map fun l => (.number l.1, l.2) := by
  have hne (d : Char) (hd : d ≠ '-') (hd' : d.isDigit = false) : c ≠ d := by
    rintro rfl
    rcases hc with rfl | hc
    · exact hd rfl
    · rw [hd'] at hc
      cases hc
  -- Every other token begins with another character.
  unfold Token.next?
  split <;> first
    | rfl
    | next heq => exact absurd (List.cons.inj heq).1 (hne _ (by decide) (by decide))

namespace Spells

variable {cs ds : List Char} {ts us : List Token}

/-- An empty text spells no tokens. -/
theorem nil : Spells [] [] := fun _ _ _ h => h

/-- Two spellings stand one after the other if a number at the end of the first one ends there. -/
theorem append (hcs : Spells cs ts) (hds : Spells ds us) (hends : ∀ rest, Ends (ds ++ rest)) :
    Spells (cs ++ ds) (ts ++ us) := by
  intro rest vs hrest h
  rw [List.append_assoc, List.append_assoc]
  exact hcs _ _ (hends rest) (hds _ _ hrest h)

/-- A blank in front changes nothing. -/
theorem space {c : Char} (hc : Token.isSpace c = true) (h : Spells cs ts) : Spells (c :: cs) ts :=
  fun rest vs hrest hvs => (h rest vs hrest hvs).space hc

/-- Blanks in front change nothing. -/
theorem blanks (hds : ∀ c ∈ ds, Token.isSpace c = true) (h : Spells cs ts) :
    Spells (ds ++ cs) ts := by
  induction ds with
  | nil => exact h
  | cons d ds ih =>
    exact .space (hds d List.mem_cons_self) (ih fun c hc => hds c (List.mem_cons_of_mem _ hc))

/-- A token of one character may stand in front. -/
theorem mark {c : Char} {t : Token} (hc : Token.isSpace c = false)
    (ht : ∀ r, Token.next? (c :: r) = some (t, r)) (h : Spells cs ts) : Spells (c :: cs) (t :: ts) :=
  fun rest vs hrest hvs => (h rest vs hrest hvs).token hc (ht _) (Nat.le_refl _)

/-- A word is spelled by its characters. -/
theorem word {c : Char} {t : Token} (hc : Token.isSpace c = false)
    (ht : ∀ r, Token.next? (c :: (cs ++ r)) = some (t, r)) : Spells (c :: cs) [t] := by
  intro rest us _ hus
  have hlength : rest.length ≤ (cs ++ rest).length := by simp
  exact hus.token hc (ht rest) hlength

/-- The word for nothing is a token. -/
theorem null : Spells "null".toList [.null] := .word (by decide) fun _ => rfl

/-- The words for both truth values are tokens. -/
theorem bool : ∀ b : Bool, Spells (compactChars (.bool b)) [.bool b]
  | true => .word (by decide) fun _ => rfl
  | false => .word (by decide) fun _ => rfl

/-- A text between quotes may stand in front. -/
theorem quoted (s : String) (h : Spells cs ts) :
    Spells (Json.quoted (Quoted.encode s) ++ cs) (.string (Quoted.encode s) :: ts) := by
  intro rest vs hrest hvs
  have hscan : Token.next? ('"' :: (Quoted.encode s ++ '"' :: (cs ++ rest))) =
      some (.string (Quoted.encode s), cs ++ rest) := by
    rw [Token.next?, Quoted.scan?_encode]
    rfl
  have hlength : (cs ++ rest).length ≤ (Quoted.encode s ++ '"' :: (cs ++ rest)).length := by
    simp only [List.length_append, List.length_cons]
    omega
  have hchars : Json.quoted (Quoted.encode s) ++ cs ++ rest =
      '"' :: (Quoted.encode s ++ '"' :: (cs ++ rest)) := by
    simp [Json.quoted]
  rw [hchars]
  exact (h rest vs hrest hvs).token (by decide) hscan hlength

/-- A text is spelled between quotes. -/
theorem text (s : String) : Spells (Json.quoted (Quoted.encode s)) [.string (Quoted.encode s)] := by
  simpa using quoted s nil

/-- An integer is spelled by its number. -/
theorem integer (n : Int) : Spells (Number.ofInt n) [.number (Number.ofInt n)] := by
  intro rest us hrest hus
  have hlexeme := Number.lexeme?_ofInt n hrest
  obtain ⟨c, r, hchars, hc⟩ := Number.exists_cons_ofInt n
  rw [hchars, List.cons_append] at hlexeme ⊢
  have hspace : Token.isSpace c = false := by
    rcases hc with rfl | hc
    · rfl
    · simp only [Token.isSpace, Bool.or_eq_false_iff, beq_eq_false_iff_ne]
      refine ⟨⟨⟨?_, ?_⟩, ?_⟩, ?_⟩ <;> (rintro rfl; exact absurd hc (by decide))
  have hnext : Token.next? (c :: (r ++ rest)) = some (.number (c :: r), rest) := by
    rw [Token.next?_number hc, hlexeme]
    rfl
  have hlength : rest.length ≤ (r ++ rest).length := by simp
  exact hus.token hspace hnext hlength

end Spells

end NextBuild.Json
