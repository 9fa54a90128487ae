import NextBuild.Proofs.Json.Reading

/-!
# Reading what was written

A value that is made of texts and integers is read from its compact text, and from its text over
several lines, as it was.  The two texts differ in their layout alone: in the blanks in front of the
entries of an array or object, in front of its end and behind its colons.  In any layout a text
spells the tokens of its value.
-/

namespace NextBuild.Json

open Number (Ends ends_cons)

/-- The blanks in front of an entry of an array or object, in front of its end, and behind a
colon. -/
structure Layout where
  entry : List Char
  close : List Char
  colon : List Char
  blank : ∀ c ∈ entry ++ close ++ colon, Token.isSpace c = true

namespace Layout

/-- What stands before an entry is blank. -/
theorem isSpace_entry (l : Layout) : ∀ c ∈ l.entry, Token.isSpace c = true := fun c hc =>
  l.blank c (by simp [hc])

/-- What stands before the end is blank. -/
theorem isSpace_close (l : Layout) : ∀ c ∈ l.close, Token.isSpace c = true := fun c hc =>
  l.blank c (by simp [hc])

/-- What stands behind a colon is blank. -/
theorem isSpace_colon (l : Layout) : ∀ c ∈ l.colon, Token.isSpace c = true := fun c hc =>
  l.blank c (by simp [hc])

/-- No blanks at all. -/
def compact : Layout := ⟨[], [], [], by simp⟩

/-- A new line with its indent is blank. -/
theorem isSpace_of_mem_newline (level : Nat) : ∀ c ∈ newline level, Token.isSpace c = true := by
  intro c hc
  rcases List.mem_cons.1 hc with rfl | hc
  · rfl
  · rw [List.eq_of_mem_replicate hc]
    rfl

/-- Every entry on a line of its own. -/
def pretty (level : Nat) : Layout where
  entry := newline (level + 1)
  close := newline level
  colon := [' ']
  blank c hc := by
    simp only [List.mem_append, List.mem_singleton] at hc
    rcases hc with (hc | hc) | rfl
    · exact isSpace_of_mem_newline _ c hc
    · exact isSpace_of_mem_newline _ c hc
    · rfl

/-- The further items of an array, with its end. -/
def items (l : Layout) (f : Json → List Char) : List Json → List Char
  | [] => l.close ++ [']']
  | v :: vs => ',' :: (l.entry ++ (f v ++ l.items f vs))

/-- An array. -/
def array (l : Layout) (f : Json → List Char) : List Json → List Char
  | [] => ['[', ']']
  | v :: vs => '[' :: (l.entry ++ (f v ++ l.items f vs))

/-- A key with its value. -/
def member (l : Layout) (f : Json → List Char) (m : List Char × Json) : List Char :=
  quoted m.1 ++ ':' :: (l.colon ++ f m.2)

/-- The further members of an object, with its end. -/
def members (l : Layout) (f : Json → List Char) : List (List Char × Json) → List Char
  | [] => l.close ++ ['}']
  | m :: ms => ',' :: (l.entry ++ (l.member f m ++ l.members f ms))

/-- An object. -/
def object (l : Layout) (f : Json → List Char) : List (List Char × Json) → List Char
  | [] => ['{', '}']
  | m :: ms => '{' :: (l.entry ++ (l.member f m ++ l.members f ms))

/-- The items of a compact text are laid out without blanks. -/
theorem compactItems_eq (vs : List Json) : compactItems vs = compact.items compactChars vs := by
  induction vs with
  | nil => rfl
  | cons v vs ih => simp [compactItems, items, compact, ih]

/-- The members of a compact text are laid out without blanks. -/
theorem compactMembers_eq (ms : List (List Char × Json)) :
    compactMembers ms = compact.members compactChars ms := by
  induction ms with
  | nil => rfl
  | cons m ms ih => simp [compactMembers, members, member, compact, ih]

/-- The compact text of an array or object has the compact layout. -/
theorem compactChars_array (vs : List Json) :
    compactChars (.array vs) = compact.array compactChars vs := by
  cases vs with
  | nil => rfl
  | cons v vs => simp [compactChars, compactItems_eq, array, compact]

/-- A compact object has the layout without blanks. -/
theorem compactChars_object (ms : List (List Char × Json)) :
    compactChars (.object ms) = compact.object compactChars ms := by
  cases ms with
  | nil => rfl
  | cons m ms => simp [compactChars, compactMembers_eq, object, member, compact]

/-- The items of a pretty text are on lines of their own. -/
theorem prettyItems_eq (level : Nat) (vs : List Json) :
    prettyItems level vs = (pretty level).items (prettyChars (level + 1)) vs := by
  induction vs with
  | nil => rfl
  | cons v vs ih => simp [prettyItems, items, pretty, ih]

/-- The members of a pretty text are on lines of their own. -/
theorem prettyMembers_eq (level : Nat) (ms : List (List Char × Json)) :
    prettyMembers level ms = (pretty level).members (prettyChars (level + 1)) ms := by
  induction ms with
  | nil => rfl
  | cons m ms ih => simp [prettyMembers, members, member, pretty, ih]

/-- The text over several lines of an array or object has the layout of its level. -/
theorem prettyChars_array (level : Nat) (vs : List Json) :
    prettyChars level (.array vs) = (pretty level).array (prettyChars (level + 1)) vs := by
  cases vs with
  | nil => rfl
  | cons v vs => simp [prettyChars, prettyItems_eq, array, pretty]

/-- A pretty object has the layout with a line for each member. -/
theorem prettyChars_object (level : Nat) (ms : List (List Char × Json)) :
    prettyChars level (.object ms) = (pretty level).object (prettyChars (level + 1)) ms := by
  cases ms with
  | nil => rfl
  | cons m ms => simp [prettyChars, prettyMembers_eq, object, member, pretty]

variable {l : Layout} {f : Json → List Char}

/-- No number goes on into blanks or behind them into the end of an array or object. -/
theorem ends_close {c : Char} (hc : Number.isPart c = false) (rest : List Char) :
    Ends (l.close ++ [c] ++ rest) := by
  have hspace (d : Char) (hd : Token.isSpace d = true) : Number.isPart d = false := by
    simp only [Token.isSpace, Bool.or_eq_true, beq_iff_eq] at hd
    rcases hd with ((rfl | rfl) | rfl) | rfl <;> rfl
  cases hclose : l.close with
  | nil => exact ends_cons hc
  | cons d ds => exact ends_cons (hspace d (l.blank d (by simp [hclose])))

/-- Behind an item, a comma or a bracket follows. -/
theorem ends_items (vs : List Json) (rest : List Char) : Ends (l.items f vs ++ rest) := by
  cases vs with
  | nil => exact ends_close (by decide) rest
  | cons v vs => exact ends_cons (by decide)

/-- Behind a member, a comma or a brace follows. -/
theorem ends_members (ms : List (List Char × Json)) (rest : List Char) :
    Ends (l.members f ms ++ rest) := by
  cases ms with
  | nil => exact ends_close (by decide) rest
  | cons m ms => exact ends_cons (by decide)

/-- The further items of an array are spelled when each of them is. -/
theorem spells_items {vs : List Json} (h : ∀ v ∈ vs, Spells (f v) (tokens v)) :
    Spells (l.items f vs) (itemTokens vs) := by
  induction vs with
  | nil => exact .blanks l.isSpace_close (.mark (by decide) (fun _ => rfl) .nil)
  | cons v vs ih =>
    have hv := h v List.mem_cons_self
    have hvs := ih fun w hw => h w (List.mem_cons_of_mem _ hw)
    have hboth := Spells.blanks l.isSpace_entry (hv.append hvs (ends_items vs))
    exact .mark (by decide) (fun _ => rfl) hboth

/-- An array is spelled when its items are. -/
theorem spells_array {vs : List Json} (h : ∀ v ∈ vs, Spells (f v) (tokens v)) :
    Spells (l.array f vs) (tokens (.array vs)) := by
  cases vs with
  | nil => exact .mark (by decide) (fun _ => rfl) (.mark (by decide) (fun _ => rfl) .nil)
  | cons v vs =>
    have hv := h v List.mem_cons_self
    have hvs := l.spells_items fun w hw => h w (List.mem_cons_of_mem _ hw)
    have hboth := Spells.blanks l.isSpace_entry (hv.append hvs (ends_items vs))
    rw [tokens, List.cons_append]
    exact .mark (by decide) (fun _ => rfl) hboth

/-- The raw form of a member. -/
def rawMember (m : String × Json) : List Char × Json := (Quoted.encode m.1, m.2)

/-- A member is spelled by its key, a colon and its value. -/
theorem spells_member {m : String × Json} {cs : List Char} {ts : List Token}
    (hm : Spells (f m.2) (tokens m.2)) (hcs : Spells cs ts) (hends : ∀ rest, Ends (cs ++ rest)) :
    Spells (l.member f (rawMember m) ++ cs)
      (.string (Quoted.encode m.1) :: .colon :: (tokens m.2 ++ ts)) := by
  have hvalue := Spells.blanks l.isSpace_colon (hm.append hcs hends)
  have hcolon := Spells.mark (by decide) (fun _ => rfl) hvalue (c := ':') (t := .colon)
  simpa [member, rawMember] using Spells.quoted m.1 hcolon

/-- The further members of an object are spelled when the values are. -/
theorem spells_members {ms : List (String × Json)} (h : ∀ m ∈ ms, Spells (f m.2) (tokens m.2)) :
    Spells (l.members f (ms.map rawMember)) (memberTokens (ms.map rawMember)) := by
  induction ms with
  | nil => exact .blanks l.isSpace_close (.mark (by decide) (fun _ => rfl) .nil)
  | cons m ms ih =>
    have hms := ih fun n hn => h n (List.mem_cons_of_mem _ hn)
    have hmember := l.spells_member (h m List.mem_cons_self) hms (ends_members _)
    exact .mark (by decide) (fun _ => rfl) (.blanks l.isSpace_entry hmember)

/-- A record is spelled when the values of its members are. -/
theorem spells_record {ms : List (String × Json)} (h : ∀ m ∈ ms, Spells (f m.2) (tokens m.2)) :
    Spells (l.object f (ms.map rawMember)) (tokens (.record ms)) := by
  cases ms with
  | nil => exact .mark (by decide) (fun _ => rfl) (.mark (by decide) (fun _ => rfl) .nil)
  | cons m ms =>
    have hms := l.spells_members fun n hn => h n (List.mem_cons_of_mem _ hn)
    have hmember := l.spells_member (h m List.mem_cons_self) hms (ends_members _)
    exact .mark (by decide) (fun _ => rfl) (.blanks l.isSpace_entry hmember)

end Layout

namespace Composed

variable {depth : Nat} {v : Json}

/-- The compact text of a composed value spells its tokens. -/
theorem spells_compactChars (hv : Composed depth v) : Spells (compactChars v) (tokens v) := by
  induction hv with
  | null => exact .null
  | bool _ b => exact .bool b
  | integer => exact .integer _
  | text _ s => exact .text s
  | array _ ih =>
    rw [Layout.compactChars_array]
    exact Layout.compact.spells_array ih
  | @record _ ms _ ih =>
    rw [Json.record, Layout.compactChars_object]
    exact Layout.compact.spells_record ih

/-- The text over several lines of a composed value spells its tokens. -/
theorem spells_prettyChars (hv : Composed depth v) (level : Nat) :
    Spells (prettyChars level v) (tokens v) := by
  induction hv generalizing level with
  | null => exact .null
  | bool _ b =>
    cases b with
    | true => exact .bool true
    | false => exact .bool false
  | integer => exact .integer _
  | text _ s => exact .text s
  | array _ ih =>
    rw [Layout.prettyChars_array]
    exact (Layout.pretty level).spells_array fun v hv => ih v hv (level + 1)
  | @record _ ms _ ih =>
    rw [Json.record, Layout.prettyChars_object]
    exact (Layout.pretty level).spells_record fun m hm => ih m hm (level + 1)

/-- Characters that spell the tokens of a composed value are read as this value. -/
theorem read?_of_spells (hv : Composed depth v) {cs : List Char} (h : Spells cs (tokens v)) :
    read? (String.ofList cs) = some v := by
  have hscan := h [] [] Number.ends_nil scans_nil
  rw [List.append_nil, List.append_nil] at hscan
  simp only [read?, Token.tokens?, String.toList_ofList, hscan cs.length (Nat.le_refl _),
    Option.bind_eq_bind, Option.bind_some, hv.ofTokens?_tokens]

/-- A composed value is read from its compact text. -/
theorem read?_compact (hv : Composed depth v) : read? v.compact = some v :=
  hv.read?_of_spells hv.spells_compactChars

/-- A composed value is read from its text over several lines. -/
theorem read?_pretty (hv : Composed depth v) : read? v.pretty = some v :=
  hv.read?_of_spells (hv.spells_prettyChars 0)

end Composed

/-! ## One line -/

/-- No control characters are among the characters. -/
def Printable (cs : List Char) : Prop := ∀ c ∈ cs, 32 ≤ c.toNat

/-- An empty text is printable. -/
@[simp]
theorem printable_nil : Printable [] := by simp [Printable]

/-- A text is printable if each character is. -/
@[simp]
theorem printable_cons {c : Char} {cs : List Char} :
    Printable (c :: cs) ↔ 32 ≤ c.toNat ∧ Printable cs := by
  simp [Printable]

/-- Two texts in a row are printable if both are. -/
@[simp]
theorem printable_append {cs ds : List Char} :
    Printable (cs ++ ds) ↔ Printable cs ∧ Printable ds := by
  simp [Printable, or_imp, forall_and]

/-- A text between quotes has no control characters, whatever the text is. -/
theorem printable_quoted (s : String) : Printable (quoted (Quoted.encode s)) := by
  have hbody : Printable (Quoted.encode s) := fun _ hc => Quoted.le_toNat_of_mem_encode hc
  simp [quoted, hbody]

/-- The digits of a number are printable. -/
theorem printable_ofInt (n : Int) : Printable (Number.ofInt n) := by
  have hdigits : Printable (Nat.toDigits 10 n.natAbs) := by
    intro c hc
    have hdigit := Number.isDigit_of_mem_toDigits c hc
    simp only [Char.isDigit, ge_iff_le, Bool.and_eq_true, decide_eq_true_eq, UInt32.le_iff_toNat_le]
      at hdigit
    exact Nat.le_trans (by decide) hdigit.1
  rw [Number.ofInt_eq]
  split <;> simp [hdigits]

namespace Layout

variable {f : Json → List Char}

/-- The compact layout has no characters of its own but brackets, colons and commas. -/
theorem printable_items {vs : List Json} (h : ∀ v ∈ vs, Printable (f v)) :
    Printable (compact.items f vs) := by
  induction vs with
  | nil => simp [items, compact]
  | cons v vs ih =>
    have hv := h v List.mem_cons_self
    have hvs := ih fun w hw => h w (List.mem_cons_of_mem _ hw)
    simpa [items, compact, hv] using hvs

/-- A compact array of printable texts is printable. -/
theorem printable_array {vs : List Json} (h : ∀ v ∈ vs, Printable (f v)) :
    Printable (compact.array f vs) := by
  cases vs with
  | nil => simp [array]
  | cons v vs =>
    have hv := h v List.mem_cons_self
    have hvs := printable_items fun w hw => h w (List.mem_cons_of_mem _ hw)
    simpa [array, compact, hv] using hvs

/-- The members of a compact record are printable if their values are. -/
theorem printable_members {ms : List (String × Json)} (h : ∀ m ∈ ms, Printable (f m.2)) :
    Printable (compact.members f (ms.map rawMember)) := by
  induction ms with
  | nil => simp [members, compact]
  | cons m ms ih =>
    have hm := h m List.mem_cons_self
    have hms := ih fun n hn => h n (List.mem_cons_of_mem _ hn)
    simpa [members, member, compact, rawMember, printable_quoted, hm] using hms

/-- A compact record of printable values is printable. -/
theorem printable_record {ms : List (String × Json)} (h : ∀ m ∈ ms, Printable (f m.2)) :
    Printable (compact.object f (ms.map rawMember)) := by
  cases ms with
  | nil => simp [object]
  | cons m ms =>
    have hm := h m List.mem_cons_self
    have hms := printable_members fun n hn => h n (List.mem_cons_of_mem _ hn)
    simpa [object, member, compact, rawMember, printable_quoted, hm] using hms

end Layout

/-- The compact text of a composed value has no control characters. -/
theorem Composed.printable {depth : Nat} {v : Json} (hv : Composed depth v) :
    Printable (compactChars v) := by
  induction hv with
  | null => simp [compactChars]
  | bool _ b => cases b <;> simp [compactChars]
  | integer => exact printable_ofInt _
  | text _ s => exact printable_quoted s
  | array _ ih =>
    rw [Layout.compactChars_array]
    exact Layout.printable_array ih
  | record _ ih =>
    rw [Json.record, Layout.compactChars_object]
    exact Layout.printable_record ih

/-- The compact text of a composed value is one line. -/
theorem Composed.newline_notMem_compact {depth : Nat} {v : Json} (hv : Composed depth v) :
    '\n' ∉ v.compact.toList := by
  intro h
  rw [compact, String.toList_ofList] at h
  exact absurd (hv.printable _ h) (by decide)

end NextBuild.Json
