import Mathlib.Data.List.Infix
import NextBuild.Proofs.Regex.Image

/-!
# What patterns spell

A pattern without conditions on places leads over a part of a text because of what the part spells,
not because of where it stands.  Such patterns compose like languages: a sequence spells what its
patterns spell one after the other, a choice what one of them spells, and a star of one class the
runs of characters of the class.
-/

namespace NextBuild.Regex

/-- The set of one character has this character alone. -/
theorem CharSet.mem_single_iff {c d : Char} : (single c).mem d = true ↔ d = c := by
  simp only [single, mem, Bool.and_eq_true, decide_eq_true_eq]
  exact ⟨fun h => Char.toNat_inj.1 (Nat.le_antisymm h.2 h.1),
    fun h => h ▸ ⟨Nat.le_refl _, Nat.le_refl _⟩⟩

namespace Pattern

variable {text : List Char} {p q : Pattern} {ps : List Pattern} {i j : Nat}

/-- A sequence leads over the place where its first pattern ends. -/
theorem leads_seqs_cons :
    Leads text (seqs (p :: ps)) i j ↔ ∃ k, Leads text p i k ∧ Leads text (seqs ps) k j := by
  cases ps with
  | nil =>
    constructor
    · exact fun h => ⟨j, h, .empty j h.bounds.2⟩
    · intro h
      obtain ⟨k, hik, hkj⟩ := h
      cases hkj
      exact hik
  | cons q qs => exact leads_seq_iff

/-- One character leads over its own occurrences. -/
theorem leads_char_iff {c : Char} :
    Leads text (char c) i j ↔ j = i + 1 ∧ text[i]? = some c := by
  constructor
  · intro h
    cases h with
    | chars _ _ d hd hmem => exact ⟨rfl, CharSet.mem_single_iff.1 hmem ▸ hd⟩
  · intro h
    obtain ⟨rfl, hc⟩ := h
    exact .chars _ i c hc (CharSet.mem_single_iff.2 rfl)

/-- The condition for the start holds at the first place alone. -/
theorem leads_textStart_iff : Leads text (.look .textStart) i j ↔ i = 0 ∧ j = 0 := by
  constructor
  · intro h
    cases h with
    | look _ _ hi hbefore =>
      have hzero : i = 0 := by
        by_contra hne
        have hlt : i - 1 < text.length := by omega
        simp [Look.holds, hne, List.getElem?_eq_getElem hlt] at hbefore
      exact ⟨hzero, hzero⟩
  · intro h
    obtain ⟨rfl, rfl⟩ := h
    exact .look _ 0 (Nat.zero_le _) rfl

/-- The condition for the end holds at the last place alone. -/
theorem leads_textEnd_iff :
    Leads text (.look .textEnd) i j ↔ i = text.length ∧ j = text.length := by
  constructor
  · intro h
    cases h with
    | look _ _ hi hafter =>
      have hlast : text.length ≤ i := by simpa [Look.holds] using hafter
      have hend := Nat.le_antisymm hi hlast
      exact ⟨hend, hend⟩
  · intro h
    obtain ⟨rfl, rfl⟩ := h
    refine .look _ _ (Nat.le_refl _) ?_
    rw [List.getElem?_eq_none (Nat.le_refl _)]
    rfl

/-- A literal leads over its own characters. -/
theorem leads_literal_iff {cs : List Char} :
    Leads text (literal cs) i j ↔ i ≤ text.length ∧ j = i + cs.length ∧ cs <+: text.drop i := by
  induction cs generalizing i with
  | nil =>
    constructor
    · intro h
      cases h with
      | empty _ hi => exact ⟨hi, rfl, List.nil_prefix⟩
    · intro h
      obtain ⟨hi, rfl, -⟩ := h
      exact .empty _ hi
  | cons c cs ih =>
    show Leads text (seqs (char c :: cs.map char)) i j ↔ _
    rw [leads_seqs_cons]
    constructor
    · intro h
      obtain ⟨k, hik, hkj⟩ := h
      obtain ⟨rfl, hc⟩ := leads_char_iff.1 hik
      obtain ⟨hk, hj, hbegin⟩ := ih.1 hkj
      obtain ⟨hi, hget⟩ := List.getElem?_eq_some_iff.1 hc
      refine ⟨Nat.le_of_lt hi, by simp only [hj, List.length_cons]; omega, ?_⟩
      rw [List.drop_eq_getElem_cons hi, hget, List.cons_prefix_cons]
      exact ⟨rfl, hbegin⟩
    · intro h
      obtain ⟨-, rfl, hbegin⟩ := h
      have hi : i < text.length := by
        have hle := hbegin.length_le
        simp only [List.length_cons, List.length_drop] at hle
        omega
      rw [List.drop_eq_getElem_cons hi, List.cons_prefix_cons] at hbegin
      refine ⟨i + 1, leads_char_iff.2 ⟨rfl, ?_⟩, ih.2 ⟨hi, ?_, hbegin.2⟩⟩
      · rw [List.getElem?_eq_getElem hi, hbegin.1]
      · simp only [List.length_cons]
        omega

/-- Sequences are put together by putting their patterns together. -/
theorem leads_seqs_append {qs : List Pattern} :
    Leads text (seqs (ps ++ qs)) i j ↔ ∃ k, Leads text (seqs ps) i k ∧ Leads text (seqs qs) k j := by
  induction ps generalizing i with
  | nil =>
    simp only [List.nil_append, seqs, leads_empty_iff]
    constructor
    · intro h
      exact ⟨i, ⟨h.bounds.1.trans h.bounds.2, rfl⟩, h⟩
    · intro ⟨k, ⟨_, hk⟩, h⟩
      exact hk ▸ h
  | cons p ps ih =>
    simp only [List.cons_append, leads_seqs_cons, ih]
    constructor
    · intro ⟨k, hik, l, hkl, hlj⟩
      exact ⟨l, ⟨k, hik, hkl⟩, hlj⟩
    · intro ⟨l, ⟨k, hik, hkl⟩, hlj⟩
      exact ⟨k, hik, l, hkl, hlj⟩

/-- An optional pattern is an alternative to nothing. -/
theorem leads_optional_iff : Leads text (.optional p) i j ↔ Leads text (.alt .empty p) i j := by
  rw [Pattern.optional, leads_upTo_succ_iff]
  simp only [leads_seq_iff, leads_upTo_zero_iff, leads_empty_iff]
  constructor
  · intro ⟨k, hik, _, hjk⟩
    exact hjk ▸ hik
  · intro h
    exact ⟨j, h, h.bounds.2, rfl⟩

/-- Exactly no match in front changes nothing. -/
theorem leads_times_zero_seq_iff :
    Leads text (.seq (.times p 0) q) i j ↔ Leads text q i j := by
  simp only [leads_seq_iff, leads_times_zero_iff, leads_empty_iff]
  constructor
  · intro ⟨k, ⟨_, hk⟩, h⟩
    exact hk ▸ h
  · intro h
    exact ⟨i, ⟨h.bounds.1.trans h.bounds.2, rfl⟩, h⟩

/-- One round is the pattern itself. -/
theorem leads_times_one_iff : Leads text (.times p 1) i j ↔ Leads text p i j := by
  simp only [leads_times_succ_iff, leads_seq_iff, leads_times_zero_iff, leads_empty_iff]
  constructor
  · intro ⟨k, h, _, hj⟩
    exact hj ▸ h
  · intro h
    exact ⟨j, h, h.bounds.2, rfl⟩

/-! ## Spelling -/

/-- The pattern leads over those parts of the text that `P` describes. -/
def Spells (text : List Char) (p : Pattern) (P : List Char → Prop) : Prop :=
  ∀ i j, Leads text p i j ↔
    i ≤ text.length ∧ ∃ u, P u ∧ u <+: text.drop i ∧ j = i + u.length

variable {P Q : List Char → Prop}

/-- What a pattern spells may be told in another way. -/
theorem Spells.congr (h : Spells text p P) (hPQ : ∀ u, P u ↔ Q u) : Spells text p Q := by
  intro i j
  simp only [← hPQ]
  exact h i j

/-- Patterns that lead over the same parts spell the same. -/
theorem Spells.of_leads_iff (h : Spells text p P)
    (hpq : ∀ i j, Leads text q i j ↔ Leads text p i j) : Spells text q P :=
  fun i j => (hpq i j).trans (h i j)

/-- A text begins with two texts in a row if it begins with the first, and what is left with the
second. -/
theorem prefix_append_iff {v w t : List Char} :
    v ++ w <+: t ↔ v <+: t ∧ w <+: t.drop v.length := by
  constructor
  · intro h
    have hv := (List.prefix_append v w).trans h
    rw [List.prefix_append_drop hv, List.prefix_append_right_inj] at h
    exact ⟨hv, h⟩
  · intro ⟨hv, hw⟩
    rw [List.prefix_append_drop hv, List.prefix_append_right_inj]
    exact hw

/-- The empty pattern spells the empty text. -/
theorem spells_empty : Spells text .empty (· = []) := by
  intro i j
  simp [leads_empty_iff]

/-- A sequence spells what its parts spell, one after the other. -/
theorem Spells.seq (hp : Spells text p P) (hq : Spells text q Q) :
    Spells text (.seq p q) (fun u => ∃ v w, P v ∧ Q w ∧ u = v ++ w) := by
  intro i j
  simp only [leads_seq_iff, hp i, hq _ j]
  constructor
  · intro ⟨k, ⟨hi, v, hv, hbegin, hk⟩, _, w, hw, hnext, hj⟩
    rw [hk, ← List.drop_drop] at hnext
    refine ⟨hi, v ++ w, ⟨v, w, hv, hw, rfl⟩, prefix_append_iff.2 ⟨hbegin, hnext⟩, ?_⟩
    rw [hj, hk, List.length_append, Nat.add_assoc]
  · intro ⟨hi, _, ⟨v, w, hv, hw, rfl⟩, hbegin, hj⟩
    obtain ⟨hfirst, hnext⟩ := prefix_append_iff.1 hbegin
    have hfits := hfirst.length_le
    rw [List.length_drop] at hfits
    refine ⟨i + v.length, ⟨hi, v, hv, hfirst, rfl⟩, by omega, w, hw, ?_, ?_⟩
    · rw [← List.drop_drop]
      exact hnext
    · rw [hj, List.length_append, Nat.add_assoc]

/-- An alternative spells what one of its sides spells. -/
theorem Spells.alt (hp : Spells text p P) (hq : Spells text q Q) :
    Spells text (.alt p q) (fun u => P u ∨ Q u) := by
  intro i j
  simp only [leads_alt_iff, hp i j, hq i j, ← and_or_left, or_and_right, exists_or]

/-- An optional pattern spells what it spells otherwise, or nothing. -/
theorem Spells.optional (hp : Spells text p P) :
    Spells text (.optional p) (fun u => u = [] ∨ P u) :=
  (spells_empty.alt hp).of_leads_iff fun _ _ => leads_optional_iff

/-- Patterns between the two ends of a text match the texts that they spell as a whole. -/
theorem Spells.isMatch_iff {name : String} (h : Spells name.toList (seqs ps) P) :
    (seqs (.look .textStart :: (ps ++ [.look .textEnd]))).isMatch name = true ↔ P name.toList := by
  simp only [Pattern.isMatch_iff, leads_seqs_cons, leads_seqs_append, leads_textStart_iff,
    leads_textEnd_iff]
  constructor
  · intro ⟨_, _, _, ⟨_, rfl⟩, k, hbody, _, ⟨hk, _⟩, _⟩
    obtain ⟨_, u, hu, hbegin, hlength⟩ := (h 0 k).1 hbody
    rw [List.drop_zero] at hbegin
    have hwhole : u = name.toList := hbegin.eq_of_length (by omega)
    exact hwhole ▸ hu
  · intro hP
    have hbody := (h 0 name.toList.length).2
      ⟨Nat.zero_le _, name.toList, hP, List.prefix_rfl, (Nat.zero_add _).symm⟩
    exact ⟨0, _, 0, ⟨rfl, rfl⟩, _, hbody, _, ⟨rfl, rfl⟩, .empty _ (Nat.le_refl _)⟩

end Pattern

end NextBuild.Regex
