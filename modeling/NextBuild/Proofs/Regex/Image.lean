import Mathlib.Logic.Function.Iterate
import NextBuild.Regex.Pattern

/-!
# The places that a pattern leads to

The image of a set of places is exactly the set of places that the pattern leads to from one of
them, so matching by sets decides the relation given by rules.  The proof follows the pattern.  Only
the star needs an argument of its own: a match of a star can leave out every round that takes no
character, and so needs no more rounds than the text has characters, which is how often the image is
iterated.
-/

namespace NextBuild.Regex

namespace Places

/-- The place belongs to the set. -/
def Has (s : Places) (i : Nat) : Prop := s[i]? = some true

/-- A place that is held is a place of the text. -/
theorem Has.lt_length {s : Places} {i : Nat} (h : s.Has i) : i < s.length :=
  (List.getElem?_eq_some_iff.1 h).1

/-- A union is as long as its parts. -/
theorem length_union {s t : Places} (hlen : s.length = t.length) :
    (union s t).length = s.length := by
  simp [union, hlen]

/-- A union holds what one of its parts holds. -/
theorem has_union {s t : Places} (hlen : s.length = t.length) {i : Nat} :
    (union s t).Has i ↔ s.Has i ∨ t.Has i := by
  unfold Has union
  rw [List.getElem?_zipWith]
  by_cases h : i < s.length
  · rw [List.getElem?_eq_getElem h, List.getElem?_eq_getElem (hlen ▸ h)]
    simp
  · have hs : s[i]? = none := List.getElem?_eq_none (Nat.not_lt.1 h)
    have ht : t[i]? = none := List.getElem?_eq_none (hlen ▸ Nat.not_lt.1 h)
    simp [hs, ht]

/-- An intersection holds what both of its parts hold. -/
theorem has_inter {s t : Places} {i : Nat} : (inter s t).Has i ↔ s.Has i ∧ t.Has i := by
  unfold Has inter
  rw [List.getElem?_zipWith]
  cases hs : s[i]? <;> cases ht : t[i]? <;> simp

/-- All places of a text are those up to its end. -/
theorem has_all {text : List Char} {i : Nat} : (all text).Has i ↔ i ≤ text.length := by
  simp only [Has, all, List.getElem?_replicate, Option.ite_none_right_eq_some, and_true]
  exact Nat.lt_succ_iff

/-- A step goes over one character of the set. -/
theorem has_step {set : CharSet} {text : List Char} {s : Places} {j : Nat} :
    (step set text s).Has j ↔
      ∃ i c, j = i + 1 ∧ s.Has i ∧ text[i]? = some c ∧ set.mem c = true := by
  unfold Has step
  cases j with
  | zero => simp
  | succ i =>
    rw [List.getElem?_cons_succ, List.getElem?_zipWith]
    cases hs : s[i]? <;> cases ht : text[i]? <;> simp [hs, ht]

/-- Iterating until nothing changes is iterating. -/
theorem iterate_eq (f : Places → Places) (n : Nat) (s : Places) : iterate f n s = f^[n] s := by
  induction n generalizing s with
  | zero => rfl
  | succ n ih =>
    rw [iterate]
    by_cases hfix : f s = s
    · simp [hfix, Function.iterate_fixed hfix]
    · simp [hfix, ih]


/-- Repeating a function is iterating it. -/
theorem repeat_eq (f : Places → Places) (n : Nat) (s : Places) : n.repeat f s = f^[n] s := by
  induction n with
  | zero => rfl
  | succ n ih => rw [Nat.repeat, ih, Function.iterate_succ_apply']

end Places

/-- The truth of a condition at a place is read off the neighbours of the place. -/
theorem Look.getElem?_places (l : Look) (before : Option Char) (text : List Char) {i : Nat}
    (hi : i ≤ text.length) :
    (l.places before text)[i]? =
      some (l.holds (if i = 0 then before else text[i - 1]?) text[i]?) := by
  induction text generalizing before i with
  | nil =>
    have hzero : i = 0 := Nat.le_zero.1 hi
    subst hzero
    rfl
  | cons c text ih =>
    cases i with
    | zero => rfl
    | succ i =>
      rw [Look.places, List.getElem?_cons_succ, ih (some c) (Nat.le_of_succ_le_succ hi)]
      cases i <;> simp

namespace Pattern

open Places

variable {text : List Char} {a b p : Pattern} {i j n m : Nat}

/-- A match goes forward and stays inside the text. -/
theorem Leads.bounds (h : Leads text p i j) : i ≤ j ∧ j ≤ text.length := by
  induction h with
  | empty i hi => exact ⟨Nat.le_refl i, hi⟩
  | chars set i c hc _ =>
    have hlt := (List.getElem?_eq_some_iff.1 hc).1
    exact ⟨Nat.le_succ i, hlt⟩
  | look l i hi _ => exact ⟨Nat.le_refl i, hi⟩
  | seq a b i j k _ _ iha ihb => exact ⟨Nat.le_trans iha.1 ihb.1, ihb.2⟩
  | altLeft a b i j _ ih => exact ih
  | altRight a b i j _ ih => exact ih
  | starNone a i hi => exact ⟨Nat.le_refl i, hi⟩
  | starMore a i j k _ _ iha ihb => exact ⟨Nat.le_trans iha.1 ihb.1, ihb.2⟩
  | timesNone a i hi => exact ⟨Nat.le_refl i, hi⟩
  | timesMore a n i j k _ _ iha ihb => exact ⟨Nat.le_trans iha.1 ihb.1, ihb.2⟩
  | upToNone a n i hi => exact ⟨Nat.le_refl i, hi⟩
  | upToMore a n i j k _ _ iha ihb => exact ⟨Nat.le_trans iha.1 ihb.1, ihb.2⟩

/-- A greater bound allows no fewer matches. -/
theorem Leads.upTo_mono (h : Leads text (.upTo a n) i j) (hle : n ≤ m) :
    Leads text (.upTo a m) i j := by
  generalize hp : Pattern.upTo a n = p at h
  induction h generalizing n m with
  | upToNone b k i hi =>
    cases hp
    exact .upToNone a m i hi
  | upToMore b k i j l hab _ _ ih =>
    cases hp
    obtain ⟨m, rfl⟩ := Nat.exists_eq_add_of_lt (Nat.lt_of_lt_of_le (Nat.zero_lt_succ k) hle)
    rw [Nat.zero_add] at hle ⊢
    exact .upToMore a m i j l hab (ih (Nat.le_of_succ_le_succ hle) rfl)
  | _ => cases hp

/-- A match of a star needs no more rounds than it takes characters. -/
theorem Leads.upTo_of_star (h : Leads text (.star a) i j) : Leads text (.upTo a (j - i)) i j := by
  generalize hp : Pattern.star a = p at h
  induction h with
  | starNone b i hi =>
    cases hp
    exact .upToNone a _ i hi
  | starMore b i j k hab hbc _ ih =>
    cases hp
    have hij := hab.bounds
    have hjk := hbc.bounds
    rcases Nat.eq_or_lt_of_le hij.1 with rfl | hlt
    · exact ih rfl
    · have hmore := Leads.upToMore a (k - j) i j k hab (ih rfl)
      exact hmore.upTo_mono (by omega)
  | _ => cases hp

/-- A bounded number of rounds is some number of rounds. -/
theorem Leads.star_of_upTo (h : Leads text (.upTo a n) i j) : Leads text (.star a) i j := by
  generalize hp : Pattern.upTo a n = p at h
  induction h generalizing n with
  | upToNone b k i hi =>
    cases hp
    exact .starNone a i hi
  | upToMore b k i j l hab _ _ ih =>
    cases hp
    exact .starMore a i j l hab (ih rfl)
  | _ => cases hp

/-- A star is a bounded repetition with as many rounds as the text has characters, or more. -/
theorem leads_star_iff (hn : text.length ≤ n) :
    Leads text (.star a) i j ↔ Leads text (.upTo a n) i j := by
  refine ⟨fun h => ?_, Leads.star_of_upTo⟩
  have hbounds := h.bounds
  exact h.upTo_of_star.upTo_mono (by omega)

/-- The empty pattern leads from a place to itself. -/
theorem leads_empty_iff : Leads text .empty i j ↔ i ≤ text.length ∧ j = i := by
  constructor
  · intro h
    cases h with
    | empty _ hi => exact ⟨hi, rfl⟩
  · intro h
    obtain ⟨hi, rfl⟩ := h
    exact .empty _ hi

/-- A sequence leads over a place between. -/
theorem leads_seq_iff : Leads text (.seq a b) i j ↔ ∃ k, Leads text a i k ∧ Leads text b k j := by
  constructor
  · intro h
    cases h with
    | seq _ _ _ k _ hik hkj => exact ⟨k, hik, hkj⟩
  · intro h
    obtain ⟨k, hik, hkj⟩ := h
    exact .seq a b i k j hik hkj

/-- An alternative leads where one of its sides does. -/
theorem leads_alt_iff : Leads text (.alt a b) i j ↔ Leads text a i j ∨ Leads text b i j := by
  constructor
  · intro h
    cases h with
    | altLeft _ _ _ _ h => exact .inl h
    | altRight _ _ _ _ h => exact .inr h
  · intro h
    rcases h with h | h
    · exact .altLeft a b i j h
    · exact .altRight a b i j h

/-- No round at all leads nowhere else. -/
theorem leads_times_zero_iff : Leads text (.times a 0) i j ↔ Leads text .empty i j := by
  rw [leads_empty_iff]
  constructor
  · intro h
    cases h with
    | timesNone _ _ hi => exact ⟨hi, rfl⟩
  · intro h
    obtain ⟨hi, rfl⟩ := h
    exact .timesNone a _ hi

/-- One round more is a round in front of the others. -/
theorem leads_times_succ_iff :
    Leads text (.times a (n + 1)) i j ↔ Leads text (.seq a (.times a n)) i j := by
  rw [leads_seq_iff]
  constructor
  · intro h
    cases h with
    | timesMore _ _ _ k _ hik hkj => exact ⟨k, hik, hkj⟩
  · intro h
    obtain ⟨k, hik, hkj⟩ := h
    exact .timesMore a n i k j hik hkj

/-- At most no round leads nowhere else. -/
theorem leads_upTo_zero_iff : Leads text (.upTo a 0) i j ↔ Leads text .empty i j := by
  rw [leads_empty_iff]
  constructor
  · intro h
    cases h with
    | upToNone _ _ _ hi => exact ⟨hi, rfl⟩
  · intro h
    obtain ⟨hi, rfl⟩ := h
    exact .upToNone a 0 _ hi

/-- Of a bounded repetition the first round may be empty. -/
theorem leads_upTo_succ_iff :
    Leads text (.upTo a (n + 1)) i j ↔ Leads text (.seq (.alt .empty a) (.upTo a n)) i j := by
  simp only [leads_seq_iff, leads_alt_iff, leads_empty_iff]
  constructor
  · intro h
    cases h with
    | upToNone _ _ _ hi => exact ⟨i, .inl ⟨hi, rfl⟩, .upToNone a n i hi⟩
    | upToMore _ _ _ k _ hik hkj => exact ⟨k, .inr hik, hkj⟩
  · intro h
    obtain ⟨k, ⟨-, rfl⟩ | hik, hkj⟩ := h
    · exact hkj.upTo_mono (Nat.le_succ n)
    · exact .upToMore a n i k j hik hkj

/-! ## Functions on sets of places -/

/-- The function takes the places of the text from which the pattern leads to where it leads. -/
def Maps (text : List Char) (f : Places → Places) (p : Pattern) : Prop :=
  ∀ s : Places, s.length = text.length + 1 → (f s).length = text.length + 1 ∧
    ∀ j, (f s).Has j ↔ ∃ i, s.Has i ∧ Leads text p i j

variable {f f' : Places → Places}

/-- Patterns that lead to the same places belong to the same functions. -/
theorem Maps.congr {q : Pattern} (h : Maps text f p)
    (hpq : ∀ i j, Leads text q i j ↔ Leads text p i j) : Maps text f q := by
  intro s hs
  simp only [hpq]
  exact h s hs

/-- The image under the empty pattern is the set itself. -/
theorem maps_empty : Maps text (fun s => s) .empty := by
  intro s hs
  refine ⟨hs, fun j => ?_⟩
  simp only [leads_empty_iff]
  constructor
  · intro hj
    have hlt := hj.lt_length
    exact ⟨j, hj, by omega, rfl⟩
  · intro h
    obtain ⟨i, hi, -, rfl⟩ := h
    exact hi

/-- The image under a sequence is the image of an image. -/
theorem Maps.seq (ha : Maps text f a) (hb : Maps text f' b) :
    Maps text (fun s => f' (f s)) (.seq a b) := by
  intro s hs
  obtain ⟨hlena, ha⟩ := ha s hs
  obtain ⟨hlenb, hb⟩ := hb _ hlena
  refine ⟨hlenb, fun j => ?_⟩
  simp only [hb j, ha, leads_seq_iff]
  constructor
  · intro h
    obtain ⟨k, ⟨i, hi, hik⟩, hkj⟩ := h
    exact ⟨i, hi, k, hik, hkj⟩
  · intro h
    obtain ⟨i, hi, k, hik, hkj⟩ := h
    exact ⟨k, ⟨i, hi, hik⟩, hkj⟩

/-- The image under an alternative is the union of both images. -/
theorem Maps.alt (ha : Maps text f a) (hb : Maps text f' b) :
    Maps text (fun s => union (f s) (f' s)) (.alt a b) := by
  intro s hs
  obtain ⟨hlena, ha⟩ := ha s hs
  obtain ⟨hlenb, hb⟩ := hb s hs
  have hsame := hlena.trans hlenb.symm
  refine ⟨(length_union hsame).trans hlena, fun j => ?_⟩
  simp only [has_union hsame, ha j, hb j, leads_alt_iff, and_or_left, exists_or]

/-- A function that is iterated belongs to a repetition, round by round. -/
theorem Maps.iterate {q : Nat → Pattern} (hf : Maps text f a)
    (hzero : ∀ i j, Leads text (q 0) i j ↔ Leads text .empty i j)
    (hsucc : ∀ n i j, Leads text (q (n + 1)) i j ↔ Leads text (.seq a (q n)) i j) (n : Nat) :
    Maps text (f^[n]) (q n) := by
  induction n with
  | zero => exact maps_empty.congr hzero
  | succ n ih => exact (hf.seq ih).congr (hsucc n)

/-- The image under a number of rounds is the image taken as often. -/
theorem Maps.times (hf : Maps text f a) (n : Nat) : Maps text (f^[n]) (.times a n) :=
  hf.iterate (fun _ _ => leads_times_zero_iff) (fun _ _ _ => leads_times_succ_iff) n

/-- Under a bounded number of rounds, every round keeps what is there already. -/
theorem Maps.upTo (hf : Maps text f a) (n : Nat) :
    Maps text ((fun s => union s (f s))^[n]) (.upTo a n) :=
  (maps_empty.alt hf).iterate (fun _ _ => leads_upTo_zero_iff) (fun _ _ _ => leads_upTo_succ_iff) n

/-- The image of a set is what the pattern leads to from its places. -/
theorem maps_image (text : List Char) (p : Pattern) : Maps text (image text p) p := by
  induction p with
  | empty => exact maps_empty
  | chars set =>
    refine fun s hs => ⟨by simp [image, step, hs], fun j => ?_⟩
    rw [image, has_step]
    constructor
    · intro h
      obtain ⟨i, c, rfl, hi, hc, hmem⟩ := h
      exact ⟨i, hi, .chars set i c hc hmem⟩
    · intro h
      obtain ⟨i, hi, hij⟩ := h
      cases hij with
      | chars _ _ c hc hmem => exact ⟨i, c, rfl, hi, hc, hmem⟩
  | look l =>
    refine fun s hs => ⟨by simp [image, inter, hs, Look.length_places], fun j => ?_⟩
    rw [image, has_inter]
    constructor
    · intro h
      obtain ⟨hj, hl⟩ := h
      have hlt := hj.lt_length
      have hle : j ≤ text.length := by omega
      rw [Has, l.getElem?_places none text hle, Option.some.injEq] at hl
      exact ⟨j, hj, .look l j hle hl⟩
    · intro h
      obtain ⟨i, hi, hij⟩ := h
      cases hij with
      | look _ _ hle hl => exact ⟨hi, by rw [Has, l.getElem?_places none text hle, hl]⟩
  | seq a b iha ihb => exact iha.seq ihb
  | alt a b iha ihb => exact iha.alt ihb
  | star a ih =>
    intro s hs
    have hiff := ih.upTo (text.length + 1) s hs
    rw [image, iterate_eq]
    simpa only [leads_star_iff (Nat.le_succ text.length)] using hiff
  | times a n ih =>
    intro s hs
    rw [image, repeat_eq]
    exact ih.times n s hs
  | upTo a n ih =>
    intro s hs
    rw [image, iterate_eq]
    exact ih.upTo n s hs

/-- A text matches exactly when the pattern leads from one place of it to another. -/
theorem isMatch_iff {p : Pattern} {text : String} :
    p.isMatch text = true ↔ ∃ i j, Leads text.toList p i j := by
  obtain ⟨-, hiff⟩ := maps_image text.toList p (all text.toList) (by simp [all])
  rw [isMatch, List.any_eq_true]
  constructor
  · intro h
    obtain ⟨b, hb, htrue⟩ := h
    obtain ⟨j, hj⟩ := List.mem_iff_getElem?.1 hb
    obtain ⟨i, -, hij⟩ := (hiff j).1 (by rw [Has, hj]; exact congrArg some htrue)
    exact ⟨i, j, hij⟩
  · intro h
    obtain ⟨i, j, hij⟩ := h
    have hbounds := hij.bounds
    have hj := (hiff j).2 ⟨i, has_all.2 (by omega), hij⟩
    exact ⟨true, List.mem_of_getElem? hj, rfl⟩

end Pattern

end NextBuild.Regex
