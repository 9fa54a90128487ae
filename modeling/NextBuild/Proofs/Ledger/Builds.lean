import Mathlib.Data.List.Induction
import Mathlib.Data.List.Nodup
import NextBuild.Proofs.Ledger

/-!
# The listing of builds

The builds that are kept for names are listed by their numbers, the greatest number first.  A number
is listed once: of several builds with one number the listing has the one that is kept for the first
of their names, and passes over the others.  Nothing keeps a number from being used again, so the
listing is complete exactly when the builds that are kept can be told apart by their numbers.
-/

namespace NextBuild

namespace Table

variable {α : Type} {t : Table α} {p : α → Bool} {v : α}

/-- Searching the values of a table finds the one under the first name. -/
theorem find?_values_eq_some_iff : t.values.find? p = some v ↔
    ∃ name, t.get? name = some v ∧ p v = true ∧
      ∀ other w, other < name → t.get? other = some w → p w = false := by
  simp only [values, get?, lookup_eq_some_iff t.ascending, List.find?_map, Option.map_eq_some_iff]
  constructor
  · rintro ⟨⟨name, w⟩, hfind, rfl⟩
    obtain ⟨hw, before, after, hsplit, hbefore⟩ := List.find?_eq_some_iff_append.1 hfind
    have hascending := t.ascending
    rw [hsplit] at hascending ⊢
    refine ⟨name, by simp, hw, ?_⟩
    intro other u hless hmem
    rcases List.mem_append.1 hmem with hmem | hmem
    · simpa using hbefore _ hmem
    · have hbehind := List.pairwise_cons.1 (List.pairwise_append.1 hascending).2.1
      rcases List.mem_cons.1 hmem with heq | hmem
      · cases heq
        exact absurd hless (String.lt_irrefl _)
      · exact absurd (String.lt_trans hless (hbehind.1 _ hmem)) (String.lt_irrefl _)
  · rintro ⟨name, hmem, hv, hbefore⟩
    refine ⟨(name, v), ?_, rfl⟩
    obtain ⟨before, after, hsplit⟩ := List.append_of_mem hmem
    refine List.find?_eq_some_iff_append.2 ⟨hv, before, after, hsplit, ?_⟩
    intro e he
    have hascending := t.ascending
    rw [hsplit] at hascending
    have hless := (List.pairwise_append.1 hascending).2.2 e he _ List.mem_cons_self
    simpa using hbefore e.1 e.2 hless (hsplit ▸ List.mem_append_left _ he)

end Table

/-- Two builds of the same revision, with the same cause, number and result. -/
structure Build.Same (a b : Build) : Prop where
  revision : a.revision.commit = b.revision.commit
  cause : a.cause.map (·.commit) = b.cause.map (·.commit)
  number : a.number = b.number
  result : a.result = b.result

/-- To be the same build is symmetric. -/
theorem Build.Same.symm {a b : Build} (h : a.Same b) : b.Same a :=
  ⟨h.revision.symm, h.cause.symm, h.number.symm, h.result.symm⟩

/-- To be the same build is transitive. -/
theorem Build.Same.trans {a b c : Build} (h : a.Same b) (h' : b.Same c) : a.Same c :=
  ⟨h.revision.trans h'.revision, h.cause.trans h'.cause, h.number.trans h'.number,
    h.result.trans h'.result⟩

namespace Ledger

variable {l : Ledger} {b d : Build} {bs : List Build}

/-! ## One build for each number -/

/-- One more build is taken if its number is new. -/
theorem distinct_concat (bs : List Build) (b : Build) :
    distinct (bs ++ [b]) =
      if (distinct bs).any (·.number == b.number) then distinct bs else distinct bs ++ [b] := by
  simp only [distinct, List.foldl_append, List.foldl_cons, List.foldl_nil, List.any_reverse]
  split <;> simp

/-- A number that occurs is taken. -/
theorem any_distinct (bs : List Build) (n : UInt64) :
    (distinct bs).any (·.number == n) = bs.any (·.number == n) := by
  induction bs using List.reverseRecOn with
  | nil => rfl
  | append_singleton bs b ih =>
    rw [distinct_concat]
    split
    · next hold =>
      by_cases hn : b.number = n
      · simp [← hn, hold]
      · simp [ih, hn]
    · simp [ih]

/-- No number is taken twice. -/
theorem pairwise_distinct (bs : List Build) :
    (distinct bs).Pairwise fun a b => a.number ≠ b.number := by
  induction bs using List.reverseRecOn with
  | nil => exact .nil
  | append_singleton bs b ih =>
    rw [distinct_concat]
    split
    · exact ih
    · next hnew =>
      apply List.pairwise_append.2 ⟨ih, List.pairwise_singleton _ _, ?_⟩
      simpa using hnew

/-- A build is taken when no build before it has its number. -/
theorem mem_distinct_iff : b ∈ distinct bs ↔ bs.find? (·.number == b.number) = some b := by
  induction bs using List.reverseRecOn with
  | nil => simp [distinct]
  | append_singleton bs c ih =>
    rw [distinct_concat, any_distinct, List.find?_append]
    by_cases hc : c.number = b.number
    · rw [hc, ← List.isSome_find?]
      cases hfind : bs.find? (·.number == b.number) with
      | some e => simp [ih, hfind]
      | none => simp [ih, hfind, hc, eq_comm]
    · have hother : [c].find? (·.number == b.number) = none := by simp [hc]
      have hne : b ≠ c := fun h => hc (h ▸ rfl)
      rw [hother, Option.or_none, ← ih]
      split <;> simp [hne]

/-! ## The listing -/

/-- The greatest number comes first, and no number comes twice. -/
theorem descending_builds (l : Ledger) : l.builds.Pairwise fun a b => b.number < a.number := by
  have hsorted : l.builds.Pairwise fun a b => decide (b.number ≤ a.number) = true := by
    apply List.pairwise_mergeSort
    · intro a b c hab hbc
      exact decide_eq_true (UInt64.le_trans (of_decide_eq_true hbc) (of_decide_eq_true hab))
    · intro a b
      simpa using UInt64.le_total b.number a.number
  have hapart : l.builds.Pairwise fun a b => a.number ≠ b.number :=
    (pairwise_distinct l.byBranch.values).perm (List.mergeSort_perm _ _).symm fun h => h.symm
  refine hsorted.imp₂ (fun a b hle hne => ?_) hapart
  exact UInt64.lt_of_le_of_ne (of_decide_eq_true hle) hne.symm

/-- A build is listed when it is kept for a name and the builds for earlier names have other
numbers. -/
theorem mem_builds_iff : b ∈ l.builds ↔
    ∃ name, l.buildOfBranch? name = some b ∧
      ∀ other d, other < name → l.buildOfBranch? other = some d → d.number ≠ b.number := by
  rw [builds, List.mem_mergeSort, mem_distinct_iff, Table.find?_values_eq_some_iff]
  simp [buildOfBranch?]

/-- Every number of a build that is kept for a name is listed. -/
theorem exists_mem_builds {name : String} (h : l.buildOfBranch? name = some b) :
    ∃ d ∈ l.builds, d.number = b.number := by
  have hvalue : l.byBranch.values.any (·.number == b.number) = true :=
    List.any_eq_true.2 ⟨b, Table.mem_values_iff.2 ⟨name, h⟩, beq_self_eq_true _⟩
  rw [← any_distinct] at hvalue
  obtain ⟨d, hd, hnumber⟩ := List.any_eq_true.1 hvalue
  exact ⟨d, List.mem_mergeSort.2 hd, beq_iff_eq.1 hnumber⟩

/-- Listed builds are told apart by their numbers. -/
theorem eq_of_mem_builds (hb : b ∈ l.builds) (hd : d ∈ l.builds) (hnumber : b.number = d.number) :
    b = d := by
  have hnodup : (l.builds.map (·.number)).Nodup := by
    apply List.pairwise_map.2
    exact (descending_builds l).imp fun hlt => (UInt64.ne_of_lt hlt).symm
  exact List.inj_on_of_nodup_map hnodup hb hd hnumber

/-- The builds are listed as a whole: each one that is kept for a name once and no other ones, and
none behind a smaller number. -/
structure IsListing (bs listed : List Build) : Prop where
  complete : ∀ name b, Latest bs name b → ∃ d ∈ listed, d.Same b
  once : listed.Pairwise fun a b => ¬ a.Same b
  kept : ∀ b ∈ listed, ∃ name, Latest bs name b
  sorted : listed.Pairwise fun a b => b.number ≤ a.number

/-- After any builds the listing goes down from number to number.  It has of each number the build
that is kept for the first name, and it is complete exactly when builds that are kept for names and
have one number are the same. -/
theorem isListing_builds_iff (bs : List Build) :
    (empty.recordAll bs).builds.Pairwise (fun a b => b.number < a.number) ∧
    (∀ b, b ∈ (empty.recordAll bs).builds ↔ ∃ name, Latest bs name b ∧
      ∀ other d, other < name → Latest bs other d → d.number ≠ b.number) ∧
    (IsListing bs (empty.recordAll bs).builds ↔
      ∀ name other b d, Latest bs name b → Latest bs other d → b.number = d.number → b.Same d) := by
  have hdescending := descending_builds (empty.recordAll bs)
  have hmem (b : Build) := mem_builds_iff (l := empty.recordAll bs) (b := b)
  simp only [buildOfBranch?_recordAll_empty] at hmem
  have hnumbered (name : String) (b : Build) (hb : Latest bs name b) :
      ∃ d ∈ (empty.recordAll bs).builds, d.number = b.number :=
    exists_mem_builds (buildOfBranch?_recordAll_empty.2 hb)
  refine ⟨hdescending, hmem, ?_⟩
  constructor
  · intro h name other b d hb hd hnumber
    obtain ⟨b', hb', hsameb⟩ := h.complete name b hb
    obtain ⟨d', hd', hsamed⟩ := h.complete other d hd
    have hlisted : b' = d' :=
      eq_of_mem_builds hb' hd' (hsameb.number.trans (hnumber.trans hsamed.number.symm))
    exact hsameb.symm.trans (hlisted ▸ hsamed)
  · intro h
    constructor
    case complete =>
      intro name b hb
      obtain ⟨d, hd, hnumber⟩ := hnumbered name b hb
      obtain ⟨other, hlatest, -⟩ := (hmem d).1 hd
      exact ⟨d, hd, h other name d b hlatest hb hnumber⟩
    case once => exact hdescending.imp fun hlt (hsame : Build.Same _ _) =>
      UInt64.ne_of_lt hlt hsame.number.symm
    case kept =>
      intro b hb
      obtain ⟨name, hlatest, -⟩ := (hmem b).1 hb
      exact ⟨name, hlatest⟩
    case sorted => exact hdescending.imp UInt64.le_of_lt

/-- Two builds of different commits, for different names and with one number. -/
def sameNumber : List Build :=
  [⟨.labelled ⟨"3333333333333333333333333333333333333333", by decide⟩ "origin/master", none, 7, .success⟩,
    ⟨.labelled ⟨"4444444444444444444444444444444444444444", by decide⟩ "origin/side", none, 7, .success⟩]

/-- The second one of the builds is kept for its name, but it is not listed. -/
theorem not_isListing_sameNumber : ¬ IsListing sameNumber (empty.recordAll sameNumber).builds := by
  intro h
  have hmaster : Latest sameNumber "origin/master" sameNumber[0] :=
    ⟨[], [sameNumber[1]], rfl, by decide, by decide⟩
  have hside : Latest sameNumber "origin/side" sameNumber[1] :=
    ⟨[sameNumber[0]], [], rfl, by decide, by decide⟩
  obtain ⟨b, hb, hsameb⟩ := h.complete _ _ hmaster
  obtain ⟨d, hd, hsamed⟩ := h.complete _ _ hside
  have hlisted : b = d := eq_of_mem_builds hb hd (hsameb.number.trans hsamed.number.symm)
  have hsame := hsameb.symm.trans (hlisted ▸ hsamed)
  exact absurd hsame.revision (by decide)

end Ledger

end NextBuild
