import NextBuild.Config
import NextBuild.Proofs.Files
import NextBuild.Proofs.Graph.Runs

/-!
# Configurations that are checked make strategies

A strategy is made from what is configured only when it is needed, and what can be wrong then was
looked at when the configuration was loaded.  The two places read the texts on their own.  So the
conditions under which options make a strategy of every kind are stated first, and the check of a
configuration is found to be these conditions and three more: no remote is blank, the target is a
branch spec, and the job has a name.
-/

namespace NextBuild

/-! ## Options that make a strategy -/

section Options

variable {branches remotes : List String} {o : StrategyOptions} {k : StrategyKind}

/-- A default strategy is made from specs that can be read and remotes without a slash. -/
theorem DefaultStrategy.exists_ofTexts_iff :
    (∃ s, DefaultStrategy.ofTexts branches remotes = .ok s) ↔
      (∃ specs, BranchSpec.ofTexts branches = .ok specs) ∧ ∀ r ∈ remotes, '/' ∉ r.toList := by
  have hseparators : ¬ ((remotes.map Text.trim).filter (!·.isEmpty)).any (Text.hasChar '/') = true ↔
      ∀ r ∈ remotes, '/' ∉ r.toList := by
    have htrim (r : String) : '/' ∈ (Text.trim r).toList ↔ '/' ∈ r.toList :=
      Text.mem_trim_iff (by decide)
    simp only [List.any_eq_true, List.mem_filter, List.mem_map, Text.hasChar, List.contains_iff_mem,
      not_exists, not_and]
    constructor
    · intro h r hr hmem
      have hkept : '/' ∈ (Text.trim r).toList := (htrim r).2 hmem
      refine h _ ⟨⟨r, hr, rfl⟩, ?_⟩ hkept
      rw [Bool.not_eq_true', ← Bool.not_eq_true, String.isEmpty_iff]
      intro hempty
      simp [hempty] at hkept
    · rintro h _ ⟨⟨r, hr, rfl⟩, -⟩ hmem
      exact h r hr ((htrim r).1 hmem)
  unfold ofTexts
  simp only [guard_eq_ok_iff, hseparators, exists_and_left, bind_eq_ok_iff]
  constructor
  · rintro ⟨hremotes, s, specs, hspecs, -⟩
    exact ⟨⟨specs, hspecs⟩, hremotes⟩
  · rintro ⟨⟨specs, hspecs⟩, hremotes⟩
    exact ⟨hremotes, _, specs, hspecs, rfl⟩

/-- An inverse strategy is made from specs that can be read. -/
theorem InverseStrategy.exists_ofTexts_iff :
    (∃ s, InverseStrategy.ofTexts branches = .ok s) ↔
      ∃ specs, BranchSpec.ofTexts branches = .ok specs := by
  simp only [ofTexts, bind_eq_ok_iff]
  constructor
  · rintro ⟨_, specs, hspecs, -⟩
    exact ⟨specs, hspecs⟩
  · rintro ⟨specs, hspecs⟩
    exact ⟨_, specs, hspecs, rfl⟩

/-- The age is not negative. -/
def Bounds.AgeIsSound (maxAgeDays : Option Int) : Prop := ∀ days ∈ maxAgeDays, 0 ≤ days

/-- A text that is not blank is a commit id. -/
def Bounds.AncestorIsSound (ancestor : Option String) : Prop :=
  ∀ text ∈ ancestor, Text.trim text ≠ "" → (CommitId.ofText? (Text.trim text)).isSome = true

/-- No bound on the age is sound. -/
@[simp]
theorem Bounds.ageIsSound_none : AgeIsSound none := fun _ h => by cases h

/-- A bound on the age is sound if it is not negative. -/
@[simp]
theorem Bounds.ageIsSound_some {days : Int} : AgeIsSound (some days) ↔ ¬ days < 0 := by
  simp [AgeIsSound]

/-- No required ancestor is sound. -/
@[simp]
theorem Bounds.ancestorIsSound_none : AncestorIsSound none := fun _ h => by cases h

/-- A required ancestor is sound if it is blank or an id. -/
@[simp]
theorem Bounds.ancestorIsSound_some {text : String} : AncestorIsSound (some text) ↔
    ¬ (!(Text.trim text).isEmpty && (CommitId.ofText? (Text.trim text)).isNone) = true := by
  simp [AncestorIsSound, Option.isSome_iff_ne_none]

/-- An age that is not negative does not change how the ancestor is read. -/
theorem Bounds.ofTexts_some (days : Int) (ancestor : Option String) :
    ofTexts (some days) ancestor = if days < 0 then .error (.invalidConfig (.negativeAge days))
      else (ofTexts none ancestor).map fun b => { b with maxAgeDays := some days } := by
  unfold ofTexts
  by_cases hnegative : days < 0
  · rw [if_pos hnegative]
    simp only [if_pos hnegative]
    rfl
  · rw [if_neg hnegative]
    simp only [if_neg hnegative]
    split
    · rfl
    · split <;> rfl

/-- Without a bound on the age, the ancestor decides whether bounds are made. -/
theorem Bounds.exists_ofTexts_none_iff {ancestor : Option String} :
    (∃ b, ofTexts none ancestor = .ok b) ↔ AncestorIsSound ancestor := by
  unfold ofTexts
  cases ancestor with
  | none => exact iff_of_true ⟨_, rfl⟩ ancestorIsSound_none
  | some text =>
    rw [ancestorIsSound_some, Option.map_some, Option.filter_some]
    cases hempty : (Text.trim text).isEmpty with
    | true => exact iff_of_true ⟨_, rfl⟩ (by simp)
    | false =>
      simp only [Bool.not_false, if_true, Bool.true_and]
      cases CommitId.ofText? (Text.trim text) with
      | some c => exact iff_of_true ⟨_, rfl⟩ (by simp)
      | none => exact iff_of_false (fun ⟨_, h⟩ => by cases h) (by simp)

/-- Bounds are made from a sound age and a sound ancestor. -/
theorem Bounds.exists_ofTexts_iff {maxAgeDays : Option Int} {ancestor : Option String} :
    (∃ b, Bounds.ofTexts maxAgeDays ancestor = .ok b) ↔
      AgeIsSound maxAgeDays ∧ AncestorIsSound ancestor := by
  cases maxAgeDays with
  | none => exact exists_ofTexts_none_iff.trans (and_iff_right ageIsSound_none).symm
  | some days =>
    rw [ofTexts_some, ageIsSound_some]
    by_cases hnegative : days < 0
    · rw [if_pos hnegative]
      exact iff_of_false (fun ⟨_, h⟩ => by cases h) fun h => h.1 hnegative
    · rw [if_neg hnegative, exists_map_eq_ok_iff, exists_ofTexts_none_iff]
      exact (and_iff_right hnegative).symm

/-- The options make a strategy of every kind. -/
structure StrategyOptions.IsSound (o : StrategyOptions) : Prop where
  branches : ∃ specs, BranchSpec.ofTexts o.branches = .ok specs
  remotes : ∀ r ∈ o.remotes, '/' ∉ r.toList
  inner : o.inner.isBase = true
  age : Bounds.AgeIsSound o.maxAgeDays
  ancestor : Bounds.AncestorIsSound o.ancestor

/-- The inner strategy is made if its kind selects by itself. -/
theorem BaseStrategy.exists_ofOptions (h : o.IsSound) (hk : k.isBase = true) :
    ∃ s, BaseStrategy.ofOptions o k = .ok s := by
  cases k with
  | default => exact exists_map_eq_ok_iff.2 (DefaultStrategy.exists_ofTexts_iff.2 ⟨h.branches, h.remotes⟩)
  | inverse => exact exists_map_eq_ok_iff.2 (InverseStrategy.exists_ofTexts_iff.2 h.branches)
  | ancestry | compound | queue => cases hk

/-- Only the kinds that select by themselves make a base strategy. -/
theorem BaseStrategy.isBase_of_ofOptions {s : BaseStrategy} (h : BaseStrategy.ofOptions o k = .ok s) :
    k.isBase = true := by
  cases k with
  | default | inverse => rfl
  | ancestry | compound | queue => cases h

/-- The parts of a bounded strategy are there if both can be made. -/
theorem Strategy.exists_boundedParts_iff :
    (∃ parts, Strategy.boundedParts o = .ok parts) ↔
      (∃ s, BaseStrategy.ofOptions o o.inner = .ok s) ∧
        ∃ b, Bounds.ofTexts o.maxAgeDays o.ancestor = .ok b := by
  simp only [boundedParts, bind_eq_ok_iff]
  constructor
  · rintro ⟨parts, inner, hinner, bounds, hbounds, -⟩
    exact ⟨⟨inner, hinner⟩, bounds, hbounds⟩
  · rintro ⟨⟨inner, hinner⟩, bounds, hbounds⟩
    exact ⟨(inner, bounds), inner, hinner, bounds, hbounds, rfl⟩

/-- Sound options make a strategy of the kind that is asked for. -/
theorem Strategy.exists_ofOptions (h : o.IsSound) :
    ∃ s, Strategy.ofOptions o = .ok s ∧ s.kind = o.kind := by
  unfold Strategy.ofOptions
  cases o.kind with
  | default =>
    obtain ⟨s, hs⟩ := DefaultStrategy.exists_ofTexts_iff.2 ⟨h.branches, h.remotes⟩
    exact ⟨.base (.default s), by simp only [BaseStrategy.ofOptions, hs]; rfl, rfl⟩
  | inverse =>
    obtain ⟨s, hs⟩ := InverseStrategy.exists_ofTexts_iff.2 h.branches
    exact ⟨.base (.inverse s), by simp only [BaseStrategy.ofOptions, hs]; rfl, rfl⟩
  | ancestry =>
    obtain ⟨⟨inner, bounds⟩, hparts⟩ := exists_boundedParts_iff.2
      ⟨BaseStrategy.exists_ofOptions h h.inner, Bounds.exists_ofTexts_iff.2 ⟨h.age, h.ancestor⟩⟩
    exact ⟨.bounded inner bounds, by rw [hparts]; rfl, rfl⟩
  | compound =>
    obtain ⟨⟨inner, bounds⟩, hparts⟩ := exists_boundedParts_iff.2
      ⟨BaseStrategy.exists_ofOptions h h.inner, Bounds.exists_ofTexts_iff.2 ⟨h.age, h.ancestor⟩⟩
    exact ⟨.prioritized inner bounds (readPriorities o.priority), by rw [hparts]; rfl, rfl⟩
  | queue => exact ⟨_, rfl, rfl⟩

/-- Options are sound exactly when each of the five kinds can be made from them. -/
theorem StrategyOptions.isSound_iff_makes_all :
    o.IsSound ↔ ∀ k, ∃ s, Strategy.ofOptions { o with kind := k } = .ok s := by
  constructor
  · intro h k
    obtain ⟨s, hs, -⟩ := Strategy.exists_ofOptions (o := { o with kind := k })
      ⟨h.branches, h.remotes, h.inner, h.age, h.ancestor⟩
    exact ⟨s, hs⟩
  · intro h
    obtain ⟨hbranches, hremotes⟩ := DefaultStrategy.exists_ofTexts_iff.1
      (exists_map_eq_ok_iff.1 (exists_map_eq_ok_iff.1 (h .default)))
    obtain ⟨⟨inner, hinner⟩, hbounds⟩ :=
      Strategy.exists_boundedParts_iff.1 (exists_map_eq_ok_iff.1 (h .ancestry))
    obtain ⟨hage, hancestor⟩ := Bounds.exists_ofTexts_iff.1 hbounds
    exact ⟨hbranches, hremotes, BaseStrategy.isBase_of_ofOptions hinner, hage, hancestor⟩

end Options

namespace Config

variable {c : Config} {k : StrategyKind}

/-- The conditions of the check, in the order in which they are looked at. -/
theorem check_eq_ok_iff : c.check = .ok () ↔
    (∃ specs, BranchSpec.ofTexts c.branches = .ok specs) ∧
      (∀ r ∈ c.remotes, Text.allBlank r = false ∧ '/' ∉ r.toList) ∧
      (∀ t ∈ c.target, ∃ spec, BranchSpec.ofText t = .ok spec) ∧ c.inner.isBase = true ∧
      Bounds.AgeIsSound c.maxAgeDays ∧ Bounds.AncestorIsSound c.ancestor ∧
      Text.allBlank c.job = false := by
  have hremotes : ¬ (c.remotes.any fun r => Text.allBlank r || Text.hasChar '/' r) = true ↔
      ∀ r ∈ c.remotes, Text.allBlank r = false ∧ '/' ∉ r.toList := by
    simp [Text.hasChar]
  have hinner : ¬ (!c.inner.isBase) = true ↔ c.inner.isBase = true := by simp
  have hjob : ¬ Text.allBlank c.job = true ↔ Text.allBlank c.job = false := by simp
  unfold check
  -- what is left out is not looked at
  cases c.target <;> cases c.maxAgeDays <;> cases c.ancestor <;>
    simp only [bind_eq_ok_iff, guard_eq_ok_iff, lastGuard_eq_ok_iff, exists_and_right, hremotes,
      hinner, hjob, Bounds.ageIsSound_none, Bounds.ageIsSound_some, Bounds.ancestorIsSound_none,
      Bounds.ancestorIsSound_some, Option.mem_def, reduceCtorEq, Option.some.injEq, forall_eq',
      false_implies, implies_true, true_and]

/-- A configuration that passes its check has sound options. -/
theorem isSound_of_check (h : c.check = .ok ()) : c.options.IsSound := by
  obtain ⟨hbranches, hremotes, -, hinner, hage, hancestor, -⟩ := check_eq_ok_iff.1 h
  exact ⟨hbranches, fun r hr => (hremotes r hr).2, hinner, hage, hancestor⟩

/-- A configuration that is read from a text has passed its check. -/
theorem check_of_ofText {text : String} (h : ofText text = .ok c) : c.check = .ok () := by
  unfold ofText at h
  split at h
  · cases h
  · next read hread =>
    obtain ⟨⟨⟩, hcheck, hread⟩ := bind_eq_ok_iff.1 h
    cases hread
    exact hcheck

/-- A configuration without entries passes its check. -/
theorem check_default : check {} = .ok () := by
  decide +kernel

/-- Whatever is loaded has passed the check, or would pass it where no file is found. -/
theorem check_of_load {root : String} {fs fs' : Files} (h : Files.Yields (load root) fs c fs') :
    c.check = .ok () := by
  rw [load, Files.yields_get_bind] at h
  split at h
  · obtain ⟨text, fs₁, -, hread⟩ := Files.yields_bind.1 h
    exact check_of_ofText (Files.yields_liftM.1 hread).1
  · obtain ⟨rfl, -⟩ := Files.yields_pure.1 h
    exact check_default

/-- A configuration that passes its check, or that is loaded, makes a strategy of every kind that is
put in place of its own. -/
theorem makes_every_kind
    (h : c.check = .ok () ∨ ∃ root fs fs', Files.Yields (load root) fs c fs') (k : StrategyKind) :
    ∃ s, Strategy.ofOptions ({ c with strategy := k } : Config).options = .ok s ∧ s.kind = k := by
  have hcheck : c.check = .ok () := h.elim id fun ⟨_, _, _, hload⟩ => check_of_load hload
  have hsound := isSound_of_check hcheck
  exact Strategy.exists_ofOptions
    ⟨hsound.branches, hsound.remotes, hsound.inner, hsound.age, hsound.ancestor⟩

/-- A queue with specs, remotes, a target and bounds that the queue has no use for. -/
theorem makes_every_kind_bounded_queue :
    let c : Config := {
      strategy := .queue
      branches := [" release/** ", "$BRANCH", ":^origin/(dev|qa)$"]
      remotes := [" origin ", "up\\stream"]
      target := some "  *  "
      inner := .inverse
      maxAgeDays := some 0
      ancestor := some " AAAAAAAAAAbbbbbbbbbbAAAAAAAAAAbbbbbbbbbb\n"
      priority := .text "CRITICAL\n\nrelease" }
    c.check = .ok () ∧
      (∃ s, Strategy.ofOptions ({ c with strategy := .compound } : Config).options = .ok s ∧
        s.kind = .compound) ∧
      Files.Yields (load "/repo") .empty {} .empty ∧
      ∃ s, Strategy.ofOptions ({ strategy := .ancestry } : Config).options = .ok s ∧
        s.kind = .ancestry := by
  intro c
  have hcheck : c.check = .ok () := by decide +kernel
  have hload : Files.Yields (load "/repo") .empty {} .empty := rfl
  exact ⟨hcheck, makes_every_kind (.inl hcheck) .compound, hload,
    makes_every_kind (.inr ⟨_, _, _, hload⟩) .ancestry⟩

end Config

end NextBuild
