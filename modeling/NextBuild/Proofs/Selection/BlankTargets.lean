import Mathlib.Data.List.TakeWhile
import NextBuild.Proofs.Selection.Leads
import NextBuild.Proofs.Selection.Rebuilds

/-!
# Blank targets

A target of nothing but blanks names no branch.  The queue logs its configured reference then, and
the other strategies look at all listed branches with their configured specs.  That is what they do
without a target as well, except for a default strategy whose only spec names one definite branch:
without a target this branch is resolved, and with a blank one it is looked for among the listed
branches.  The two ways differ already where the branches cannot be listed.
-/

namespace NextBuild

/-- The request with another target. -/
def Request.withTarget (req : Request) (target : Option String) : Request :=
  { req with target }

variable {req : Request} {ledger : Ledger} {t : String}

/-- Nothing is left of blanks. -/
theorem Text.trim_of_allBlank (h : allBlank t = true) : trim t = "" := by
  have hchars : t.toList.dropWhile isBlank = [] :=
    List.dropWhile_eq_nil_iff.2 (List.all_eq_true.1 h)
  rw [trim, trimChars, hchars]
  rfl

/-! ## Blank is none -/

/-- The queue falls back to its configured reference. -/
theorem QueueStrategy.select_blank (h : Text.allBlank t = true) (s : QueueStrategy)
    (req : Request) (ledger : Ledger) :
    s.select (req.withTarget (some t)) ledger = s.select (req.withTarget none) ledger := by
  have htarget : s.logTarget? (req.withTarget (some t)) = s.logTarget? (req.withTarget none) := by
    simp only [logTarget?, Request.withTarget, Option.map_some, Text.trim_of_allBlank h]
    rfl
  unfold select
  rw [htarget]
  rfl

namespace DefaultStrategy

variable {s : DefaultStrategy}

/-- The only configured spec names one definite branch. -/
def NamesOne (env : Text.Environment) (s : DefaultStrategy) : Prop :=
  ∃ only name, s.specs = [only] ∧ Text.trim (Text.expand env (Text.trim only.name)) = name ∧
    name ≠ "" ∧ isPattern name = false

/-- Blanks name no branch, and so the configured specs are matched. -/
theorem select_blank (h : Text.allBlank t = true) (s : DefaultStrategy) (req : Request)
    (ledger : Ledger) :
    s.select (req.withTarget (some t)) ledger = selectMatching req ledger s.specs := by
  have hexpanded : Text.expand req.env "" = "" := Text.expand_eq_self (by decide)
  have htrimmed : Text.trim "" = "" := rfl
  have hsingle : s.singleTarget? (req.withTarget (some t)) = none := by
    simp [singleTarget?, Request.withTarget, Text.trim_of_allBlank h, hexpanded, htrimmed]
  rw [select, hsingle]
  simp only [Request.withTarget, Option.map_some, Text.trim_of_allBlank h]
  rfl

/-- Without a target the configured specs name a branch, or else are matched too. -/
theorem select_none (s : DefaultStrategy) (req : Request) (ledger : Ledger) :
    (∃ name, s.NamesOne req.env ∧
        s.select (req.withTarget none) ledger = s.selectSingle (req.withTarget none) ledger name) ∨
      ¬ s.NamesOne req.env ∧
        s.select (req.withTarget none) ledger = selectMatching req ledger s.specs := by
  unfold select
  cases hsingle : s.singleTarget? (req.withTarget none) with
  | some name =>
    refine .inl ⟨name, ?_, rfl⟩
    obtain ⟨hraw, hname⟩ := Option.filter_eq_some_iff.1 hsingle
    obtain ⟨raw, hspecs, hexpanded⟩ := Option.map_eq_some_iff.1 hraw
    dsimp only [Request.withTarget] at hspecs hexpanded
    split at hspecs
    · next only honly =>
      cases hspecs
      exact ⟨only, name, honly, hexpanded, by simp_all, by simp_all⟩
    · cases hspecs
  | none =>
    refine .inr ⟨?_, rfl⟩
    rintro ⟨only, name, hspecs, hexpanded, hne, hname⟩
    simp [singleTarget?, Request.withTarget, hspecs, hexpanded, hname, hne] at hsingle

end DefaultStrategy

/-! ## Where blank is not none -/

/-- A graph without any reference to resolve, whose branches cannot be listed. -/
def unlisted : CommitGraph
  | .references => .error (.git "the references cannot be listed")
  | _ => .error (.refNotFound "")

/-- Matching specs needs the list. -/
theorem run_selectMatching_unlisted (specs : List BranchSpec) :
    (DefaultStrategy.selectMatching req ledger specs).run unlisted =
      .error (.git "the references cannot be listed") := rfl

/-- Resolving a branch does without the list. -/
theorem DefaultStrategy.run_selectSingle_unlisted (s : DefaultStrategy) (name : String) :
    (s.selectSingle req ledger name).run unlisted = .ok [] := by
  have hlead (l : Lead) : l.query.run unlisted = .ok none := by
    unfold Lead.query
    split <;> rfl
  have hleads (ls : List Lead) : (resolveLeads ls).run unlisted = .ok [] := by
    rw [run_resolveLeads (fun _ => none) fun l _ => hlead l]
    exact congrArg _ (List.filterMap_eq_nil_iff.2 fun _ _ => rfl)
  have hname : (Inquiry.queryIfExists (.resolve name)).run unlisted = .ok none := rfl
  unfold selectSingle
  split
  · rw [Inquiry.run_bind, hname, ok_bind]
    dsimp only
    rw [Inquiry.run_bind, hleads]
    rfl
  · rw [Inquiry.run_bind, hleads]
    rfl

/-- Bounds on nothing have nothing to do with the list. -/
theorem Bounds.run_filter_unlisted (b : Bounds) (req : Request) :
    (b.filter req []).run unlisted ≠ .error (.git "the references cannot be listed") := by
  have hcutoff (days : Int) (f : Failure) (h : ageCutoff req.today req.offset days = .error f) :
      f ≠ .git "the references cannot be listed" := by
    unfold ageCutoff ageCutoffBy at h
    split at h
    · cases h
      nofun
    · split at h
      · cases h
        nofun
      · split at h
        · cases h
          nofun
        · cases h
  intro h
  rw [filter_eq] at h
  split at h
  · cases h
  · rw [Inquiry.run_bind, read, Inquiry.run_bind, Inquiry.run_ofExcept] at h
    cases hage : b.maxAgeDays.mapM (ageCutoff req.today req.offset) with
    | error f =>
      rw [hage] at h
      cases h
      cases hdays : b.maxAgeDays with
      | none =>
        rw [hdays] at hage
        cases hage
      | some days =>
        rw [hdays, Option.mapM_some] at hage
        rcases bind_eq_error_iff.1 hage with hfail | ⟨_, -, hfail⟩
        · exact hcutoff days _ hfail rfl
        · cases hfail
    | ok cutoff =>
      rw [hage] at h
      cases h

namespace Strategy

/-- What a strategy does with the candidates of its base strategy depends on no target, and on
nothing that is listed if there are none. -/
theorem exists_rest {s : Strategy} {inner : BaseStrategy} (hinner : s.inner? = some inner)
    (req : Request) (ledger : Ledger) : ∃ rest : List Revision → Inquiry (List Revision),
    (∀ target, s.select (req.withTarget target) ledger =
      inner.select (req.withTarget target) ledger >>= rest) ∧
    (rest []).run unlisted ≠ .error (.git "the references cannot be listed") := by
  cases s with
  | base s =>
    cases hinner
    exact ⟨pure, fun target => (bind_pure _).symm, nofun⟩
  | bounded s b =>
    cases hinner
    exact ⟨b.filter req, fun target => rfl, b.run_filter_unlisted req⟩
  | prioritized s b priorities =>
    cases hinner
    refine ⟨fun candidates => b.filter req candidates >>= fun rs =>
      pure (arrangeByPriority priorities rs), fun target => rfl, fun h => ?_⟩
    rw [Inquiry.run_bind] at h
    rcases bind_eq_error_iff.1 h with hfail | ⟨_, -, hfail⟩
    · exact b.run_filter_unlisted req hfail
    · cases hfail
  | queue s => cases hinner

/-- A strategy selects the same with a blank target as without a target, on every graph and after
every history, unless it is or bounds a default strategy whose only spec names one definite branch. -/
theorem blankTarget_agrees_iff (s : Strategy) (req : Request) (h : Text.allBlank t = true) :
    (∀ (g : CommitGraph) (ledger : Ledger),
      (s.select (req.withTarget (some t)) ledger).run g =
        (s.select (req.withTarget none) ledger).run g) ↔
      ∀ d, s.inner? = some (.default d) → ¬ d.NamesOne req.env := by
  constructor
  · intro hagrees d hinner hone
    obtain ⟨rest, hselect, hrest⟩ := exists_rest hinner req .empty
    have hblank : (s.select (req.withTarget (some t)) .empty).run unlisted =
        .error (.git "the references cannot be listed") := by
      rw [hselect, Inquiry.run_bind, BaseStrategy.select, d.select_blank h,
        run_selectMatching_unlisted, error_bind]
    rcases d.select_none req .empty with ⟨name, -, hname⟩ | ⟨hnone, -⟩
    · have hnone : (s.select (req.withTarget none) .empty).run unlisted = (rest []).run unlisted := by
        rw [hselect, Inquiry.run_bind, BaseStrategy.select, hname, d.run_selectSingle_unlisted,
          ok_bind]
      rw [← hnone, ← hagrees, hblank] at hrest
      exact hrest rfl
    · exact hnone hone
  · intro hnone g ledger
    refine congrArg (Inquiry.run g) ?_
    cases hinner : s.inner? with
    | none =>
      cases s with
      | queue s => exact s.select_blank h req ledger
      | base s => cases hinner
      | bounded s b => cases hinner
      | prioritized s b priorities => cases hinner
    | some inner =>
      obtain ⟨rest, hselect, -⟩ := exists_rest hinner req ledger
      rw [hselect, hselect]
      refine congrArg (· >>= rest) ?_
      cases inner with
      | inverse i => rfl
      | default d =>
        rcases d.select_none req ledger with ⟨name, hone, -⟩ | ⟨-, hmatching⟩
        · exact absurd hone (hnone d hinner)
        · exact (d.select_blank h req ledger).trans hmatching.symm

/-- Bounds on the job that builds every branch take no notice of a blank target. -/
theorem blankTarget_agrees_buildAll :
    let s : Strategy := .bounded buildAll ⟨some 30, some MemoryGraph.olderCommit⟩
    Text.allBlank " \t" = true ∧ (∀ d, s.inner? = some (.default d) → ¬ d.NamesOne pollAll.env) ∧
      ∀ (g : CommitGraph) (ledger : Ledger),
        (s.select (pollAll.withTarget (some " \t")) ledger).run g =
          (s.select (pollAll.withTarget none) ledger).run g := by
  intro s
  have hblank : Text.allBlank " \t" = true := by decide
  have hnone : ∀ d, s.inner? = some (.default d) → ¬ d.NamesOne pollAll.env := by
    rintro d hinner ⟨only, name, hspecs, rfl, -, hname⟩
    cases hinner
    cases hspecs
    have hpattern : DefaultStrategy.isPattern (Text.trim (Text.expand pollAll.env
        (Text.trim BranchSpec.everything.name))) = true := by
      rw [BranchSpec.name_everything]
      decide +kernel
    rw [hpattern] at hname
    cases hname
  exact ⟨hblank, hnone, (s.blankTarget_agrees_iff pollAll hblank).2 hnone⟩

end Strategy

/-- The spec of an example: a branch by its name. -/
def BranchSpec.topic : BranchSpec := ofName "topic" (by decide +kernel)

open MemoryGraph in
/-- A local branch that is not listed is resolved without a target, and not found with a blank one. -/
theorem blankTarget_misses_topic :
    let g : MemoryGraph :=
      { twoBranches with refs := Table.empty.insert "refs/heads/topic" olderCommit }
    let s : Strategy := .base (.default ⟨[.topic], ["origin"]⟩)
    Text.allBlank " " = true ∧
      (s.select (pollAll.withTarget none) .empty).run g.answers =
        .ok [.labelled olderCommit "topic"] ∧
      (s.select (pollAll.withTarget (some " ")) .empty).run g.answers = .ok [] := by
  intro g s
  have hblank : Text.allBlank " " = true := by decide
  refine ⟨hblank, ?_, ?_⟩
  · have hsingle : DefaultStrategy.singleTarget? ⟨[.topic], ["origin"]⟩ (pollAll.withTarget none) =
        some "topic" := by
      have hname : BranchSpec.topic.name = "topic" := BranchSpec.name_ofName _
      show ((some BranchSpec.topic.name).map fun t => Text.trim (Text.expand [] (Text.trim t))).filter
        (fun name => !name.isEmpty && !DefaultStrategy.isPattern name) = some "topic"
      rw [hname]
      decide +kernel
    show (DefaultStrategy.select _ _ _).run _ = _
    rw [DefaultStrategy.select, hsingle]
    rfl
  · have hlist : g.answers .references = .ok [] := by
      have hnone : g.refs.entries.filter (fun e => isListed g.localBranches e.1) = [] := by decide
      show Except.ok g.branches = _
      rw [branches, hnone, List.map_nil, List.mergeSort_nil]
    show (DefaultStrategy.select _ _ _).run _ = _
    rw [DefaultStrategy.select_blank hblank, DefaultStrategy.selectMatching_eq,
      Choice.run_tipsThen hlist]
    rfl

end NextBuild
