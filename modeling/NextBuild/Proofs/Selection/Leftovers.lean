import NextBuild.Proofs.BranchSpec.Acceptance
import NextBuild.Proofs.Selection.Coverage

/-!
# Branches that are left over

Two rules say which names point to the default branch of a remote.  The spec `*/HEAD` describes such
a pointer by a single folder, and the test that a poll makes goes by the end of the name alone, which
every branch has whose last part is `HEAD`, however deep its folder is.  The inverse strategy drops
the names of both.  So it finds a commit that only names of the second kind lead to no more than one
that its specs exclude.
-/

namespace NextBuild

/-- The branch is listed, and neither the specs nor the one of the pointers to default branches match
its name. -/
structure Branch.IsLeftOver (excluded : List BranchSpec) (env : Text.Environment) (bs : List Branch)
    (b : Branch) : Prop where
  listed : b ∈ bs
  notHead : BranchSpec.head.isMatch env b.name ≠ .ok true
  notExcluded : ∀ spec ∈ excluded, spec.isMatch env b.name ≠ .ok true

/-- The inverse strategy takes those of the branches that are left over whose names do not end like a
pointer to a default branch. -/
theorem Choice.mem_eligible_outside_iff_isLeftOver {env : Text.Environment} {bs : List Branch}
    {c : CommitId} {excluded : List BranchSpec} {name : String} :
    name ∈ (outside excluded).eligible env bs c ↔
      Branch.IsLeftOver excluded env bs ⟨name, c⟩ ∧ (Branch.mk name c).isHeadPointer = false := by
  rw [mem_eligible_outside]
  constructor
  · rintro ⟨hlisted, hnamed, hnone⟩
    refine ⟨⟨hlisted, fun hhead => ?_, hnone⟩, hnamed⟩
    have hpointer := BranchSpec.isHeadPointer_of_head_isMatch (b := ⟨name, c⟩) hhead
    exact Bool.false_ne_true (hnamed.symm.trans hpointer)
  · rintro ⟨hleft, hnamed⟩
    exact ⟨hleft.listed, hnamed, hleft.notExcluded⟩

namespace MemoryGraph

variable {g : MemoryGraph} {req : Request} {ledger : Ledger} {excluded : List BranchSpec}
  {rs : List Revision}

/-- Of the commits that branches which are left over lead to, a poll finds those below no other one
that were never built, exactly if one of these branches does not end like a pointer to a default
branch. -/
theorem Grown.mem_inverse_poll_iff_named (hg : g.Grown) (hpoll : req.poll = true)
    (h : ((BaseStrategy.inverse ⟨excluded⟩).select req ledger).run g.answers = .ok rs) (c : CommitId)
    (htop : ∀ b, Branch.IsLeftOver excluded req.env g.branches b →
      ¬ g.dag.IsStrictAncestor c b.commit)
    (hfresh : ledger.hasBuilt c = false) :
    c ∈ rs.map (·.commit) ↔ ∃ name, Branch.IsLeftOver excluded req.env g.branches ⟨name, c⟩ ∧
      (Branch.mk name c).isHeadPointer = false := by
  rw [(hg.areUnbuiltTips_of_poll hpoll rfl h).mem_iff c]
  constructor
  · intro htip
    obtain ⟨name, hname⟩ := List.exists_mem_of_ne_nil _ htip.1.1
    exact ⟨name, Choice.mem_eligible_outside_iff_isLeftOver.1 hname⟩
  · rintro ⟨name, hname⟩
    have hmem := Choice.mem_eligible_outside_iff_isLeftOver.2 hname
    refine ⟨⟨List.ne_nil_of_mem hmem, fun d hd => ?_⟩, hfresh⟩
    obtain ⟨other, hother⟩ := List.exists_mem_of_ne_nil _ hd
    exact htop ⟨other, d⟩ (Choice.mem_eligible_outside_iff_isLeftOver.1 hother).1

/-- Beside a branch that is left over and does not end like a pointer the branch of a folder does no
harm. -/
theorem poll_upstream_beside_folder :
    let g := oneCommit ["origin/feature/HEAD", "origin/main", "upstream/main"]
    ∃ rs, ((BaseStrategy.inverse ⟨[.allOfOrigin]⟩).select pollAll .empty).run g.answers = .ok rs ∧
      (∀ b, Branch.IsLeftOver [.allOfOrigin] pollAll.env g.branches b →
        ¬ g.dag.IsStrictAncestor olderCommit b.commit) ∧
      Ledger.empty.hasBuilt olderCommit = false ∧ olderCommit ∈ rs.map (·.commit) := by
  intro g
  have hg : g.Grown := grown_oneCommit _
  have hanswers (name : String) : ∃ v, BranchSpec.anyMatch [.allOfOrigin] [] name = .ok v :=
    BranchSpec.exists_anyMatch
      (List.forall_mem_singleton.2 ⟨_, BranchSpec.isMatch_allOfOrigin [] name⟩)
  have hchoice : (BaseStrategy.inverse ⟨[.allOfOrigin]⟩).choice? pollAll =
      some (.outside [.allOfOrigin]) := rfl
  obtain ⟨rs, hrs⟩ := hg.exists_run_of_answers .empty rfl hchoice fun b _ _ => hanswers b.name
  have htop (b : Branch) (hb : Branch.IsLeftOver [.allOfOrigin] pollAll.env g.branches b) :
      ¬ g.dag.IsStrictAncestor olderCommit b.commit := not_isStrictAncestor_oneCommit hb.listed
  have hupstream : Branch.IsLeftOver [.allOfOrigin] pollAll.env g.branches
      ⟨"upstream/main", olderCommit⟩ := by
    constructor
    case listed => exact List.mem_mergeSort.2 (by decide)
    case notHead =>
      rw [BranchSpec.isMatch_head]
      exact fun hmatch => absurd (Except.ok.inj hmatch) (by decide)
    case notExcluded =>
      intro spec hspec hmatch
      rw [List.mem_singleton.1 hspec, BranchSpec.isMatch_allOfOrigin] at hmatch
      exact absurd (Except.ok.inj hmatch) (by decide)
  refine ⟨rs, hrs, htop, rfl, ?_⟩
  exact (hg.mem_inverse_poll_iff_named rfl hrs olderCommit htop rfl).2 ⟨_, hupstream, by decide⟩

/-- A commit that only the branch of a folder leads to is not polled, although nothing is excluded,
nothing is above it and it was never built. -/
theorem poll_loses_folder_head :
    let g := oneCommit ["origin/feature/HEAD"]
    g.Grown ∧
      Branch.IsLeftOver [] pollAll.env g.branches ⟨"origin/feature/HEAD", olderCommit⟩ ∧
      (∀ b ∈ g.branches, ¬ g.dag.IsStrictAncestor olderCommit b.commit) ∧
      Ledger.empty.hasBuilt olderCommit = false ∧
      ((BaseStrategy.inverse ⟨[]⟩).select pollAll .empty).run g.answers = .ok [] := by
  intro g
  have hg : g.Grown := grown_oneCommit _
  have hlisted : (⟨"origin/feature/HEAD", olderCommit⟩ : Branch) ∈ g.branches :=
    List.mem_mergeSort.2 (by decide)
  have hleft : Branch.IsLeftOver [] pollAll.env g.branches ⟨"origin/feature/HEAD", olderCommit⟩ := by
    refine ⟨hlisted, ?_, by simp⟩
    rw [BranchSpec.isMatch_head]
    exact fun hmatch => absurd (Except.ok.inj hmatch) (by decide)
  refine ⟨hg, hleft, fun _ => not_isStrictAncestor_oneCommit, rfl, ?_⟩
  have hchoice : (BaseStrategy.inverse ⟨[]⟩).choice? pollAll = some (.outside []) := rfl
  obtain ⟨rs, hrs⟩ := hg.exists_run_of_answers .empty rfl hchoice fun b _ _ => ⟨false, rfl⟩
  have htips := hg.areUnbuiltTips_of_poll rfl hchoice hrs
  have hpointers : ∀ b ∈ g.branches, b.isHeadPointer = true := by
    intro b hb
    exact (by decide : ∀ b ∈ (g.refs.entries.filter fun e => isListed g.localBranches e.1).map
      fun e => Branch.mk (displayName e.1) e.2, b.isHeadPointer = true) b (List.mem_mergeSort.1 hb)
  have hnil : rs = [] := by
    apply List.eq_nil_iff_forall_not_mem.2
    intro r hr
    have htip := ((htips.mem_iff r.commit).1 (List.mem_map_of_mem hr)).1
    obtain ⟨name, hname⟩ := List.exists_mem_of_ne_nil _ htip.1
    obtain ⟨hleft, hnamed⟩ := Choice.mem_eligible_outside_iff_isLeftOver.1 hname
    exact Bool.false_ne_true (hnamed.symm.trans (hpointers _ hleft.listed))
  rw [hrs, hnil]

end MemoryGraph

end NextBuild
