import NextBuild.Proofs.Selection.Coverage

/-!
# Pointers to default branches in polls

Where specs match several names of a commit, all pointers to default branches among them are dropped.
Beside a named branch such a pointer is only a second name.  But nothing is left of a commit that
nothing but several pointers lead to, so a poll passes over it and over all that it hides.
-/

namespace NextBuild

/-- Where a name is left, another name that matches was dropped exactly if it is a pointer to a default
branch and the one that is left is not. -/
theorem Choice.notMem_eligible_matching {env : Text.Environment} {bs : List Branch} {c : CommitId}
    {specs : List BranchSpec} {name : String} (hne : (matching specs).eligible env bs c ≠ [])
    (hname : Branch.IsMatched specs env bs ⟨name, c⟩) :
    name ∉ (matching specs).eligible env bs c ↔ (Branch.mk name c).isHeadPointer = true ∧
      ∃ other ∈ (matching specs).eligible env bs c, (Branch.mk other c).isHeadPointer = false := by
  constructor
  · intro hout
    obtain ⟨hhead, hmany⟩ := not_or.1 fun h => hout (mem_eligible_matching.2 ⟨hname, h⟩)
    refine ⟨Bool.not_eq_false _ ▸ hhead, ?_⟩
    obtain ⟨other, hother⟩ := List.exists_mem_of_ne_nil _ hne
    refine ⟨other, hother, (mem_eligible_matching.1 hother).2.resolve_right fun honly => ?_⟩
    exact hout (honly name hname ▸ hother)
  · rintro ⟨hhead, other, hother, hnamed⟩ hin
    rcases (mem_eligible_matching.1 hin).2 with hnot | honly
    · rw [hhead] at hnot
      cases hnot
    · rw [honly other (mem_eligible_matching.1 hother).1, hhead] at hnamed
      cases hnamed

namespace MemoryGraph

variable {g : MemoryGraph} {req : Request} {ledger : Ledger} {specs : List BranchSpec}
  {rs : List Revision}

/-- A poll finds a commit that nothing above it hides, unless it was built, exactly when a name that
matches is no pointer to a default branch or is the only one that matches.  At a commit that is found
a name that matches is left out exactly when it is such a pointer and a named branch stays. -/
theorem Grown.mem_poll_iff_named_or_single (hg : g.Grown) (hpoll : req.poll = true)
    {strategy : DefaultStrategy}
    (hchoice : (BaseStrategy.default strategy).choice? req = some (.matching specs))
    (h : ((BaseStrategy.default strategy).select req ledger).run g.answers = .ok rs) :
    (∀ c, (∀ b, Branch.IsMatched specs req.env g.branches b → ¬ g.dag.IsStrictAncestor c b.commit) →
      ledger.hasBuilt c = false →
      (c ∈ rs.map (·.commit) ↔ ∃ name, Branch.IsMatched specs req.env g.branches ⟨name, c⟩ ∧
        ((Branch.mk name c).isHeadPointer = false ∨
          ∀ other, Branch.IsMatched specs req.env g.branches ⟨other, c⟩ → other = name))) ∧
    ∀ r ∈ rs, ∀ name, Branch.IsMatched specs req.env g.branches ⟨name, r.commit⟩ →
      (name ∉ r.names ↔ (Branch.mk name r.commit).isHeadPointer = true ∧
        ∃ other ∈ r.names, (Branch.mk other r.commit).isHeadPointer = false) := by
  have htips := hg.areUnbuiltTips_of_poll hpoll hchoice h
  constructor
  · intro c htop hfresh
    rw [htips.mem_iff]
    constructor
    · intro hmem
      obtain ⟨name, hname⟩ := List.exists_mem_of_ne_nil _ hmem.1.1
      exact ⟨name, Choice.mem_eligible_matching.1 hname⟩
    · intro hname
      obtain ⟨name, hname⟩ := hname
      refine ⟨⟨List.ne_nil_of_mem (Choice.mem_eligible_matching.2 hname), fun d hd => ?_⟩, hfresh⟩
      obtain ⟨other, hother⟩ := List.exists_mem_of_ne_nil _ hd
      exact htop _ (Choice.mem_eligible_matching.1 hother).1
  · intro r hr name hmatched
    have hnames : r.names = (Choice.matching specs).eligible req.env g.branches r.commit := by
      rw [htips.eq_ofNames r hr, Revision.names_ofNames]
      rfl
    have hne : (Choice.matching specs).eligible req.env g.branches r.commit ≠ [] :=
      ((htips.mem_iff _).1 (List.mem_map_of_mem hr)).1.1
    rw [hnames]
    exact Choice.notMem_eligible_matching hne hmatched

/-- Every branch of the example is tried by the spec of all branches. -/
theorem answers_everything (bs : List Branch) :
    (Choice.matching [.everything]).Answers pollAll.env bs := fun b _ =>
  BranchSpec.exists_anyMatch
    (List.forall_mem_singleton.2 ⟨_, BranchSpec.isMatch_everything pollAll.env b.name⟩)

/-- A branch that the two stars match is matched by the spec for everything. -/
theorem isMatched_everything {bs : List Branch} {b : Branch} (hb : b ∈ bs)
    (hmatch : (BranchSpec.wildcardPattern "**").isMatch b.name = true) :
    Branch.IsMatched [.everything] pollAll.env bs b :=
  ⟨hb, .everything, List.mem_cons_self,
    (BranchSpec.isMatch_everything _ _).trans (congrArg Except.ok hmatch)⟩

/-- A pointer beside a named branch is left out, and the commit is polled. -/
theorem poll_main_beside_head :
    ∃ rs, (buildAll.select pollAll .empty).run (oneCommit ["origin/HEAD", "origin/main"]).answers =
        .ok rs ∧ olderCommit ∈ rs.map (·.commit) ∧
      ∀ r ∈ rs, r.commit = olderCommit → "origin/main" ∈ r.names ∧ "origin/HEAD" ∉ r.names := by
  let g := oneCommit ["origin/HEAD", "origin/main"]
  have hg : g.Grown := grown_oneCommit _
  obtain ⟨rs, hrs⟩ := hg.exists_run_of_answers .empty rfl choice?_buildAll
    (answers_everything g.branches)
  have hmain : Branch.IsMatched [.everything] pollAll.env g.branches ⟨"origin/main", olderCommit⟩ :=
    isMatched_everything (List.mem_mergeSort.2 (by decide)) (by decide)
  have hhead : Branch.IsMatched [.everything] pollAll.env g.branches ⟨"origin/HEAD", olderCommit⟩ :=
    isMatched_everything (List.mem_mergeSort.2 (by decide)) (by decide)
  obtain ⟨hfound, hleft⟩ := hg.mem_poll_iff_named_or_single rfl choice?_buildAll hrs
  have hmem := (hfound olderCommit (fun b hb => not_isStrictAncestor_oneCommit hb.1) rfl).2
    ⟨_, hmain, .inl (by decide)⟩
  refine ⟨rs, hrs, hmem, fun r hr hcommit => ?_⟩
  rw [← hcommit] at hmain hhead
  have hstays : "origin/main" ∈ r.names := by
    by_contra hout
    exact absurd ((hleft r hr _ hmain).1 hout).1 (by rw [hcommit]; decide)
  refine ⟨hstays, (hleft r hr _ hhead).2 ⟨by rw [hcommit]; decide, _, hstays, ?_⟩⟩
  rw [hcommit]
  decide

/-- A commit that only the pointers of two remotes lead to is not polled, although nothing hides it and
it was never built. -/
theorem poll_loses_head_pointers :
    let g := oneCommit ["origin/HEAD", "upstream/HEAD"]
    g.Grown ∧
      Branch.IsMatched [.everything] pollAll.env g.branches ⟨"origin/HEAD", olderCommit⟩ ∧
      (∀ b ∈ g.branches, ¬ g.dag.IsStrictAncestor olderCommit b.commit) ∧
      Ledger.empty.hasBuilt olderCommit = false ∧
      (buildAll.select pollAll .empty).run g.answers = .ok [] := by
  intro g
  have hg : g.Grown := grown_oneCommit _
  have horigin : Branch.IsMatched [.everything] pollAll.env g.branches ⟨"origin/HEAD", olderCommit⟩ :=
    isMatched_everything (List.mem_mergeSort.2 (by decide)) (by decide)
  have hupstream : Branch.IsMatched [.everything] pollAll.env g.branches ⟨"upstream/HEAD", olderCommit⟩ :=
    isMatched_everything (List.mem_mergeSort.2 (by decide)) (by decide)
  refine ⟨hg, horigin, fun _ => not_isStrictAncestor_oneCommit, rfl, ?_⟩
  obtain ⟨rs, hrs⟩ := hg.exists_run_of_answers .empty rfl choice?_buildAll
    (answers_everything g.branches)
  have htips := hg.areUnbuiltTips_of_poll rfl choice?_buildAll hrs
  have hpointers : ∀ b ∈ g.branches, b.isHeadPointer = true ∧ b.commit = olderCommit := by
    intro b hb
    exact (by decide : ∀ b ∈ (g.refs.entries.filter fun e => isListed g.localBranches e.1).map
      fun e => Branch.mk (displayName e.1) e.2, b.isHeadPointer = true ∧ b.commit = olderCommit)
      b (List.mem_mergeSort.1 hb)
  have hnil : rs = [] := by
    refine List.eq_nil_iff_forall_not_mem.2 fun r hr => ?_
    have htip := ((htips.mem_iff r.commit).1 (List.mem_map_of_mem hr)).1
    obtain ⟨name, hname⟩ := List.exists_mem_of_ne_nil _ htip.1
    obtain ⟨hmatched, hnamed | honly⟩ := Choice.mem_eligible_matching.1 hname
    · rw [(hpointers _ hmatched.1).1] at hnamed
      cases hnamed
    · have hcommit : r.commit = olderCommit := (hpointers _ hmatched.1).2
      rw [hcommit] at honly
      exact absurd ((honly _ horigin).trans (honly _ hupstream).symm) (by decide)
  rw [hrs, hnil]

end MemoryGraph

end NextBuild
