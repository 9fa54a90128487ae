import Mathlib.Data.Finset.Card
import NextBuild.Proofs.Selection.Offers
import NextBuild.Proofs.Selection.Rebuilds

/-!
# What polls cover

One job builds the branches that some specs match, and another one builds those that the same specs
leave over.  A name that is no pointer to a default branch is eligible for one of the two, whatever
other names are at its commit, and no choice hides a commit behind another one unless that one is
listed too.  So a commit at the top of all listed branches is polled by the job of each of its names
until that job has built it.
-/

namespace NextBuild

/-- A name is matched by specs if one of them matches it. -/
theorem BranchSpec.isMatchedBy_iff {specs : List BranchSpec} {env : Text.Environment} {name : String} :
    isMatchedBy specs env name = true ↔ ∃ spec ∈ specs, spec.isMatch env name = .ok true := by
  simp [isMatchedBy]

/-- Specs that give an answer each give one together. -/
theorem BranchSpec.exists_anyMatch {specs : List BranchSpec} {env : Text.Environment} {name : String}
    (h : ∀ spec ∈ specs, ∃ v, spec.isMatch env name = .ok v) :
    ∃ v, anyMatch specs env name = .ok v := by
  unfold anyMatch
  induction specs with
  | nil => exact ⟨false, rfl⟩
  | cons spec specs ih =>
    obtain ⟨⟨v, hv⟩, hspecs⟩ := List.forall_mem_cons.1 h
    rw [List.anyM, hv, ok_bind]
    cases v with
    | true => exact ⟨true, rfl⟩
    | false => exact ih hspecs

/-- The branch is listed, and one of the specs matches its name. -/
def Branch.IsMatched (specs : List BranchSpec) (env : Text.Environment) (bs : List Branch)
    (b : Branch) : Prop :=
  b ∈ bs ∧ ∃ spec ∈ specs, spec.isMatch env b.name = .ok true

namespace Choice

variable {env : Text.Environment} {bs : List Branch} {c : CommitId} {specs excluded : List BranchSpec}
  {name : String}

/-- There is more than one name if two of them differ. -/
theorem one_lt_length_iff_of_nodup {names : List String} (h : names.Nodup) :
    1 < names.length ↔ ∃ a ∈ names, ∃ b ∈ names, a ≠ b := by
  rw [← List.toFinset_card_of_nodup h, Finset.one_lt_card]
  simp only [List.mem_toFinset]

/-- The first choice takes a name that matches unless it is a pointer to a default branch and another
name matches too. -/
theorem mem_eligible_matching : name ∈ (matching specs).eligible env bs c ↔
    Branch.IsMatched specs env bs ⟨name, c⟩ ∧ ((Branch.mk name c).isHeadPointer = false ∨
      ∀ other, Branch.IsMatched specs env bs ⟨other, c⟩ → other = name) := by
  let matched := (namesAt bs c).filter (BranchSpec.isMatchedBy specs env)
  have hmatched (other : String) : other ∈ matched ↔ Branch.IsMatched specs env bs ⟨other, c⟩ := by
    rw [List.mem_filter, mem_namesAt, BranchSpec.isMatchedBy_iff]
    rfl
  have hnodup : matched.Nodup := (nodup_eraseDups _).filter _
  show name ∈ (if 1 < matched.length then matched.filter fun name => !(Branch.mk name c).isHeadPointer
    else matched) ↔ _
  split
  · next hmany =>
    obtain ⟨a, ha, b, hb, hab⟩ := (one_lt_length_iff_of_nodup hnodup).1 hmany
    rw [List.mem_filter, hmatched, Bool.not_eq_true']
    refine and_congr_right fun _ => ⟨.inl, fun h => h.resolve_right fun honly => hab ?_⟩
    rw [honly a ((hmatched a).1 ha), honly b ((hmatched b).1 hb)]
  · next hone =>
    rw [hmatched]
    refine ⟨fun h => ⟨h, .inr fun other hother => ?_⟩, fun h => h.1⟩
    by_contra hne
    exact hone ((one_lt_length_iff_of_nodup hnodup).2
      ⟨other, (hmatched other).2 hother, name, (hmatched name).2 h, hne⟩)

/-- The second choice takes the other names that are no pointers to default branches. -/
theorem mem_eligible_outside : name ∈ (outside excluded).eligible env bs c ↔
    (⟨name, c⟩ : Branch) ∈ bs ∧ (Branch.mk name c).isHeadPointer = false ∧
      ∀ spec ∈ excluded, spec.isMatch env name ≠ .ok true := by
  have hnone : BranchSpec.isMatchedBy excluded env name = false ↔
      ∀ spec ∈ excluded, spec.isMatch env name ≠ .ok true := by
    rw [← Bool.not_eq_true, BranchSpec.isMatchedBy_iff]
    simp
  rw [eligible, List.mem_filter, mem_namesAt, Bool.and_eq_true, Bool.not_eq_true', Bool.not_eq_true',
    hnone]

end Choice

namespace MemoryGraph

variable {g : MemoryGraph} {req : Request} {ledger : Ledger} {s : BaseStrategy} {ch : Choice}
  {rs : List Revision} {t : CommitId}

/-- What a poll that succeeds has found are the tips that were never built. -/
theorem Grown.areUnbuiltTips_of_poll (hg : g.Grown) (hpoll : req.poll = true)
    (hchoice : s.choice? req = some ch) (h : (s.select req ledger).run g.answers = .ok rs) :
    AreUnbuiltTips g.dag ledger (fun c => ch.eligible req.env g.branches c) rs := by
  rw [s.run_select_eq_poll g.answers hpoll hchoice] at h
  obtain ⟨tips, hrun, htips⟩ := hg.exists_poll ledger (Choice.exists_sublist_of_poll rfl h).1
  cases h.symm.trans hrun
  exact htips

/-- A poll succeeds where every spec that is tried gives an answer. -/
theorem Grown.exists_run_of_answers (hg : g.Grown) (ledger : Ledger) (hpoll : req.poll = true)
    (hchoice : s.choice? req = some ch) (hanswers : ch.Answers req.env g.branches) :
    ∃ rs, (s.select req ledger).run g.answers = .ok rs := by
  obtain ⟨rs, hrun, -⟩ := hg.exists_poll ledger hanswers
  exact ⟨rs, (s.run_select_eq_poll g.answers hpoll hchoice).trans hrun⟩

/-- A commit with an eligible name is a tip if no listed commit is above it. -/
theorem isTip_of_top {env : Text.Environment} {name : String}
    (htop : ∀ b ∈ g.branches, ¬ g.dag.IsStrictAncestor t b.commit)
    (hname : name ∈ ch.eligible env g.branches t) :
    IsTip g.dag (fun c => ch.eligible env g.branches c) t := by
  refine ⟨List.ne_nil_of_mem hname, fun d hd => ?_⟩
  obtain ⟨other, hother⟩ := List.exists_mem_of_ne_nil _ hd
  exact htop ⟨other, d⟩ (mem_namesAt.1 (Choice.mem_namesAt_of_mem_eligible hother))

/-- A commit at the top with an eligible name is polled until it was built. -/
theorem Grown.mem_or_hasBuilt (hg : g.Grown) (hpoll : req.poll = true)
    (hchoice : s.choice? req = some ch) (h : (s.select req ledger).run g.answers = .ok rs)
    (htop : ∀ b ∈ g.branches, ¬ g.dag.IsStrictAncestor t b.commit) {name : String}
    (hname : name ∈ ch.eligible req.env g.branches t) :
    t ∈ rs.map (·.commit) ∨ ledger.hasBuilt t = true := by
  cases hbuilt : ledger.hasBuilt t with
  | true => exact .inr rfl
  | false =>
    refine .inl (((hg.areUnbuiltTips_of_poll hpoll hchoice h).mem_iff t).2 ⟨?_, hbuilt⟩)
    exact isTip_of_top htop hname

/-- Two jobs, one for the branches that specs match and one for those that the same specs leave over,
leave no commit at the top of the listed branches behind: it is polled by the job that a name of it
belongs to, pointers to default branches aside, or that job has built it. -/
theorem Grown.covered_by_complements (hg : g.Grown) {strategy : DefaultStrategy}
    {specs : List BranchSpec} {taken left : Request} (htaken : taken.poll = true)
    (hleft : left.poll = true) (henv : left.env = taken.env)
    (hchoice : (BaseStrategy.default strategy).choice? taken = some (.matching specs))
    {takenLedger leftLedger : Ledger} {ds is : List Revision}
    (hds : ((BaseStrategy.default strategy).select taken takenLedger).run g.answers = .ok ds)
    (his : ((BaseStrategy.inverse ⟨specs⟩).select left leftLedger).run g.answers = .ok is)
    (htop : ∀ b ∈ g.branches, ¬ g.dag.IsStrictAncestor t b.commit) :
    (∀ name, (⟨name, t⟩ : Branch) ∈ g.branches → (Branch.mk name t).isHeadPointer = false →
      (∃ spec ∈ specs, spec.isMatch taken.env name = .ok true) →
      t ∈ ds.map (·.commit) ∨ takenLedger.hasBuilt t = true) ∧
    ∀ name, (⟨name, t⟩ : Branch) ∈ g.branches → (Branch.mk name t).isHeadPointer = false →
      (∀ spec ∈ specs, spec.isMatch taken.env name ≠ .ok true) →
      t ∈ is.map (·.commit) ∨ leftLedger.hasBuilt t = true := by
  constructor
  · intro name hlisted hhead hmatch
    exact hg.mem_or_hasBuilt htaken hchoice hds htop
      (Choice.mem_eligible_matching.2 ⟨⟨hlisted, hmatch⟩, .inl hhead⟩)
  · intro name hlisted hhead hnone
    rw [← henv] at hnone
    exact hg.mem_or_hasBuilt hleft rfl his htop
      (Choice.mem_eligible_outside.2 ⟨hlisted, hhead, hnone⟩)

/-- A graph of one commit, to which these branches of remotes point. -/
def oneCommit (names : List String) : MemoryGraph where
  dag := ⟨[⟨olderCommit, [], 100, 0⟩]⟩
  refs := names.foldr (fun name t => t.insert ("refs/remotes/" ++ name) olderCommit) .empty
  fetchHead := none
  localBranches := false

/-- The commit is added first, and then the references one after the other. -/
theorem grown_oneCommit (names : List String) : (oneCommit names).Grown := by
  induction names with
  | nil =>
    have hadd : MemoryGraph.empty.addCommit olderCommit [] 100 = .ok (oneCommit []) := rfl
    exact .addCommit (.start false) rfl hadd
  | cons name names ih =>
    have hset : (oneCommit names).setRef ("refs/remotes/" ++ name) olderCommit =
        .ok (oneCommit (name :: names)) := rfl
    exact .setRef ih hset

/-- The only commit is above itself as little as any other one. -/
theorem not_isStrictAncestor_oneCommit {names : List String} {b : Branch}
    (hb : b ∈ (oneCommit names).branches) :
    ¬ (oneCommit names).dag.IsStrictAncestor olderCommit b.commit := by
  obtain ⟨hranked, hrefs⟩ := (grown_oneCommit names).ranked_and_refsResolve
  obtain ⟨n, hn⟩ := hrefs.has_of_mem_branches hb
  have hsame : b.commit = olderCommit := by
    have hid := List.find?_some hn
    have hmem := List.mem_of_find?_eq_some hn
    rw [List.mem_singleton.1 hmem] at hid
    exact (beq_iff_eq.1 hid).symm
  rw [hsame]
  exact hranked.acyclic olderCommit

end MemoryGraph

namespace BranchSpec

/-- The spec of all branches of one remote. -/
def allOfOrigin : BranchSpec := ofName "origin/*" (by decide +kernel)

/-- It matches what its wildcard matches. -/
theorem isMatch_allOfOrigin (env : Text.Environment) (name : String) :
    allOfOrigin.isMatch env name = .ok ((wildcardPattern "origin/*").isMatch name) :=
  isMatch_ofName _ (by decide) (Text.hasReference_eq_false (by decide)) (by decide) env name

end BranchSpec

open MemoryGraph in
/-- A commit under a name in each of two remotes is polled by both jobs. -/
theorem polled_by_complements :
    let g := oneCommit ["origin/main", "upstream/main"]
    let specs : List BranchSpec := [.allOfOrigin, .head]
    ∃ ds is, ((BaseStrategy.default ⟨specs, ["origin"]⟩).select pollAll .empty).run g.answers = .ok ds ∧
      ((BaseStrategy.inverse ⟨specs⟩).select pollAll .empty).run g.answers = .ok is ∧
      olderCommit ∈ ds.map (·.commit) ∧ olderCommit ∈ is.map (·.commit) := by
  intro g specs
  have hg : g.Grown := grown_oneCommit _
  have hanswers (name : String) : ∃ v, BranchSpec.anyMatch specs [] name = .ok v :=
    BranchSpec.exists_anyMatch (List.forall_mem_cons.2 
      ⟨⟨_, BranchSpec.isMatch_allOfOrigin [] name⟩,
        List.forall_mem_singleton.2 ⟨_, BranchSpec.isMatch_head [] name⟩⟩)
  have hchoice : (BaseStrategy.default ⟨specs, ["origin"]⟩).choice? pollAll = some (.matching specs) := rfl
  have hinverse : (BaseStrategy.inverse ⟨specs⟩).choice? pollAll = some (.outside specs) := rfl
  obtain ⟨ds, hds⟩ := hg.exists_run_of_answers .empty rfl hchoice fun b _ => hanswers b.name
  obtain ⟨is, his⟩ := hg.exists_run_of_answers .empty rfl hinverse fun b _ _ => hanswers b.name
  obtain ⟨hmatched, hother⟩ := hg.covered_by_complements rfl rfl rfl hchoice hds his
    fun _ => not_isStrictAncestor_oneCommit
  have horigin : (⟨"origin/main", olderCommit⟩ : Branch) ∈ g.branches :=
    List.mem_mergeSort.2 (by decide)
  have hupstream : (⟨"upstream/main", olderCommit⟩ : Branch) ∈ g.branches :=
    List.mem_mergeSort.2 (by decide)
  refine ⟨ds, is, hds, his, ?_, ?_⟩
  · refine (hmatched _ horigin (by decide) ⟨.allOfOrigin, List.mem_cons_self, ?_⟩).resolve_right nofun
    exact (BranchSpec.isMatch_allOfOrigin _ _).trans (congrArg Except.ok (by decide))
  · have horiginOnly : BranchSpec.allOfOrigin.isMatch pollAll.env "upstream/main" ≠ .ok true := by
      rw [BranchSpec.isMatch_allOfOrigin]
      intro hmatch
      exact absurd (Except.ok.inj hmatch) (by decide)
    have hheadOnly : BranchSpec.head.isMatch pollAll.env "upstream/main" ≠ .ok true := by
      rw [BranchSpec.isMatch_head]
      intro hmatch
      exact absurd (Except.ok.inj hmatch) (by decide)
    exact (hother _ hupstream (by decide) (List.forall_mem_cons.2
      ⟨horiginOnly, List.forall_mem_singleton.2 hheadOnly⟩)).resolve_right nofun

end NextBuild
