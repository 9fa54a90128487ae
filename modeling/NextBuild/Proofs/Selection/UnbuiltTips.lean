import NextBuild.Proofs.Graph.Growth
import NextBuild.Proofs.Graph.MergeBase
import NextBuild.Proofs.Selection.Questions
import NextBuild.Proofs.Selection.TimeOrder
import NextBuild.Proofs.Selection.Tips

/-!
# Polls answer with the unbuilt tips

A poll of a strategy that looks at all listed branches runs through the same stages whatever its
choice is: it groups the branches by commit, makes the choice at each commit, keeps the tips, drops
what was built and sorts the rest.  On a graph that was built up step by step no stage can fail but
the choice, and together they give exactly the tips among the commits with an eligible name that the
ledger does not know.
-/

namespace NextBuild

/-- The commit has an eligible name, and is a strict ancestor of no other commit that has one. -/
def IsTip (g : Dag) (eligible : CommitId → List String) (c : CommitId) : Prop :=
  eligible c ≠ [] ∧ ∀ d, eligible d ≠ [] → ¬ g.IsStrictAncestor c d

/-- The revisions are the tips that were never built. -/
structure AreUnbuiltTips (g : Dag) (ledger : Ledger) (eligible : CommitId → List String)
    (rs : List Revision) : Prop where
  /-- A commit occurs exactly when it is a tip that was never built. -/
  mem_iff : ∀ c, c ∈ rs.map (·.commit) ↔ IsTip g eligible c ∧ ledger.hasBuilt c = false
  /-- No commit occurs twice. -/
  nodup : (rs.map (·.commit)).Nodup
  /-- A revision carries exactly the eligible names of its commit, in their order. -/
  eq_ofNames : ∀ r ∈ rs, r = .ofNames r.commit (eligible r.commit)
  /-- The revisions come in the order of time, and of ids where the times are the same. -/
  increasing : rs.Pairwise fun a b => Precedes g.timeOf a.commit b.commit

/-- The stages of a poll. -/
def Choice.poll (ch : Choice) (req : Request) (ledger : Ledger) : Inquiry (List Revision) := do
  let listed ← listedRevisions
  let picked ← Inquiry.ofExcept (listed.mapM (ch.pick req.env))
  let newest ← NextBuild.tips (picked.filter (·.hasBranches))
  sortOldestFirst (newest.filter fun r => !ledger.hasBuilt r.commit)

variable {req : Request} {ledger : Ledger}

/-- In a poll nothing is built again, so only the unbuilt tips are left. -/
theorem Choice.tipsThen_finish_eq_poll (ch : Choice) (hpoll : req.poll = true) :
    ch.tipsThen req (ch.finish req ledger) = ch.poll req ledger := by
  have hclosing (newest : List Revision) : closing ledger (ch.repeated req) newest =
      sortOldestFirst (newest.filter fun r => !ledger.hasBuilt r.commit) := by
    simp only [closing, dropBuilt]
    cases hfresh : newest.filter fun r => !ledger.hasBuilt r.commit with
    | nil => simp [ch.repeated_of_poll hpoll, sortOldestFirst]
    | cons r rs => rfl
  unfold tipsThen poll
  congr 1
  funext listed
  congr 1
  funext picked
  congr 1
  funext newest
  cases ch with
  | matching specs => exact hclosing newest
  | outside excluded =>
    cases newest with
    | nil => rfl
    | cons r rs => exact hclosing (r :: rs)

/-- A poll of a strategy that makes a choice goes through the stages with this choice. -/
theorem BaseStrategy.run_select_eq_poll {s : BaseStrategy} {ch : Choice} (g : CommitGraph)
    (hpoll : req.poll = true) (hchoice : s.choice? req = some ch) :
    (s.select req ledger).run g = (ch.poll req ledger).run g := by
  rw [select_eq_tipsThen hchoice, ch.tipsThen_finish_eq_poll hpoll]

/-- Where the branches can be listed and tried and the merge bases tell a partial order, the stages
that follow the tips start from the maximal revisions. -/
theorem Choice.run_tipsThen_eq {g : CommitGraph} {ch : Choice} {bs : List Branch}
    {ancestor : CommitId → CommitId → Prop} (hlist : g .references = .ok bs)
    (hanswers : ch.Answers req.env bs)
    (htrans : ∀ a b c, ancestor a b → ancestor b c → ancestor a c)
    (hantisymm : ∀ a b, ancestor a b → ancestor b a → a = b)
    (htell : ∀ c ∈ ch.commits req.env bs, ∀ d ∈ ch.commits req.env bs,
      BaseTells g ancestor (ch.revision req.env bs c) (ch.revision req.env bs d))
    (rest : List Revision → Inquiry (List Revision)) :
    (ch.tipsThen req rest).run g =
      (rest (maximalRevisions ancestor
        ((ch.commits req.env bs).map (ch.revision req.env bs)))).run g := by
  have htips : (tips ((ch.commits req.env bs).map (ch.revision req.env bs))).run g =
      .ok (maximalRevisions ancestor ((ch.commits req.env bs).map (ch.revision req.env bs))) := by
    refine run_tips htrans hantisymm fun r hr s hs => ?_
    obtain ⟨c, hc, rfl⟩ := List.mem_map.1 hr
    obtain ⟨d, hd, rfl⟩ := List.mem_map.1 hs
    exact htell c hc d hd
  rw [run_tipsThen hlist, mapM_pick hanswers, ok_bind, filter_hasBranches, htips, ok_bind]

/-- Where besides this the times can be read, the stages of a poll leave the maximal revisions that
were never built. -/
theorem Choice.exists_poll (ledger : Ledger) {g : CommitGraph} {ch : Choice} {bs : List Branch}
    {ancestor : CommitId → CommitId → Prop} {time : CommitId → Int64}
    (hlist : g .references = .ok bs) (hanswers : ch.Answers req.env bs)
    (htrans : ∀ a b c, ancestor a b → ancestor b c → ancestor a c)
    (hantisymm : ∀ a b, ancestor a b → ancestor b a → a = b)
    (htell : ∀ c ∈ ch.commits req.env bs, ∀ d ∈ ch.commits req.env bs,
      BaseTells g ancestor (ch.revision req.env bs c) (ch.revision req.env bs d))
    (hwalk : g .openWalk = .ok ())
    (htime : ∀ c ∈ ch.commits req.env bs, g (.commitTime c) = .ok (time c)) :
    ∃ rs, (ch.poll req ledger).run g = .ok rs ∧
      rs.Perm ((maximalRevisions ancestor ((ch.commits req.env bs).map (ch.revision req.env bs))).filter
        fun r => !ledger.hasBuilt r.commit) ∧
      (rs.map (·.commit)).Nodup ∧ rs.Pairwise fun a b => Precedes time a.commit b.commit := by
  let candidates := (ch.commits req.env bs).map (ch.revision req.env bs)
  let fresh := (maximalRevisions ancestor candidates).filter fun r => !ledger.hasBuilt r.commit
  have hsublist : fresh.Sublist candidates := List.filter_sublist.trans List.filter_sublist
  have hcommits : candidates.map (·.commit) = ch.commits req.env bs := by
    simp [candidates, revision, Function.comp_def]
  have hnodup : (fresh.map (·.commit)).Nodup := by
    refine (hsublist.map (·.commit)).nodup ?_
    rw [hcommits]
    exact nodup_commits ch
  have htimes : ∀ r ∈ fresh, g (.commitTime r.commit) = .ok (time r.commit) := by
    intro r hr
    obtain ⟨c, hc, rfl⟩ := List.mem_map.1 (hsublist.subset hr)
    exact htime c hc
  obtain ⟨rs, hsorted, hperm, hincreasing⟩ := exists_sortOldestFirst hwalk htimes hnodup
  refine ⟨rs, ?_, hperm, (hperm.map (·.commit)).nodup_iff.2 hnodup, hincreasing⟩
  exact (run_tipsThen_eq hlist hanswers htrans hantisymm htell _).trans hsorted

namespace MemoryGraph

variable {g : MemoryGraph}

/-- The committer time of a commit of the graph can be asked for. -/
theorem answers_commitTime {c : CommitId} (hc : g.dag.Has c) :
    g.answers (.commitTime c) = .ok (g.dag.timeOf c) := by
  obtain ⟨n, hn⟩ := hc
  show (g.dag.node c).map (·.time) = _
  rw [Dag.node_eq_ok hn, Dag.timeOf, hn]
  rfl

/-- On a graph that was built up the merge bases of its commits tell who reaches whom. -/
theorem Grown.baseTells (hg : g.Grown) {r s : Revision} (hr : g.dag.Has r.commit)
    (hs : g.dag.Has s.commit) : BaseTells g.answers (fun a c => g.dag.Reaches c a) r s := by
  have hranked := hg.ranked_and_refsResolve.1
  exact Dag.exists_mergeBase_of_acyclic hranked.closed hranked.acyclic hr hs

/-- Among the candidates of a choice the maximal ones are those of the tips. -/
theorem Grown.mem_maximalRevisions_iff (hg : g.Grown) {ch : Choice} {r : Revision} :
    r ∈ maximalRevisions (fun a c => g.dag.Reaches c a)
        ((ch.commits req.env g.branches).map (ch.revision req.env g.branches)) ↔
      r = ch.revision req.env g.branches r.commit ∧
        IsTip g.dag (fun c => ch.eligible req.env g.branches c) r.commit := by
  have hacyclic := hg.ranked_and_refsResolve.1.acyclic
  rw [mem_maximalRevisions]
  constructor
  · intro h
    obtain ⟨hr, hmax⟩ := h
    obtain ⟨c, hc, rfl⟩ := List.mem_map.1 hr
    refine ⟨rfl, Choice.mem_commits.1 hc, fun d hd hcd => ?_⟩
    refine hmax _ (List.mem_map_of_mem (Choice.mem_commits.2 hd)) ?_
    exact hacyclic.isStrictAncestor_iff.1 hcd
  · intro h
    obtain ⟨hr, hne, htip⟩ := h
    refine ⟨hr ▸ List.mem_map_of_mem (Choice.mem_commits.2 hne), fun s hs hrs => ?_⟩
    obtain ⟨d, hd, rfl⟩ := List.mem_map.1 hs
    exact htip d (Choice.mem_commits.1 hd) (hacyclic.isStrictAncestor_iff.2 hrs)

/-- The candidates of a choice are commits of the graph. -/
theorem Grown.has_of_mem_commits (hg : g.Grown) {ch : Choice} {c : CommitId}
    (hc : c ∈ ch.commits req.env g.branches) : g.dag.Has c := by
  obtain ⟨b, hb, rfl⟩ := mem_commitsOf.1 (List.mem_filter.1 hc).1
  exact hg.ranked_and_refsResolve.2.has_of_mem_branches hb

/-- On a graph that was built up the stages that follow the tips start from the maximal candidates. -/
theorem Grown.run_tipsThen (hg : g.Grown) {ch : Choice} (hanswers : ch.Answers req.env g.branches)
    (rest : List Revision → Inquiry (List Revision)) :
    (ch.tipsThen req rest).run g.answers =
      (rest (maximalRevisions (fun a c => g.dag.Reaches c a)
        ((ch.commits req.env g.branches).map (ch.revision req.env g.branches)))).run g.answers := by
  have hacyclic := hg.ranked_and_refsResolve.1.acyclic
  exact Choice.run_tipsThen_eq rfl hanswers (fun a b c hab hbc => hbc.trans hab)
    (fun a b hab hba => hacyclic.eq_of_reaches hba hab)
    (fun c hc d hd => hg.baseTells (hg.has_of_mem_commits hc) (hg.has_of_mem_commits hd)) rest

/-- The stages of a poll end with the unbuilt tips. -/
theorem Grown.exists_poll (hg : g.Grown) (ledger : Ledger) {ch : Choice} (hanswers : ch.Answers req.env g.branches) :
    ∃ rs, (ch.poll req ledger).run g.answers = .ok rs ∧
      AreUnbuiltTips g.dag ledger (fun c => ch.eligible req.env g.branches c) rs := by
  have hranked := hg.ranked_and_refsResolve.1
  have hhas : ∀ c ∈ ch.commits req.env g.branches, g.dag.Has c := fun c => hg.has_of_mem_commits
  obtain ⟨rs, hrun, hperm, hnodup, hincreasing⟩ := Choice.exists_poll ledger rfl hanswers
    (fun a b c hab hbc => hbc.trans hab) (fun a b hab hba => hranked.acyclic.eq_of_reaches hba hab)
    (fun c hc d hd => hg.baseTells (hhas c hc) (hhas d hd)) rfl
    fun c hc => answers_commitTime (hhas c hc)
  have hmem (r : Revision) : r ∈ rs ↔ (r = ch.revision req.env g.branches r.commit ∧
      IsTip g.dag (fun c => ch.eligible req.env g.branches c) r.commit) ∧
        ledger.hasBuilt r.commit = false := by
    rw [hperm.mem_iff, List.mem_filter, hg.mem_maximalRevisions_iff]
    simp
  refine ⟨rs, hrun, fun c => ?_, hnodup, fun r hr => ((hmem r).1 hr).1.1, hincreasing⟩
  rw [List.mem_map]
  constructor
  · intro h
    obtain ⟨r, hr, rfl⟩ := h
    exact ⟨((hmem r).1 hr).1.2, ((hmem r).1 hr).2⟩
  · intro h
    obtain ⟨htip, hfresh⟩ := h
    exact ⟨ch.revision req.env g.branches c, (hmem _).2 ⟨⟨rfl, htip⟩, hfresh⟩, rfl⟩

/-- A poll of a strategy that looks at all listed branches gives the unbuilt tips of a graph that
was built up, unless a spec that is tried gives no answer. -/
theorem exists_unbuiltTips_of_poll (hg : g.Grown) (ledger : Ledger) {s : BaseStrategy} {ch : Choice}
    (hpoll : req.poll = true) (hchoice : s.choice? req = some ch)
    (hanswers : ch.Answers req.env g.branches) :
    ∃ rs, (s.select req ledger).run g.answers = .ok rs ∧
      AreUnbuiltTips g.dag ledger (fun c => ch.eligible req.env g.branches c) rs := by
  rw [s.run_select_eq_poll g.answers hpoll hchoice]
  exact hg.exists_poll ledger hanswers

/-- A poll over the two branches of the example that excludes nothing. -/
theorem exists_unbuiltTips_twoBranches :
    ∃ rs, ((BaseStrategy.inverse ⟨[]⟩).select ⟨true, none, [], ⟨2024, 1, 31⟩, 0⟩ .empty).run
        twoBranches.answers = .ok rs ∧
      AreUnbuiltTips twoBranches.dag .empty
        (fun c => (Choice.outside []).eligible [] twoBranches.branches c) rs := by
  let request : Request := ⟨true, none, [], ⟨2024, 1, 31⟩, 0⟩
  have hpoll : request.poll = true := rfl
  have hchoice : (BaseStrategy.inverse ⟨[]⟩).choice? request = some (.outside []) := rfl
  have hanswers : (Choice.outside []).Answers request.env twoBranches.branches := by
    intro b _ _
    exact ⟨false, rfl⟩
  exact exists_unbuiltTips_of_poll grown_twoBranches .empty hpoll hchoice hanswers

end MemoryGraph

end NextBuild
