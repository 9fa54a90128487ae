import NextBuild.Proofs.Graph.Insertions
import NextBuild.Proofs.Selection.Questions
import NextBuild.Proofs.Selection.Tips

/-!
# The order of insertions does not show

A selection asks for little more than the content of a graph.  The one answer that the content
leaves open is the merge base of two commits that neither contain each other, and there the tips do
not depend on which one it is: whatever the merge bases are, the tips of what is listed are the
maximal revisions.  So graphs with the same content give the same selections, in whatever order their
commits and references were added and their tables are walked.

The commit of the last fetch is no part of the content.  It is asked for only where it is the one
branch that is asked for, and then a selection depends on it.
-/

namespace NextBuild

open Inquiry (Asks asks_ofExcept)

/-- The question is settled by the content of a graph; it may ask for the commit of the last fetch
only if this is `fetched` as well. -/
def Query.SettledBy (fetched : Prop) (q : Query) : Prop :=
  q.isSettled = true ∧ (q.asksFetched = true → fetched)

/-- A question that does not ask for what was fetched is settled without it. -/
theorem Query.SettledBy.of_not {fetched : Prop} {q : Query} (hsettled : q.isSettled = true)
    (hfetch : q.asksFetched = false) : q.SettledBy fetched :=
  ⟨hsettled, by simp [hfetch]⟩

/-- What graphs have to agree on to give the same selections: what their content settles, and the
tips of what they list. -/
structure Alike (fetched : Prop) (a a' : CommitGraph) : Prop where
  settled : ∀ q : Query, q.SettledBy fetched → a q = a' q
  tips : ∀ bs rs, a .references = .ok bs → (∀ r ∈ rs, ∃ b ∈ bs, b.commit = r.commit) →
    (tips rs).run a = (tips rs).run a'

/-- A choice keeps the commits of the listed revisions. -/
theorem Choice.exists_mem_of_mapM_pick {ch : Choice} {env : Text.Environment} {bs : List Branch}
    {picked : List Revision} (h : (Revision.group bs).mapM (ch.pick env) = .ok picked) :
    ∀ r ∈ picked, ∃ b ∈ bs, b.commit = r.commit := by
  intro r hr
  rw [mapM_pick (answers_of_mapM_pick h)] at h
  cases h
  obtain ⟨c, hc, rfl⟩ := List.mem_map.1 hr
  exact mem_commitsOf.1 hc

namespace DefaultStrategy

/-- The commit of the last fetch is asked for only under its own name. -/
theorem settledBy_question {s : DefaultStrategy} {name : String} {l : Lead} (hl : l ∈ s.leads name) :
    l.question.SettledBy (name = "FETCH_HEAD") := by
  unfold Lead.question
  split
  · next hfetch =>
    refine ⟨rfl, fun _ => ?_⟩
    rcases isNamedOrFull_of_mem_leads l hl with hname | hfull
    · rw [← hname, hfetch]
    · rw [hfetch] at hfull
      exact absurd hfull (by decide)
  · next hfetch => exact ⟨rfl, fun hasks => absurd (by simpa [Query.asksFetched] using hasks) hfetch⟩

end DefaultStrategy

/-! ## Graphs that are alike -/

section

variable {fetched : Prop} {a a' : CommitGraph} {req : Request} {ledger : Ledger}

/-- The stages of a selection over all listed branches give the same. -/
theorem Alike.run_tipsThen (h : Alike fetched a a') {ch : Choice}
    {rest : List Revision → Inquiry (List Revision)} (hrest : AsksTimes rest) :
    (ch.tipsThen req rest).run a = (ch.tipsThen req rest).run a' := by
  have hrefs : Query.references.SettledBy fetched := .of_not rfl rfl
  unfold Choice.tipsThen
  refine Inquiry.run_bind_congr ((asks_listedRevisions hrefs).run_eq h.settled) ?_
  intro listed hlisted
  refine Inquiry.run_bind_congr ((asks_ofExcept _).run_eq h.settled) ?_
  intro picked hpicked
  rw [listedRevisions, Inquiry.run_bind, Inquiry.run_query] at hlisted
  obtain ⟨bs, hbs, hlisted⟩ := bind_eq_ok_iff.1 hlisted
  cases hlisted
  rw [Inquiry.run_ofExcept] at hpicked
  have hcommits := Choice.exists_mem_of_mapM_pick hpicked
  -- Merge bases, where the graphs may answer differently, are asked for by this stage alone.
  have htips := h.tips bs (picked.filter (·.hasBranches)) hbs fun r hr =>
    hcommits r (List.mem_filter.1 hr).1
  refine Inquiry.run_bind_congr htips fun newest _ => ?_
  have hasks : Asks (Query.SettledBy fetched) (rest newest) :=
    hrest _ (.of_not rfl rfl) (fun _ => .of_not rfl rfl) newest
  exact hasks.run_eq h.settled

/-- One definite branch is the same; the commit of the last fetch has to be where it is asked for. -/
theorem Alike.run_selectSingle (h : Alike fetched a a') {s : DefaultStrategy} {name : String}
    (hname : name = "FETCH_HEAD" → fetched) :
    (s.selectSingle req ledger name).run a = (s.selectSingle req ledger name).run a' := by
  have hresolve : (Query.resolve name).SettledBy fetched :=
    ⟨rfl, fun hasks => hname (by simpa [Query.asksFetched] using hasks)⟩
  have hleads : ∀ l ∈ s.leads name, l.question.SettledBy fetched := by
    intro l hl
    have hl := DefaultStrategy.settledBy_question hl
    exact ⟨hl.1, fun hasks => hname (hl.2 hasks)⟩
  exact (DefaultStrategy.asks_selectSingle hresolve hleads req ledger).run_eq h.settled

/-- The strategy is asked for the commit of the last fetch. -/
def BaseStrategy.asksFetched (req : Request) : BaseStrategy → Bool
  | .default s => s.singleTarget? req == some "FETCH_HEAD"
  | .inverse _ => false

/-- Strategies that select by themselves give the same. -/
theorem BaseStrategy.run_select_eq (h : Alike fetched a a') {s : BaseStrategy}
    (hfetch : s.asksFetched req = true → fetched) :
    (s.select req ledger).run a = (s.select req ledger).run a' := by
  rcases s.select_cases req ledger with ⟨ch, -, heq⟩ | ⟨d, name, rfl, hsingle, heq⟩ | ⟨-, f, heq⟩
  · rw [heq]
    exact h.run_tipsThen (ch.asksTimes_finish req ledger)
  · rw [heq]
    refine h.run_selectSingle fun hname => hfetch ?_
    simp [asksFetched, hsingle, hname]
  · rw [heq]
    rfl

/-- The strategy, or the one that it bounds, is asked for the commit of the last fetch. -/
def Strategy.asksFetched (req : Request) : Strategy → Bool
  | base s | bounded s _ | prioritized s _ _ => s.asksFetched req
  | queue _ => false

/-- All strategies but the queue give the same. -/
theorem Strategy.run_select_eq (h : Alike fetched a a') {s : Strategy} (hkind : s.kind ≠ .queue)
    (hfetch : s.asksFetched req = true → fetched) :
    (s.select req ledger).run a = (s.select req ledger).run a' := by
  have hbounds (b : Bounds) (candidates : List Revision) :
      (b.filter req candidates).run a = (b.filter req candidates).run a' := by
    have hasks : Asks (Query.SettledBy fetched) (b.filter req candidates) :=
      Bounds.asks_filter (.of_not rfl rfl) (fun _ => .of_not rfl rfl) (fun _ _ => .of_not rfl rfl)
        b req candidates
    exact hasks.run_eq h.settled
  cases s with
  | base s => exact s.run_select_eq h hfetch
  | bounded inner b =>
    exact Inquiry.run_bind_congr (inner.run_select_eq h hfetch) fun candidates _ =>
      hbounds b candidates
  | prioritized inner b priorities =>
    exact Inquiry.run_bind_congr (inner.run_select_eq h hfetch) fun candidates _ =>
      Inquiry.run_bind_congr (hbounds b candidates) fun _ _ => rfl
  | queue s => exact absurd rfl hkind

end

/-! ## Graphs with the same content -/

/-- Whichever best common ancestors are answered with, they tell who reaches whom, and so the tips of
revisions of the graph do not depend on them. -/
theorem Dag.Acyclic.run_tips {g : Dag} (hg : g.Acyclic) {a : CommitGraph} {rs : List Revision}
    (hmeets : ∀ c d, g.Has c → g.Has d → ∃ base, a (.mergeBase c d) = .ok base ∧
      (∀ m, base = some m → g.IsBestCommonAncestor c d m) ∧
      (base = none → ∀ m, ¬ g.IsBestCommonAncestor c d m))
    (hrs : ∀ r ∈ rs, g.Has r.commit) :
    (tips rs).run a = .ok (maximalRevisions (fun c d => g.Reaches d c) rs) := by
  refine NextBuild.run_tips (fun _ _ _ hab hbc => hbc.trans hab) ?_ fun r hr s hs => ?_
  · exact fun _ _ hab hba => hg.eq_of_reaches hba hab
  · obtain ⟨base, hbase, hsome, hnone⟩ := hmeets r.commit s.commit (hrs r hr) (hrs s hs)
    exact ⟨base, hbase, hg.base_eq_iff hsome hnone⟩

namespace MemoryGraph

variable {g g' : MemoryGraph} {a a' : CommitGraph}

/-- However graphs with the same content answer, they are alike. -/
theorem SameContent.alike (h : SameContent g g') (hg : g.Grown) (hg' : g'.Grown)
    (ha : g.MayAnswer a) (ha' : g'.MayAnswer a') : Alike (g.fetchHead = g'.fetchHead) a a' where
  settled q hq := h.mayAnswer_eq hg hg' ha ha' hq.1 hq.2
  tips bs rs hbs hrs := by
    have hlisted : a .references = .ok g.branches :=
      SameContent.refl.mayAnswer_eq hg hg ha hg.mayAnswer rfl (by simp [Query.asksFetched])
    rw [hlisted] at hbs
    cases hbs
    -- Merge bases tell only commits of the graph apart, and references point to no others.
    have hhas : ∀ r ∈ rs, g.dag.Has r.commit := by
      intro r hr
      obtain ⟨b, hb, hcommit⟩ := hrs r hr
      rw [← hcommit]
      exact hg.ranked_and_refsResolve.2.has_of_mem_branches hb
    have hhas' : ∀ r ∈ rs, g'.dag.Has r.commit := fun r hr => h.commits.has_iff.1 (hhas r hr)
    have hacyclic := hg.ranked_and_refsResolve.1.acyclic
    have hacyclic' := hg'.ranked_and_refsResolve.1.acyclic
    rw [hacyclic.run_tips ha.meets hhas, hacyclic'.run_tips ha'.meets hhas', h.commits.reaches_eq]

/-- Graphs with the same content give the same selections with every strategy but the queue, in
whatever order their commits and references were added and their tables are walked.  Where the commit
of the last fetch is asked for, it has to be the same as well. -/
theorem select_eq_of_sameContent (h : SameContent g g') (hg : g.Grown) (hg' : g'.Grown)
    (ha : g.MayAnswer a) (ha' : g'.MayAnswer a') {s : Strategy} (hkind : s.kind ≠ .queue)
    {req : Request} (hfetch : s.asksFetched req = true → g.fetchHead = g'.fetchHead)
    (ledger : Ledger) : (s.select req ledger).run a = (s.select req ledger).run a' :=
  s.run_select_eq (h.alike hg hg' ha ha') hkind hfetch

/-! ## An example -/

/-- The two graphs have different merge bases, but what no spec excludes is selected from both
alike. -/
theorem select_crissCross :
    let strategy : Strategy := .prioritized (.inverse ⟨[]⟩) ⟨none, some olderCommit⟩ ["origin/right"]
    let request : Request := ⟨false, none, [], ⟨2024, 1, 31⟩, 0⟩
    SameContent crissCross mirrored ∧ crissCross.Grown ∧ mirrored.Grown ∧
      crissCross.MayAnswer crissCross.answers ∧ mirrored.MayAnswer mirrored.answers ∧
      strategy.kind ≠ .queue ∧
      (strategy.asksFetched request = true → crissCross.fetchHead = mirrored.fetchHead) ∧
      crissCross.answers (.mergeBase leftMerge rightMerge) = .ok (some newerCommit) ∧
      mirrored.answers (.mergeBase leftMerge rightMerge) = .ok (some olderCommit) ∧
      (strategy.select request .empty).run crissCross.answers =
        (strategy.select request .empty).run mirrored.answers := by
  intro strategy request
  obtain ⟨hsame, hgrown, hgrown'⟩ := sameContent_crissCross
  have hkind : strategy.kind ≠ .queue := by decide
  have hfetch : strategy.asksFetched request = true → crissCross.fetchHead = mirrored.fetchHead :=
    fun _ => rfl
  refine ⟨hsame, hgrown, hgrown', hgrown.mayAnswer, hgrown'.mayAnswer, hkind, hfetch, ?_, ?_, ?_⟩
  · exact mergeBase_crissCross (d := crissCross.dag) rfl rfl rfl rfl
  · exact mergeBase_crissCross (d := mirrored.dag) rfl rfl rfl rfl
  · exact select_eq_of_sameContent hsame hgrown hgrown' hgrown.mayAnswer hgrown'.mayAnswer hkind
      hfetch .empty

/-- Graphs that differ only in the commit of the last fetch, besides the order of insertions, give
different answers when this commit is asked for. -/
theorem select_tells_fetched :
    let g : MemoryGraph := { crissCross with fetchHead := some leftMerge }
    let g' : MemoryGraph := { mirrored with fetchHead := some rightMerge }
    let strategy : Strategy := .base (.default ⟨[], ["origin"]⟩)
    let request : Request := ⟨false, some "FETCH_HEAD", [], ⟨2024, 1, 31⟩, 0⟩
    SameContent g g' ∧ g.Grown ∧ g'.Grown ∧ strategy.kind ≠ .queue ∧
      (strategy.select request .empty).run g.answers = .ok [.labelled leftMerge "FETCH_HEAD"] ∧
      (strategy.select request .empty).run g'.answers = .ok [.labelled rightMerge "FETCH_HEAD"] := by
  intro g g' strategy request
  obtain ⟨hsame, hgrown, hgrown'⟩ := sameContent_crissCross
  have hselect : strategy.select request .empty =
      DefaultStrategy.selectSingle ⟨[], ["origin"]⟩ request .empty "FETCH_HEAD" := by
    show DefaultStrategy.select ⟨[], ["origin"]⟩ request .empty = _
    exact DefaultStrategy.select_of_target .empty rfl (by decide) (by decide) (by decide)
  refine ⟨⟨hsame.commits, hsame.refs, hsame.localBranches⟩, hgrown.setFetchHead leftMerge,
    hgrown'.setFetchHead rightMerge, by decide, ?_, ?_⟩
  · rw [hselect]
    rfl
  · rw [hselect]
    rfl

end MemoryGraph

end NextBuild
