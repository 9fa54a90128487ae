import NextBuild.Proofs.Selection.InsertionOrder
import NextBuild.Proofs.Selection.Offers
import NextBuild.Proofs.Selection.PollAgreement

/-!
# Answers that show a graph

Answers show a graph in memory when they differ from its own answers in nothing that a selection
notices: branches of the same name may be listed in another order, any best common ancestor may be
the merge base, and only ids of objects need to be looked up alike.  Then the tips come in another
order at most, the stages that follow the tips do not depend on their order, and all other questions
are about commits of the listing and ids that the request brings along.
-/

namespace NextBuild

open Inquiry (Asks asks_pure)

/-- The answers show the commits and branches of the graph. -/
structure MemoryGraph.ShownBy (g : MemoryGraph) (a : CommitGraph) : Prop where
  references : ∃ bs, a .references = .ok bs ∧ SameListing g.branches bs
  openWalk : a .openWalk = .ok ()
  commitTime : ∀ c, c.isObjectId = true → a (.commitTime c) = g.answers (.commitTime c)
  isMergedInto : ∀ c d, c.isObjectId = true → d.isObjectId = true →
    a (.isMergedInto c d) = g.answers (.isMergedInto c d)
  mergeBase : ∀ c d, g.dag.Has c → g.dag.Has d → ∃ base, a (.mergeBase c d) = .ok base ∧
    (∀ m, base = some m → g.dag.IsBestCommonAncestor c d m) ∧
    (base = none → ∀ m, ¬ g.dag.IsBestCommonAncestor c d m)

/-- The commits form a history, and each listed branch points to one of them by the id of an
object. -/
structure MemoryGraph.IsHistory (g : MemoryGraph) : Prop where
  closed : g.dag.Closed
  acyclic : g.dag.Acyclic
  listed : ∀ b ∈ g.branches, g.dag.Has b.commit ∧ b.commit.isObjectId = true

variable {req : Request} {ledger : Ledger}

/-! ## The stages that follow the tips -/

/-- The revision has the commit of a tip, or in a build that of the last one. -/
def ComesOf (req : Request) (ledger : Ledger) (newest : List Revision) (r : Revision) : Prop :=
  (∃ t ∈ newest, t.commit = r.commit) ∨
    req.poll = false ∧ ∃ last, ledger.lastRevision? = some last ∧ last.commit = r.commit

/-- The stages bring in no commits but those of the tips and of the last build, and give the same in
whatever order the tips come. -/
structure Closes (req : Request) (ledger : Ledger)
    (rest : List Revision → Inquiry (List Revision)) : Prop where
  comesOf : ∀ newest, (rest newest).Ensures fun rs => ∀ r ∈ rs, ComesOf req ledger newest r
  run_eq : ∀ {a a' : CommitGraph} {time : CommitId → Int64} {newest newest' : List Revision},
    newest.Perm newest' → (newest.map (·.commit)).Nodup →
    a .openWalk = .ok () → a' .openWalk = .ok () →
    (∀ r ∈ newest, a (.commitTime r.commit) = .ok (time r.commit)) →
    (∀ r ∈ newest, a' (.commitTime r.commit) = .ok (time r.commit)) →
    (rest newest).run a = (rest newest').run a'

/-- Closing a selection does, if what is repeated asks nothing and is the last build. -/
theorem closes_closing {repeated : Option Revision → Inquiry (List Revision)}
    (hasks : ∀ again, Asks (fun _ => False) (repeated again))
    (hbuild : ∀ again, (repeated again).Ensures fun rs => ∀ r ∈ rs,
      req.poll = false ∧ ∃ s, again = some s ∧ s.commit = r.commit) :
    Closes req ledger (closing ledger repeated) where
  comesOf newest := by
    unfold closing
    rcases hdrop : dropBuilt ledger newest with ⟨_ | ⟨t, fresh⟩, again⟩
    · refine (hbuild again).mono fun rs hrs r hr => .inr ?_
      obtain ⟨hpoll, s, rfl, hs⟩ := hrs r hr
      obtain ⟨last, hlast, hcommit⟩ := exists_lastRevision?_of_dropBuilt (congrArg Prod.snd hdrop)
      exact ⟨hpoll, last, hlast, hcommit.trans hs⟩
    · refine (ensures_sortOldestFirst _).mono fun rs hperm r hr => .inl ⟨r, ?_, rfl⟩
      have hfresh : r ∈ (dropBuilt ledger newest).1 := by
        rw [hdrop]
        exact hperm.mem_iff.1 hr
      exact (List.mem_filter.1 hfresh).1
  run_eq {a a' time newest newest'} hperm hdistinct hwalk hwalk' htime htime' := by
    obtain ⟨hfresh, hagain⟩ := dropBuilt_of_perm ledger hperm hdistinct
    have hsublist : (dropBuilt ledger newest).1.Sublist newest := List.filter_sublist
    unfold closing
    rcases hdrop : dropBuilt ledger newest with ⟨fresh, again⟩
    rcases hdrop' : dropBuilt ledger newest' with ⟨fresh', again'⟩
    rw [hdrop, hdrop'] at hfresh hagain
    rw [hdrop] at hsublist
    cases hagain
    cases fresh with
    | nil =>
      have hnil : fresh' = [] := hfresh.nil_eq.symm
      subst hnil
      exact (hasks again).run_eq fun _ hfalse => hfalse.elim
    | cons t ts =>
      cases fresh' with
      | nil => simp at hfresh
      | cons t' ts' =>
        exact run_sortOldestFirst_of_perm hfresh ((hsublist.map _).nodup hdistinct) hwalk hwalk'
          (fun r hr => htime r (hsublist.subset hr)) fun r hr => htime' r (hsublist.subset hr)

/-- Without any tip there may be nothing to close. -/
theorem Closes.unless_nil {rest : List Revision → Inquiry (List Revision)}
    (h : Closes req ledger rest) :
    Closes req ledger fun newest => if newest.isEmpty then pure [] else rest newest where
  comesOf newest := by
    split
    · exact Inquiry.ensures_pure (by simp)
    · exact h.comesOf newest
  run_eq hperm hdistinct hwalk hwalk' htime htime' := by
    rw [hperm.isEmpty_eq]
    split
    · rfl
    · exact h.run_eq hperm hdistinct hwalk hwalk' htime htime'

/-- So it is with the stages that follow the tips of a choice. -/
theorem Choice.closes_finish (ch : Choice) (req : Request) (ledger : Ledger) :
    Closes req ledger (ch.finish req ledger) := by
  have hclosing : Closes req ledger (closing ledger (ch.repeated req)) := by
    refine closes_closing (fun again => ?_) fun again => ?_
    · rcases ch.repeated_cases req again with ⟨f, heq⟩ | ⟨r?, heq, -⟩
      · rw [heq]
        exact .fail f
      · rw [heq]
        exact asks_pure _
    · rcases ch.repeated_cases req again with ⟨f, heq⟩ | ⟨r?, heq, hcommit⟩
      · rw [heq]
        exact .fail f
      · rw [heq]
        exact Inquiry.ensures_pure fun r hr => hcommit r (Option.mem_toList.1 hr)
  cases ch with
  | matching specs => exact hclosing
  | outside excluded => exact hclosing.unless_nil

/-- Unless one definite branch is asked for, a strategy that selects by itself goes through the
stages of a choice, or fails at a spec that cannot be read. -/
theorem BaseStrategy.exists_tipsThen {s : BaseStrategy} (hone : s.resolvesOne req = false)
    (ledger : Ledger) :
    (∃ f, s.select req ledger = .fail f) ∨
      ∃ (ch : Choice) (rest : List Revision → Inquiry (List Revision)),
        Closes req ledger rest ∧ s.select req ledger = ch.tipsThen req rest := by
  rcases s.select_cases req ledger with ⟨ch, -, heq⟩ | ⟨d, name, rfl, hsingle, -⟩ | ⟨-, f, heq⟩
  · exact .inr ⟨ch, _, ch.closes_finish req ledger, heq⟩
  · simp [resolvesOne, hsingle] at hone
  · exact .inl ⟨f, heq⟩

/-! ## Selections -/

namespace MemoryGraph

variable {g : MemoryGraph} {a : CommitGraph} {s : BaseStrategy} {rs : List Revision}

/-- A graph shows itself. -/
theorem IsHistory.shownBy_answers (hg : g.IsHistory) : g.ShownBy g.answers where
  references := by
    have hsorted : g.branches.Pairwise fun a b => a.name ≤ b.name := Text.pairwise_mergeSort_le Branch.name _
    exact ⟨g.branches, rfl, .refl _, hsorted, hsorted⟩
  openWalk := rfl
  commitTime _ _ := rfl
  isMergedInto _ _ _ _ := rfl
  mergeBase _ _ hc hd := Dag.exists_mergeBase hg.closed hc hd

/-- Answers that show a graph lead through the stages of a choice to the same result. -/
theorem ShownBy.run_tipsThen (h : g.ShownBy a) (hg : g.IsHistory) (ch : Choice)
    {rest : List Revision → Inquiry (List Revision)} (hrest : Closes req ledger rest) :
    (ch.tipsThen req rest).run a = (ch.tipsThen req rest).run g.answers := by
  obtain ⟨bs, hbs, hsame⟩ := h.references
  rw [ch.run_tipsThen hbs, ch.run_tipsThen (g := g.answers) rfl]
  rcases hsame.exists_mapM_pick ch req.env with ⟨hpick, hpick'⟩ | ⟨f, hpick, hpick'⟩
  · let candidates := (ch.commits req.env g.branches).map (ch.revision req.env g.branches)
    let candidates' := (ch.commits req.env bs).map (ch.revision req.env bs)
    let newest := maximalRevisions (fun c d => g.dag.Reaches d c) candidates
    let newest' := maximalRevisions (fun c d => g.dag.Reaches d c) candidates'
    have hperm : newest.Perm newest' := perm_maximalRevisions _ (hsame.candidates_perm ch)
    have hlisted : ∀ r ∈ candidates, g.dag.Has r.commit ∧ r.commit.isObjectId = true := by
      intro r hr
      obtain ⟨c, hc, rfl⟩ := List.mem_map.1 hr
      obtain ⟨b, hb, rfl⟩ := mem_commitsOf.1 (List.mem_filter.1 hc).1
      exact hg.listed b hb
    have hsublist : newest.Sublist candidates := List.filter_sublist
    have hdistinct : (newest.map (·.commit)).Nodup := by
      refine (hsublist.map _).nodup ?_
      simpa [candidates, Choice.revision, Function.comp_def] using Choice.nodup_commits ch
    have htips : (tips candidates).run g.answers = .ok newest :=
      hg.acyclic.run_tips hg.shownBy_answers.mergeBase fun r hr => (hlisted r hr).1
    have htips' : (tips candidates').run a = .ok newest' :=
      hg.acyclic.run_tips h.mergeBase fun r hr =>
        (hlisted r ((hsame.candidates_perm ch).mem_iff.2 hr)).1
    have htime : ∀ r ∈ newest, g.answers (.commitTime r.commit) = .ok (g.dag.timeOf r.commit) :=
      fun r hr => answers_commitTime (hlisted r (hsublist.subset hr)).1
    have htime' : ∀ r ∈ newest, a (.commitTime r.commit) = .ok (g.dag.timeOf r.commit) := fun r hr =>
      (h.commitTime _ (hlisted r (hsublist.subset hr)).2).trans (htime r hr)
    rw [hpick, hpick', ok_bind, ok_bind, Choice.filter_hasBranches, Choice.filter_hasBranches, htips,
      htips', ok_bind, ok_bind]
    exact (hrest.run_eq hperm hdistinct rfl h.openWalk htime htime').symm
  · rw [hpick, hpick']
    rfl

/-- Strategies that select by themselves give the same, unless one definite branch is asked for. -/
theorem ShownBy.run_baseSelect (h : g.ShownBy a) (hg : g.IsHistory)
    (hone : s.resolvesOne req = false) (ledger : Ledger) :
    (s.select req ledger).run a = (s.select req ledger).run g.answers := by
  rcases BaseStrategy.exists_tipsThen hone ledger with ⟨f, heq⟩ | ⟨ch, rest, hrest, heq⟩
  · rw [heq]
    rfl
  · rw [heq]
    exact h.run_tipsThen hg ch hrest

/-- What they select are listed commits, or in a build the last one. -/
theorem comesOf_of_baseSelect (hone : s.resolvesOne req = false)
    (hrun : (s.select req ledger).run g.answers = .ok rs) :
    ∀ r ∈ rs, (∃ b ∈ g.branches, b.commit = r.commit) ∨
      req.poll = false ∧ ∃ last, ledger.lastRevision? = some last ∧ last.commit = r.commit := by
  rcases BaseStrategy.exists_tipsThen hone ledger with ⟨f, heq⟩ | ⟨ch, rest, hrest, heq⟩
  · rw [heq] at hrun
    cases hrun
  · rw [heq, ch.run_tipsThen (g := g.answers) rfl] at hrun
    obtain ⟨picked, hpicked, hrun⟩ := bind_eq_ok_iff.1 hrun
    obtain ⟨newest, hnewest, hrun⟩ := bind_eq_ok_iff.1 hrun
    intro r hr
    refine ((hrest.comesOf newest).run hrun r hr).imp_left fun ⟨t, ht, htr⟩ => ?_
    rw [← htr]
    exact Choice.exists_mem_of_mapM_pick hpicked t
      (List.mem_filter.1 ((sublist_of_tips hnewest).subset ht)).1

/-- Bounds leave the same, if the required ancestor and the candidates have ids of objects. -/
theorem ShownBy.run_filter (h : g.ShownBy a) {b : Bounds}
    (hancestor : ∀ c, b.ancestor = some c → c.isObjectId = true) {candidates : List Revision}
    (hcandidates : ∀ r ∈ candidates, r.commit.isObjectId = true) :
    (b.filter req candidates).run a = (b.filter req candidates).run g.answers := by
  rw [Bounds.filter_eq]
  split
  · rfl
  · refine Inquiry.run_bind_congr ?read fun cutoff _ => ?candidates
    case read =>
      refine Inquiry.run_bind_congr (by rw [Inquiry.run_ofExcept, Inquiry.run_ofExcept])
        fun _ _ => ?_
      refine Inquiry.run_bind_congr (Inquiry.run_query_congr h.openWalk) fun _ _ => ?_
      cases hb : b.ancestor with
      | none => rfl
      | some c =>
        have htime := h.commitTime c (hancestor c hb)
        exact Inquiry.run_bind_congr (Inquiry.run_query_congr htime) fun _ _ => rfl
    case candidates =>
      rw [Inquiry.run_filterM, Inquiry.run_filterM]
      refine filterM_congr fun r hr => ?_
      have hmerged : (Bounds.admits none b.ancestor r).run a =
          (Bounds.admits none b.ancestor r).run g.answers := by
        cases hb : b.ancestor with
        | none => rfl
        | some c =>
          exact Inquiry.run_query_congr (h.isMergedInto c _ (hancestor c hb) (hcandidates r hr))
      cases cutoff with
      | none => exact hmerged
      | some limit =>
        have htime := h.commitTime r.commit (hcandidates r hr)
        refine Inquiry.run_bind_congr (Inquiry.run_query_congr htime) fun time _ => ?_
        split
        · rfl
        · exact hmerged

end MemoryGraph

/-- The bounds of a strategy, if there is one to keep to. -/
def Strategy.bounds? : Strategy → Option Bounds
  | bounded _ b | prioritized _ b _ =>
    if b.maxAgeDays.isNone && b.ancestor.isNone then none else some b
  | base _ | queue _ => none

/-- Besides the listed commits, bounds ask only for ids of objects: that of the required ancestor,
and in a build that of the last one. -/
def Strategy.AsksObjects (req : Request) (ledger : Ledger) (s : Strategy) : Prop :=
  ∀ b, s.bounds? = some b → (∀ c, b.ancestor = some c → c.isObjectId = true) ∧
    (req.poll = false →
      ∀ last, ledger.lastRevision? = some last → last.commit.isObjectId = true)

namespace MemoryGraph

variable {g : MemoryGraph} {a : CommitGraph} {s : Strategy} {inner : BaseStrategy}

/-- Candidates within bounds are the same. -/
theorem ShownBy.run_bounded (h : g.ShownBy a) (hg : g.IsHistory) {b : Bounds}
    (hone : inner.resolvesOne req = false)
    (hasks : (Strategy.bounded inner b).AsksObjects req ledger) :
    ((Strategy.bounded inner b).select req ledger).run a =
      ((Strategy.bounded inner b).select req ledger).run g.answers := by
  have hbase := h.run_baseSelect hg hone ledger
  refine Inquiry.run_bind_congr hbase fun candidates hrun => ?_
  by_cases hnone : (b.maxAgeDays.isNone && b.ancestor.isNone) = true
  · rw [Bounds.filter_eq, if_pos hnone]
    rfl
  · obtain ⟨hancestor, hlast⟩ := hasks b (if_neg hnone)
    refine h.run_filter hancestor fun r hr => ?_
    rw [hbase] at hrun
    rcases comesOf_of_baseSelect hone hrun r hr with ⟨c, hc, hcommit⟩ | ⟨hpoll, last, hl, hcommit⟩
    · exact hcommit ▸ (hg.listed c hc).2
    · exact hcommit ▸ hlast hpoll last hl

/-- A strategy selects the same from answers that show a graph as from the graph. -/
theorem ShownBy.run_select (h : g.ShownBy a) (hg : g.IsHistory) (hinner : s.inner? = some inner)
    (hone : inner.resolvesOne req = false) (hasks : s.AsksObjects req ledger) :
    (s.select req ledger).run a = (s.select req ledger).run g.answers := by
  cases s with
  | base s =>
    cases hinner
    exact h.run_baseSelect hg hone ledger
  | bounded s b =>
    cases hinner
    exact h.run_bounded hg hone hasks
  | prioritized s b priorities =>
    cases hinner
    rw [Strategy.select_prioritized]
    exact Inquiry.run_bind_congr (h.run_bounded hg hone hasks) fun _ _ => rfl
  | queue s => cases hinner

end MemoryGraph

end NextBuild
