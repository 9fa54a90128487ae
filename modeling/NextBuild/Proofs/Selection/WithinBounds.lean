import NextBuild.Proofs.Repository.Walks
import NextBuild.Proofs.Selection.Rebuilds

/-!
# Within bounds

On a graph in memory the bounds come down to two facts about a commit: its committer time, and what
it reaches.  A candidate is tested by asking for both in one walk, and a walk that keeps what it has
gathered for earlier candidates tells the same as a new one.  Since bounds are read before any
candidate is looked at, a required ancestor that is missing fails the selection in any case.
-/

namespace NextBuild

/-- What a strategy selects on a graph in memory, in a walk that keeps what it gathers. -/
def MemoryGraph.selection (g : MemoryGraph) (s : Strategy) (req : Request) (ledger : Ledger) :
    Except Failure (List Revision) :=
  (((s.select req ledger).runWith g.answersInWalk).run {}).1

/-- A selection is the run of a strategy on the graph. -/
theorem MemoryGraph.selection_eq (g : MemoryGraph) (s : Strategy) (req : Request)
    (ledger : Ledger) : g.selection s req ledger = (s.select req ledger).run g.answers :=
  g.runWith_answersInWalk _

/-- The commit is not older than the cutoff, and is the required ancestor or reaches it. -/
structure Admits (g : Dag) (cutoff : Option Int) (ancestor : Option CommitId) (c : CommitId) :
    Prop where
  recent : ∀ limit, cutoff = some limit → limit ≤ (g.timeOf c).toInt
  descends : ∀ a, ancestor = some a → g.Reaches c a

namespace Bounds

variable {g : MemoryGraph} {cutoff : Option Int} {ancestor : Option CommitId} {c : CommitId}
  {r : Revision} {candidates rs : List Revision} {req : Request}

/-- A limit on the time is one more condition. -/
theorem admits_some_iff {limit : Int} : Admits g.dag (some limit) ancestor c ↔
    limit ≤ (g.dag.timeOf c).toInt ∧ Admits g.dag none ancestor c := by
  constructor
  · intro h
    exact ⟨h.recent limit rfl, nofun, h.descends⟩
  · intro h
    refine ⟨fun other hother => ?_, h.2.descends⟩
    cases hother
    exact h.1

/-- Only a commit of the graph has a committer time. -/
theorem has_of_commitTime {time : Int64} (h : g.answers (.commitTime c) = .ok time) :
    g.dag.Has c := by
  cases hfound : g.dag.find? c with
  | some n => exact ⟨n, hfound⟩
  | none =>
    have hfails : g.answers (.commitTime c) = .error (.missingObject c.text) := by
      show (g.dag.node c).map (·.time) = _
      rw [Dag.node, hfound]
      rfl
    rw [hfails] at h
    cases h

/-- Only of a commit of the graph it can be told what was merged into it. -/
theorem has_of_isMergedInto {a : CommitId} {merged : Bool}
    (h : g.dag.isMergedInto a c = .ok merged) : g.dag.Has c := by
  cases hfound : g.dag.find? c with
  | some n => exact ⟨n, hfound⟩
  | none =>
    unfold Dag.isMergedInto at h
    obtain ⟨-, -, h⟩ := bind_eq_ok_iff.1 h
    rw [Dag.ancestors_eq_error hfound] at h
    cases h

open Classical in
/-- A candidate of the graph is tested for what the bounds admit. -/
theorem run_admits (hg : g.dag.Closed) (hancestor : ∀ a, ancestor = some a → g.dag.Has a)
    (hr : g.dag.Has r.commit) : (admits cutoff ancestor r).run g.answers =
      .ok (decide (Admits g.dag cutoff ancestor r.commit)) := by
  have hdescends : (admits none ancestor r).run g.answers =
      .ok (decide (Admits g.dag none ancestor r.commit)) := by
    cases ancestor with
    | none =>
      have hall : Admits g.dag none none r.commit := ⟨nofun, nofun⟩
      rw [decide_eq_true hall]
      rfl
    | some a =>
      obtain ⟨merged, hmerged, hreaches⟩ := hg.exists_isMergedInto (hancestor a rfl) hr
      have hsame : Admits g.dag none (some a) r.commit ↔ merged = true := by
        rw [hreaches]
        exact ⟨fun h => h.descends a rfl, fun h => ⟨nofun, fun b hb => Option.some.inj hb ▸ h⟩⟩
      show (Inquiry.query (.isMergedInto a r.commit)).run g.answers = _
      rw [Inquiry.run_query]
      exact hmerged.trans (by simp [hsame])
  cases cutoff with
  | none => exact hdescends
  | some limit =>
    show ((Inquiry.query (.commitTime r.commit)) >>= fun time =>
      if time.toInt < limit then pure false else admits none ancestor r).run g.answers = _
    rw [Inquiry.run_bind, Inquiry.run_query, MemoryGraph.answers_commitTime hr, ok_bind]
    by_cases hold : (g.dag.timeOf r.commit).toInt < limit
    · rw [if_pos hold, Inquiry.run_pure, decide_eq_false]
      rw [admits_some_iff]
      omega
    · rw [if_neg hold, hdescends]
      congr 2
      rw [admits_some_iff]
      simp
      omega

/-- A test that has given an answer was about a commit of the graph, if there is any bound. -/
theorem has_of_run_admits {kept : Bool} (hbound : cutoff ≠ none ∨ ancestor ≠ none)
    (h : (admits cutoff ancestor r).run g.answers = .ok kept) : g.dag.Has r.commit := by
  cases cutoff with
  | some limit =>
    obtain ⟨time, htime, -⟩ := bind_eq_ok_iff.1 ((Inquiry.run_bind _ _ _).symm.trans h)
    rw [Inquiry.run_query] at htime
    exact has_of_commitTime htime
  | none =>
    cases ancestor with
    | none => simp at hbound
    | some a =>
      have hmerged := (Inquiry.run_query _ _).symm.trans h
      exact has_of_isMergedInto hmerged

open Classical in
/-- Testing the candidates leaves those that the bounds admit.  It fails where there is a candidate
from outside of the graph. -/
theorem run_filterM_admits (hg : g.dag.Closed) (hancestor : ∀ a, ancestor = some a → g.dag.Has a)
    (hbound : cutoff ≠ none ∨ ancestor ≠ none) :
    (candidates.filterM (admits cutoff ancestor)).run g.answers = .ok rs ↔
      (∀ r ∈ candidates, g.dag.Has r.commit) ∧
        rs = candidates.filter fun r => Admits g.dag cutoff ancestor r.commit := by
  have hkept (hall : ∀ r ∈ candidates, g.dag.Has r.commit) :
      (candidates.filterM (admits cutoff ancestor)).run g.answers =
        .ok (candidates.filter fun r => Admits g.dag cutoff ancestor r.commit) := by
    rw [Inquiry.run_filterM]
    exact filterM_eq_ok fun r hr => run_admits hg hancestor (hall r hr)
  constructor
  · intro h
    have hall : ∀ r ∈ candidates, g.dag.Has r.commit := by
      intro r hr
      rw [Inquiry.run_filterM] at h
      obtain ⟨kept, hkept⟩ := exists_answer_of_filterM h r hr
      exact has_of_run_admits hbound hkept
    rw [hkept hall] at h
    exact ⟨hall, (Except.ok.inj h).symm⟩
  · intro h
    rw [h.2]
    exact hkept h.1

/-- There is a cutoff where there is a greatest age. -/
theorem ne_none_of_mapM {days : Option Int}
    (h : days.mapM (ageCutoff req.today req.offset) = .ok cutoff) (hdays : days ≠ none) :
    cutoff ≠ none := by
  cases days with
  | none => exact absurd rfl hdays
  | some d =>
    rw [Option.mapM_some, map_eq_pure_bind] at h
    obtain ⟨limit, -, h⟩ := bind_eq_ok_iff.1 h
    cases h
    exact Option.some_ne_none limit

/-- Bounds can be read where the cutoff can be told and the required ancestor is in the graph. -/
theorem run_read_eq_ok_iff {b : Bounds} : (b.read req).run g.answers = .ok cutoff ↔
    b.maxAgeDays.mapM (ageCutoff req.today req.offset) = .ok cutoff ∧
      ∀ a, b.ancestor = some a → g.dag.Has a := by
  rw [read, Inquiry.run_bind, Inquiry.run_ofExcept]
  cases hcutoff : b.maxAgeDays.mapM (ageCutoff req.today req.offset) with
  | error f => simp
  | ok limit =>
    have hwalk : g.answers .openWalk = .ok () := rfl
    rw [ok_bind, Inquiry.run_bind, Inquiry.run_query, hwalk, ok_bind]
    cases hancestor : b.ancestor with
    | none => simp
    | some a =>
      dsimp only
      rw [Inquiry.run_bind, Inquiry.run_query]
      constructor
      · intro h
        obtain ⟨time, htime, h⟩ := bind_eq_ok_iff.1 h
        refine ⟨h, fun c hc => ?_⟩
        cases hc
        exact has_of_commitTime htime
      · intro h
        rw [MemoryGraph.answers_commitTime (h.2 a rfl), ok_bind]
        exact h.1

open Classical in
/-- What is left within bounds. -/
theorem run_filter_eq_ok_iff (hg : g.dag.Closed) {b : Bounds} :
    (b.filter req candidates).run g.answers = .ok rs ↔
      ∃ cutoff, b.maxAgeDays.mapM (ageCutoff req.today req.offset) = .ok cutoff ∧
        (∀ a, b.ancestor = some a → g.dag.Has a) ∧
        (b.maxAgeDays ≠ none ∨ b.ancestor ≠ none → ∀ r ∈ candidates, g.dag.Has r.commit) ∧
        rs = candidates.filter fun r => Admits g.dag cutoff b.ancestor r.commit := by
  rw [filter_eq]
  by_cases hnone : b.maxAgeDays = none ∧ b.ancestor = none
  · obtain ⟨hage, hancestor⟩ := hnone
    have hadmits (c : CommitId) : Admits g.dag none none c := ⟨nofun, nofun⟩
    have hall : candidates.filter (fun r => Admits g.dag none none r.commit) = candidates := by
      simp [hadmits]
    rw [hage, hancestor]
    constructor
    · intro h
      cases h
      exact ⟨none, rfl, nofun, by simp, hall.symm⟩
    · intro h
      obtain ⟨cutoff, hcutoff, -, -, hrs⟩ := h
      cases hcutoff
      rw [hrs, hall]
      rfl
  · have hbound : b.maxAgeDays ≠ none ∨ b.ancestor ≠ none := not_and_or.1 hnone
    have hsome {cutoff : Option Int}
        (h : b.maxAgeDays.mapM (ageCutoff req.today req.offset) = .ok cutoff) :
        cutoff ≠ none ∨ b.ancestor ≠ none := hbound.imp_left (ne_none_of_mapM h)
    rw [if_neg (by simpa using hnone), Inquiry.run_bind]
    constructor
    · intro h
      obtain ⟨cutoff, hread, h⟩ := bind_eq_ok_iff.1 h
      obtain ⟨hcutoff, hancestor⟩ := run_read_eq_ok_iff.1 hread
      obtain ⟨hall, hrs⟩ := (run_filterM_admits hg hancestor (hsome hcutoff)).1 h
      exact ⟨cutoff, hcutoff, hancestor, fun _ => hall, hrs⟩
    · intro h
      obtain ⟨cutoff, hcutoff, hancestor, hall, hrs⟩ := h
      rw [run_read_eq_ok_iff.2 ⟨hcutoff, hancestor⟩, ok_bind]
      exact (run_filterM_admits hg hancestor (hsome hcutoff)).2 ⟨hall hbound, hrs⟩

end Bounds

namespace MemoryGraph

variable {g : MemoryGraph}

open Classical in
/-- A strategy with bounds answers with the candidates that they admit, as the base strategy gives
them, those that are built again included.  It fails with the base strategy, and where the cutoff
cannot be told, the required ancestor is not in the graph or a candidate is not. -/
theorem Grown.selection_bounded (hg : g.Grown) (inner : BaseStrategy) (b : Bounds) (req : Request)
    (ledger : Ledger) :
    (∀ rs, g.selection (.bounded inner b) req ledger = .ok rs ↔
      ∃ candidates cutoff, g.selection (.base inner) req ledger = .ok candidates ∧
        b.maxAgeDays.mapM (ageCutoff req.today req.offset) = .ok cutoff ∧
        (∀ a, b.ancestor = some a → g.dag.Has a) ∧
        (b.maxAgeDays ≠ none ∨ b.ancestor ≠ none → ∀ r ∈ candidates, g.dag.Has r.commit) ∧
        rs = candidates.filter fun r => Admits g.dag cutoff b.ancestor r.commit) ∧
    ∀ a, b.ancestor = some a → ¬ g.dag.Has a →
      ∃ f, g.selection (.bounded inner b) req ledger = .error f := by
  have hclosed : g.dag.Closed := hg.ranked_and_refsResolve.1.closed
  simp only [selection_eq, Strategy.select, Inquiry.run_bind]
  refine ⟨fun rs => ?_, fun a ha hmissing => ?_⟩
  · rw [bind_eq_ok_iff]
    simp only [Bounds.run_filter_eq_ok_iff hclosed]
    constructor
    · intro h
      obtain ⟨candidates, hcandidates, cutoff, h⟩ := h
      exact ⟨candidates, cutoff, hcandidates, h⟩
    · intro h
      obtain ⟨candidates, cutoff, hcandidates, h⟩ := h
      exact ⟨candidates, hcandidates, cutoff, h⟩
  · cases hrun : (inner.select req ledger).run g.answers >>= fun candidates =>
      (b.filter req candidates).run g.answers with
    | error f => exact ⟨f, rfl⟩
    | ok rs =>
      obtain ⟨candidates, -, hfilter⟩ := bind_eq_ok_iff.1 hrun
      obtain ⟨-, -, hancestor, -⟩ := (Bounds.run_filter_eq_ok_iff hclosed).1 hfilter
      exact absurd (hancestor a ha) hmissing

/-- A commit from the first day of 1970 is found if it may be that old and contains the required
ancestor, and not if it may be a day younger at most; an ancestor from outside of the graph fails. -/
theorem selection_bounded_tracking :
    let g := tracking newerCommit
    let missing : CommitId := ⟨"cccccccccccccccccccccccccccccccccccccccc", by decide⟩
    g.selection (.bounded buildAll ⟨some 19753, some olderCommit⟩) pollAll .empty =
        .ok [.ofNames newerCommit ["origin/master"]] ∧
      g.selection (.bounded buildAll ⟨some 19752, none⟩) pollAll .empty = .ok [] ∧
      ∃ f, g.selection (.bounded buildAll ⟨none, some missing⟩) pollAll .empty = .error f := by
  intro g missing
  let found : Revision := .ofNames newerCommit ["origin/master"]
  have hmove : (tracking olderCommit).setRef "refs/remotes/origin/master" newerCommit = .ok g := rfl
  have hg : g.Grown := .setRef job_masterBuilds.grown hmove
  have hcandidates : g.selection (.base buildAll) pollAll .empty = .ok [found] :=
    (g.selection_eq _ _ _).trans (run_buildAll_tracking rfl)
  have hfound : g.dag.Has found.commit := ⟨_, rfl⟩
  have holder : ∀ a, some olderCommit = some a → g.dag.Has a := by
    intro a ha
    cases ha
    exact ⟨_, rfl⟩
  have hadmits : Admits g.dag (some 0) (some olderCommit) found.commit := by
    refine ⟨fun limit hlimit => ?_, fun a ha => ?_⟩
    · cases hlimit
      decide
    · cases ha
      exact Relation.ReflTransGen.single ⟨_, rfl, List.mem_cons_self⟩
  have hrejects : ¬ Admits g.dag (some 86400) none found.commit := by
    intro h
    exact absurd (h.recent 86400 rfl) (by decide)
  refine ⟨?_, ?_, ?_⟩
  · refine ((hg.selection_bounded _ _ _ _).1 _).2 ⟨[found], some 0, hcandidates, ?_, holder, ?_, ?_⟩
    · decide +kernel
    · simpa using hfound
    · show [found] = _
      simp [hadmits]
  · refine ((hg.selection_bounded _ _ _ _).1 _).2
      ⟨[found], some 86400, hcandidates, ?_, nofun, ?_, ?_⟩
    · decide +kernel
    · simpa using hfound
    · simp [hrejects]
  · refine (hg.selection_bounded _ _ _ _).2 missing rfl fun h => ?_
    obtain ⟨n, hn⟩ := h
    cases hn

end MemoryGraph

end NextBuild
