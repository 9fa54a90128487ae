import NextBuild.Proofs.Graph.Growth
import NextBuild.Proofs.Selection.Questions

/-!
# Selections let faults through

Whatever a strategy asks, a fault in answer ends the selection with this fault.  That holds for the
listing of references and the log, for each lead of a definite branch, where only a reference that
does not exist is passed over, for each comparison of two tips, for each time and for each bound.  So
a graph that answers less reliably never changes what is selected.
-/

namespace NextBuild

open Inquiry (Asks asks_pure asks_query asks_ofExcept)

/-- Some question or other, with nothing said about it. -/
def AnyQuery : Query → Prop := fun _ => True

/-- Whatever a base strategy asks, a fault in the answer ends it. -/
theorem BaseStrategy.asks_select (s : BaseStrategy) (req : Request) (ledger : Ledger) :
    Asks AnyQuery (s.select req ledger) := by
  rcases s.select_cases req ledger with ⟨ch, -, heq⟩ | ⟨d, name, -, -, heq⟩ | ⟨-, f, heq⟩
  · rw [heq]
    exact Choice.asks_tipsThen trivial (fun _ _ => trivial)
      (ch.asksTimes_finish req ledger AnyQuery trivial fun _ => trivial)
  · rw [heq]
    exact DefaultStrategy.asks_selectSingle trivial (fun _ _ => trivial) req ledger
  · rw [heq]
    exact .fail f

/-- So it is with the queue. -/
theorem QueueStrategy.asks_select (s : QueueStrategy) (req : Request) (ledger : Ledger) :
    Asks AnyQuery (s.select req ledger) := by
  unfold select
  refine (asks_query trivial).bind fun log => ?_
  split
  · exact asks_pure _
  · dsimp only
    split
    · exact asks_pure _
    · exact asks_pure _

/-- Every selection ends with the first fault that it meets. -/
theorem Strategy.asks_select (s : Strategy) (req : Request) (ledger : Ledger) :
    Asks AnyQuery (s.select req ledger) := by
  have hbounds (b : Bounds) (candidates : List Revision) : Asks AnyQuery (b.filter req candidates) :=
    Bounds.asks_filter trivial (fun _ => trivial) (fun _ _ => trivial) b req candidates
  cases s with
  | base s => exact s.asks_select req ledger
  | bounded inner b => exact (inner.asks_select req ledger).bind (hbounds b)
  | prioritized inner b priorities =>
    exact (inner.asks_select req ledger).bind fun candidates =>
      (hbounds b candidates).bind fun _ => asks_pure _
  | queue s => exact s.asks_select req ledger

/-- When more questions are answered with faults, a selection has the same result as before, or fails
with one of the added faults. -/
theorem Strategy.select_withstands_faults {g g' : CommitGraph} (h : AddsFaults g g') (s : Strategy)
    (req : Request) (ledger : Ledger) :
    (s.select req ledger).run g' = (s.select req ledger).run g ∨
      ∃ f, IsAddedFault g g' f ∧ (s.select req ledger).run g' = .error f :=
  (s.asks_select req ledger).run_eq_or_error h

/-- A comparison of two times does not fail itself, but keeps an added fault that it meets. -/
theorem run_compareTimes_of_addsFaults {g g' : CommitGraph} (h : AddsFaults g g')
    (failed : Option Failure) (a b : Revision) :
    (compareTimes failed a b).run g' = (compareTimes failed a b).run g ∨
      ∃ f, IsAddedFault g g' f ∧ (compareTimes failed a b).run g' = .ok (compareIds a b, some f) := by
  cases failed with
  | some f => exact .inl rfl
  | none =>
    have hadded (c : CommitId) (hc : g' (.commitTime c) ≠ g (.commitTime c)) :
        ∃ f, IsAddedFault g g' f ∧ g' (.commitTime c) = .error f := by
      obtain ⟨f, hf, -⟩ := (h (.commitTime c)).resolve_left hc
      exact ⟨f, ⟨_, hf, hc⟩, hf⟩
    by_cases ha : g' (.commitTime a.commit) = g (.commitTime a.commit)
    · cases hleft : g (.commitTime a.commit) with
      | error f => simp [compareTimes, Inquiry.attempt, Inquiry.run, ha, hleft]
      | ok left =>
        by_cases hb : g' (.commitTime b.commit) = g (.commitTime b.commit)
        · cases hright : g (.commitTime b.commit) <;>
            simp [compareTimes, Inquiry.attempt, Inquiry.run, ha, hleft, hb, hright]
        · obtain ⟨f, hf, hright⟩ := hadded b.commit hb
          refine .inr ⟨f, hf, ?_⟩
          simp [compareTimes, Inquiry.attempt, Inquiry.run, ha, hleft, hright]
    · obtain ⟨f, hf, hleft⟩ := hadded a.commit ha
      refine .inr ⟨f, hf, ?_⟩
      simp [compareTimes, Inquiry.attempt, Inquiry.run, hleft]

/-! ## An example -/

/-- The graph of the example, where a look-up of one tag fails. -/
def lockedTag : CommitGraph
  | .resolve "refs/tags/side" => .error (.git "the references are locked")
  | q => MemoryGraph.twoBranches.answers q

/-- The graph of the example differs by one fault. -/
theorem addsFaults_lockedTag : AddsFaults MemoryGraph.twoBranches.answers lockedTag := by
  intro q
  by_cases hq : q = .resolve "refs/tags/side"
  · subst hq
    exact .inr ⟨_, rfl, rfl⟩
  · refine .inl ?_
    unfold lockedTag
    split
    · exact absurd rfl hq
    · rfl

/-- The tag is the first lead of a branch that exists.  Without the fault the branch is found behind
the tag, which does not exist; with it nothing is selected in place of the branch. -/
theorem select_side_lockedTag :
    let request : Request := ⟨true, some "side", [], ⟨2024, 1, 31⟩, 0⟩
    let strategy : Strategy := .base (.default ⟨[], ["origin"]⟩)
    AddsFaults MemoryGraph.twoBranches.answers lockedTag ∧
      (strategy.select request .empty).run MemoryGraph.twoBranches.answers =
        .ok [.labelled MemoryGraph.newerCommit "origin/side"] ∧
      (strategy.select request .empty).run lockedTag = .error (.git "the references are locked") ∧
      ((strategy.select request .empty).run lockedTag =
          (strategy.select request .empty).run MemoryGraph.twoBranches.answers ∨
        ∃ f, IsAddedFault MemoryGraph.twoBranches.answers lockedTag f ∧
          (strategy.select request .empty).run lockedTag = .error f) := by
  intro request strategy
  have hselect : strategy.select request .empty =
      DefaultStrategy.selectSingle ⟨[], ["origin"]⟩ request .empty "side" := by
    show DefaultStrategy.select ⟨[], ["origin"]⟩ request .empty = _
    exact DefaultStrategy.select_of_target .empty rfl (by decide) (by decide) (by decide)
  refine ⟨addsFaults_lockedTag, ?_, ?_, strategy.select_withstands_faults addsFaults_lockedTag _ _⟩
  · rw [hselect]
    rfl
  · rw [hselect]
    rfl

end NextBuild
