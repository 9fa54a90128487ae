import Mathlib.Order.Defs.PartialOrder
import NextBuild.Proofs.Graph.Insertions
import NextBuild.Proofs.Selection.UnbuiltTips

/-!
# Tips by comparing all pairs

The tips of a list can be found by comparing each revision with every other one, whether this one was
removed or not.  That takes more questions, and where the merge bases tell a partial order it gives
the same revisions: removing some of them early leaves out no comparison that would have mattered.
-/

namespace NextBuild

/-- The revision is in another one of the list. -/
def isInAnother (rs : List Revision) (r : Revision) : Inquiry Bool := do
  let found ← rs.mapM fun s => do
    let base ← .query (.mergeBase r.commit s.commit)
    return decide (r.commit ≠ s.commit ∧ base = some r.commit)
  return found.any id

/-- The revisions that are in no other one of the list, where each is compared with all. -/
def tipsOfAllPairs (rs : List Revision) : Inquiry (List Revision) :=
  rs.filterM fun r => do return !(← isInAnother rs r)

variable {g : CommitGraph} {ancestor : CommitId → CommitId → Prop} {rs : List Revision}

open Classical in
/-- Comparing a revision with all finds out whether it lies below one of them. -/
theorem run_isInAnother {r : Revision} (htell : ∀ s ∈ rs, BaseTells g ancestor r s) :
    (isInAnother rs r).run g = .ok (decide (∃ s ∈ rs, Below ancestor r s)) := by
  have hcompare : ∀ s ∈ rs, (do
        let base ← .query (.mergeBase r.commit s.commit)
        return decide (r.commit ≠ s.commit ∧ base = some r.commit) : Inquiry Bool).run g =
      .ok (decide (Below ancestor r s)) := by
    intro s hs
    obtain ⟨base, hbase, hbelow, -⟩ := htell s hs
    rw [Inquiry.run_bind, Inquiry.run_query, hbase, ok_bind, Inquiry.run_pure]
    exact congrArg _ (decide_eq_decide.2 (and_congr_right fun _ => hbelow))
  have hfound : (rs.map fun s => decide (Below ancestor r s)).any id =
      decide (∃ s ∈ rs, Below ancestor r s) := by
    rw [Bool.eq_iff_iff]
    simp
  rw [isInAnother, Inquiry.run_bind, Inquiry.run_mapM, mapM_eq_ok hcompare, ok_bind,
    Inquiry.run_pure, hfound]

/-- Where the merge bases tell a partial order, the tips of a list are its revisions, in their order,
without those below another one, which is also what comparing all pairs gives.  Revisions of the same
commit stay or go together. -/
theorem tips_eq_tipsOfAllPairs (order : PartialOrder CommitId)
    (htell : ∀ r ∈ rs, ∀ s ∈ rs, BaseTells g order.le r s) :
    (tips rs).run g = .ok (maximalRevisions order.le rs) ∧
      (tips rs).run g = (tipsOfAllPairs rs).run g ∧
      ∀ r ∈ rs, ∀ s ∈ rs, r.commit = s.commit →
        (r ∈ maximalRevisions order.le rs ↔ s ∈ maximalRevisions order.le rs) := by
  have htips : (tips rs).run g = .ok (maximalRevisions order.le rs) :=
    run_tips (fun a b c => order.le_trans a b c) (fun a b => order.le_antisymm a b) htell
  refine ⟨htips, ?pairs, ?same⟩
  case pairs =>
    classical
    have hkeep : ∀ r ∈ rs, (do return !(← isInAnother rs r) : Inquiry Bool).run g =
        .ok (decide (∀ s ∈ rs, ¬ Below order.le r s)) := by
      intro r hr
      rw [Inquiry.run_bind, run_isInAnother (htell r hr), ok_bind, Inquiry.run_pure, ← decide_not]
      simp
    rw [htips, tipsOfAllPairs, Inquiry.run_filterM, filterM_eq_ok hkeep, maximalRevisions]
  case same =>
    intro r hr s hs hcommit
    simp only [mem_maximalRevisions, Below, hcommit, hr, hs]

/-- Without cycles the commits are ordered by what they reach. -/
abbrev Dag.Acyclic.order {d : Dag} (h : d.Acyclic) : PartialOrder CommitId where
  le a c := d.Reaches c a
  le_refl _ := .refl
  le_trans _ _ _ hab hbc := hbc.trans hab
  le_antisymm _ _ hab hba := h.eq_of_reaches hba hab

namespace MemoryGraph

/-- The example has no cycle. -/
theorem acyclic_crissCross : crissCross.dag.Acyclic :=
  sameContent_crissCross.2.1.ranked_and_refsResolve.1.acyclic

/-- The tips of the two merges and of a commit that both contain, which is listed twice and goes both
times. -/
theorem tips_eq_tipsOfAllPairs_crissCross :
    let order := acyclic_crissCross.order
    let rs : List Revision := [.labelled olderCommit "origin/old", .labelled leftMerge "origin/left",
      .labelled olderCommit "origin/copy", .labelled rightMerge "origin/right"]
    (∀ r ∈ rs, ∀ s ∈ rs, BaseTells crissCross.answers order.le r s) ∧
      (tips rs).run crissCross.answers = .ok (maximalRevisions order.le rs) ∧
      (tips rs).run crissCross.answers = (tipsOfAllPairs rs).run crissCross.answers ∧
      (∀ r ∈ rs, ∀ s ∈ rs, r.commit = s.commit →
        (r ∈ maximalRevisions order.le rs ↔ s ∈ maximalRevisions order.le rs)) ∧
      ∀ r ∈ maximalRevisions order.le rs, r.commit ≠ olderCommit := by
  intro order rs
  have hgrown : crissCross.Grown := sameContent_crissCross.2.1
  have hhas : ∀ r ∈ rs, crissCross.dag.Has r.commit := by
    have holder : crissCross.dag.Has olderCommit := ⟨_, rfl⟩
    have hleft : crissCross.dag.Has leftMerge := ⟨_, rfl⟩
    have hright : crissCross.dag.Has rightMerge := ⟨_, rfl⟩
    simp [rs, holder, hleft, hright]
  have htell : ∀ r ∈ rs, ∀ s ∈ rs, BaseTells crissCross.answers order.le r s :=
    fun r hr s hs => hgrown.baseTells (hhas r hr) (hhas s hs)
  obtain ⟨htips, hpairs, hsame⟩ := tips_eq_tipsOfAllPairs order htell
  refine ⟨htell, htips, hpairs, hsame, fun r hr holder => ?_⟩
  have hreach : crissCross.dag.Reaches leftMerge olderCommit :=
    .single ⟨_, rfl, List.mem_cons_self⟩
  have hbelow : Below order.le r (.labelled leftMerge "origin/left") := by
    rw [Below, holder]
    exact ⟨by decide, hreach⟩
  exact (mem_maximalRevisions.1 hr).2 _ (by simp [rs]) hbelow

end MemoryGraph

end NextBuild
