import NextBuild.Proofs.Selection.DistinctCommits

/-!
# What bounds and priorities do to candidates

Bounds are read before any candidate is looked at, so bounds that cannot be read fail whatever the
candidates are.  After that the candidates are tested one by one, and those that pass keep their
order.  Priorities are applied last, to what the bounds leave.
-/

namespace NextBuild

namespace Bounds

variable {g : CommitGraph} {req : Request} {candidates rs : List Revision}

/-- Reading the bounds: the time before which commits are too old, if there is one, and the required
ancestor, which has to exist. -/
def read (b : Bounds) (req : Request) : Inquiry (Option Int) := do
  let cutoff ← Inquiry.ofExcept (b.maxAgeDays.mapM (ageCutoff req.today req.offset))
  .query .openWalk
  match b.ancestor with
  | some a => let _ ← .query (.commitTime a)
  | none => pure ()
  return cutoff

/-- Candidates are tested once the bounds are read. -/
theorem filter_eq (b : Bounds) :
    b.filter req candidates =
      if b.maxAgeDays.isNone && b.ancestor.isNone then pure candidates
      else b.read req >>= fun cutoff => candidates.filterM (admits cutoff b.ancestor) := by
  unfold filter read
  split
  · rfl
  · simp only [bind_assoc]
    congr 1
    funext cutoff
    congr 1
    funext _
    cases b.ancestor with
    | none => rfl
    | some a => rw [bind_assoc]; rfl

/-- Bounds keep some of the candidates in their order. -/
theorem ensures_filter (b : Bounds) : (b.filter req candidates).Ensures (·.Sublist candidates) := by
  rw [filter_eq]
  split
  · exact Inquiry.ensures_pure (.refl candidates)
  · exact Inquiry.ensures_bind fun cutoff => Inquiry.ensures_filterM _ candidates

/-- Bounds leave out candidates and keep the order of the others. -/
theorem sublist_of_filter {b : Bounds} (h : (b.filter req candidates).run g = .ok rs) :
    rs.Sublist candidates :=
  b.ensures_filter.run h

/-- A failure without any candidate is a failure with candidates. -/
theorem filter_eq_error_of_nil {b : Bounds} {f : Failure}
    (h : (b.filter req []).run g = .error f) : (b.filter req candidates).run g = .error f := by
  rw [filter_eq] at h ⊢
  split at h
  · cases h
  · next hbounds =>
    rw [if_neg hbounds]
    rw [Inquiry.run_bind] at h ⊢
    cases hread : (b.read req).run g with
    | ok cutoff =>
      rw [hread] at h
      cases h
    | error f' =>
      rw [hread] at h
      exact h

/-- The bounds fail where they cannot tell whether a candidate contains the required ancestor. -/
theorem run_filter_eq_error {c : CommitId} {time : Int64} {r : Revision} {f : Failure}
    (hwalk : g .openWalk = .ok ()) (htime : g (.commitTime c) = .ok time)
    (hmerged : g (.isMergedInto c r.commit) = .error f) :
    (filter ⟨none, some c⟩ req [r]).run g = .error f := by
  have hread : (read ⟨none, some c⟩ req).run g = .ok none := by
    show (Inquiry.query .openWalk >>= fun _ => Inquiry.query (.commitTime c) >>= fun _ =>
      pure (none : Option Int)).run g = _
    rw [Inquiry.run_bind, Inquiry.run_query, hwalk, ok_bind, Inquiry.run_bind, Inquiry.run_query,
      htime, ok_bind, Inquiry.run_pure]
  have htest : (admits none (some c) r).run g = .error f := by
    show (Inquiry.query (.isMergedInto c r.commit)).run g = _
    rw [Inquiry.run_query, hmerged]
  rw [filter_eq, if_neg (by simp), Inquiry.run_bind, hread, ok_bind, Inquiry.run_filterM,
    List.filterM, List.filterAuxM, htest]
  rfl

end Bounds

namespace Strategy

/-- No commit occurs twice within bounds. -/
theorem ensures_distinctCommits_bounded (inner : BaseStrategy) (b : Bounds) (req : Request)
    (ledger : Ledger) : ((bounded inner b).select req ledger).Ensures DistinctCommits := by
  apply (inner.ensures_distinctCommits req ledger).bind
  intro candidates hdistinct
  apply b.ensures_filter.mono
  intro rs hrs
  exact hdistinct.sublist hrs

/-- Priorities are put on top of bounds. -/
theorem select_prioritized (inner : BaseStrategy) (b : Bounds) (priorities : List String)
    (req : Request) (ledger : Ledger) :
    (prioritized inner b priorities).select req ledger =
      (bounded inner b).select req ledger >>= fun rs => pure (sortByPriority priorities rs) := by
  have harranged : (prioritized inner b priorities).select req ledger =
      (bounded inner b).select req ledger >>= fun rs => pure (arrangeByPriority priorities rs) := by
    simp only [select, bind_assoc]
  rw [harranged]
  apply (ensures_distinctCommits_bounded inner b req ledger).bind_congr
  intro rs hdistinct
  rw [hdistinct.arrangeByPriority_eq]

end Strategy

end NextBuild
