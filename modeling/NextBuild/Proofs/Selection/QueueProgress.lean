import NextBuild.Proofs.Graph.Log
import NextBuild.Proofs.Selection.Queue

/-!
# When the queue moves forward

What the queue takes after a build is newer than the commit that the build was for, as long as this
commit is on the line or everything on the line was made later.  In a log without the commit the
walk of the queue stops nowhere, so it comes to the oldest entry of all, whatever its age is.
-/

namespace NextBuild.QueueStrategy

variable {log : List LogEntry} {cursor : CommitId} {n : Node} {a : LogEntry × Nat}

/-- An entry of the commit in the log is newer than another commit of the graph: by time, and of the
same time by a place further down the log. -/
def ComesAfter (log : List LogEntry) (n : Node) (c : CommitId) : Prop :=
  ∃ a ∈ log.zipIdx, a.1.commit = c ∧
    (n.time < a.1.time ∨ a.1.time = n.time ∧ ∃ b ∈ log.zipIdx, b.1.commit = n.id ∧ b.2 < a.2)

/-- The revision is the last one built, which a build repeats where nothing is ahead of it. -/
def IsRepeat (req : Request) (log : List LogEntry) (last : Build) (r : Revision) : Prop :=
  req.poll = false ∧ r = last.revision ∧ ∀ a, ¬ IsAhead log last.marked.commit a

/-- An entry of a log stands there at some place. -/
theorem exists_mem_zipIdx {e : LogEntry} (he : e ∈ log) : ∃ i, (e, i) ∈ log.zipIdx := by
  obtain ⟨i, hi⟩ := List.mem_iff_getElem?.1 he
  exact ⟨i, List.mem_zipIdx_iff_getElem?.2 hi⟩

/-- Every entry is ahead of a commit that is not on the log. -/
theorem isAhead_of_notMem (hcursor : cursor ∉ log.map (·.commit)) (ha : a ∈ log.zipIdx) :
    IsAhead log cursor a := by
  refine ⟨ha, fun b hb hcommit => absurd ?_ hcursor⟩
  exact List.mem_map.2 ⟨b.1, List.fst_mem_of_mem_zipIdx hb, hcommit⟩

/-- The next entry is no newer than any other one that is ahead. -/
theorem IsNext.time_le (ha : IsNext log cursor a) {b : LogEntry × Nat} (hb : IsAhead log cursor b) :
    a.1.time.toInt ≤ b.1.time.toInt := by
  by_cases hsame : b = a
  · exact hsame ▸ Int.le_refl _
  · have hnewer := newer_iff.1 (ha.2 b hb hsame)
    omega

variable {g : MemoryGraph} {s : QueueStrategy} {req : Request} {ledger : Ledger} {last : Build}

/-- Of the entries of a log the next one comes after a commit exactly when this commit is on the log
or all of the log is later. -/
theorem IsNext.comesAfter_iff {reference : Option String} (hn : g.dag.find? n.id = some n)
    (hlog : g.log reference = .ok log) (ha : IsNext log n.id a) :
    ComesAfter log n a.1.commit ↔ n.id ∈ log.map (·.commit) ∨ ∀ e ∈ log, n.time < e.time := by
  have hentry : a.1 ∈ log := List.fst_mem_of_mem_zipIdx ha.1.1
  constructor
  · intro h
    by_cases hmem : n.id ∈ log.map (·.commit)
    · exact .inl hmem
    · obtain ⟨d, hd, hcommit, hlater⟩ := h
      have hsame : d.1 = a.1 := List.inj_on_of_nodup_map (MemoryGraph.nodup_of_log hlog)
        (List.fst_mem_of_mem_zipIdx hd) hentry hcommit
      have hbefore : n.time < a.1.time := by
        rcases hlater with hlater | ⟨-, b, hb, hb', -⟩
        · exact hsame ▸ hlater
        · exact absurd (List.mem_map.2 ⟨b.1, List.fst_mem_of_mem_zipIdx hb, hb'⟩) hmem
      refine .inr fun e he => ?_
      obtain ⟨i, hi⟩ := exists_mem_zipIdx he
      have hle := ha.time_le (isAhead_of_notMem hmem hi)
      rw [Int64.lt_iff_toInt_lt] at hbefore ⊢
      exact Int.lt_of_lt_of_le hbefore hle
  · intro h
    refine ⟨a, ha.1.1, rfl, ?_⟩
    rcases h with hmem | hlater
    · obtain ⟨e, he, hcommit⟩ := List.mem_map.1 hmem
      obtain ⟨i, hi⟩ := exists_mem_zipIdx he
      have htime : e.time = n.time := MemoryGraph.time_of_mem_log hlog he (hcommit ▸ hn)
      rcases ha.1.2 (e, i) hi hcommit with hlater | ⟨hsame, hplace⟩
      · exact .inl (htime ▸ hlater)
      · exact .inr ⟨htime ▸ hsame, (e, i), hi, hcommit, hplace⟩
    · exact .inl (hlater a.1 hentry)

/-- Whatever the queue answers with after a build comes after the commit that the build was for, or
repeats the build, exactly when this commit is on the log or all of the log is later. -/
theorem comesAfter_of_select_iff (hlast : ledger.last = some last)
    (hcursor : g.dag.find? last.marked.commit = some n)
    (hlog : g.log (s.logTarget? req) = .ok log) :
    (∀ rs, (s.select req ledger).run g.answers = .ok rs →
        ∀ r ∈ rs, IsRepeat req log last r ∨ ComesAfter log n r.commit) ↔
      last.marked.commit ∈ log.map (·.commit) ∨ ∀ e ∈ log, n.time < e.time := by
  have hid : n.id = last.marked.commit := Dag.id_of_find? hcursor
  have hn : g.dag.find? n.id = some n := hid ▸ hcursor
  have hrun := @run_select_after_build log s req ledger g.answers last hlast hlog
  simp only [hrun, Except.ok.injEq, forall_eq']
  rw [← hid]
  cases hnext : (ahead log n.id).getLast? with
  | none =>
    have hnone := getLast?_ahead_eq_none.1 hnext
    refine iff_of_true (fun r hr => .inl ?_) ?_
    · cases hpoll : req.poll with
      | true => simp [hpoll] at hr
      | false =>
        simp only [hpoll, Bool.false_eq_true, if_false, List.mem_singleton] at hr
        exact ⟨hpoll, hr, hid ▸ hnone⟩
    · -- Nothing is ahead of a commit that is not on the log only if the log is empty.
      by_contra h
      obtain ⟨hmem, -⟩ := not_or.1 h
      refine h (.inr fun e he => ?_)
      obtain ⟨i, hi⟩ := exists_mem_zipIdx he
      exact absurd (isAhead_of_notMem hmem hi) (hnone _)
  | some a =>
    have ha := getLast?_ahead.1 hnext
    have hfresh (r : Revision) : ¬ IsRepeat req log last r := fun h => h.2.2 a (hid ▸ ha.1)
    simp only [List.mem_singleton, forall_eq, hfresh, false_or, Revision.commit_labelled]
    exact ha.comesAfter_iff hn hlog

open MemoryGraph in
/-- After a build of the older commit what is taken on the branch ahead comes after it. -/
theorem comesAfter_of_poll_side :
    let strategy : QueueStrategy := ⟨some "origin/side"⟩
    let request : Request := ⟨true, none, [], ⟨2024, 1, 31⟩, 0⟩
    let first : Build := ⟨.labelled olderCommit "origin/master", none, 1, .success⟩
    let log : List LogEntry := [⟨newerCommit, 200⟩, ⟨olderCommit, 100⟩]
    oneBuild.last = some first ∧
      twoBranches.dag.find? first.marked.commit = some ⟨olderCommit, [], 100, 0⟩ ∧
      twoBranches.log (strategy.logTarget? request) = .ok log ∧
      ∀ rs, (strategy.select request oneBuild).run twoBranches.answers = .ok rs →
        ∀ r ∈ rs, IsRepeat request log first r ∨
          ComesAfter log ⟨olderCommit, [], 100, 0⟩ r.commit := by
  intro strategy request first log
  have htarget : strategy.logTarget? request = some "origin/side" :=
    congrArg some (Text.expand_eq_self (by decide))
  have hlog : twoBranches.log (strategy.logTarget? request) = .ok log :=
    htarget ▸ log_of_resolve_newerCommit rfl rfl
  have hlast : oneBuild.last = some first := rfl
  have hcursor : twoBranches.dag.find? first.marked.commit = some ⟨olderCommit, [], 100, 0⟩ := rfl
  have honLine : first.marked.commit ∈ log.map (·.commit) := by decide
  exact ⟨hlast, hcursor, hlog, (comesAfter_of_select_iff hlast hcursor hlog).2 (.inl honLine)⟩

open MemoryGraph in
/-- After a build of the branch ahead a poll of the other branch goes back to the older commit. -/
theorem poll_goes_back_after_side :
    let strategy : QueueStrategy := ⟨some "origin/master"⟩
    let request : Request := ⟨true, none, [], ⟨2024, 1, 31⟩, 0⟩
    let last : Build := ⟨.labelled newerCommit "origin/side", none, 1, .success⟩
    let node : Node := ⟨newerCommit, [olderCommit], 200, 1⟩
    let log : List LogEntry := [⟨olderCommit, 100⟩]
    Grown twoBranches ∧ (Ledger.empty.record last).last = some last ∧
      twoBranches.dag.find? last.marked.commit = some node ∧
      twoBranches.log (strategy.logTarget? request) = .ok log ∧
      (strategy.select request (Ledger.empty.record last)).run twoBranches.answers =
        .ok [.labelled olderCommit "origin/master"] ∧
      ¬ IsRepeat request log last (.labelled olderCommit "origin/master") ∧
      ¬ ComesAfter log node olderCommit := by
  intro strategy request last node log
  have htarget : strategy.logTarget? request = some "origin/master" :=
    congrArg some (Text.expand_eq_self (by decide))
  have hlog : twoBranches.log (strategy.logTarget? request) = .ok log :=
    htarget ▸ log_twoBranches
  refine ⟨grown_twoBranches, rfl, rfl, hlog, ?_, fun h => Bool.noConfusion h.1, fun h => ?_⟩
  · have hahead : ahead log last.marked.commit = [(⟨olderCommit, 100⟩, 0)] := by
      rw [ahead, List.zipIdx_singleton, List.mergeSort_singleton]
      rfl
    rw [run_select_after_build rfl hlog, hahead, label, htarget]
    rfl
  · obtain ⟨a, ha, -, hlater⟩ := h
    rw [List.mem_singleton.1 ha] at hlater
    exact absurd hlater (by decide)

end NextBuild.QueueStrategy
