import NextBuild.Proofs.Ledger
import NextBuild.Proofs.Selection.Bounds
import NextBuild.Proofs.Selection.UnbuiltTips

/-!
# Polls never repeat a build

A poll asks for commits that were never built.  Both base strategies look the commits that they
found up in the ledger before they answer, on whatever way they found them, and neither the bounds
nor the priorities around a base strategy add a candidate.  Nothing is assumed about the graph.
-/

namespace NextBuild

variable {g : CommitGraph} {req : Request} {ledger : Ledger} {rs : List Revision}

/-- None of the revisions was built. -/
def Fresh (ledger : Ledger) (rs : List Revision) : Prop :=
  ∀ r ∈ rs, ledger.hasBuilt r.commit = false

/-- Revisions from a list without built ones are not built. -/
theorem Fresh.of_subset {rs' : List Revision} (h : Fresh ledger rs) (hsub : rs' ⊆ rs) :
    Fresh ledger rs' :=
  fun r hr => h r (hsub hr)

/-- What is left of the stages of a poll was never built. -/
theorem Choice.ensures_poll (ch : Choice) : (ch.poll req ledger).Ensures (Fresh ledger) := by
  rw [poll]
  apply Inquiry.ensures_bind
  intro listed
  apply Inquiry.ensures_bind
  intro picked
  apply Inquiry.ensures_bind
  intro newest
  apply (ensures_sortOldestFirst _).mono
  intro sorted hperm r hr
  simpa using (List.mem_filter.1 (hperm.mem_iff.1 hr)).2

/-- A poll for one definite branch finds the first lead that exists, unless it was built. -/
theorem DefaultStrategy.run_selectSingle (s : DefaultStrategy) (name : String) (ledger : Ledger)
    (hpoll : req.poll = true) :
    (s.selectSingle req ledger name).run g =
      ((resolveLeads (s.leads name)).run g >>= fun found =>
        .ok (found.head?.toList.filter fun r => !ledger.hasBuilt r.commit)) := by
  simp only [selectSingle, hpoll, Bool.not_true, Bool.false_and, Bool.true_and]
  rw [if_neg Bool.false_ne_true, Inquiry.run_bind]
  congr 1
  funext found
  cases found.head? with
  | none => rfl
  | some r => cases hbuilt : ledger.hasBuilt r.commit <;> simp [hbuilt]

/-- A poll for one definite branch does not answer with a commit that was built. -/
theorem DefaultStrategy.ensures_selectSingle (s : DefaultStrategy) (name : String)
    (hpoll : req.poll = true) : (s.selectSingle req ledger name).Ensures (Fresh ledger) := by
  simp only [selectSingle, hpoll, Bool.not_true, Bool.false_and, Bool.true_and]
  rw [if_neg Bool.false_ne_true]
  apply Inquiry.ensures_bind
  intro found
  cases found.head? with
  | none => exact Inquiry.ensures_pure (by simp [Fresh])
  | some r =>
    apply Inquiry.ensures_pure
    cases hbuilt : ledger.hasBuilt r.commit <;> simp [Fresh, hbuilt]

/-- A poll of a base strategy answers with nothing that was built. -/
theorem BaseStrategy.ensures_poll (s : BaseStrategy) (hpoll : req.poll = true) :
    (s.select req ledger).Ensures (Fresh ledger) := by
  rcases s.select_cases req ledger with ⟨ch, -, heq⟩ | ⟨d, name, -, -, heq⟩ | ⟨-, f, heq⟩
  · rw [heq, ch.tipsThen_finish_eq_poll hpoll]
    exact ch.ensures_poll
  · rw [heq]
    exact d.ensures_selectSingle name hpoll
  · rw [heq]
    exact .fail f

/-- A poll of a base strategy has no built revision. -/
theorem BaseStrategy.not_hasBuilt_of_poll {s : BaseStrategy} (hpoll : req.poll = true)
    (h : (s.select req ledger).run g = .ok rs) : ∀ r ∈ rs, ledger.hasBuilt r.commit = false :=
  (s.ensures_poll hpoll).run h

/-- Bounds keep what a base strategy answers with, or less. -/
theorem Strategy.ensures_bounded (inner : BaseStrategy) (b : Bounds) (hpoll : req.poll = true) :
    ((bounded inner b).select req ledger).Ensures (Fresh ledger) := by
  rw [select]
  apply (inner.ensures_poll hpoll).bind
  intro candidates hcandidates
  apply b.ensures_filter.mono
  intro rs hrs
  exact hcandidates.of_subset hrs.subset

/-- Bounds do not bring one in. -/
theorem Strategy.not_hasBuilt_of_bounded {inner : BaseStrategy} {b : Bounds}
    (hpoll : req.poll = true) (h : ((bounded inner b).select req ledger).run g = .ok rs) :
    ∀ r ∈ rs, ledger.hasBuilt r.commit = false :=
  (ensures_bounded inner b hpoll).run h

/-- A poll of a strategy other than the queue answers with nothing that was built. -/
theorem Strategy.poll_fresh {s : Strategy} (hkind : s.kind ≠ .queue)
    (hpoll : req.poll = true) (h : (s.select req ledger).run g = .ok rs) :
    ∀ r ∈ rs, ledger.hasBuilt r.commit = false := by
  cases s with
  | base s => exact BaseStrategy.not_hasBuilt_of_poll hpoll h
  | bounded inner b => exact not_hasBuilt_of_bounded hpoll h
  | prioritized inner b priorities =>
    rw [select_prioritized, Inquiry.run_bind] at h
    obtain ⟨bounded, hbounded, h⟩ := bind_eq_ok_iff.1 h
    cases h
    exact fun r hr => not_hasBuilt_of_bounded hpoll hbounded r (List.mem_mergeSort.1 hr)
  | queue s => exact absurd rfl hkind

namespace MemoryGraph

/-- A graph of two remote branches for commits without parents. -/
def unrelated : MemoryGraph :=
  { twoBranches with dag := ⟨[⟨olderCommit, [], 100, 0⟩, ⟨newerCommit, [], 200, 1⟩]⟩ }

/-- The example is built up like the one with two branches. -/
theorem grown_unrelated : unrelated.Grown := by
  let first : MemoryGraph := { empty with dag := ⟨[⟨olderCommit, [], 100, 0⟩]⟩ }
  let second : MemoryGraph := { empty with dag := unrelated.dag }
  let third : MemoryGraph :=
    { second with refs := Table.empty.insert "refs/remotes/origin/master" olderCommit }
  have hfirst : MemoryGraph.empty.addCommit olderCommit [] 100 = .ok first := rfl
  have hsecond : first.addCommit newerCommit [] 200 = .ok second := rfl
  have hthird : second.setRef "refs/remotes/origin/master" olderCommit = .ok third := rfl
  have hfourth : third.setRef "refs/remotes/origin/side" newerCommit = .ok unrelated := rfl
  have grown : Grown second := .addCommit (.addCommit (.start false) rfl hfirst) rfl hsecond
  exact .setRef (.setRef grown hthird) hfourth

/-- No commit of the example has a parent. -/
theorem not_isStrictAncestor_unrelated (a c : CommitId) : ¬ unrelated.dag.IsStrictAncestor a c := by
  intro h
  obtain ⟨_, ⟨n, hn, hparent⟩, -⟩ := Relation.TransGen.head'_iff.1 h
  have horphan : ∀ n ∈ unrelated.dag.nodes, n.parents = [] := by decide
  rw [horphan n (List.mem_of_find?_eq_some hn)] at hparent
  cases hparent

/-- Of two tips one was built.  A poll answers with the other one. -/
theorem not_hasBuilt_of_poll_unrelated :
    let strategy : BaseStrategy := .inverse ⟨[]⟩
    let request : Request := ⟨true, none, [], ⟨2024, 1, 31⟩, 0⟩
    let ledger := Ledger.empty.record ⟨.ofNames olderCommit ["origin/master"], none, 1, .success⟩
    let eligible := fun c => (Choice.outside []).eligible request.env unrelated.branches c
    (Strategy.base strategy).kind ≠ .queue ∧ request.poll = true ∧
      IsTip unrelated.dag eligible olderCommit ∧ ledger.hasBuilt olderCommit = true ∧
      ∃ rs, ((Strategy.base strategy).select request ledger).run unrelated.answers = .ok rs ∧
        newerCommit ∈ rs.map (·.commit) ∧ ∀ r ∈ rs, ledger.hasBuilt r.commit = false := by
  intro strategy request ledger eligible
  have hkind : (Strategy.base strategy).kind ≠ .queue := by decide
  have htip (name : String) (c : CommitId) (hlisted : (⟨name, c⟩ : Branch) ∈ unrelated.branches)
      (hhead : (Branch.mk name c).isHeadPointer = false) : IsTip unrelated.dag eligible c := by
    have heligible : name ∈ eligible c :=
      List.mem_filter.2 ⟨mem_namesAt.2 hlisted, by simp [hhead, BranchSpec.isMatchedBy]⟩
    exact ⟨List.ne_nil_of_mem heligible, fun d _ => not_isStrictAncestor_unrelated c d⟩
  have holder := htip "origin/master" olderCommit (List.mem_mergeSort.2 (by decide)) (by decide)
  have hnewer := htip "origin/side" newerCommit (List.mem_mergeSort.2 (by decide)) (by decide)
  have hpoll : request.poll = true := rfl
  have hchoice : strategy.choice? request = some (.outside []) := rfl
  obtain ⟨rs, hrun, htips⟩ := exists_unbuiltTips_of_poll grown_unrelated ledger hpoll hchoice
    fun b _ _ => ⟨false, rfl⟩
  exact ⟨hkind, hpoll, holder, by decide, rs, hrun, (htips.mem_iff _).2 ⟨hnewer, by decide⟩,
    Strategy.poll_fresh hkind hpoll hrun⟩

end MemoryGraph

/-! ## The last build -/

/-- A poll of the queue stops before the commit that the last build was for. -/
theorem QueueStrategy.ensures_poll (s : QueueStrategy) (hpoll : req.poll = true) {b : Build}
    (hlast : ledger.last = some b) :
    (s.select req ledger).Ensures fun rs => ∀ r ∈ rs, r.commit ≠ b.marked.commit := by
  rw [select]
  apply Inquiry.ensures_bind
  intro log
  simp only [hlast, hpoll, if_true]
  split
  · next e he =>
    apply Inquiry.ensures_pure
    have hahead := List.all_eq_true.1 List.all_takeWhile e (List.mem_of_getLast? he)
    simpa using hahead
  · exact Inquiry.ensures_pure (by simp)

/-- No poll answers with the commit that the last build was for, whoever answers its questions. -/
theorem Strategy.ensures_poll_ne (s : Strategy) (hpoll : req.poll = true) {b : Build}
    (hlast : ledger.last = some b) :
    (s.select req ledger).Ensures fun rs => ∀ r ∈ rs, r.commit ≠ b.marked.commit := by
  have hfresh (rs : List Revision) (h : Fresh ledger rs) : ∀ r ∈ rs, r.commit ≠ b.marked.commit := by
    intro r hr heq
    have hcovers : b.covers r.commit = true := Build.covers_iff.2 (.inr heq.symm)
    have hbuilt := Ledger.hasBuilt_of_last hlast hcovers
    rw [h r hr] at hbuilt
    cases hbuilt
  cases s with
  | base s => exact (s.ensures_poll hpoll).mono hfresh
  | bounded inner b => exact (ensures_bounded inner b hpoll).mono hfresh
  | prioritized inner b priorities =>
    rw [select_prioritized]
    apply (ensures_bounded inner b hpoll).bind
    intro bounded hbounded
    apply Inquiry.ensures_pure
    apply hfresh
    exact hbounded.of_subset (List.mergeSort_perm bounded _).subset
  | queue s => exact s.ensures_poll hpoll hlast

end NextBuild
