import NextBuild.Proofs.Graph.Replacement
import NextBuild.Proofs.Graph.Serving

/-!
# What is reachable

Calls of any kind keep every parent and every reference target in the graph, also where a commit is
added again and reaches itself.  So gathering ancestors never meets a missing commit, and it ends as
each round sees a commit for the first time or has fewer to visit.  What a walk keeps of it are the
ancestors of the graph, so a walk answers each question as a new one would.
-/

namespace NextBuild

namespace Walk

variable {g : Dag} {w : Walk}

/-- Ask one walk about pairs of commits, in their order, whether the first was merged into the second. -/
def mergedEach (g : Dag) : List (CommitId × CommitId) → Walk → List (Except Failure Bool)
  | [], _ => []
  | (a, c) :: pairs, w =>
    (w.isMergedInto g a c).1 :: mergedEach g pairs (w.isMergedInto g a c).2

/-- Whatever the walk was asked before, its answers are those of the graph. -/
theorem Faithful.mergedEach_eq (hw : w.Faithful g) (pairs : List (CommitId × CommitId)) :
    mergedEach g pairs w = pairs.map fun p => g.isMergedInto p.1 p.2 := by
  induction pairs generalizing w with
  | nil => rfl
  | cons p pairs ih =>
    rw [mergedEach, hw.fst_isMergedInto, ih (hw.snd_isMergedInto p.1 p.2), List.map_cons]

end Walk

namespace Dag

variable {g : Dag} {a c : CommitId}

/-- A commit that is not there is not found. -/
theorem not_has_iff : ¬ g.Has c ↔ g.find? c = none := by
  rw [Has, ← Option.ne_none_iff_exists', not_not]

/-- The answer tells whether the first commit is an ancestor of the second one, or which of them is
missing, the first one if both are. -/
structure TellsMerged (g : Dag) (a c : CommitId) (answer : Except Failure Bool) : Prop where
  merged : g.Has a → g.Has c → ∃ merged, answer = .ok merged ∧ (merged = true ↔ g.Reaches c a)
  missing_ancestor : ¬ g.Has a → answer = .error (.missingObject a.text)
  missing_candidate : g.Has a → ¬ g.Has c → answer = .error (.missingObject c.text)

/-- On a closed graph the question whether a commit is merged is told truly. -/
theorem Closed.tellsMerged (hg : g.Closed) (a c : CommitId) :
    g.TellsMerged a c (g.isMergedInto a c) := by
  constructor
  case merged => exact hg.exists_isMergedInto
  case missing_ancestor =>
    intro ha
    rw [isMergedInto, node, not_has_iff.1 ha]
    rfl
  case missing_candidate =>
    intro ha hc
    obtain ⟨n, hn⟩ := ha
    rw [isMergedInto, node_eq_ok hn, ok_bind, ancestors_eq_error (not_has_iff.1 hc)]
    rfl

end Dag

namespace MemoryGraph

variable {g : MemoryGraph}

/-- Questions about ancestors always come to an end with the right answer. -/
structure Reachability (g : MemoryGraph) : Prop where
  closed : g.dag.Closed
  refsResolve : g.RefsResolve
  /-- The ancestors of a commit are the commits that it reaches, each of them once. -/
  ancestors : ∀ c, g.dag.Has c → ∃ cs, g.dag.ancestors c = .ok cs ∧ cs.Nodup ∧
    ∀ a, a ∈ cs ↔ g.dag.Reaches c a
  /-- One walk answers each question of a sequence rightly, and as a new walk would. -/
  walk : ∀ pairs : List (CommitId × CommitId),
    List.Forall₂ (fun p answer => g.dag.TellsMerged p.1 p.2 answer ∧
        answer = (Walk.isMergedInto g.dag p.1 p.2 {}).1)
      pairs (Walk.mergedEach g.dag pairs {})

/-- What is reached is told truly where all parents and all references are there. -/
theorem reachability_of_closed (hclosed : g.dag.Closed) (hrefs : g.RefsResolve) :
    g.Reachability := by
  constructor
  case closed => exact hclosed
  case refsResolve => exact hrefs
  case ancestors =>
    intro c hc
    obtain ⟨cs, hcs, hmem⟩ := Dag.exists_ancestors hclosed hc
    exact ⟨cs, hcs, Dag.nodup_of_reach hcs List.nodup_nil, hmem⟩
  case walk =>
    intro pairs
    have hnew := Walk.faithful_start g.dag
    rw [hnew.mergedEach_eq, List.forall₂_map_right_iff, List.forall₂_same]
    intro p _
    exact ⟨hclosed.tellsMerged p.1 p.2, (hnew.fst_isMergedInto p.1 p.2).symm⟩

/-- Whatever is called on a graph, in whatever order, and also if commits are added again and reach
themselves: parents and reference targets are there, gathering ancestors ends with exactly what is
reachable, and what a walk has kept makes no difference to its answers. -/
theorem reachability_afterAll (localBranches : Bool) (calls : List Call) :
    (afterAll { empty with localBranches } calls).Reachability := by
  have hrefs : RefsResolve { empty with localBranches } := fun e he => by cases he
  obtain ⟨htidy, hresolve⟩ := tidy_afterAll Dag.tidy_empty hrefs calls
  exact reachability_of_closed htidy.closed hresolve

end MemoryGraph

end NextBuild
