import NextBuild.Proofs.Graph.Content

/-!
# Graphs by their insertions

A graph that is filled by inserting commits and references, each of them once, holds exactly what
was inserted.  An order of insertions is valid when the parents of a commit and the target of a
reference come before it; all valid orders of the same insertions lead to graphs with the same
content.
-/

namespace NextBuild.MemoryGraph

/-- What is inserted into a graph. -/
inductive Insertion where
  /-- A commit with its parents and its time. -/
  | commit (id : CommitId) (parents : List CommitId) (time : Int64)
  /-- A reference to a commit. -/
  | reference (name : String) (c : CommitId)
deriving DecidableEq

/-- The id or the name that is inserted. -/
def Insertion.key : Insertion → CommitId ⊕ String
  | commit id _ _ => .inl id
  | reference name _ => .inr name

/-- The graph with an insertion. -/
def insert (g : MemoryGraph) : Insertion → Except Failure MemoryGraph
  | .commit id parents time => g.addCommit id parents time
  | .reference name c => g.setRef name c

/-- The graph after insertions, in their order. -/
def insertAll (g : MemoryGraph) (is : List Insertion) : Except Failure MemoryGraph :=
  is.foldlM insert g

/-- The graph is built up and holds just these insertions. -/
structure Holds (g : MemoryGraph) (is : List Insertion) : Prop where
  grown : g.Grown
  commits : ∀ c parents time,
    g.dag.data? c = some (parents, time) ↔ .commit c parents time ∈ is
  refs : ∀ name c, g.refs.get? name = some c ↔ .reference name c ∈ is

variable {g g' : MemoryGraph} {i : Insertion} {is is' : List Insertion}

/-- An empty graph holds nothing. -/
theorem holds_start (localBranches : Bool) : Holds { empty with localBranches } [] where
  grown := .start localBranches
  commits c parents time := by simp [empty, Dag.empty, Dag.data?, Dag.find?]
  refs name c := by simp [empty]

/-- An insertion under a new key is held besides the earlier ones. -/
theorem Holds.insert (hg : g.Holds is) (hnew : i.key ∉ is.map Insertion.key)
    (h : g.insert i = .ok g') : g'.Holds (is ++ [i]) ∧ g'.localBranches = g.localBranches := by
  have hkey : ∀ j ∈ is, j.key ≠ i.key := fun j hj heq => hnew (heq ▸ List.mem_map_of_mem hj)
  cases i with
  | commit id parents time =>
    have hgrown : g.dag.find? id = none → g'.Grown := fun hnone => hg.grown.addCommit hnone h
    obtain ⟨d, hadd, h⟩ := bind_eq_ok_iff.1 h
    cases h
    have hnone : g.dag.data? id = none := by
      refine Option.eq_none_iff_forall_ne_some.2 fun e he => ?_
      exact hkey _ ((hg.commits id e.1 e.2).1 he) rfl
    refine ⟨⟨hgrown (Option.map_eq_none_iff.1 hnone), fun c ps t => ?_, fun name c => ?_⟩, rfl⟩
    · rw [Dag.data?_of_add hadd, List.mem_append, List.mem_singleton, ← hg.commits]
      by_cases hc : c = id
      · simp [hc, hnone, eq_comm]
      · simp [hc]
    · simpa using hg.refs name c
  | reference name c =>
    have hgrown : g'.Grown := hg.grown.setRef h
    obtain ⟨n, -, h⟩ := bind_eq_ok_iff.1 h
    cases h
    refine ⟨⟨hgrown, fun d ps t => ?_, fun other d => ?_⟩, rfl⟩
    · simpa using hg.commits d ps t
    · rw [Table.get?_insert, List.mem_append, List.mem_singleton, ← hg.refs]
      by_cases hname : other = name
      · have hnone : g.refs.get? name = none := by
          refine Option.eq_none_iff_forall_ne_some.2 fun e he => ?_
          exact hkey _ ((hg.refs name e).1 he) rfl
        simp [hname, hnone, eq_comm]
      · simp [hname]

/-- Insertions under different keys, one after the other, are all held. -/
theorem Holds.insertAll (hg : g.Holds is) (hnodup : ((is ++ is').map Insertion.key).Nodup)
    (h : g.insertAll is' = .ok g') : g'.Holds (is ++ is') ∧ g'.localBranches = g.localBranches := by
  -- What is held grows with each insertion, so the induction is for any graph and what it holds.
  induction is' generalizing g is with
  | nil =>
    cases h
    rw [List.append_nil]
    exact ⟨hg, rfl⟩
  | cons i is' ih =>
    obtain ⟨g₁, hfirst, hrest⟩ := bind_eq_ok_iff.1 h
    have hnew : i.key ∉ is.map Insertion.key := by
      rw [List.map_append, List.nodup_append] at hnodup
      exact fun hmem => hnodup.2.2 _ hmem _ List.mem_cons_self rfl
    obtain ⟨hheld, hlocal⟩ := hg.insert hnew hfirst
    rw [List.append_cons] at hnodup ⊢
    obtain ⟨hall, hlocals⟩ := ih hheld hnodup hrest
    exact ⟨hall, hlocals.trans hlocal⟩

/-- Graphs that hold the same insertions have the same content. -/
theorem Holds.sameContent (hg : g.Holds is) (hg' : g'.Holds is') (hsame : ∀ i, i ∈ is ↔ i ∈ is')
    (hlocal : g.localBranches = g'.localBranches) : SameContent g g' where
  commits c := by
    ext ⟨parents, time⟩
    rw [hg.commits, hg'.commits, hsame]
  refs := by
    refine Table.ext_get? fun name => ?_
    ext c
    rw [hg.refs, hg'.refs, hsame]
  localBranches := hlocal

/-- The same insertions in two valid orders lead to graphs with the same content. -/
theorem sameContent_of_perm {localBranches : Bool} (hperm : is.Perm is')
    (hnodup : (is.map Insertion.key).Nodup)
    (hg : insertAll { empty with localBranches } is = .ok g)
    (hg' : insertAll { empty with localBranches } is' = .ok g') :
    SameContent g g' ∧ g.Grown ∧ g'.Grown := by
  have hnodup' : (is'.map Insertion.key).Nodup := (hperm.map _).nodup_iff.1 hnodup
  obtain ⟨hheld, hlocal⟩ := (holds_start localBranches).insertAll hnodup hg
  obtain ⟨hheld', hlocal'⟩ := (holds_start localBranches).insertAll hnodup' hg'
  have hsame : SameContent g g' :=
    hheld.sameContent hheld' (fun _ => hperm.mem_iff) (hlocal.trans hlocal'.symm)
  exact ⟨hsame, hheld.grown, hheld'.grown⟩

/-! ## An example -/

/-- A merge of the two commits of the example. -/
def leftMerge : CommitId := ⟨"cccccccccccccccccccccccccccccccccccccccc", by decide⟩

/-- Another merge of the same two commits. -/
def rightMerge : CommitId := ⟨"dddddddddddddddddddddddddddddddddddddddd", by decide⟩

/-- Two commits that are both merged twice, with a branch at each merge. -/
def crissCross : MemoryGraph where
  dag := ⟨[⟨olderCommit, [], 100, 0⟩, ⟨newerCommit, [], 100, 1⟩,
    ⟨leftMerge, [olderCommit, newerCommit], 200, 2⟩,
    ⟨rightMerge, [olderCommit, newerCommit], 200, 3⟩]⟩
  refs := (Table.empty.insert "refs/remotes/origin/left" leftMerge).insert
    "refs/remotes/origin/right" rightMerge
  fetchHead := none
  localBranches := false

/-- The same commits and branches, added in another order. -/
def mirrored : MemoryGraph where
  dag := ⟨[⟨newerCommit, [], 100, 0⟩, ⟨olderCommit, [], 100, 1⟩,
    ⟨rightMerge, [olderCommit, newerCommit], 200, 2⟩,
    ⟨leftMerge, [olderCommit, newerCommit], 200, 3⟩]⟩
  refs := (Table.empty.insert "refs/remotes/origin/right" rightMerge).insert
    "refs/remotes/origin/left" leftMerge
  fetchHead := none
  localBranches := false

/-- Both graphs of the example have grown, with the same content. -/
theorem sameContent_crissCross :
    SameContent crissCross mirrored ∧ crissCross.Grown ∧ mirrored.Grown := by
  let left : Insertion := .commit leftMerge [olderCommit, newerCommit] 200
  let right : Insertion := .commit rightMerge [olderCommit, newerCommit] 200
  let leftBranch : Insertion := .reference "refs/remotes/origin/left" leftMerge
  let rightBranch : Insertion := .reference "refs/remotes/origin/right" rightMerge
  let forwards : List Insertion := [.commit olderCommit [] 100, .commit newerCommit [] 100, left,
    right, leftBranch, rightBranch]
  let otherwise : List Insertion := [.commit newerCommit [] 100, .commit olderCommit [] 100, right,
    rightBranch, left, leftBranch]
  have hperm : forwards.Perm otherwise := by decide
  have hnodup : (forwards.map Insertion.key).Nodup := by decide
  exact sameContent_of_perm hperm hnodup rfl rfl

/-- Both commits are best common ancestors of the merges; the one that was added later is the merge
base. -/
theorem mergeBase_crissCross {d : Dag} {i j k l : Nat}
    (holder : d.find? olderCommit = some ⟨olderCommit, [], 100, i⟩)
    (hnewer : d.find? newerCommit = some ⟨newerCommit, [], 100, j⟩)
    (hleft : d.find? leftMerge = some ⟨leftMerge, [olderCommit, newerCommit], 200, k⟩)
    (hright : d.find? rightMerge = some ⟨rightMerge, [olderCommit, newerCommit], 200, l⟩) :
    d.mergeBase leftMerge rightMerge = .ok (some (if i ≤ j then newerCommit else olderCommit)) := by
  let older : Node := ⟨olderCommit, [], 100, i⟩
  let newer : Node := ⟨newerCommit, [], 100, j⟩
  have hancestors {m : CommitId} {order : Nat} (hm : olderCommit ≠ m ∧ newerCommit ≠ m)
      (hfind : d.find? m = some ⟨m, [olderCommit, newerCommit], 200, order⟩) :
      d.ancestors m = .ok [newerCommit, olderCommit, m] := by
    rw [Dag.ancestors, Dag.reach_cons List.not_mem_nil hfind]
    show d.reach [m] [olderCommit, newerCommit] = _
    rw [Dag.reach_cons (by simpa using hm.1) holder]
    show d.reach [olderCommit, m] [newerCommit] = _
    rw [Dag.reach_cons (by simpa using ⟨by decide, hm.2⟩) hnewer]
    exact Dag.reach.eq_1 _ _
  -- Neither of the two common ancestors reaches the other, so both are best.
  have hcommon : [newerCommit, olderCommit, leftMerge].filter
      [newerCommit, olderCommit, rightMerge].contains = [newerCommit, olderCommit] := by decide
  have hbest : d.bestCommonAncestors leftMerge rightMerge = .ok [newerCommit, olderCommit] := by
    rw [Dag.bestCommonAncestors, hancestors (by decide) hleft, ok_bind,
      hancestors (by decide) hright, ok_bind, hcommon]
    simp [Dag.node, holder, hnewer, Except.map, Dag.reach]
  have hnodes : [newerCommit, olderCommit].mapM d.node = .ok [newer, older] := by
    simp [Dag.node, holder, hnewer, newer, older]
  have hsort : [newer, older].mergeSort Dag.isNewer =
      if i ≤ j then [newer, older] else [older, newer] := by
    by_cases hij : i ≤ j <;>
      simp [List.mergeSort, Dag.isNewer, Node.isLater, newer, older, hij]
  rw [Dag.mergeBase, hbest, ok_bind, Dag.newestFirst, hnodes, ok_bind, hsort]
  split <;> rfl

end NextBuild.MemoryGraph
