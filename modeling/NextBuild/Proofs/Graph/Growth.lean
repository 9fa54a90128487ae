import NextBuild.Graph.Memory
import NextBuild.Proofs.Graph.Ancestry

/-!
# Graphs that are built up

A graph in memory grows by commits whose parents are there, and by references to commits that are
there.  When each id is added once, the number that a commit gets is greater than the numbers of its
parents, so no way through parents comes back to where it began, and every reference and every
parent stays a commit of the graph.
-/

namespace NextBuild

namespace Dag

variable {g g' : Dag} {id a c p : CommitId} {parents : List CommitId} {time : Int64}

/-- An addition that succeeds has found all parents. -/
theorem has_of_add (h : g.add id parents time = .ok g') (hp : p ∈ parents) : g.Has p := by
  unfold add at h
  split at h
  · simp at h
  · next hnone =>
    have hfound := List.find?_eq_none.1 hnone p hp
    exact Option.ne_none_iff_exists'.1 (by simpa using hfound)

/-- An addition answers for its own id with the new commit, and for every other id as before. -/
theorem find?_of_add (h : g.add id parents time = .ok g') (c : CommitId) :
    g'.find? c = if c = id then some ⟨id, parents, time, g.nodes.length⟩ else g.find? c := by
  unfold add at h
  split at h
  · simp at h
  · simp only [Except.ok.injEq] at h
    subst h
    unfold find?
    rw [List.find?_append, List.find?_filter]
    by_cases hc : c = id
    · have hnone : (g.nodes.find? fun n => decide ((n.id != id) = true ∧ (n.id == c) = true)) = none := by
        rw [List.find?_eq_none]
        intro n _
        simp [hc]
      rw [hnone]
      simp [hc]
    · have hne : ¬ id = c := fun hid => hc hid.symm
      have hsame : (fun n : Node => decide ((n.id != id) = true ∧ (n.id == c) = true)) =
          fun n => n.id == c := by
        funext n
        by_cases hn : n.id = c
        · simp [hn, hc]
        · simp [hn]
      rw [hsame]
      simp [hne, hc]

/-- Commits stay in the graph when one is added. -/
theorem Has.of_add (hc : g.Has c) (h : g.add id parents time = .ok g') : g'.Has c := by
  obtain ⟨n, hn⟩ := hc
  unfold Has
  rw [find?_of_add h]
  by_cases hid : c = id
  · simp [hid]
  · simp [hid, hn]

/-- Commits are numbered in their order, each with a number greater than those of its parents. -/
structure Ranked (g : Dag) : Prop where
  /-- A commit has as number its place in the list. -/
  numbered : g.nodes.map (·.order) = List.range g.nodes.length
  /-- A parent is a commit of the graph, and an earlier one. -/
  earlier : ∀ {c p n}, g.find? c = some n → p ∈ n.parents → ∃ m, g.find? p = some m ∧ m.order < n.order

/-- The number of a commit is below the number of commits. -/
theorem Ranked.order_lt (hg : g.Ranked) {n : Node} (hn : g.find? c = some n) :
    n.order < g.nodes.length := by
  have hmem : n.order ∈ g.nodes.map (·.order) :=
    List.mem_map_of_mem (List.mem_of_find?_eq_some hn)
  rw [hg.numbered] at hmem
  exact List.mem_range.1 hmem

/-- A graph without commits is ranked. -/
theorem ranked_empty : Ranked empty where
  numbered := rfl
  earlier h := by simp [find?, empty] at h

/-- A commit under a new id comes behind all others. -/
theorem nodes_of_add (hnew : g.find? id = none) (h : g.add id parents time = .ok g') :
    g'.nodes = g.nodes ++ [⟨id, parents, time, g.nodes.length⟩] := by
  unfold add at h
  split at h
  · simp at h
  · simp only [Except.ok.injEq] at h
    subst h
    have hall : ∀ n ∈ g.nodes, (n.id != id) = true := by
      intro n hn
      simpa using List.find?_eq_none.1 hnew n hn
    rw [List.filter_eq_self.2 hall]

/-- Adding a commit under a new id numbers it behind its parents. -/
theorem Ranked.add (hg : g.Ranked) (hnew : g.find? id = none)
    (h : g.add id parents time = .ok g') : g'.Ranked := by
  have hfind := find?_of_add h
  have hhas (q : CommitId) (hq : q ∈ parents) : g.Has q := has_of_add h hq
  constructor
  · simp [nodes_of_add hnew h, hg.numbered, List.range_succ]
  · intro c p n hc hp
    have hold {q : CommitId} {m : Node} (hm : g.find? q = some m) : g'.find? q = some m := by
      rw [hfind, if_neg (by intro hid; subst hid; simp [hnew] at hm), hm]
    rw [hfind] at hc
    split at hc
    · simp only [Option.some.injEq] at hc
      subst hc
      obtain ⟨m, hm⟩ := hhas p hp
      exact ⟨m, hold hm, hg.order_lt hm⟩
    · obtain ⟨m, hm, hlt⟩ := hg.earlier hc hp
      exact ⟨m, hold hm, hlt⟩

/-- Every parent is a commit of the graph. -/
theorem Ranked.closed (hg : g.Ranked) : g.Closed := by
  intro c p h
  obtain ⟨n, hn, hp⟩ := h
  obtain ⟨m, hm, -⟩ := hg.earlier hn hp
  exact ⟨m, hm⟩

/-- A strict ancestor has a smaller number. -/
theorem Ranked.order_lt_of_isStrictAncestor (hg : g.Ranked) (h : g.IsStrictAncestor a c) :
    ∃ m n, g.find? a = some m ∧ g.find? c = some n ∧ m.order < n.order := by
  induction h with
  | single hp =>
    obtain ⟨n, hn, hp⟩ := hp
    obtain ⟨m, hm, hlt⟩ := hg.earlier hn hp
    exact ⟨m, n, hm, hn, hlt⟩
  | tail _ hp ih =>
    obtain ⟨k, n, hk, hn, hkn⟩ := ih
    obtain ⟨k', hk', hp⟩ := hp
    obtain ⟨m, hm, hmk⟩ := hg.earlier hk' hp
    rw [hk] at hk'
    cases hk'
    exact ⟨m, n, hm, hn, Nat.lt_trans hmk hkn⟩

/-- No commit is a strict ancestor of itself. -/
theorem Ranked.acyclic (hg : g.Ranked) : g.Acyclic := by
  intro c hc
  obtain ⟨m, n, hm, hn, hlt⟩ := hg.order_lt_of_isStrictAncestor hc
  rw [hm] at hn
  cases hn
  omega

end Dag

namespace MemoryGraph

variable {g : MemoryGraph}

/-- A graph that is built up from nothing, where each id is added once. -/
inductive Grown : MemoryGraph → Prop
  | start (localBranches : Bool) : Grown { empty with localBranches }
  | addCommit {g g' : MemoryGraph} {id : CommitId} {parents : List CommitId} {time : Int64} :
      Grown g → g.dag.find? id = none → g.addCommit id parents time = .ok g' → Grown g'
  | setRef {g g' : MemoryGraph} {name : String} {c : CommitId} :
      Grown g → g.setRef name c = .ok g' → Grown g'
  | removeRef {g : MemoryGraph} (name : String) : Grown g → Grown (g.removeRef name)
  | setFetchHead {g : MemoryGraph} (c : CommitId) : Grown g → Grown { g with fetchHead := some c }

/-- Every reference points to a commit of the graph. -/
def RefsResolve (g : MemoryGraph) : Prop := ∀ e ∈ g.refs.entries, g.dag.Has e.2

/-- Adding a commit changes the commits alone. -/
theorem addCommit_eq_ok {g' : MemoryGraph} {id : CommitId} {parents : List CommitId}
    {time : Int64} (h : g.addCommit id parents time = .ok g') :
    g.dag.add id parents time = .ok g'.dag ∧ g'.refs = g.refs := by
  unfold addCommit at h
  cases hadd : g.dag.add id parents time with
  | error f => simp [hadd, bind, Except.bind] at h
  | ok d =>
    simp only [hadd, bind, Except.bind, pure, Except.pure, Except.ok.injEq] at h
    subst h
    exact ⟨rfl, rfl⟩

/-- Setting a reference changes the references alone, and its target is there. -/
theorem setRef_eq_ok {g' : MemoryGraph} {name : String} {c : CommitId}
    (h : g.setRef name c = .ok g') :
    g.dag.Has c ∧ g'.dag = g.dag ∧ g'.refs = g.refs.insert name c := by
  unfold setRef at h
  cases hfound : g.dag.find? c with
  | none => simp [Dag.node, hfound, bind, Except.bind] at h
  | some n =>
    simp only [Dag.node, hfound, bind, Except.bind, pure, Except.pure, Except.ok.injEq] at h
    subst h
    exact ⟨⟨n, hfound⟩, rfl, rfl⟩

/-- References keep their targets when a commit is added. -/
theorem RefsResolve.addCommit {g' : MemoryGraph} {id : CommitId} {parents : List CommitId}
    {time : Int64} (hg : g.RefsResolve) (h : g.addCommit id parents time = .ok g') :
    g'.RefsResolve := by
  obtain ⟨hdag, hrefs⟩ := addCommit_eq_ok h
  intro e he
  rw [hrefs] at he
  exact (hg e he).of_add hdag

/-- A reference that is set has a target. -/
theorem RefsResolve.setRef {g' : MemoryGraph} {name : String} {c : CommitId} (hg : g.RefsResolve)
    (h : g.setRef name c = .ok g') : g'.RefsResolve := by
  obtain ⟨hc, hdag, hrefs⟩ := setRef_eq_ok h
  intro e he
  rw [hrefs] at he
  rw [hdag]
  rcases Table.mem_insertEntry he with rfl | he
  · exact hc
  · exact hg e he

/-- Removing a reference leaves the others resolved. -/
theorem RefsResolve.removeRef (hg : g.RefsResolve) (name : String) :
    (g.removeRef name).RefsResolve :=
  fun e he => hg e (List.mem_filter.1 he).1

/-- A graph that is built up has ranked commits, and references to these. -/
theorem Grown.ranked_and_refsResolve (h : Grown g) : g.dag.Ranked ∧ g.RefsResolve := by
  induction h with
  | start localBranches => exact ⟨Dag.ranked_empty, by simp [RefsResolve, empty, Table.empty]⟩
  | addCommit _ hnew hadd ih =>
    exact ⟨ih.1.add hnew (addCommit_eq_ok hadd).1, ih.2.addCommit hadd⟩
  | setRef _ hset ih => exact ⟨(setRef_eq_ok hset).2.1 ▸ ih.1, ih.2.setRef hset⟩
  | removeRef name _ ih => exact ⟨ih.1, ih.2.removeRef name⟩
  | setFetchHead c _ ih => exact ih

/-- One change of a graph: a new commit, or a reference that is created, moved or removed. -/
inductive Change : MemoryGraph → MemoryGraph → Prop
  | addCommit {g g' : MemoryGraph} {id : CommitId} {parents : List CommitId} {time : Int64} :
      g.dag.find? id = none → g.addCommit id parents time = .ok g' → Change g g'
  | setRef {g g' : MemoryGraph} {name : String} {c : CommitId} :
      g.setRef name c = .ok g' → Change g g'
  | removeRef (g : MemoryGraph) (name : String) : Change g (g.removeRef name)
  | setFetchHead (g : MemoryGraph) (c : CommitId) : Change g { g with fetchHead := some c }

/-- A graph that was built up stays one when it changes. -/
theorem Grown.change {g' : MemoryGraph} (hg : g.Grown) (h : Change g g') : g'.Grown := by
  cases h with
  | addCommit hnew hadd => exact hg.addCommit hnew hadd
  | setRef hset => exact hg.setRef hset
  | removeRef name => exact hg.removeRef name
  | setFetchHead c => exact hg.setFetchHead c

/-- A change leaves every commit as it is. -/
theorem Change.find?_eq_some {g' : MemoryGraph} (h : Change g g') {c : CommitId} {n : Node}
    (hn : g.dag.find? c = some n) : g'.dag.find? c = some n := by
  cases h with
  | @addCommit _ id _ _ hnew hadd =>
    have hne : c ≠ id := by
      intro hid
      rw [hid, hnew] at hn
      cases hn
    rw [Dag.find?_of_add (addCommit_eq_ok hadd).1, if_neg hne, hn]
  | setRef hset => rw [(setRef_eq_ok hset).2.1, hn]
  | removeRef => exact hn
  | setFetchHead => exact hn

/-- A listed branch points to a commit of the graph. -/
theorem RefsResolve.has_of_mem_branches (hg : g.RefsResolve) {b : Branch} (hb : b ∈ g.branches) :
    g.dag.Has b.commit := by
  unfold branches at hb
  rw [List.mem_mergeSort] at hb
  obtain ⟨e, he, rfl⟩ := List.mem_map.1 hb
  exact hg e (List.mem_filter.1 he).1

/-- The older one of two commits of an example. -/
def olderCommit : CommitId := ⟨"aaaaaaaaaaaaaaaaaaaaaaaaaaaaaaaaaaaaaaaa", by decide⟩

/-- The newer one of two commits of an example. -/
def newerCommit : CommitId := ⟨"bbbbbbbbbbbbbbbbbbbbbbbbbbbbbbbbbbbbbbbb", by decide⟩

/-- A graph of two remote branches, the second one a commit ahead of the first. -/
def twoBranches : MemoryGraph where
  dag := ⟨[⟨olderCommit, [], 100, 0⟩, ⟨newerCommit, [olderCommit], 200, 1⟩]⟩
  refs := (Table.empty.insert "refs/remotes/origin/master" olderCommit).insert
    "refs/remotes/origin/side" newerCommit
  fetchHead := none
  localBranches := false

/-- The example is built up by adding the two commits and setting the two references. -/
theorem grown_twoBranches : Grown twoBranches := by
  let first : MemoryGraph := { empty with dag := ⟨[⟨olderCommit, [], 100, 0⟩]⟩ }
  let second : MemoryGraph := { empty with dag := twoBranches.dag }
  let third : MemoryGraph :=
    { second with refs := Table.empty.insert "refs/remotes/origin/master" olderCommit }
  have hfirst : MemoryGraph.empty.addCommit olderCommit [] 100 = .ok first := rfl
  have hsecond : first.addCommit newerCommit [olderCommit] 200 = .ok second := rfl
  have hthird : second.setRef "refs/remotes/origin/master" olderCommit = .ok third := rfl
  have hfourth : third.setRef "refs/remotes/origin/side" newerCommit = .ok twoBranches := rfl
  have grown : Grown second := .addCommit (.addCommit (.start false) rfl hfirst) rfl hsecond
  exact .setRef (.setRef grown hthird) hfourth

end MemoryGraph

end NextBuild
