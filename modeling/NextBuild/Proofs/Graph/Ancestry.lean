import Mathlib.Logic.Relation
import NextBuild.Graph.Dag

/-!
# Ancestors

The relation of a commit to its parents, and what follows from it: a commit reaches itself and
everything that its parents reach.  The walk of a graph from a list of commits ends with exactly the
commits that these reach.  Its invariant is that a commit that is seen has each of its parents seen
or still to be visited; at the end nothing is to be visited, so what is seen is closed.
-/

namespace NextBuild.Dag

variable {g : Dag} {a b c : CommitId} {seen todo out : List CommitId}

/-- The commit is in the graph. -/
def Has (g : Dag) (c : CommitId) : Prop := ∃ n, g.find? c = some n

/-- The second commit is a parent of the first. -/
def IsParent (g : Dag) (c p : CommitId) : Prop := ∃ n, g.find? c = some n ∧ p ∈ n.parents

/-- The second commit is the first one, or is met on the way through parents. -/
def Reaches (g : Dag) (c a : CommitId) : Prop := Relation.ReflTransGen g.IsParent c a

/-- The first commit is met on a way from the second one that takes at least one step. -/
def IsStrictAncestor (g : Dag) (a c : CommitId) : Prop := Relation.TransGen g.IsParent c a

/-- Every parent is a commit of the graph. -/
def Closed (g : Dag) : Prop := ∀ c p, g.IsParent c p → g.Has p

/-- No commit is among its own strict ancestors. -/
def Acyclic (g : Dag) : Prop := ∀ c, ¬ g.IsStrictAncestor c c

/-- The committer time of a commit of the graph. -/
def timeOf (g : Dag) (c : CommitId) : Int64 :=
  ((g.find? c).map (·.time)).getD 0

/-- The commit that a look-up finds is the one that was asked for. -/
theorem id_of_find? {n : Node} (h : g.find? c = some n) : n.id = c := by
  simpa using List.find?_some h

/-- A commit that a look-up finds has a node. -/
theorem node_eq_ok {n : Node} (h : g.find? c = some n) : g.node c = .ok n := by
  simp [node, h]

/-- A strict ancestor is reached. -/
theorem IsStrictAncestor.reaches (h : g.IsStrictAncestor a c) : g.Reaches c a := h.to_reflTransGen

/-- What is reached is the commit itself or a strict ancestor. -/
theorem reaches_iff_eq_or_isStrictAncestor : g.Reaches c a ↔ a = c ∨ g.IsStrictAncestor a c :=
  Relation.reflTransGen_iff_eq_or_transGen

/-- Without cycles two commits that reach each other are the same. -/
theorem Acyclic.eq_of_reaches (hg : g.Acyclic) (hac : g.Reaches a c) (hca : g.Reaches c a) :
    a = c := by
  rcases reaches_iff_eq_or_isStrictAncestor.1 hac with h | h
  · exact h.symm
  · exact absurd (h.trans_left hca) (hg a)

/-- Without cycles the strict ancestors are what is reached besides the commit itself. -/
theorem Acyclic.isStrictAncestor_iff (hg : g.Acyclic) :
    g.IsStrictAncestor a c ↔ a ≠ c ∧ g.Reaches c a := by
  constructor
  · intro h
    refine ⟨fun hac => hg c ?_, h.reaches⟩
    rwa [hac] at h
  · intro h
    obtain ⟨hne, h⟩ := h
    exact (reaches_iff_eq_or_isStrictAncestor.1 h).resolve_left hne

/-- In a closed graph everything that a commit of the graph reaches is in the graph. -/
theorem Closed.has_of_reaches (hg : g.Closed) (hc : g.Has c) (h : g.Reaches c a) : g.Has a := by
  induction h with
  | refl => exact hc
  | tail _ hp _ => exact hg _ _ hp

/-! ## The walk -/

/-- A commit that is met for the first time is seen, and its parents are visited next. -/
theorem reach_cons {n : Node} (hc : c ∉ seen) (hn : g.find? c = some n) :
    g.reach seen (c :: todo) = g.reach (c :: seen) (n.parents ++ todo) := by
  rw [reach]
  split
  · next hseen => exact absurd (by simpa using hseen) hc
  · split
    · next m hm =>
      rw [hn] at hm
      cases hm
      rfl
    · next hnone =>
      rw [hn] at hnone
      cases hnone

/-- The walk in a closed graph never fails. -/
theorem exists_reach (hg : g.Closed) (seen : List CommitId) (htodo : ∀ c ∈ todo, g.Has c) :
    ∃ out, g.reach seen todo = .ok out := by
  fun_induction g.reach seen todo with
  | case1 seen => exact ⟨seen, rfl⟩
  | case2 seen c todo hc ih => exact ih fun d hd => htodo d (List.mem_cons_of_mem _ hd)
  | case3 seen c todo hc n hn ih =>
    refine ih fun d hd => ?_
    rcases List.mem_append.1 hd with hp | hd
    · exact hg c d ⟨n, hn, hp⟩
    · exact htodo d (List.mem_cons_of_mem _ hd)
  | case4 seen c todo hc hn =>
    obtain ⟨n, hfound⟩ := htodo c List.mem_cons_self
    rw [hn] at hfound
    exact absurd hfound (by simp)

/-- The walk sees nothing but what was seen before and what its starts reach. -/
theorem mem_reach_sound (h : g.reach seen todo = .ok out) (hc : c ∈ out) :
    c ∈ seen ∨ ∃ t ∈ todo, g.Reaches t c := by
  fun_induction g.reach seen todo with
  | case1 seen =>
    simp only [Except.ok.injEq] at h
    exact .inl (h ▸ hc)
  | case2 seen d todo hd ih =>
    refine (ih h).imp_right ?_
    intro h
    obtain ⟨t, ht, hr⟩ := h
    exact ⟨t, List.mem_cons_of_mem _ ht, hr⟩
  | case3 seen d todo hd n hn ih =>
    rcases ih h with hs | ⟨t, ht, hr⟩
    · rcases List.mem_cons.1 hs with rfl | hs
      · exact .inr ⟨c, List.mem_cons_self, .refl⟩
      · exact .inl hs
    · rcases List.mem_append.1 ht with hp | ht
      · exact .inr ⟨d, List.mem_cons_self, .head ⟨n, hn, hp⟩ hr⟩
      · exact .inr ⟨t, List.mem_cons_of_mem _ ht, hr⟩
  | case4 => simp at h

/-- A commit that is seen has every parent seen or waiting. -/
def Frontier (g : Dag) (seen todo : List CommitId) : Prop :=
  ∀ c ∈ seen, ∀ p, g.IsParent c p → p ∈ seen ∨ p ∈ todo

/-- Nothing is seen at the start. -/
theorem frontier_nil (todo : List CommitId) : g.Frontier [] todo := by
  intro c hc
  simp at hc

/-- A commit that is seen already need not wait. -/
theorem Frontier.skip (hf : g.Frontier seen (c :: todo)) (hc : c ∈ seen) :
    g.Frontier seen todo := by
  intro d hd p hp
  rcases hf d hd p hp with h | h
  · exact .inl h
  · rcases List.mem_cons.1 h with rfl | h
    · exact .inl hc
    · exact .inr h

/-- A commit that is seen for the first time makes its parents wait. -/
theorem Frontier.visit {n : Node} (hf : g.Frontier seen (c :: todo)) (hn : g.find? c = some n) :
    g.Frontier (c :: seen) (n.parents ++ todo) := by
  intro d hd p hp
  rcases List.mem_cons.1 hd with rfl | hd
  · obtain ⟨m, hm, hp⟩ := hp
    rw [hn] at hm
    cases hm
    exact .inr (List.mem_append_left _ hp)
  · rcases hf d hd p hp with h | h
    · exact .inl (List.mem_cons_of_mem _ h)
    · rcases List.mem_cons.1 h with rfl | h
      · exact .inl List.mem_cons_self
      · exact .inr (List.mem_append_right _ h)

/-- The walk keeps what was seen, sees its starts, and ends closed under parents. -/
theorem reach_closed (h : g.reach seen todo = .ok out) (hf : g.Frontier seen todo) :
    (∀ c ∈ seen, c ∈ out) ∧ (∀ c ∈ todo, c ∈ out) ∧ g.Frontier out [] := by
  fun_induction g.reach seen todo with
  | case1 seen =>
    simp only [Except.ok.injEq] at h
    subst h
    exact ⟨fun c hc => hc, by simp, hf⟩
  | case2 seen d todo hd ih =>
    have hmem : d ∈ seen := by simpa using hd
    obtain ⟨hseen, htodo, hend⟩ := ih h (hf.skip hmem)
    refine ⟨hseen, fun c hc => ?_, hend⟩
    rcases List.mem_cons.1 hc with rfl | hc
    · exact hseen c hmem
    · exact htodo c hc
  | case3 seen d todo hd n hn ih =>
    obtain ⟨hseen, htodo, hend⟩ := ih h (hf.visit hn)
    refine ⟨fun c hc => hseen c (List.mem_cons_of_mem _ hc), fun c hc => ?_, hend⟩
    rcases List.mem_cons.1 hc with rfl | hc
    · exact hseen c List.mem_cons_self
    · exact htodo c (List.mem_append_right _ hc)
  | case4 => simp at h

/-- The walk sees exactly what its starts reach. -/
theorem mem_reach_iff (h : g.reach [] todo = .ok out) :
    c ∈ out ↔ ∃ t ∈ todo, g.Reaches t c := by
  constructor
  · intro hc
    simpa using mem_reach_sound h hc
  · intro h
    obtain ⟨t, ht, hr⟩ := h
    obtain ⟨-, hstart, hend⟩ := reach_closed h (frontier_nil todo)
    induction hr with
    | refl => exact hstart t ht
    | tail _ hp ih => simpa using hend _ ih _ hp

/-- The ancestors of a commit of a closed graph are the commits that it reaches. -/
theorem exists_ancestors (hg : g.Closed) (hc : g.Has c) :
    ∃ cs, g.ancestors c = .ok cs ∧ ∀ a, a ∈ cs ↔ g.Reaches c a := by
  have hstart : ∀ d ∈ [c], g.Has d := by simpa using hc
  obtain ⟨cs, hcs⟩ := exists_reach hg [] hstart
  refine ⟨cs, hcs, fun a => ?_⟩
  rw [mem_reach_iff hcs]
  simp

/-- In a closed graph it can be told of any two commits whether one was merged into the other. -/
theorem Closed.exists_isMergedInto (hg : g.Closed) (ha : g.Has a) (hc : g.Has c) :
    ∃ merged, g.isMergedInto a c = .ok merged ∧ (merged = true ↔ g.Reaches c a) := by
  obtain ⟨n, hn⟩ := ha
  obtain ⟨cs, hcs, hmem⟩ := exists_ancestors hg hc
  refine ⟨cs.contains a, ?_, by rw [List.contains_iff_mem, hmem]⟩
  unfold isMergedInto
  rw [node_eq_ok hn, hcs]
  rfl

/-- A commit that is not in the graph has no ancestors there. -/
theorem ancestors_eq_error (hc : g.find? c = none) :
    g.ancestors c = .error (.missingObject c.text) := by
  rw [ancestors, reach, dif_neg (by simp)]
  split
  · next hn =>
    rw [hc] at hn
    cases hn
  · rfl

/-- Looking both commits up first makes no difference. -/
theorem isMergedInto_of_nodes {merged : CommitId → CommitId → Except Failure Bool}
    (h : g.Has a → g.Has c → merged a c = g.isMergedInto a c) :
    (do
      let m ← g.node a
      let n ← g.node c
      merged m.id n.id) = g.isMergedInto a c := by
  unfold node
  cases ha : g.find? a with
  | none => simp [isMergedInto, node, ha, bind, Except.bind]
  | some m =>
    cases hc : g.find? c with
    | none => simp [isMergedInto, node, ha, ancestors_eq_error hc, bind, Except.bind]
    | some n =>
      show merged m.id n.id = _
      rw [id_of_find? ha, id_of_find? hc]
      exact h ⟨m, ha⟩ ⟨n, hc⟩

end NextBuild.Dag
