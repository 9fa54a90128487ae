import NextBuild.Graph.Meeting
import NextBuild.Proofs.Graph.Ancestry
import NextBuild.Proofs.Graph.Runs

/-!
# Merge bases

The merge base of two commits is one of their best common ancestors: those that no other common
ancestor has among its strict ancestors.  When one of the two commits is an ancestor of the other,
it is the only best one, and so the merge base tells ancestors from commits that are not related.
-/

namespace NextBuild.Dag

variable {g : Dag} {a b c : CommitId}

/-- Both commits reach the third one. -/
def IsCommonAncestor (g : Dag) (a b c : CommitId) : Prop := g.Reaches a c ∧ g.Reaches b c

/-- A common ancestor that is no strict ancestor of another common one. -/
def IsBestCommonAncestor (g : Dag) (a b c : CommitId) : Prop :=
  g.IsCommonAncestor a b c ∧ ∀ d, g.IsCommonAncestor a b d → ¬ g.IsStrictAncestor c d

/-- The two commits may be swapped. -/
theorem isBestCommonAncestor_comm :
    g.IsBestCommonAncestor a b c ↔ g.IsBestCommonAncestor b a c := by
  simp only [IsBestCommonAncestor, IsCommonAncestor, and_comm]

/-- An ancestor of the second commit is a best common ancestor of both, and the only one. -/
theorem Acyclic.isBestCommonAncestor_iff_of_reaches (hg : g.Acyclic) (h : g.Reaches b a) :
    g.IsBestCommonAncestor a b c ↔ c = a := by
  have hself : g.IsCommonAncestor a b a := ⟨.refl, h⟩
  constructor
  · intro h
    obtain ⟨⟨hac, -⟩, hbest⟩ := h
    exact (reaches_iff_eq_or_isStrictAncestor.1 hac).resolve_right (hbest a hself)
  · intro heq
    subst heq
    refine ⟨hself, fun d hd hstrict => hg d ?_⟩
    exact hstrict.trans_left hd.1

/-- The commits of a list are looked up one by one. -/
theorem exists_nodes {cs : List CommitId} (h : ∀ c ∈ cs, g.Has c) :
    ∃ ns, cs.mapM g.node = .ok ns ∧ ns.map (·.id) = cs := by
  have hnode : ∀ c ∈ cs, ∃ n, g.node c = .ok n ∧ c = n.id := by
    intro c hc
    obtain ⟨n, hn⟩ := h c hc
    exact ⟨n, node_eq_ok hn, (id_of_find? hn).symm⟩
  obtain ⟨ns, hns, hids⟩ := exists_mapM hnode
  refine ⟨ns, hns, ?_⟩
  rw [← List.forall₂_eq_eq_eq, List.forall₂_map_left_iff]
  exact hids.flip.imp fun _ _ h => h.symm

/-- A list of commits of the graph is put into its order without loss. -/
theorem exists_newestFirst {cs : List CommitId} (h : ∀ c ∈ cs, g.Has c) :
    ∃ es, g.newestFirst cs = .ok es ∧ (es.map (·.commit)).Perm cs := by
  obtain ⟨ns, hns, hcs⟩ := exists_nodes h
  refine ⟨(ns.mergeSort isNewer).map fun n => ⟨n.id, n.time⟩, ?_, ?_⟩
  · unfold newestFirst
    rw [hns]
    rfl
  · rw [List.map_map, ← hcs]
    exact (List.mergeSort_perm ns isNewer).map _

/-- The parents of a list of commits of the graph are found. -/
theorem exists_parents {cs : List CommitId} (h : ∀ c ∈ cs, g.Has c) :
    ∃ ps, (cs.mapM fun c => (g.node c).map (·.parents)) = .ok ps ∧
      ∀ p, p ∈ ps.flatten ↔ ∃ c ∈ cs, g.IsParent c p := by
  have hnode : ∀ c ∈ cs, ∃ ps, (g.node c).map (·.parents) = .ok ps ∧
      ∀ p, p ∈ ps ↔ g.IsParent c p := by
    intro c hc
    obtain ⟨n, hn⟩ := h c hc
    refine ⟨n.parents, by rw [node_eq_ok hn]; rfl, fun p => ?_⟩
    simp [IsParent, hn]
  obtain ⟨ps, hps, hall⟩ := exists_mapM hnode
  refine ⟨ps, hps, fun p => ?_⟩
  clear hps hnode h
  induction hall with
  | nil => simp
  | cons hhead _ ih => simp [hhead p, ih]

/-- The best common ancestors are computed. -/
theorem exists_bestCommonAncestors (hg : g.Closed) (ha : g.Has a) (hb : g.Has b) :
    ∃ best, g.bestCommonAncestors a b = .ok best ∧
      ∀ c, c ∈ best ↔ g.IsBestCommonAncestor a b c := by
  obtain ⟨left, hleft, hmemLeft⟩ := exists_ancestors hg ha
  obtain ⟨right, hright, hmemRight⟩ := exists_ancestors hg hb
  let common := left.filter right.contains
  have hcommon (c : CommitId) : c ∈ common ↔ g.IsCommonAncestor a b c := by
    simp [common, IsCommonAncestor, hmemLeft, hmemRight]
  have hhas : ∀ c ∈ common, g.Has c := fun c hc =>
    hg.has_of_reaches ha ((hcommon c).1 hc).1
  obtain ⟨ps, hps, hmemParents⟩ := exists_parents hhas
  have hstart : ∀ p ∈ ps.flatten, g.Has p := by
    intro p hp
    obtain ⟨c, -, hcp⟩ := (hmemParents p).1 hp
    exact hg c p hcp
  obtain ⟨shadowed, hshadowed⟩ := exists_reach hg [] hstart
  -- What a parent of a common ancestor reaches is a strict ancestor of a common one.
  have hmemShadowed (c : CommitId) :
      c ∈ shadowed ↔ ∃ d, g.IsCommonAncestor a b d ∧ g.IsStrictAncestor c d := by
    rw [mem_reach_iff hshadowed]
    constructor
    · intro h
      obtain ⟨p, hp, hpc⟩ := h
      obtain ⟨d, hd, hdp⟩ := (hmemParents p).1 hp
      exact ⟨d, (hcommon d).1 hd, .head' hdp hpc⟩
    · intro h
      obtain ⟨d, hd, hdc⟩ := h
      obtain ⟨p, hdp, hpc⟩ := Relation.TransGen.head'_iff.1 hdc
      exact ⟨p, (hmemParents p).2 ⟨d, (hcommon d).2 hd, hdp⟩, hpc⟩
  refine ⟨common.filter fun c => !shadowed.contains c, ?_, fun c => ?_⟩
  · unfold bestCommonAncestors
    rw [hleft, hright]
    show (common.mapM fun c => (g.node c).map (·.parents)) >>= _ = _
    rw [hps]
    show g.reach [] ps.flatten >>= _ = _
    rw [hshadowed]
    rfl
  · simp [List.mem_filter, hcommon, hmemShadowed, IsBestCommonAncestor]

/-- The first of the best common ancestors, in any order, is one of them and is there when one is. -/
theorem head?_of_perm_best {best cs : List CommitId}
    (hmem : ∀ c, c ∈ best ↔ g.IsBestCommonAncestor a b c) (hperm : cs.Perm best) :
    (∀ c, cs.head? = some c → g.IsBestCommonAncestor a b c) ∧
      (cs.head? = none → ∀ c, ¬ g.IsBestCommonAncestor a b c) := by
  refine ⟨fun c hc => ?_, fun hnone c hc => ?_⟩
  · rw [← hmem, ← hperm.mem_iff]
    exact List.mem_of_head? hc
  · rw [← hmem, ← hperm.mem_iff, List.head?_eq_none_iff.1 hnone] at hc
    cases hc

/-- The merge base is a best common ancestor, and is there when one is. -/
theorem exists_mergeBase (hg : g.Closed) (ha : g.Has a) (hb : g.Has b) :
    ∃ base, g.mergeBase a b = .ok base ∧ (∀ c, base = some c → g.IsBestCommonAncestor a b c) ∧
      (base = none → ∀ c, ¬ g.IsBestCommonAncestor a b c) := by
  obtain ⟨best, hbest, hmem⟩ := exists_bestCommonAncestors hg ha hb
  have hhas : ∀ c ∈ best, g.Has c := fun c hc => hg.has_of_reaches ha ((hmem c).1 hc).1.1
  obtain ⟨es, hes, hperm⟩ := exists_newestFirst hhas
  refine ⟨(es.map (·.commit)).head?, ?_, head?_of_perm_best hmem hperm⟩
  rw [mergeBase, hbest, ok_bind, hes, ok_bind, List.head?_map]
  rfl

/-- So is the point at which two histories meet. -/
theorem exists_meetingPoint (hg : g.Closed) (ha : g.Has a) (hb : g.Has b) :
    ∃ base, g.meetingPoint a b = .ok base ∧ (∀ c, base = some c → g.IsBestCommonAncestor a b c) ∧
      (base = none → ∀ c, ¬ g.IsBestCommonAncestor a b c) := by
  obtain ⟨best, hbest, hmem⟩ := exists_bestCommonAncestors hg ha hb
  have hhas : ∀ c ∈ best, g.Has c := fun c hc => hg.has_of_reaches ha ((hmem c).1 hc).1.1
  obtain ⟨ns, hns, rfl⟩ := exists_nodes hhas
  let sorted := ns.mergeSort (isPreferred (Meeting.between g a b).found)
  have hperm : (sorted.map (·.id)).Perm (ns.map (·.id)) := (List.mergeSort_perm ns _).map _
  refine ⟨(sorted.map (·.id)).head?, ?_, head?_of_perm_best hmem hperm⟩
  rw [meetingPoint, hbest, ok_bind, hns, ok_bind, List.head?_map]
  rfl

/-- In a graph without cycles any best common ancestor tells, taken as merge base, whether one of the
two commits is an ancestor of the other. -/
theorem Acyclic.base_eq_iff (hg : g.Acyclic) {base : Option CommitId}
    (hsome : ∀ c, base = some c → g.IsBestCommonAncestor a b c)
    (hnone : base = none → ∀ c, ¬ g.IsBestCommonAncestor a b c) :
    (base = some a ↔ g.Reaches b a) ∧ (base = some b ↔ g.Reaches a b) := by
  have honly {d : CommitId} (hd : ∀ c, g.IsBestCommonAncestor a b c ↔ c = d) : base = some d := by
    cases base with
    | none => exact absurd ((hd d).2 rfl) (hnone rfl d)
    | some c => rw [(hd c).1 (hsome c rfl)]
  refine ⟨⟨fun h => (hsome a h).1.2, fun h => ?_⟩, ⟨fun h => (hsome b h).1.1, fun h => ?_⟩⟩
  · exact honly fun c => hg.isBestCommonAncestor_iff_of_reaches h
  · exact honly fun c => isBestCommonAncestor_comm.trans (hg.isBestCommonAncestor_iff_of_reaches h)

/-- In a graph without cycles the merge base is one of the two commits exactly when this one is an
ancestor of the other. -/
theorem exists_mergeBase_of_acyclic (hclosed : g.Closed) (hacyclic : g.Acyclic) (ha : g.Has a)
    (hb : g.Has b) :
    ∃ base, g.mergeBase a b = .ok base ∧ (base = some a ↔ g.Reaches b a) ∧
      (base = some b ↔ g.Reaches a b) := by
  obtain ⟨base, hbase, hsome, hnone⟩ := exists_mergeBase hclosed ha hb
  exact ⟨base, hbase, hacyclic.base_eq_iff hsome hnone⟩

end NextBuild.Dag
