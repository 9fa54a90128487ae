import NextBuild.Proofs.Graph.Insertions
import NextBuild.Proofs.Graph.Replacement

/-!
# The newest of the best common ancestors

Where histories cross, two commits have more than one best common ancestor.  The merge base is the
newest of them, by time and of the same time by the order in which the commits were added.  This
order has no two commits at the same place, so the newest one of several commits is determined by
what they are, and the merge base neither depends on the order in which its candidates are found nor
on which of the two commits comes first.
-/

namespace NextBuild

namespace Dag

variable {g : Dag} {a b c d : CommitId} {cs : List CommitId} {n : Node}

/-- The number of commits that were added before a commit of the graph. -/
def place (g : Dag) (c : CommitId) : Nat := g.ids.idxOf c

/-- The first commit is older than the second, or of the same time and added before it. -/
def CameBefore (g : Dag) (c d : CommitId) : Prop :=
  g.timeOf c < g.timeOf d ∨ g.timeOf c = g.timeOf d ∧ g.place c < g.place d

/-- The commit has the property, and all others that have it came before. -/
def IsNewest (g : Dag) (P : CommitId → Prop) (c : CommitId) : Prop :=
  P c ∧ ∀ d, P d → d ≠ c → g.CameBefore d c

/-- Of two commits one came before at most. -/
theorem CameBefore.asymm (h : g.CameBefore c d) : ¬ g.CameBefore d c := by
  unfold CameBefore at *
  rw [Int64.lt_iff_toInt_lt, ← Int64.toInt_inj] at *
  omega

/-- No two commits are the newest that have a property. -/
theorem IsNewest.eq {P : CommitId → Prop} (hc : g.IsNewest P c) (hd : g.IsNewest P d) : c = d := by
  by_contra hne
  exact (hc.2 d hd.1 (Ne.symm hne)).asymm (hd.2 c hc.1 hne)

/-- The time of a commit is that of its node. -/
theorem timeOf_of_find? (hn : g.find? c = some n) : g.timeOf c = n.time := by
  rw [timeOf, hn]
  rfl

/-- The number of a commit is its place. -/
theorem Ranked.place_eq (hg : g.Ranked) (hn : g.find? c = some n) : g.place c = n.order := by
  obtain ⟨hid, i, hi, hget, hfirst⟩ := List.find?_eq_some_iff_getElem.1 hn
  have hplace : g.place c = i := by
    have hlength : i < g.ids.length := by simpa [ids] using hi
    rw [place, List.idxOf, List.findIdx_eq hlength]
    simpa [ids, hget] using ⟨by simpa using hid, by simpa using hfirst⟩
  have hnumber : (g.nodes.map (·.order))[i]? = some n.order := by
    rw [List.getElem?_map, List.getElem?_eq_getElem hi, hget]
    rfl
  rw [hg.numbered, List.getElem?_range hi] at hnumber
  rw [hplace]
  exact Option.some.inj hnumber

/-- Of two different commits the one that is first in a log came after the other. -/
theorem Ranked.cameBefore_of_isNewer (hg : g.Ranked) {m : Node} (hn : g.find? n.id = some n)
    (hm : g.find? m.id = some m) (hne : m.id ≠ n.id) (h : isNewer n m = true) :
    g.CameBefore m.id n.id := by
  have horder : m.order ≠ n.order := fun heq =>
    hne (congrArg Node.id (eq_of_order_eq hg.nodup_order hm hn heq))
  rw [isNewer_iff] at h
  rw [CameBefore, timeOf_of_find? hn, timeOf_of_find? hm, hg.place_eq hn, hg.place_eq hm,
    Int64.lt_iff_toInt_lt, ← Int64.toInt_inj]
  omega

/-- The first commit of a log is the newest one on it. -/
theorem Ranked.exists_head?_newestFirst (hg : g.Ranked) (hcs : ∀ c ∈ cs, g.Has c) :
    ∃ es, g.newestFirst cs = .ok es ∧
      ∀ c, es.head?.map (·.commit) = some c ↔ g.IsNewest (· ∈ cs) c := by
  obtain ⟨es, hes, -⟩ := exists_newestFirst hcs
  refine ⟨es, hes, fun c => ?_⟩
  obtain ⟨ns, hns, h⟩ := bind_eq_ok_iff.1 hes
  cases h
  obtain ⟨rfl, hfound⟩ := find?_of_mapM_node hns
  have hperm := List.mergeSort_perm ns isNewer
  have hsorted := List.pairwise_mergeSort isNewer_trans isNewer_total ns
  cases hfirst : ns.mergeSort isNewer with
  | nil =>
    have hnil : ns = [] := (hfirst ▸ hperm).nil_eq.symm
    simp [IsNewest, hnil]
  | cons n ms =>
    rw [hfirst] at hperm hsorted
    have hn : n ∈ ns := hperm.mem_iff.1 List.mem_cons_self
    have hnewest : g.IsNewest (· ∈ ns.map (·.id)) n.id := by
      refine ⟨List.mem_map_of_mem hn, fun d hd hne => ?_⟩
      obtain ⟨m, hm, rfl⟩ := List.mem_map.1 hd
      have hlater : m ∈ ms :=
        (List.mem_cons.1 (hperm.mem_iff.2 hm)).resolve_left fun heq => hne (heq ▸ rfl)
      exact hg.cameBefore_of_isNewer (hfound n hn) (hfound m hm) hne
        (List.rel_of_pairwise_cons hsorted hlater)
    constructor
    · intro h
      exact Option.some.inj h ▸ hnewest
    · intro h
      exact congrArg some (hnewest.eq h)

/-- The merge base is the newest of the best common ancestors. -/
theorem Ranked.exists_mergeBase_newest (hg : g.Ranked) (ha : g.Has a) (hb : g.Has b) :
    ∃ base, g.mergeBase a b = .ok base ∧
      ∀ c, base = some c ↔ g.IsNewest (g.IsBestCommonAncestor a b) c := by
  obtain ⟨best, hbest, hmem⟩ := exists_bestCommonAncestors hg.closed ha hb
  have hhas : ∀ c ∈ best, g.Has c := fun c hc =>
    hg.closed.has_of_reaches ha ((hmem c).1 hc).1.1
  obtain ⟨es, hes, hnewest⟩ := hg.exists_head?_newestFirst hhas
  refine ⟨es.head?.map (·.commit), ?_, fun c => ?_⟩
  · rw [mergeBase, hbest, ok_bind, hes, ok_bind]
    rfl
  · rw [hnewest, funext fun c => propext (hmem c)]

end Dag

namespace MemoryGraph

variable {g : MemoryGraph} {a b : CommitId}

/-- Where each id was added once, the merge base of two commits of a graph is the newest of their
best common ancestors, whichever of the two comes first, and there is none exactly when the commits
have no common ancestor.  It is one of the two commits when this one was merged into the other. -/
theorem Grown.mergeBase_newest (hg : g.Grown) (ha : g.dag.Has a) (hb : g.dag.Has b) :
    ∃ base, g.answers (.mergeBase a b) = .ok base ∧ g.answers (.mergeBase b a) = .ok base ∧
      (base = none ↔ ∀ c, ¬ g.dag.IsCommonAncestor a b c) ∧
      (∀ c, base = some c ↔ g.dag.IsNewest (g.dag.IsBestCommonAncestor a b) c) ∧
      (base = some a ↔ g.dag.Reaches b a) ∧
      (base = some a ↔ g.answers (.isMergedInto a b) = .ok true) := by
  have hranked := hg.ranked_and_refsResolve.1
  obtain ⟨base, hbase, hnewest⟩ := hranked.exists_mergeBase_newest ha hb
  obtain ⟨swapped, hswapped, hnewest'⟩ := hranked.exists_mergeBase_newest hb ha
  have hsame : swapped = base := by
    ext c
    have hcomm : g.dag.IsBestCommonAncestor b a = g.dag.IsBestCommonAncestor a b :=
      funext fun d => propext Dag.isBestCommonAncestor_comm
    rw [hnewest, hnewest', hcomm]
  subst hsame
  have hbest : ∀ c, swapped = some c → g.dag.IsBestCommonAncestor a b c := fun c hc =>
    ((hnewest c).1 hc).1
  obtain ⟨same, hsame, -, hnone⟩ := Dag.exists_mergeBase hranked.closed ha hb
  rw [hbase] at hsame
  cases hsame
  have htells := (hranked.acyclic.base_eq_iff hbest hnone).1
  obtain ⟨merged, hmerged, hreach⟩ := hranked.closed.exists_isMergedInto ha hb
  refine ⟨swapped, hbase, hswapped, ⟨fun heq c hc => ?_, fun hcommon => ?_⟩, hnewest, htells, ?_⟩
  · obtain ⟨d, hd⟩ := hranked.closed.exists_isBestCommonAncestor hranked.acyclic ha hc
    exact hnone heq d hd
  · refine Option.eq_none_iff_forall_ne_some.2 fun c hc => ?_
    exact hcommon c (hbest c hc).1
  · rw [htells, ← hreach]
    show merged = true ↔ g.dag.isMergedInto a b = .ok true
    rw [hmerged, Except.ok.injEq]

/-- Of the two commits that both merges of the example contain, the one that was added last is the
merge base, and it is the newest best common ancestor. -/
theorem mergeBase_newest_crissCross :
    crissCross.Grown ∧ crissCross.dag.Has leftMerge ∧ crissCross.dag.Has rightMerge ∧
      ∃ base, crissCross.answers (.mergeBase leftMerge rightMerge) = .ok base ∧
        crissCross.answers (.mergeBase rightMerge leftMerge) = .ok base ∧
        (base = none ↔ ∀ c, ¬ crissCross.dag.IsCommonAncestor leftMerge rightMerge c) ∧
        (∀ c, base = some c ↔
          crissCross.dag.IsNewest (crissCross.dag.IsBestCommonAncestor leftMerge rightMerge) c) ∧
        (base = some leftMerge ↔ crissCross.dag.Reaches rightMerge leftMerge) ∧
        (base = some leftMerge ↔
          crissCross.answers (.isMergedInto leftMerge rightMerge) = .ok true) ∧
        base = some newerCommit := by
  have hgrown : crissCross.Grown := sameContent_crissCross.2.1
  have hleft : crissCross.dag.Has leftMerge := ⟨_, rfl⟩
  have hright : crissCross.dag.Has rightMerge := ⟨_, rfl⟩
  obtain ⟨base, hbase, hswapped, hnone, hnewest, hreach, hmerged⟩ :=
    hgrown.mergeBase_newest hleft hright
  have hnewer : crissCross.answers (.mergeBase leftMerge rightMerge) = .ok (some newerCommit) :=
    mergeBase_crissCross (d := crissCross.dag) rfl rfl rfl rfl
  exact ⟨hgrown, hleft, hright, base, hbase, hswapped, hnone, hnewest, hreach, hmerged,
    Except.ok.inj (hbase.symm.trans hnewer)⟩

end MemoryGraph

end NextBuild
