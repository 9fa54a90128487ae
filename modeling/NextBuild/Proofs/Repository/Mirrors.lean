import NextBuild.Proofs.Repository.Walks
import NextBuild.Proofs.Selection.Presentation

/-!
# Repositories that a graph in memory can hold

A repository can hold what no graph in memory does, such as references to other references.  Where
its branches and tags point to its commits directly, a graph with the same commits and references is
shown by the answers of the repository, and by those of any library that reads it.
-/

namespace NextBuild

/-- The commits have ids of objects and form a history, and every reference of a branch or a tag
points to one of them. -/
structure Repository.IsDirect (r : Repository) : Prop where
  closed : r.dag.Closed
  acyclic : r.dag.Acyclic
  objectIds : ∀ c, r.dag.Has c → c.isObjectId = true
  targets : ∀ name t, isListed true name = true → r.refs.get? name = some t →
    ∃ c, t = .commit c ∧ r.dag.Has c

/-- The graph holds the commits of the repository and its references of branches and tags, and lists
local branches alike. -/
structure MemoryGraph.Mirrors (g : MemoryGraph) (r : Repository) : Prop where
  commits : r.dag.SameCommits g.dag
  refs : ∀ name c, isListed true name = true →
    (g.refs.get? name = some c ↔ r.refs.get? name = some (.commit c))
  localBranches : g.localBranches = r.localBranches

/-- The library reads the repository: it lists all its references in some order, finds a best common
ancestor of two commits or none if they have no common ancestor, and tells which commits are strict
ancestors. -/
structure Library.Reads (l : Library) (r : Repository) : Prop where
  references : ∃ entries : List (String × RefTarget), l.references = .ok (entries.map .ok) ∧
    entries.Perm (r.refs.entries.filter fun e => Text.startsWith "refs/" e.1)
  mergeBase : ∀ a b, r.dag.Has a → r.dag.Has b →
    (∃ c, l.mergeBase a b = .ok c ∧ r.dag.IsBestCommonAncestor a b c) ∨
      (∃ f, l.mergeBase a b = .error f ∧ f.notFound = true) ∧ ∀ c, ¬ r.dag.IsCommonAncestor a b c
  descends : ∀ a c, r.dag.Has a → r.dag.Has c →
    ∃ merged, l.descends c a = .ok merged ∧ (merged = true ↔ r.dag.IsStrictAncestor a c)

variable {g : MemoryGraph} {r : Repository} {l : Library} {a c : CommitId} {name : String}

namespace Repository

/-- The branch that a direct reference is. -/
def directBranch? (e : String × RefTarget) : Option Branch :=
  match e.2 with
  | .commit c => some ⟨displayName e.1, c⟩
  | _ => none

/-- The entries of the references that are listed. -/
def listedRefs (r : Repository) : List (String × RefTarget) :=
  r.refs.entries.filter fun e => isListed r.localBranches e.1

/-- A listed reference points at a commit of the repository. -/
theorem IsDirect.exists_target (hr : r.IsDirect) {e : String × RefTarget} (he : e ∈ r.listedRefs) :
    ∃ c, e.2 = .commit c ∧ r.dag.Has c := by
  obtain ⟨hmem, hlisted⟩ := List.mem_filter.1 he
  exact hr.targets e.1 e.2 (isListed_true hlisted)
    ((Table.lookup_eq_some_iff r.refs.ascending).2 hmem)

/-- A listed reference gives the branch at its commit. -/
theorem IsDirect.branch_eq (hr : r.IsDirect) {e : String × RefTarget} (he : e ∈ r.listedRefs) :
    r.branch e = .ok (directBranch? e) := by
  obtain ⟨c, hc, -⟩ := hr.exists_target he
  obtain ⟨name, t⟩ := e
  cases hc
  rfl

end Repository

namespace Library.Reads

/-- A library lists the direct references that are listed, in the order of their names. -/
theorem exists_branches (hl : l.Reads r) (hr : r.IsDirect) :
    ∃ bs : List Branch, bs.Perm (r.listedRefs.filterMap Repository.directBranch?) ∧
      l.branches r = .ok (bs.mergeSort fun a b => Text.le a.name b.name) := by
  obtain ⟨entries, hentries, hperm⟩ := hl.references
  let found : String × RefTarget → Option Branch := fun e =>
    if isListed r.localBranches e.1 then Repository.directBranch? e else none
  have hbranch : ∀ e ∈ entries, Library.branch r (.ok e) = .ok (found e) := by
    intro e he
    have hmem := (List.mem_filter.1 (hperm.mem_iff.1 he)).1
    show (if isListed r.localBranches e.1 then r.branch e else .ok none) = _
    dsimp only [found]
    split
    · next hlisted => exact hr.branch_eq (List.mem_filter.2 ⟨hmem, hlisted⟩)
    · rfl
  have hall : (entries.map Except.ok).mapM (Library.branch r) = .ok (entries.map found) := by
    rw [List.mapM_map]
    exact mapM_eq_ok hbranch
  refine ⟨entries.filterMap found, (hperm.filterMap found).trans (.of_eq ?_), ?_⟩
  · rw [Repository.listedRefs, List.filterMap_filter, List.filterMap_filter]
    refine List.filterMap_congr fun e _ => ?_
    by_cases hlisted : isListed r.localBranches e.1 = true
    · simp [found, hlisted, startsWith_refs_of_isListed hlisted]
    · simp [found, hlisted]
  · unfold Library.branches
    rw [hentries]
    show (entries.map Except.ok).mapM (Library.branch r) >>= _ = _
    rw [hall, ok_bind, List.filterMap_map]
    rfl

/-- What a library tells of two commits is what the walk from the later one finds. -/
theorem verdict_eq (hl : l.Reads r) (hr : r.IsDirect) (ha : r.dag.Has a) (hc : r.dag.Has c) :
    l.verdict a c = r.dag.isMergedInto a c := by
  obtain ⟨merged, hmerged, hreaches⟩ := hr.closed.exists_isMergedInto ha hc
  obtain ⟨strict, hstrict, hdescends⟩ := hl.descends a c ha hc
  rw [hmerged, Library.verdict, hstrict]
  split
  · next heq => rw [hreaches.2 (Dag.reaches_iff_eq_or_isStrictAncestor.2 (.inl heq))]
  · next hne =>
    refine congrArg Except.ok (Bool.eq_iff_iff.2 ?_)
    rw [hdescends, hreaches, Dag.reaches_iff_eq_or_isStrictAncestor, or_iff_right hne]

/-- What a library tells of the merge base of two commits is a best common ancestor, if they have any
common ancestor. -/
theorem exists_base (hl : l.Reads r) (ha : r.dag.Has a) (hc : r.dag.Has c) :
    ∃ base, l.base a c = .ok base ∧ (∀ m, base = some m → r.dag.IsBestCommonAncestor a c m) ∧
      (base = none → ∀ m, ¬ r.dag.IsCommonAncestor a c m) := by
  unfold Library.base
  rcases hl.mergeBase a c ha hc with ⟨m, hm, hbest⟩ | ⟨⟨f, hf, hnotFound⟩, hnone⟩
  · refine ⟨some m, by rw [hm]; rfl, fun m' hm' => ?_, by simp⟩
    cases hm'
    exact hbest
  · exact ⟨none, by rw [hf]; simp [hnotFound, pure, Except.pure], by simp, fun _ => hnone⟩

end Library.Reads

namespace MemoryGraph.Mirrors

/-- The listed references are those of the graph. -/
theorem listed_eq (h : g.Mirrors r) (hr : r.IsDirect) :
    r.listedRefs = (g.refs.entries.filter fun e => isListed g.localBranches e.1).map
      fun e => (e.1, .commit e.2) := by
  let t : Table RefTarget := ⟨r.listedRefs, r.refs.ascending.filter _⟩
  let u : Table RefTarget := ⟨(g.refs.entries.filter fun e => isListed g.localBranches e.1).map
    fun e => (e.1, .commit e.2), List.pairwise_map.2 (g.refs.ascending.filter _)⟩
  refine congrArg Table.entries (Table.ext_get? (t := t) (u := u) fun name => ?_)
  ext target
  rw [Table.get?, Table.get?, Table.lookup_eq_some_iff t.ascending,
    Table.lookup_eq_some_iff u.ascending]
  simp only [t, u, Repository.listedRefs, List.mem_filter, List.mem_map, Prod.mk.injEq, Prod.exists,
    ← Table.lookup_eq_some_iff r.refs.ascending, ← Table.lookup_eq_some_iff g.refs.ascending]
  constructor
  · rintro ⟨htarget, hlisted⟩
    obtain ⟨c, rfl, -⟩ := hr.targets name target (isListed_true hlisted) htarget
    exact ⟨name, c, ⟨(h.refs name c (isListed_true hlisted)).2 htarget, h.localBranches ▸ hlisted⟩,
      rfl, rfl⟩
  · rintro ⟨name, c, ⟨hc, hlisted⟩, rfl, rfl⟩
    exact ⟨(h.refs name c (isListed_true hlisted)).1 hc, h.localBranches ▸ hlisted⟩

/-- The branches of the graph are those of the repository. -/
theorem perm_branches (h : g.Mirrors r) (hr : r.IsDirect) :
    g.branches.Perm (r.listedRefs.filterMap Repository.directBranch?) := by
  rw [h.listed_eq hr, List.filterMap_map]
  unfold branches
  rw [← List.filterMap_eq_map]
  exact List.mergeSort_perm _ _

/-- Branches that are sorted by name are listed as the graph lists them. -/
theorem sameListing (h : g.Mirrors r) (hr : r.IsDirect) {bs : List Branch}
    (hbs : bs.Perm (r.listedRefs.filterMap Repository.directBranch?)) :
    SameListing g.branches (bs.mergeSort fun a b => Text.le a.name b.name) where
  perm := ((h.perm_branches hr).trans hbs.symm).trans (List.mergeSort_perm bs _).symm
  sorted := Text.pairwise_mergeSort_le Branch.name _
  sorted' := Text.pairwise_mergeSort_le Branch.name bs

/-- The graph holds a history. -/
theorem isHistory (h : g.Mirrors r) (hr : r.IsDirect) : g.IsHistory where
  closed := h.commits.closed hr.closed
  acyclic := h.commits.acyclic hr.acyclic
  listed b hb := by
    obtain ⟨e, he, hbranch⟩ := List.mem_filterMap.1 ((h.perm_branches hr).mem_iff.1 hb)
    obtain ⟨c, hc, hhas⟩ := hr.exists_target he
    rw [Repository.directBranch?, hc] at hbranch
    cases hbranch
    exact ⟨h.commits.has_iff.1 hhas, hr.objectIds c hhas⟩

/-- A commit is looked up alike by the id of an object. -/
theorem commitTime_eq (h : g.Mirrors r) (hc : c.isObjectId = true) :
    (r.node c).map (·.time) = g.answers (.commitTime c) := by
  rw [Repository.node, if_pos hc]
  exact h.commits.time_eq c

/-- Two commits are looked up alike by ids of objects. -/
theorem isMergedInto_eq (h : g.Mirrors r) (ha : a.isObjectId = true) (hc : c.isObjectId = true)
    {merged : CommitId → CommitId → Except Failure Bool}
    (hmerged : r.dag.Has a → r.dag.Has c → merged a c = r.dag.isMergedInto a c) :
    (do
      let m ← r.node a
      let n ← r.node c
      merged m.id n.id) = g.answers (.isMergedInto a c) := by
  rw [Repository.node, if_pos ha, Repository.node, if_pos hc, Dag.isMergedInto_of_nodes hmerged]
  exact h.commits.isMergedInto_eq a c

/-- Two commits of the graph are found in the repository. -/
theorem node_bind_node {α : Type} (h : g.Mirrors r) (hr : r.IsDirect) (ha : g.dag.Has a)
    (hc : g.dag.Has c) (k : CommitId → CommitId → Except Failure α) :
    (do
      let m ← r.node a
      let n ← r.node c
      k m.id n.id) = k a c := by
  obtain ⟨m, hm⟩ := h.commits.has_iff.2 ha
  obtain ⟨n, hn⟩ := h.commits.has_iff.2 hc
  rw [Repository.node, if_pos (hr.objectIds a ⟨m, hm⟩), Repository.node,
    if_pos (hr.objectIds c ⟨n, hn⟩), Dag.node_eq_ok hm, Dag.node_eq_ok hn, ok_bind, ok_bind,
    Dag.id_of_find? hm, Dag.id_of_find? hn]

/-- The answers of the repository show the graph. -/
theorem shownBy_answers (h : g.Mirrors r) (hr : r.IsDirect) : g.ShownBy r.answers where
  references := by
    have hfound : r.listedRefs.mapM r.branch = .ok (r.listedRefs.map Repository.directBranch?) :=
      mapM_eq_ok fun e he => hr.branch_eq he
    refine ⟨_, ?_, h.sameListing hr (.refl _)⟩
    show r.branches = _
    unfold Repository.branches
    unfold Repository.listedRefs at hfound ⊢
    rw [hfound, ok_bind, List.filterMap_map]
    rfl
  openWalk := rfl
  commitTime _ hc := h.commitTime_eq hc
  isMergedInto _ _ ha hc := h.isMergedInto_eq ha hc fun _ _ => rfl
  mergeBase a b ha hb := by
    obtain ⟨base, hbase, hsome, hnone⟩ :=
      Dag.exists_meetingPoint hr.closed (h.commits.has_iff.2 ha) (h.commits.has_iff.2 hb)
    refine ⟨base, (h.node_bind_node hr ha hb _).trans hbase, fun m hm => ?_, fun hm m => ?_⟩
    · exact h.commits.isBestCommonAncestor_iff.1 (hsome m hm)
    · exact fun hbest => hnone hm m (h.commits.isBestCommonAncestor_iff.2 hbest)

/-- The answers of a library that reads the repository show the graph. -/
theorem shownBy_library (h : g.Mirrors r) (hr : r.IsDirect) (hl : l.Reads r) :
    g.ShownBy (l.answers r) where
  references := by
    obtain ⟨bs, hbs, hl⟩ := hl.exists_branches hr
    exact ⟨_, hl, h.sameListing hr hbs⟩
  openWalk := rfl
  commitTime _ hc := h.commitTime_eq hc
  isMergedInto a c ha hc :=
    (l.faithful_nil.fst_isMergedInto r a c).trans (h.isMergedInto_eq ha hc (hl.verdict_eq hr))
  mergeBase a b ha hb := by
    obtain ⟨base, hbase, hsome, hnone⟩ :=
      hl.exists_base (h.commits.has_iff.2 ha) (h.commits.has_iff.2 hb)
    refine ⟨base, (h.node_bind_node hr ha hb l.base).trans hbase, fun m hm => ?_, fun hm m => ?_⟩
    · exact h.commits.isBestCommonAncestor_iff.1 (hsome m hm)
    · exact fun hbest => hnone hm m (h.commits.isBestCommonAncestor_iff.2 hbest).1

end MemoryGraph.Mirrors

end NextBuild
