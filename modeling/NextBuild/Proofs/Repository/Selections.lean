import NextBuild.Proofs.Graph.Replacement
import NextBuild.Proofs.Repository.Mirrors
import NextBuild.Proofs.Selection.Rebuilds

/-!
# The same selections from a repository and from memory

A repository and a graph in memory that hold the same commits and references give the same
selections, whichever way the library behind the repository lists references and picks merge bases,
and whatever walks keep.  Only ids that are no ids of objects tell them apart: a repository refuses
these, while a graph in memory misses a commit.  A build that repeats the last one within bounds asks
for such an id if the last build has one.
-/

namespace NextBuild

variable {g g' : MemoryGraph} {r : Repository} {l : Library} {s : Strategy} {inner : BaseStrategy}
  {req : Request} {ledger : Ledger}

/-- A repository and a graph in memory that holds the same commits and references give the same
selections over all listed branches, bounded or not, and with or without what walks keep.  Ids that
bounds ask for have to be ids of objects. -/
theorem MemoryGraph.Mirrors.selections_eq (h : g.Mirrors r) (hr : r.IsDirect) (hl : l.Reads r)
    (hinner : s.inner? = some inner) (hone : inner.resolvesOne req = false)
    (hasks : s.AsksObjects req ledger) :
    (((s.select req ledger).runWith (l.answersInWalk r)).run []).1 =
        (((s.select req ledger).runWith g.answersInWalk).run {}).1 ∧
      (((s.select req ledger).runWith g.answersInWalk).run {}).1 =
        (s.select req ledger).run g.answers ∧
      (s.select req ledger).run r.answers = (s.select req ledger).run g.answers := by
  have hg := h.isHistory hr
  have hlibrary := (h.shownBy_library hr hl).run_select hg hinner hone hasks
  have hrepository := (h.shownBy_answers hr).run_select hg hinner hone hasks
  have hwalk := g.runWith_answersInWalk (s.select req ledger)
  exact ⟨(l.runWith_answersInWalk r _).trans (hlibrary.trans hwalk.symm), hwalk, hrepository⟩

/-! ## A repository with the content of a graph -/

/-- The repository with the commits and references of a graph. -/
def MemoryGraph.stored (g : MemoryGraph) : Repository where
  dag := g.dag
  refs := ⟨g.refs.entries.map fun e => (e.1, .commit e.2), List.pairwise_map.2 g.refs.ascending⟩
  fetchHead := none
  localBranches := g.localBranches

/-- The references are stored as they are. -/
theorem MemoryGraph.get?_stored {name : String} {t : RefTarget} :
    g.stored.refs.get? name = some t ↔ ∃ c, t = .commit c ∧ g.refs.get? name = some c := by
  rw [Table.get?, Table.lookup_eq_some_iff g.stored.refs.ascending]
  simp only [stored, List.mem_map, Prod.mk.injEq, Prod.exists,
    ← Table.lookup_eq_some_iff g.refs.ascending]
  constructor
  · rintro ⟨name, c, hc, rfl, rfl⟩
    exact ⟨c, rfl, hc⟩
  · rintro ⟨c, rfl, hc⟩
    exact ⟨name, c, hc, rfl, rfl⟩

/-- A graph that was built up is stored in a repository that it can hold. -/
theorem MemoryGraph.Grown.isDirect_stored (hg : g.Grown)
    (hids : ∀ c ∈ g.dag.ids, c.isObjectId = true) : g.stored.IsDirect where
  closed := hg.ranked_and_refsResolve.1.closed
  acyclic := hg.ranked_and_refsResolve.1.acyclic
  objectIds c hc := hids c (Dag.mem_ids_iff.2 hc)
  targets name t _ ht := by
    obtain ⟨c, rfl, hc⟩ := get?_stored.1 ht
    refine ⟨c, rfl, hg.ranked_and_refsResolve.2 (name, c) ?_⟩
    exact (Table.lookup_eq_some_iff g.refs.ascending).1 hc

/-- Graphs with the same content hold the same repository. -/
theorem MemoryGraph.SameContent.mirrors_stored (h : SameContent g g') : g'.Mirrors g.stored where
  commits := h.commits
  refs name c _ := by
    rw [get?_stored, ← h.refs]
    simp
  localBranches := h.localBranches.symm

/-- The library that lists references by name and takes the point where two histories meet last for
their merge base. -/
def Repository.library (r : Repository) : Library where
  references := .ok ((r.refs.entries.filter fun e => Text.startsWith "refs/" e.1).map .ok)
  mergeBase a b := match r.dag.meetingPoint a b with
    | .ok (some c) => .ok c
    | .ok none => .error ⟨true, "no merge base found"⟩
    | .error f => .error ⟨false, f.message⟩
  descends c a :=
    if a = c then .ok false
    else (r.dag.isMergedInto a c).mapError fun f => ⟨false, f.message⟩

/-- The library of the model reads the repository. -/
theorem Repository.IsDirect.reads_library (hr : r.IsDirect) : r.library.Reads r where
  references := ⟨_, rfl, .refl _⟩
  mergeBase a b ha hb := by
    obtain ⟨base, hbase, hsome, hnone⟩ := Dag.exists_meetingPoint hr.closed ha hb
    cases base with
    | some c => exact .inl ⟨c, by simp only [library, hbase], hsome c rfl⟩
    | none =>
      refine .inr ⟨⟨⟨true, "no merge base found"⟩, by simp only [library, hbase], rfl⟩,
        fun c hc => ?_⟩
      obtain ⟨d, hd⟩ := hr.closed.exists_isBestCommonAncestor hr.acyclic ha hc
      exact hnone rfl d hd
  descends a c ha hc := by
    obtain ⟨merged, hmerged, hreaches⟩ := hr.closed.exists_isMergedInto ha hc
    unfold library
    by_cases hac : a = c
    · subst hac
      exact ⟨false, by simp, by simpa using hr.acyclic a⟩
    · refine ⟨merged, by simp [hac, hmerged, Except.mapError], ?_⟩
      rw [hreaches, hr.acyclic.isStrictAncestor_iff, and_iff_right hac]

namespace MemoryGraph

/-! ## Examples -/

/-- A build of one of the two merges of the example. -/
def leftBuild : Build := ⟨.labelled leftMerge "origin/left", none, 1, .success⟩

/-- The merges of the example are selected alike from a repository and from a graph in memory to
which the commits were added in another order. -/
theorem selections_eq_crissCross :
    let strategy : Strategy := .prioritized (.inverse ⟨[]⟩) ⟨none, some olderCommit⟩ ["origin/right"]
    let request : Request := ⟨false, none, [], ⟨2024, 1, 31⟩, 0⟩
    let ledger := Ledger.empty.record leftBuild
    let repository := crissCross.stored
    let selection := strategy.select request ledger
    mirrored.Mirrors repository ∧ repository.IsDirect ∧ repository.library.Reads repository ∧
      strategy.inner? = some (.inverse ⟨[]⟩) ∧
      (BaseStrategy.inverse ⟨[]⟩).resolvesOne request = false ∧
      strategy.AsksObjects request ledger ∧
      ((selection.runWith (repository.library.answersInWalk repository)).run []).1 =
          ((selection.runWith mirrored.answersInWalk).run {}).1 ∧
        ((selection.runWith mirrored.answersInWalk).run {}).1 = selection.run mirrored.answers ∧
        selection.run repository.answers = selection.run mirrored.answers := by
  intro strategy request ledger repository selection
  obtain ⟨hsame, hgrown, -⟩ := sameContent_crissCross
  have hmirrors : mirrored.Mirrors repository := hsame.mirrors_stored
  have hdirect : repository.IsDirect := hgrown.isDirect_stored (by decide)
  have hasks : strategy.AsksObjects request ledger := by
    intro b hb
    cases hb
    refine ⟨fun c hc => ?_, fun _ last hlast => ?_⟩
    · cases hc
      decide
    · cases hlast
      decide
  exact ⟨hmirrors, hdirect, hdirect.reads_library, rfl, rfl, hasks,
    hmirrors.selections_eq hdirect hdirect.reads_library rfl rfl hasks⟩

/-- An id that no object of a repository has. -/
def wideCommit : CommitId :=
  ⟨"eeeeeeeeeeeeeeeeeeeeeeeeeeeeeeeeeeeeeeeeeeeeeeeeeeeeeeeeeeeeeeee", by decide⟩

/-- A build of this commit. -/
def wideBuild : Build := ⟨.labelled wideCommit "origin/master", none, 1, .success⟩

/-- Where no spec matches, a build that is asked for repeats the last one. -/
theorem run_select_wideBuild :
    ((BaseStrategy.default ⟨[], ["origin"]⟩).select ⟨false, none, [], ⟨2024, 1, 31⟩, 0⟩
      (Ledger.empty.record wideBuild)).run (tracking olderCommit).answers =
        .ok [⟨wideCommit, [⟨"origin/master", wideCommit⟩]⟩] := by
  let again : Revision := ⟨wideCommit, [⟨"origin/master", wideCommit⟩]⟩
  have hlist : (tracking olderCommit).answers .references =
      .ok [⟨"origin/master", olderCommit⟩] := congrArg Except.ok (branches_tracking olderCommit)
  have hsorted : again.sortBranches [] [] = (none, again) := by
    simp [Revision.sortBranches, Revision.rankedBranches, BranchSpec.rank, again, pure,
      Except.pure, bind, Except.bind]
  show ((Choice.matching []).tipsThen ⟨false, none, [], ⟨2024, 1, 31⟩, 0⟩ _).run
    (tracking olderCommit).answers = _
  rw [Choice.run_tipsThen hlist]
  show (DefaultStrategy.repeated ⟨false, none, [], ⟨2024, 1, 31⟩, 0⟩ [] (some again)).run
    (tracking olderCommit).answers = _
  rw [DefaultStrategy.repeated, if_neg Bool.false_ne_true, hsorted]
  rfl

/-- A build that repeats one of a commit whose id no object has fails within bounds, and the failures
of the repository and of the graph in memory differ. -/
theorem selections_ne_wideBuild :
    let strategy : Strategy := .bounded (.default ⟨[], ["origin"]⟩) ⟨none, some olderCommit⟩
    let request : Request := ⟨false, none, [], ⟨2024, 1, 31⟩, 0⟩
    let ledger := Ledger.empty.record wideBuild
    let graph := tracking olderCommit
    let repository := graph.stored
    let selection := strategy.select request ledger
    graph.Mirrors repository ∧ repository.IsDirect ∧ repository.library.Reads repository ∧
      strategy.inner? = some (.default ⟨[], ["origin"]⟩) ∧
      (BaseStrategy.default ⟨[], ["origin"]⟩).resolvesOne request = false ∧
      olderCommit.isObjectId = true ∧
      ((selection.runWith (repository.library.answersInWalk repository)).run []).1 =
        .error (.invalidCommitId wideCommit.text) ∧
      ((selection.runWith graph.answersInWalk).run {}).1 =
        .error (.missingObject wideCommit.text) := by
  intro strategy request ledger graph repository selection
  have hgrown : graph.Grown := grown_twoBranches.removeRef "refs/remotes/origin/side"
  have hmirrors : graph.Mirrors repository := SameContent.refl.mirrors_stored
  have hdirect : repository.IsDirect := hgrown.isDirect_stored (by decide)
  have hone : (BaseStrategy.default ⟨[], ["origin"]⟩).resolvesOne request = false := rfl
  have hbase := ((hmirrors.shownBy_library hdirect hdirect.reads_library).run_baseSelect
    (hmirrors.isHistory hdirect) hone ledger).trans run_select_wideBuild
  refine ⟨hmirrors, hdirect, hdirect.reads_library, rfl, hone, rfl, ?_, ?_⟩
  · rw [Library.runWith_answersInWalk]
    show ((BaseStrategy.default _).select request ledger >>= fun rs => _).run _ = _
    rw [Inquiry.run_bind, hbase, ok_bind]
    have holder : repository.node olderCommit = .ok ⟨olderCommit, [], 100, 0⟩ := rfl
    have hwide : repository.node wideCommit = .error (.invalidCommitId wideCommit.text) :=
      if_neg (by decide)
    refine Bounds.run_filter_eq_error rfl rfl ?_
    refine (repository.library.faithful_nil.fst_isMergedInto repository _ _).trans ?_
    rw [holder, ok_bind, hwide, error_bind]
  · rw [runWith_answersInWalk]
    show ((BaseStrategy.default _).select request ledger >>= fun rs => _).run _ = _
    rw [Inquiry.run_bind, run_select_wideBuild, ok_bind]
    have hmissing : graph.dag.ancestors wideCommit = .error (.missingObject wideCommit.text) :=
      Dag.ancestors_eq_error rfl
    have hmerged : graph.answers (.isMergedInto olderCommit wideCommit) =
        .error (.missingObject wideCommit.text) := by
      show graph.dag.isMergedInto olderCommit wideCommit = _
      rw [Dag.isMergedInto, hmissing]
      rfl
    exact Bounds.run_filter_eq_error rfl rfl hmerged

end MemoryGraph

end NextBuild
