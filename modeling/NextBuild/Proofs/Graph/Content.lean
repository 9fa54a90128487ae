import Mathlib.Data.List.Nodup
import NextBuild.Proofs.Graph.Growth
import NextBuild.Proofs.Graph.MergeBase

/-!
# The content of a graph

What a graph holds is the commits with their parents and times, the references, and whether local
branches are listed.  The order in which the commits were added is no part of it, nor is the order
in which a table of commits is walked.  Graphs with the same content answer alike but for two
questions: a log may list commits of the same time otherwise, and of several best common ancestors
another one may be the merge base.
-/

namespace NextBuild

namespace Dag

variable {g g' : Dag} {a b c p : CommitId} {n : Node}

/-- The parents and the time of a commit. -/
def data? (g : Dag) (c : CommitId) : Option (List CommitId × Int64) :=
  (g.find? c).map fun n => (n.parents, n.time)

/-- The graphs have the same commits, with the same parents and times. -/
def SameCommits (g g' : Dag) : Prop := ∀ c, g.data? c = g'.data? c

/-- The ids of the commits. -/
def ids (g : Dag) : List CommitId := g.nodes.map (·.id)

/-- A commit is in the graph if there is something to know of it. -/
theorem has_iff_data? : g.Has c ↔ (g.data? c).isSome = true := by
  simp [Has, data?, Option.isSome_iff_exists]

/-- The parents of a commit are among what is known of it. -/
theorem isParent_iff_data? : g.IsParent c p ↔ ∃ e, g.data? c = some e ∧ p ∈ e.1 := by
  simp [IsParent, data?]

/-- An addition answers for its own id with the new commit, and for every other id as before. -/
theorem data?_of_add {id : CommitId} {parents : List CommitId} {time : Int64}
    (h : g.add id parents time = .ok g') (c : CommitId) :
    g'.data? c = if c = id then some (parents, time) else g.data? c := by
  rw [data?, find?_of_add h, data?]
  split <;> rfl

/-- The ids of a graph are those of its commits. -/
theorem mem_ids_iff : c ∈ g.ids ↔ g.Has c := by
  rw [ids, List.mem_map, Has, find?]
  constructor
  · rintro ⟨n, hn, rfl⟩
    exact Option.isSome_iff_exists.1 (List.find?_isSome.2 ⟨n, hn, by simp⟩)
  · rintro ⟨n, hn⟩
    exact ⟨n, List.mem_of_find?_eq_some hn, id_of_find? hn⟩

/-- The entry of a list that has no other one. -/
def only? {α : Type} : List α → Option α
  | [a] => some a
  | _ => none

/-- Whether a list has exactly one entry, and which, does not depend on its order. -/
theorem only?_eq_of_perm {α : Type} {as bs : List α} (h : as.Perm bs) : only? as = only? bs := by
  match as, bs with
  | [], [] => rfl
  | [a], [b] => rw [List.singleton_perm_singleton.1 h]
  | _ :: _ :: _, _ :: _ :: _ => rfl
  | [], _ :: _ => simp at h
  | _ :: _, [] => simp at h
  | [_], _ :: _ :: _ => simpa using h.length_eq
  | _ :: _ :: _, [_] => simpa using h.length_eq

/-- An abbreviated id means the only id that starts with it. -/
theorem abbreviated?_eq_only? (g : Dag) (digits : String) : g.abbreviated? digits =
    if digits.utf8ByteSize < 4 || !digits.toList.all Text.isHexDigit then none
    else only? (g.ids.filter fun c => Text.startsWith (Text.lowerAscii digits) c.text) := by
  unfold abbreviated?
  rw [ids, List.filter_map, Function.comp_def]
  split
  · rfl
  · generalize (g.nodes.filter fun n => Text.startsWith (Text.lowerAscii digits) n.id.text) = found
    match found with
    | [] => rfl
    | [n] => rfl
    | _ :: _ :: _ => rfl

/-- Where no id occurs twice, a commit is found by its id wherever it stands. -/
theorem find?_eq_some_iff_mem (hg : g.ids.Nodup) :
    g.find? c = some n ↔ n ∈ g.nodes ∧ n.id = c := by
  constructor
  · exact fun h => ⟨List.mem_of_find?_eq_some h, id_of_find? h⟩
  · rintro ⟨hn, rfl⟩
    obtain ⟨m, hm⟩ := mem_ids_iff.1 (List.mem_map_of_mem hn)
    rw [hm, List.inj_on_of_nodup_map hg (List.mem_of_find?_eq_some hm) hn (id_of_find? hm)]

/-- The order in which the commits are walked does not matter for their content. -/
theorem sameCommits_of_perm {nodes : List Node} (hg : g.ids.Nodup) (h : nodes.Perm g.nodes) :
    SameCommits ⟨nodes⟩ g ∧ (Dag.mk nodes).ids.Nodup := by
  have hids : (Dag.mk nodes).ids.Perm g.ids := h.map Node.id
  have hnodup : (Dag.mk nodes).ids.Nodup := hids.nodup_iff.2 hg
  refine ⟨fun c => ?_, hnodup⟩
  have hfind : (Dag.mk nodes).find? c = g.find? c := by
    ext n
    rw [find?_eq_some_iff_mem hnodup, find?_eq_some_iff_mem hg, h.mem_iff]
  rw [data?, hfind, data?]

namespace SameCommits

/-- To have the same commits is symmetric. -/
theorem symm (h : g.SameCommits g') : g'.SameCommits g := fun c => (h c).symm

/-- To have the same commits is transitive. -/
theorem trans {g'' : Dag} (h : g.SameCommits g') (h' : g'.SameCommits g'') : g.SameCommits g'' :=
  fun c => (h c).trans (h' c)

/-- The same commits are there. -/
theorem has_iff (h : g.SameCommits g') : g.Has c ↔ g'.Has c := by
  rw [has_iff_data?, has_iff_data?, h]

/-- Commits have the same parents. -/
theorem isParent_eq (h : g.SameCommits g') : g.IsParent = g'.IsParent := by
  funext c p
  rw [eq_iff_iff, isParent_iff_data?, isParent_iff_data?, h]

/-- The same commits are reached. -/
theorem reaches_eq (h : g.SameCommits g') : g.Reaches = g'.Reaches := by
  funext c a
  rw [Reaches, Reaches, h.isParent_eq]

/-- The best common ancestors are the same. -/
theorem isBestCommonAncestor_iff (h : g.SameCommits g') :
    g.IsBestCommonAncestor a b c ↔ g'.IsBestCommonAncestor a b c := by
  simp only [IsBestCommonAncestor, IsCommonAncestor, IsStrictAncestor, h.reaches_eq, h.isParent_eq]

/-- Whether every parent is there does not depend on the order of insertion. -/
theorem closed (h : g.SameCommits g') (hg : g.Closed) : g'.Closed := fun c p hp =>
  h.has_iff.1 (hg c p (h.isParent_eq ▸ hp))

/-- Neither does whether there is a cycle. -/
theorem acyclic (h : g.SameCommits g') (hg : g.Acyclic) : g'.Acyclic := by
  unfold Acyclic IsStrictAncestor at *
  rwa [← h.isParent_eq]

/-- The walk through parents looks at the content alone. -/
theorem reach_eq (h : g.SameCommits g') (seen todo : List CommitId) :
    g.reach seen todo = g'.reach seen todo := by
  fun_induction reach g seen todo with
  | case1 seen => rw [reach]
  | case2 seen c todo hc ih =>
    rw [reach, dif_pos hc]
    exact ih
  | case3 seen c todo hc n hn ih =>
    have hentry : some (n.parents, n.time) = g'.data? c := by rw [← h c, data?, hn, Option.map_some]
    obtain ⟨m, hm, hmn⟩ := Option.map_eq_some_iff.1 hentry.symm
    rw [reach_cons (by simpa using hc) hm, (Prod.mk.inj hmn).1]
    exact ih
  | case4 seen c todo hc hn =>
    have hentry : none = g'.data? c := by rw [← h c, data?, hn, Option.map_none]
    have hnone : g'.find? c = none := Option.map_eq_none_iff.1 hentry.symm
    rw [reach, dif_neg hc]
    split
    · next hm => rw [hnone] at hm; cases hm
    · rfl

/-- Looking a commit up gives the same time, or fails in the same way. -/
theorem time_eq (h : g.SameCommits g') (c : CommitId) :
    (g.node c).map (·.time) = (g'.node c).map (·.time) := by
  have hc := h c
  unfold data? at hc
  unfold node
  cases hfind : g.find? c <;> cases hfind' : g'.find? c <;> simp_all [Except.map]

/-- The question whether a commit is merged into another one has the same answer. -/
theorem isMergedInto_eq (h : g.SameCommits g') (a c : CommitId) :
    g.isMergedInto a c = g'.isMergedInto a c := by
  have hnode : ((g.node a).map (·.time) >>= fun _ => (g.ancestors c).map (·.contains a)) =
      ((g'.node a).map (·.time) >>= fun _ => (g'.ancestors c).map (·.contains a)) := by
    rw [h.time_eq, ancestors, h.reach_eq, ancestors]
  have hform (d : Dag) : d.isMergedInto a c =
      ((d.node a).map (·.time) >>= fun _ => (d.ancestors c).map (·.contains a)) := by
    unfold isMergedInto
    cases d.node a with
    | error f => rfl
    | ok n => cases d.ancestors c <;> rfl
  rw [hform, hform, hnode]

/-- Graphs with the same commits have the same ids, in some order. -/
theorem ids_perm (h : g.SameCommits g') (hg : g.ids.Nodup) (hg' : g'.ids.Nodup) :
    g.ids.Perm g'.ids :=
  (List.perm_ext_iff_of_nodup hg hg').2 fun c => by rw [mem_ids_iff, mem_ids_iff, h.has_iff]

/-- Which commit an abbreviated id means does not depend on the order of the commits. -/
theorem abbreviated?_eq (h : g.SameCommits g') (hg : g.ids.Nodup) (hg' : g'.ids.Nodup)
    (digits : String) : g.abbreviated? digits = g'.abbreviated? digits := by
  rw [abbreviated?_eq_only?, abbreviated?_eq_only?, only?_eq_of_perm ((h.ids_perm hg hg').filter _)]

end SameCommits

end Dag

namespace Query

/-- The question may be answered with the commit of the last fetch. -/
def asksFetched : Query → Bool
  | fetchHead => true
  | resolve name => name == "FETCH_HEAD"
  | _ => false

/-- The answer is settled by the content of a graph, and by the commit of the last fetch where this
is asked for. -/
def isSettled : Query → Bool
  | mergeBase _ _ | log _ => false
  | _ => true

end Query

namespace MemoryGraph

variable {g g' : MemoryGraph}

/-- The graphs have the same commits and references, and list local branches alike. -/
structure SameContent (g g' : MemoryGraph) : Prop where
  commits : g.dag.SameCommits g'.dag
  refs : g.refs = g'.refs
  localBranches : g.localBranches = g'.localBranches

/-- A graph has the content of itself. -/
theorem SameContent.refl : SameContent g g := ⟨fun _ => rfl, rfl, rfl⟩

/-- No id occurs twice in a graph that is built up. -/
theorem Grown.nodup_ids (hg : g.Grown) : g.dag.ids.Nodup := by
  induction hg with
  | start => exact List.nodup_nil
  | @addCommit g g' id _ _ _ hnew hadd ih =>
    have hfresh : id ∉ g.dag.ids := by
      rw [Dag.mem_ids_iff, Dag.Has, hnew]
      simp
    rw [Dag.ids, Dag.nodes_of_add hnew (addCommit_eq_ok hadd).1, List.map_append]
    refine List.nodup_append.2 ⟨ih, List.nodup_singleton id, fun c hc d hd hcd => hfresh ?_⟩
    have hd : d = id := List.mem_singleton.1 hd
    rwa [← hd, ← hcd]
  | setRef _ hset ih => rw [(setRef_eq_ok hset).2.1]; exact ih
  | removeRef _ _ ih => exact ih
  | setFetchHead _ _ ih => exact ih

/-- Graphs with the same content give the same answer to a question that is settled by it. -/
theorem SameContent.answers_eq (h : SameContent g g') (hg : g.dag.ids.Nodup)
    (hg' : g'.dag.ids.Nodup) {q : Query} (hq : q.isSettled = true)
    (hfetch : q.asksFetched = true → g.fetchHead = g'.fetchHead) : g.answers q = g'.answers q := by
  have hfetched (hhead : g.fetchHead = g'.fetchHead) : g.fetched = g'.fetched := by
    rw [fetched, fetched, hhead]
  cases q with
  | references =>
    show Except.ok g.branches = .ok g'.branches
    rw [branches, branches, h.refs, h.localBranches]
  | resolve name =>
    show g.resolve name = g'.resolve name
    rw [resolve, resolve, lookupRef?, lookupRef?, h.refs, h.commits.abbreviated?_eq hg hg']
    split
    · next hname => rw [hfetched (hfetch (by simp [Query.asksFetched, hname]))]
    · rfl
  | mergeBase a b => cases hq
  | timestamp c => exact h.commits.time_eq c
  | log reference => cases hq
  | fetchHead => exact hfetched (hfetch rfl)
  | openWalk => rfl
  | isMergedInto a c => exact h.commits.isMergedInto_eq a c
  | commitTime c => exact h.commits.time_eq c

/-- What the graph may answer when its tables of commits are walked in any order: each question as
if the commits stood in some order of their own, and as merge base any best common ancestor. -/
structure MayAnswer (g : MemoryGraph) (a : CommitGraph) : Prop where
  walked : ∀ q : Query, (∀ c d, q ≠ .mergeBase c d) → ∃ nodes : List Node,
    nodes.Perm g.dag.nodes ∧ a q = { g with dag := ⟨nodes⟩ }.answers q
  meets : ∀ c d, g.dag.Has c → g.dag.Has d → ∃ base, a (.mergeBase c d) = .ok base ∧
    (∀ m, base = some m → g.dag.IsBestCommonAncestor c d m) ∧
    (base = none → ∀ m, ¬ g.dag.IsBestCommonAncestor c d m)

/-- A graph may answer as it does. -/
theorem Grown.mayAnswer (hg : g.Grown) : g.MayAnswer g.answers where
  walked _ _ := ⟨g.dag.nodes, .refl _, rfl⟩
  meets _ _ hc hd := Dag.exists_mergeBase hg.ranked_and_refsResolve.1.closed hc hd

variable {a a' : CommitGraph}

/-- However two graphs of the same content answer, they agree on what is settled. -/
theorem SameContent.mayAnswer_eq (h : SameContent g g') (hg : g.Grown) (hg' : g'.Grown)
    (ha : g.MayAnswer a) (ha' : g'.MayAnswer a') {q : Query} (hq : q.isSettled = true)
    (hfetch : q.asksFetched = true → g.fetchHead = g'.fetchHead) : a q = a' q := by
  have hother : ∀ c d, q ≠ .mergeBase c d := by
    rintro c d rfl
    cases hq
  -- Each graph answers as if its commits stood in some order, and this keeps its content.
  obtain ⟨nodes, hperm, haq⟩ := ha.walked q hother
  obtain ⟨nodes', hperm', haq'⟩ := ha'.walked q hother
  obtain ⟨hsame, hnodup⟩ := Dag.sameCommits_of_perm hg.nodup_ids hperm
  obtain ⟨hsame', hnodup'⟩ := Dag.sameCommits_of_perm hg'.nodup_ids hperm'
  have hcontent : SameContent { g with dag := ⟨nodes⟩ } { g' with dag := ⟨nodes'⟩ } :=
    ⟨(hsame.trans h.commits).trans hsame'.symm, h.refs, h.localBranches⟩
  rw [haq, haq']
  exact hcontent.answers_eq hnodup hnodup' hq hfetch

end MemoryGraph

end NextBuild
