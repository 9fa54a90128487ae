import Mathlib.Data.List.Induction
import Mathlib.Order.WellFoundedSet
import NextBuild.Proofs.Graph.Log
import NextBuild.Proofs.Graph.MergeBase

/-!
# Commits that are added again

An addition under an id that is there replaces the commit.  The new parents may reach the commit
itself, which closes a cycle, and its new number is the number of commits, which a replacement leaves
as it is, so that the commit that is added next gets the same one.

The state of a graph after any calls is followed through one addition at a time: the parents stay
acyclic exactly when no parent of the new commit reaches it, and the numbers stay apart exactly when
no other commit has the number that comes next.
-/

namespace NextBuild

namespace Dag

variable {g g' : Dag} {id a b c p : CommitId} {parents : List CommitId} {time : Int64}

/-- A commit of the graph is one of its nodes. -/
theorem has_iff_mem : g.Has c ↔ ∃ n ∈ g.nodes, n.id = c := by
  rw [Has, ← Option.isSome_iff_exists, find?, List.find?_isSome]
  simp only [beq_iff_eq]

/-- An addition removes the commit that has the id, if there is one, and puts the new one behind all
others. -/
theorem nodes_eq_of_add (h : g.add id parents time = .ok g') :
    g'.nodes = g.nodes.filter (fun n => n.id != id) ++ [⟨id, parents, time, g.nodes.length⟩] := by
  unfold add at h
  split at h
  · cases h
  · cases h
    rfl

/-- The new commit has the new parents, and every other one the same as before. -/
theorem isParent_of_add (h : g.add id parents time = .ok g') :
    g'.IsParent c p ↔ if c = id then p ∈ parents else g.IsParent c p := by
  unfold IsParent
  rw [find?_of_add h]
  split <;> simp

/-- What holds of every graph that additions lead to, whether they replace commits or not. -/
structure Tidy (g : Dag) : Prop where
  closed : g.Closed
  nodup : (g.nodes.map (·.id)).Nodup
  /-- A number is at most the one that comes next. -/
  order_le : ∀ n ∈ g.nodes, n.order ≤ g.nodes.length

/-- A graph without nodes is tidy. -/
theorem tidy_empty : Tidy empty where
  closed c p h := by
    obtain ⟨n, hn, -⟩ := h
    cases hn
  nodup := List.nodup_nil
  order_le n hn := by cases hn

/-- A replacement leaves the number of commits as it is. -/
theorem Tidy.length_of_add_of_has (hg : g.Tidy) (hid : g.Has id)
    (h : g.add id parents time = .ok g') : g'.nodes.length = g.nodes.length := by
  have hmem : id ∈ g.nodes.map (·.id) := by
    obtain ⟨n, hn, rfl⟩ := has_iff_mem.1 hid
    exact List.mem_map_of_mem hn
  have herase := List.length_erase_of_mem hmem
  rw [hg.nodup.erase_eq_filter, List.filter_map, List.length_map, List.length_map] at herase
  have hpos : 0 < g.nodes.length := by
    rw [← List.length_map (·.id)]
    exact List.length_pos_of_mem hmem
  rw [nodes_eq_of_add h, List.length_append, List.length_singleton]
  simp only [Function.comp_def] at herase
  omega

/-- Under a new id there is one commit more. -/
theorem length_of_add_of_not_has (hid : ¬ g.Has id) (h : g.add id parents time = .ok g') :
    g'.nodes.length = g.nodes.length + 1 := by
  rw [nodes_of_add (Option.eq_none_iff_forall_ne_some.2 fun n hn => hid ⟨n, hn⟩) h]
  simp

/-- No node is lost when one is added. -/
theorem Tidy.length_le_of_add (hg : g.Tidy) (h : g.add id parents time = .ok g') :
    g.nodes.length ≤ g'.nodes.length := by
  by_cases hid : g.Has id
  · exact (hg.length_of_add_of_has hid h).ge
  · rw [length_of_add_of_not_has hid h]
    omega

/-- An addition keeps the graph tidy. -/
theorem Tidy.add (hg : g.Tidy) (h : g.add id parents time = .ok g') : g'.Tidy := by
  constructor
  case closed =>
    intro c p hp
    rw [isParent_of_add h] at hp
    split at hp
    · exact (has_of_add h hp).of_add h
    · exact (hg.closed c p hp).of_add h
  case nodup =>
    rw [nodes_eq_of_add h, List.map_append, List.map_singleton]
    apply List.Nodup.append ((List.filter_sublist.map _).nodup hg.nodup) (List.nodup_singleton _)
    rw [List.disjoint_singleton]
    simp
  case order_le =>
    have hle := hg.length_le_of_add h
    intro n hn
    rw [nodes_eq_of_add h, List.mem_append, List.mem_singleton, List.mem_filter] at hn
    rcases hn with hn | rfl
    · exact (hg.order_le n hn.1).trans hle
    · exact hle

/-! ## The numbers of commits -/

/-- The commit has the number that comes next. -/
def Pending (g : Dag) (c : CommitId) : Prop := ∃ n ∈ g.nodes, n.id = c ∧ n.order = g.nodes.length

/-- A commit that is pending is there. -/
theorem Pending.has (h : g.Pending c) : g.Has c := by
  obtain ⟨n, hn, hid, -⟩ := h
  exact has_iff_mem.2 ⟨n, hn, hid⟩

/-- The number that comes next is in use after a replacement, and only then: by the new commit, and
by every other one that had it before. -/
theorem Tidy.pending_of_add (hg : g.Tidy) (h : g.add id parents time = .ok g') :
    g'.Pending c ↔ g.Has id ∧ (c = id ∨ g.Pending c) := by
  by_cases hid : g.Has id
  · have hlength := hg.length_of_add_of_has hid h
    rw [Pending, hlength]
    simp only [nodes_eq_of_add h, List.mem_append, List.mem_singleton, List.mem_filter, hid,
      true_and]
    constructor
    · rintro ⟨n, hn | rfl, hc, horder⟩
      · exact .inr ⟨n, hn.1, hc, horder⟩
      · exact .inl hc.symm
    · intro hc
      by_cases heq : c = id
      · exact ⟨_, .inr rfl, heq.symm, rfl⟩
      · obtain ⟨n, hn, hnc, horder⟩ := hc.resolve_left heq
        refine ⟨n, .inl ⟨hn, ?_⟩, hnc, horder⟩
        simpa [hnc] using heq
  · have hlength := length_of_add_of_not_has hid h
    simp only [hid, false_and, iff_false]
    rintro ⟨n, hn, -, horder⟩
    rw [nodes_eq_of_add h, List.mem_append, List.mem_singleton, List.mem_filter] at hn
    rcases hn with hn | rfl
    · have hle := hg.order_le n hn.1
      omega
    · simp only at horder
      omega

/-- An addition keeps different numbers different when no other commit has the one that comes next. -/
theorem nodup_order_of_add (hg : (g.nodes.map (·.order)).Nodup)
    (h : g.add id parents time = .ok g') :
    (g'.nodes.map (·.order)).Nodup ↔ ∀ c, g.Pending c → c = id := by
  have hkept : ((g.nodes.filter fun n => n.id != id).map (·.order)).Nodup :=
    (List.filter_sublist.map _).nodup hg
  rw [nodes_eq_of_add h, List.map_append, List.map_singleton, List.nodup_append']
  simp only [hkept, List.nodup_singleton, true_and, List.disjoint_singleton, List.mem_map,
    List.mem_filter, bne_iff_ne, not_exists, Pending]
  constructor
  · rintro hother c ⟨n, hn, rfl, horder⟩
    by_contra hne
    exact hother n ⟨⟨hn, hne⟩, horder⟩
  · rintro hall n ⟨⟨hn, hne⟩, horder⟩
    exact hne (hall n.id ⟨n, hn, rfl, horder⟩)

/-! ## Cycles -/

/-- Whether a commit is reached does not depend on its own parents. -/
theorem reaches_of_isParent (hsame : ∀ c p, c ≠ id → g.IsParent c p → g'.IsParent c p)
    (h : g.Reaches c id) : g'.Reaches c id := by
  induction h using Relation.ReflTransGen.head_induction_on with
  | refl => exact .refl
  | @head c p hp _ ih =>
    by_cases hc : c = id
    · rw [hc]
      exact .refl
    · exact .head (hsame c p hc hp) ih

/-- What reaches a commit that is added reached it before. -/
theorem reaches_of_add_iff (h : g.add id parents time = .ok g') :
    g'.Reaches c id ↔ g.Reaches c id := by
  constructor
  · apply reaches_of_isParent
    intro c p hc hp
    rwa [isParent_of_add h, if_neg hc] at hp
  · apply reaches_of_isParent
    intro c p hc hp
    rwa [isParent_of_add h, if_neg hc]

/-- A way through parents that leads over the new commit reaches it, and goes on from there; any other
way was there before. -/
theorem isStrictAncestor_of_add (h : g.add id parents time = .ok g')
    (hca : g'.IsStrictAncestor a c) :
    g.IsStrictAncestor a c ∨ g'.Reaches c id ∧ g'.IsStrictAncestor a id := by
  induction hca with
  | single hp =>
    by_cases hc : c = id
    · subst hc
      exact .inr ⟨.refl, .single hp⟩
    · rw [isParent_of_add h, if_neg hc] at hp
      exact .inl (.single hp)
  | @tail m d _ hp ih =>
    rcases ih with hold | ⟨hreach, hstrict⟩
    · by_cases hm : m = id
      · subst hm
        exact .inr ⟨(reaches_of_add_iff h).2 hold.reaches, .single hp⟩
      · rw [isParent_of_add h, if_neg hm] at hp
        exact .inl (.tail hold hp)
    · exact .inr ⟨hreach, .tail hstrict hp⟩

/-- An addition closes a cycle exactly when one of the parents reaches the new commit. -/
theorem acyclic_of_add (hg : g.Acyclic) (h : g.add id parents time = .ok g') :
    g'.Acyclic ↔ ∀ p ∈ parents, ¬ g.Reaches p id := by
  constructor
  · intro hacyclic p hp hreach
    have hparent : g'.IsParent id p := by
      rwa [isParent_of_add h, if_pos rfl]
    exact hacyclic id (.head' hparent ((reaches_of_add_iff h).2 hreach))
  · intro hparents c hc
    have hid : g'.IsStrictAncestor id id := by
      rcases isStrictAncestor_of_add h hc with hold | ⟨hreach, hstrict⟩
      · exact absurd hold (hg c)
      · exact hstrict.trans_left hreach
    obtain ⟨p, hp, hreach⟩ := Relation.TransGen.head'_iff.1 hid
    rw [isParent_of_add h, if_pos rfl] at hp
    exact hparents p hp ((reaches_of_add_iff h).1 hreach)

/-- Without cycles commits with a common ancestor have a best one. -/
theorem Closed.exists_isBestCommonAncestor (hg : g.Closed) (hacyclic : g.Acyclic) (ha : g.Has a)
    (hc : g.IsCommonAncestor a b c) : ∃ d, g.IsBestCommonAncestor a b d := by
  have hfinite : {c | g.IsCommonAncestor a b c}.Finite := by
    apply (List.finite_toSet (g.nodes.map (·.id))).subset
    intro d hd
    obtain ⟨n, hn, rfl⟩ := has_iff_mem.1 (hg.has_of_reaches ha hd.1)
    exact List.mem_map_of_mem hn
  -- Being a strict ancestor is a strict order, so among the finitely many common ones one is above
  -- which there is no other.
  have horder : IsStrictOrder CommitId (Relation.TransGen g.IsParent) :=
    { irrefl := hacyclic, trans := fun _ _ _ => .trans }
  obtain ⟨⟨d, hd⟩, -, hmin⟩ := (hfinite.wellFoundedOn (r := Relation.TransGen g.IsParent)).has_min
    Set.univ ⟨⟨c, hc⟩, trivial⟩
  exact ⟨d, hd, fun e he => hmin ⟨e, he⟩ trivial⟩

/-- Commits in the order of a log are what their ids are looked up to. -/
theorem IsNewestFirst.filterMap_find? {ns : List Node} (hns : g.IsNewestFirst ns) :
    (ns.map (·.id)).filterMap g.find? = ns := by
  rw [List.filterMap_map, ← List.filterMap_some (l := ns), List.filterMap_filterMap]
  apply List.filterMap_congr
  intro n hn
  exact hns.found n hn

/-- Where different commits have different numbers, the order of a log does not depend on the order in
which its commits are gathered. -/
theorem newestFirst_eq_of_perm (hg : (g.nodes.map (·.order)).Nodup) {cs cs' : List CommitId}
    (hcs : cs.Nodup) (hhas : ∀ c ∈ cs, g.Has c) (hperm : cs'.Perm cs) :
    g.newestFirst cs' = g.newestFirst cs := by
  obtain ⟨log, hlog, hids⟩ := exists_newestFirst hhas
  obtain ⟨log', hlog', hids'⟩ :=
    exists_newestFirst fun c hc => hhas c (hperm.mem_iff.1 hc)
  obtain ⟨ns, rfl, hns⟩ := exists_isNewestFirst hcs hlog
  obtain ⟨ms, rfl, hms⟩ := exists_isNewestFirst (hperm.nodup_iff.2 hcs) hlog'
  simp only [List.map_map] at hids hids'
  have hsame : (ms.map (·.id)).Perm (ns.map (·.id)) := (hids'.trans hperm).trans hids.symm
  have hnodes : ms.Perm ns := by
    rw [← hms.filterMap_find?, ← hns.filterMap_find?]
    exact hsame.filterMap g.find?
  rw [hlog, hlog', hms.eq_of_perm hg hns hnodes]

/-- No commit is its own strict ancestor, and no two commits have the same number. -/
structure Ordered (g : Dag) : Prop where
  acyclic : g.Acyclic
  nodup_order : (g.nodes.map (·.order)).Nodup

/-- A graph without nodes is in order. -/
theorem ordered_empty : Ordered empty where
  acyclic c h := by
    obtain ⟨p, hp, -⟩ := Relation.TransGen.head'_iff.1 h
    obtain ⟨n, hn, -⟩ := hp
    cases hn
  nodup_order := List.nodup_nil

/-- An addition keeps the commits ordered when it closes no cycle and no other commit has the number
that comes next. -/
theorem Ordered.add_iff (hg : g.Ordered) (h : g.add id parents time = .ok g') :
    g'.Ordered ↔ (∀ p ∈ parents, ¬ g.Reaches p id) ∧ ∀ c, g.Pending c → c = id := by
  rw [← acyclic_of_add hg.acyclic h, ← nodup_order_of_add hg.nodup_order h]
  exact ⟨fun ⟨hacyclic, hnodup⟩ => ⟨hacyclic, hnodup⟩, fun ⟨hacyclic, hnodup⟩ => ⟨hacyclic, hnodup⟩⟩

end Dag

namespace MemoryGraph

/-- A change that is asked of a graph. -/
inductive Call where
  | addCommit (id : CommitId) (parents : List CommitId) (time : Int64)
  | setRef (name : String) (c : CommitId)
  | removeRef (name : String)
  | setFetchHead (c : CommitId)
deriving DecidableEq

variable {g : MemoryGraph} {calls before before' : List Call} {id id' c : CommitId}
  {parents parents' : List CommitId}

/-- The graph with the change, if its commits are there. -/
def call (g : MemoryGraph) : Call → Except Failure MemoryGraph
  | .addCommit id parents time => g.addCommit id parents time
  | .setRef name c => g.setRef name c
  | .removeRef name => .ok (g.removeRef name)
  | .setFetchHead c => .ok { g with fetchHead := some c }

/-- The graph after a call, which changes nothing when it fails. -/
def after (g : MemoryGraph) (k : Call) : MemoryGraph :=
  match g.call k with
  | .ok g' => g'
  | .error _ => g

/-- The graph after calls, in their order. -/
def afterAll (g : MemoryGraph) (calls : List Call) : MemoryGraph := calls.foldl after g

/-- No call changes nothing. -/
@[simp]
theorem afterAll_nil (g : MemoryGraph) : g.afterAll [] = g := rfl

/-- The last call is made after the others. -/
@[simp]
theorem afterAll_concat (g : MemoryGraph) (calls : List Call) (k : Call) :
    g.afterAll (calls ++ [k]) = (g.afterAll calls).after k := by
  simp [afterAll]

/-- The call that comes after the calls `before` adds a commit, and succeeds. -/
def Adds (g : MemoryGraph) (calls before : List Call) (id : CommitId) (parents : List CommitId) :
    Prop :=
  ∃ time g', before ++ [.addCommit id parents time] <+: calls ∧
    (g.afterAll before).addCommit id parents time = .ok g'

/-- The graph has no cycles and its commits have a total order, so that merge bases are found and the
log is the same in whichever order its commits are gathered. -/
structure Sound (g : MemoryGraph) : Prop where
  acyclic : g.dag.Acyclic
  nodup_order : (g.dag.nodes.map (·.order)).Nodup
  /-- Two commits with a common ancestor have a merge base. -/
  mergeBase : ∀ a b c, g.dag.Has a → g.dag.Has b → g.dag.IsCommonAncestor a b c →
    ∃ base, g.dag.mergeBase a b = .ok (some base)
  /-- The log of all references is there, and any order in which its commits are gathered gives it. -/
  log : ∃ log, g.log none = .ok log ∧
    ∀ cs, cs.Perm (log.map (·.commit)) → g.dag.newestFirst cs = .ok log

/-- No commit is added with a parent that reaches it, and once a commit was replaced no other commit
is added. -/
structure Orderly (g : MemoryGraph) (calls : List Call) : Prop where
  not_reaches : ∀ before id parents, g.Adds calls before id parents →
    ∀ p ∈ parents, ¬ (g.afterAll before).dag.Reaches p id
  eq_replaced : ∀ before id parents before' id' parents', g.Adds calls before id parents →
    g.Adds calls before' id' parents' → before.length < before'.length →
    (g.afterAll before).dag.Has id → id' = id

/-- A call that changes the commits adds one. -/
theorem after_cases (g : MemoryGraph) (k : Call) :
    (g.after k).dag = g.dag ∨ ∃ id parents time, k = .addCommit id parents time ∧
      g.addCommit id parents time = .ok (g.after k) := by
  cases k with
  | addCommit id parents time =>
    cases hadd : g.addCommit id parents time with
    | error f => exact .inl (by simp [after, call, hadd])
    | ok g' => exact .inr ⟨id, parents, time, rfl, by simp [after, call, hadd]⟩
  | setRef name c =>
    cases hset : g.setRef name c with
    | error f => exact .inl (by simp [after, call, hset])
    | ok g' => exact .inl (by simp [after, call, hset, (setRef_eq_ok hset).2.1])
  | removeRef name => exact .inl rfl
  | setFetchHead c => exact .inl rfl

/-- References point to commits of the graph whatever is called. -/
theorem RefsResolve.after (hg : g.RefsResolve) (k : Call) : (g.after k).RefsResolve := by
  unfold MemoryGraph.after
  split
  · next g' hk =>
    cases k with
    | addCommit id parents time => exact hg.addCommit hk
    | setRef name c => exact hg.setRef hk
    | removeRef name =>
      cases hk
      exact hg.removeRef name
    | setFetchHead c =>
      cases hk
      exact hg
  · exact hg

/-- Calls lead from a tidy graph to a tidy graph. -/
theorem tidy_afterAll (hg : g.dag.Tidy) (hrefs : g.RefsResolve) (calls : List Call) :
    (g.afterAll calls).dag.Tidy ∧ (g.afterAll calls).RefsResolve := by
  induction calls using List.reverseRecOn with
  | nil => exact ⟨hg, hrefs⟩
  | append_singleton calls k ih =>
    rw [afterAll_concat]
    refine ⟨?_, ih.2.after k⟩
    rcases (g.afterAll calls).after_cases k with hsame | ⟨id, parents, time, -, hadd⟩
    · exact hsame ▸ ih.1
    · exact ih.1.add (addCommit_eq_ok hadd).1

/-- A graph whose commits are ordered is sound. -/
theorem sound_iff (hg : g.dag.Tidy) (hrefs : g.RefsResolve) : g.Sound ↔ g.dag.Ordered := by
  constructor
  · intro h
    exact ⟨h.acyclic, h.nodup_order⟩
  intro h
  refine ⟨h.acyclic, h.nodup_order, ?mergeBase, ?log⟩
  case mergeBase =>
    intro a b c ha hb hc
    obtain ⟨base, hbase, -, hnone⟩ := Dag.exists_mergeBase hg.closed ha hb
    obtain ⟨d, hd⟩ := hg.closed.exists_isBestCommonAncestor h.acyclic ha hc
    cases base with
    | none => exact absurd hd (hnone rfl d)
    | some base => exact ⟨base, hbase⟩
  case log =>
    have hvalues : ∀ c ∈ g.refs.values, g.dag.Has c := by
      intro c hc
      obtain ⟨e, he, rfl⟩ := List.mem_map.1 hc
      exact hrefs e he
    obtain ⟨out, hout⟩ := Dag.exists_reach hg.closed [] hvalues
    have hnodup : out.Nodup := Dag.nodup_of_reach hout List.nodup_nil
    have hhas : ∀ c ∈ out, g.dag.Has c := by
      intro c hc
      obtain ⟨t, ht, hreach⟩ := (Dag.mem_reach_iff hout).1 hc
      exact hg.closed.has_of_reaches (hvalues t ht) hreach
    obtain ⟨log, hlog, hperm⟩ := Dag.exists_newestFirst hhas
    refine ⟨log, ?_, fun cs hcs => ?_⟩
    · show g.dag.reach [] g.refs.values >>= _ = _
      rw [hout]
      exact hlog
    · rw [Dag.newestFirst_eq_of_perm h.nodup_order hnodup hhas (hcs.trans hperm), hlog]

/-! ## Calls, one after the other -/

/-- A call that adds a commit is made also when further calls follow. -/
theorem Adds.of_prefix (h : g.Adds calls before id parents) {calls' : List Call}
    (hpre : calls <+: calls') : g.Adds calls' before id parents := by
  obtain ⟨time, g', hcall, hadd⟩ := h
  exact ⟨time, g', hcall.trans hpre, hadd⟩

/-- What comes before a call is shorter than all calls. -/
theorem Adds.length_lt (h : g.Adds calls before id parents) : before.length < calls.length := by
  obtain ⟨time, g', hcall, -⟩ := h
  have hle := hcall.length_le
  rw [List.length_append, List.length_singleton] at hle
  omega

/-- The graph after an addition that succeeds. -/
theorem Adds.exists_add (h : g.Adds calls before id parents) :
    ∃ k time, before ++ [k] <+: calls ∧
      (g.afterAll before).dag.add id parents time = .ok (g.afterAll (before ++ [k])).dag := by
  obtain ⟨time, g', hcall, hadd⟩ := h
  refine ⟨_, time, hcall, ?_⟩
  have hafter : (g.afterAll before).after (.addCommit id parents time) = g' := by
    simp [after, call, hadd]
  rw [afterAll_concat, hafter]
  exact (addCommit_eq_ok hadd).1

/-- A call that is made leaves the commits as they are, or adds one. -/
theorem afterAll_concat_cases {k : Call} (hcall : before ++ [k] <+: calls) :
    (g.afterAll (before ++ [k])).dag = (g.afterAll before).dag ∨
      ∃ id parents time, g.Adds calls before id parents ∧
        (g.afterAll before).dag.add id parents time = .ok (g.afterAll (before ++ [k])).dag := by
  rw [afterAll_concat]
  rcases (g.afterAll before).after_cases k with hsame | ⟨id, parents, time, rfl, hadd⟩
  · exact .inl hsame
  · exact .inr ⟨id, parents, time, ⟨time, _, hcall, hadd⟩, (addCommit_eq_ok hadd).1⟩

/-- The commits stay ordered all the time when each addition closes no cycle and finds no other commit
with the number that comes next. -/
theorem ordered_afterAll_iff (hordered : g.dag.Ordered) :
    (∀ before, before <+: calls → (g.afterAll before).dag.Ordered) ↔
      ∀ before id parents, g.Adds calls before id parents →
        (∀ p ∈ parents, ¬ (g.afterAll before).dag.Reaches p id) ∧
          ∀ c, (g.afterAll before).dag.Pending c → c = id := by
  constructor
  · intro h before id parents hadds
    obtain ⟨k, time, hcall, hadd⟩ := hadds.exists_add
    have hbefore := h before ((List.prefix_append before [k]).trans hcall)
    exact (hbefore.add_iff hadd).1 (h _ hcall)
  · intro h before hpre
    induction before using List.reverseRecOn with
    | nil => exact hordered
    | append_singleton before k ih =>
      have hbefore := ih ((List.prefix_append before [k]).trans hpre)
      rcases afterAll_concat_cases hpre with hsame | ⟨id, parents, time, hadds, hadd⟩
      · exact hsame ▸ hbefore
      · exact (hbefore.add_iff hadd).2 (h before id parents hadds)

/-- The number that comes next is in use only by commits that were replaced. -/
theorem exists_replaced_of_pending (hg : g.dag.Tidy) (hrefs : g.RefsResolve)
    (hnone : ∀ c, ¬ g.dag.Pending c) (h : (g.afterAll calls).dag.Pending c) :
    ∃ before parents, g.Adds calls before c parents ∧ (g.afterAll before).dag.Has c := by
  induction calls using List.reverseRecOn with
  | nil => exact absurd h (hnone c)
  | append_singleton calls k ih =>
    have hearlier (h : (g.afterAll calls).dag.Pending c) :
        ∃ before parents, g.Adds (calls ++ [k]) before c parents ∧
          (g.afterAll before).dag.Has c := by
      obtain ⟨before, parents, hadds, hhas⟩ := ih h
      exact ⟨before, parents, hadds.of_prefix (List.prefix_append calls [k]), hhas⟩
    rcases afterAll_concat_cases (g := g) (List.prefix_rfl : calls ++ [k] <+: calls ++ [k]) with
      hsame | ⟨id, parents, time, hadds, hadd⟩
    · rw [hsame] at h
      exact hearlier h
    · obtain ⟨hhas, hc⟩ := ((tidy_afterAll hg hrefs calls).1.pending_of_add hadd).1 h
      rcases hc with rfl | hc
      · exact ⟨calls, parents, hadds, hhas⟩
      · exact hearlier hc

/-- As long as every addition is of the only commit that has the number that comes next, a commit that
was replaced keeps this number. -/
theorem pending_of_replaced (hg : g.dag.Tidy) (hrefs : g.RefsResolve)
    (honly : ∀ before id parents, g.Adds calls before id parents →
      ∀ c, (g.afterAll before).dag.Pending c → c = id)
    {k : Call} {time : Int64} (hhas : (g.afterAll before).dag.Has id)
    (hadd : (g.afterAll before).dag.add id parents time = .ok (g.afterAll (before ++ [k])).dag)
    (between : List Call) (hpre : before ++ [k] ++ between <+: calls) :
    (g.afterAll (before ++ [k] ++ between)).dag.Pending id := by
  induction between using List.reverseRecOn with
  | nil =>
    rw [List.append_nil]
    exact ((tidy_afterAll hg hrefs before).1.pending_of_add hadd).2 ⟨hhas, .inl rfl⟩
  | append_singleton between k' ih =>
    rw [← List.append_assoc] at hpre ⊢
    have hpending := ih ((List.prefix_append _ [k']).trans hpre)
    rcases afterAll_concat_cases hpre with hsame | ⟨id', parents', time', hadds, hadd'⟩
    · exact hsame ▸ hpending
    · have hid : id = id' := honly _ _ _ hadds id hpending
      have htidy := (tidy_afterAll hg hrefs (before ++ [k] ++ between)).1
      exact (htidy.pending_of_add hadd').2 ⟨hid ▸ hpending.has, .inl hid⟩

/-- Each addition is of the only commit with the number that comes next when no other commit is added
after a replacement. -/
theorem pending_iff_replaced (hg : g.dag.Tidy) (hrefs : g.RefsResolve)
    (hnone : ∀ c, ¬ g.dag.Pending c) :
    (∀ before id parents, g.Adds calls before id parents →
      ∀ c, (g.afterAll before).dag.Pending c → c = id) ↔
    ∀ before id parents before' id' parents', g.Adds calls before id parents →
      g.Adds calls before' id' parents' → before.length < before'.length →
      (g.afterAll before).dag.Has id → id' = id := by
  constructor
  · intro honly before id parents before' id' parents' hadds hadds' hlt hhas
    obtain ⟨k, time, hcall, hadd⟩ := hadds.exists_add
    obtain ⟨k', time', hcall', -⟩ := hadds'.exists_add
    have hpre' : before' <+: calls := (List.prefix_append before' [k']).trans hcall'
    obtain ⟨between, rfl⟩ : before ++ [k] <+: before' := by
      apply List.prefix_of_prefix_length_le hcall hpre'
      rw [List.length_append, List.length_singleton]
      omega
    have hpending := pending_of_replaced hg hrefs honly hhas hadd between hpre'
    exact (honly _ _ _ hadds' id hpending).symm
  · intro h before id parents hadds c hpending
    obtain ⟨earlier, parents', hearlier, hhas⟩ :=
      exists_replaced_of_pending hg hrefs hnone hpending
    obtain ⟨k, time, hcall, -⟩ := hadds.exists_add
    have hpre : before <+: calls := (List.prefix_append before [k]).trans hcall
    exact (h _ _ _ _ _ _ (hearlier.of_prefix hpre) hadds hearlier.length_lt hhas).symm

/-- Calls keep a graph sound all the time when they are orderly, and only then. -/
theorem sound_iff_orderly (hg : g.dag.Tidy) (hrefs : g.RefsResolve) (hordered : g.dag.Ordered)
    (hnone : ∀ c, ¬ g.dag.Pending c) :
    (∀ before, before <+: calls → (g.afterAll before).Sound) ↔ g.Orderly calls := by
  have hsound (before : List Call) : (g.afterAll before).Sound ↔ (g.afterAll before).dag.Ordered :=
    sound_iff (tidy_afterAll hg hrefs before).1 (tidy_afterAll hg hrefs before).2
  simp only [hsound, ordered_afterAll_iff hordered]
  constructor
  · intro h
    constructor
    case not_reaches => exact fun before id parents hadds => (h before id parents hadds).1
    case eq_replaced =>
      apply (pending_iff_replaced hg hrefs hnone).1
      exact fun before id parents hadds => (h before id parents hadds).2
  · intro h before id parents hadds
    refine ⟨h.not_reaches before id parents hadds, ?_⟩
    exact (pending_iff_replaced hg hrefs hnone).2 h.eq_replaced before id parents hadds

/-- A graph that is built up from nothing by any calls is sound after each of them exactly when no
commit is added with a parent that reaches it, and no other commit is added once one was replaced. -/
theorem sound_afterAll_iff (localBranches : Bool) (calls : List Call) :
    (∀ before, before <+: calls → (afterAll { empty with localBranches } before).Sound) ↔
      Orderly { empty with localBranches } calls := by
  have hrefs : RefsResolve { empty with localBranches } := fun e he => by cases he
  have hnone (c : CommitId) : ¬ Dag.Pending Dag.empty c := by
    rintro ⟨n, hn, -⟩
    cases hn
  exact sound_iff_orderly Dag.tidy_empty hrefs Dag.ordered_empty hnone

/-- A graph whose only commit was added again, with itself as parent. -/
def selfParent : MemoryGraph := empty.afterAll
  [.addCommit olderCommit [] 100, .addCommit olderCommit [olderCommit] 100]

/-- A graph whose first commit was added again before the second one was added. -/
def sharedNumber : MemoryGraph := empty.afterAll
  [.addCommit olderCommit [] 100, .addCommit olderCommit [] 100, .addCommit newerCommit [] 100]

/-- A commit that is its own parent has no merge base with itself, and where two commits share a number
their log depends on the order in which they are gathered. -/
theorem not_sound_of_replaced :
    ¬ selfParent.dag.Acyclic ∧ selfParent.dag.IsCommonAncestor olderCommit olderCommit olderCommit ∧
      selfParent.dag.mergeBase olderCommit olderCommit = .ok none ∧
      ¬ (sharedNumber.dag.nodes.map (·.order)).Nodup ∧
      sharedNumber.dag.newestFirst [olderCommit, newerCommit] ≠
        sharedNumber.dag.newestFirst [newerCommit, olderCommit] := by
  have htidy : selfParent.dag.Tidy := (tidy_afterAll Dag.tidy_empty (fun e he => by cases he) _).1
  have hfind : selfParent.dag.find? olderCommit = some ⟨olderCommit, [olderCommit], 100, 1⟩ := rfl
  have hloop : selfParent.dag.IsParent olderCommit olderCommit :=
    ⟨_, hfind, List.mem_singleton_self _⟩
  have honly {c : CommitId} (h : selfParent.dag.Reaches olderCommit c) : c = olderCommit := by
    induction h with
    | refl => rfl
    | tail _ hp ih =>
      obtain ⟨n, hn, hp⟩ := hp
      rw [ih, hfind] at hn
      cases hn
      exact List.mem_singleton.1 hp
  refine ⟨fun hacyclic => hacyclic olderCommit (.single hloop), ⟨.refl, .refl⟩, ?base, ?number, ?log⟩
  case base =>
    obtain ⟨base, hbase, hsome, -⟩ := Dag.exists_mergeBase htidy.closed ⟨_, hfind⟩ ⟨_, hfind⟩
    cases base with
    | none => exact hbase
    | some c =>
      obtain ⟨hcommon, hbest⟩ := hsome c rfl
      obtain rfl := honly hcommon.1
      exact absurd (.single hloop) (hbest _ hcommon)
  case number => decide
  case log =>
    let older : Node := ⟨olderCommit, [], 100, 1⟩
    let newer : Node := ⟨newerCommit, [], 100, 1⟩
    have hgathered : [olderCommit, newerCommit].mapM sharedNumber.dag.node = .ok [older, newer] := rfl
    have hgathered' : [newerCommit, olderCommit].mapM sharedNumber.dag.node = .ok [newer, older] := rfl
    have hsort : [older, newer].mergeSort Dag.isNewer = [older, newer] := by
      simp [List.mergeSort, Dag.isNewer, Node.isLater, older, newer]
    have hsort' : [newer, older].mergeSort Dag.isNewer = [newer, older] := by
      simp [List.mergeSort, Dag.isNewer, Node.isLater, older, newer]
    rw [Dag.newestFirst, hgathered, ok_bind, hsort, Dag.newestFirst, hgathered', ok_bind, hsort']
    decide

end MemoryGraph

end NextBuild
