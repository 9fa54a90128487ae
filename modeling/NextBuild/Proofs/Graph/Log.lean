import Mathlib.Data.List.Nodup
import NextBuild.Proofs.Graph.Growth
import NextBuild.Proofs.Graph.Runs

/-!
# Logs of graphs that are built up

A log lists each commit that its start reaches once, the newer one of two first: by time, and of the
same time by the number of the commit.  Numbers tell the commits of a graph apart, so a log is
determined by the commits on it.  When a line of history grows by commits that are newer than all
before, the old log stays as it is at the end of the new one, although the place of each entry has
changed.
-/

namespace NextBuild

/-- The entry of a commit in a log. -/
def Node.entry (n : Node) : LogEntry := ⟨n.id, n.time⟩

namespace Dag

variable {g : Dag} {seen todo out cs : List CommitId} {ns ms : List Node}

/-- The order of a log, with times as integers. -/
theorem isNewer_iff {a b : Node} :
    isNewer a b = true ↔
      b.time.toInt < a.time.toInt ∨ a.time.toInt = b.time.toInt ∧ b.order ≤ a.order := by
  simp only [isNewer, Node.isLater, Bool.or_eq_true, Bool.and_eq_true, decide_eq_true_eq,
    beq_iff_eq, Int64.lt_iff_toInt_lt, Int64.toInt_inj]

/-- The comparison is transitive. -/
theorem isNewer_trans (a b c : Node) (hab : isNewer a b = true) (hbc : isNewer b c = true) :
    isNewer a c = true := by
  rw [isNewer_iff] at *
  omega

/-- Any two commits can be compared. -/
theorem isNewer_total (a b : Node) : (isNewer a b || isNewer b a) = true := by
  rw [Bool.or_eq_true, isNewer_iff, isNewer_iff]
  omega

/-- The walk sees no commit twice. -/
theorem nodup_of_reach (h : g.reach seen todo = .ok out) (hseen : seen.Nodup) : out.Nodup := by
  fun_induction g.reach seen todo with
  | case1 seen =>
    cases h
    exact hseen
  | case2 seen c todo hc ih => exact ih h hseen
  | case3 seen c todo hc n hn ih =>
    exact ih h (List.nodup_cons.2 ⟨by simpa using hc, hseen⟩)
  | case4 => cases h

/-- The commits are distinct ones of the graph, the newer one of two first. -/
structure IsNewestFirst (g : Dag) (ns : List Node) : Prop where
  found : ∀ n ∈ ns, g.find? n.id = some n
  sorted : ns.Pairwise fun a b => isNewer a b = true
  nodup : (ns.map (·.id)).Nodup

/-- Commits that are looked up, all of them, are found each under its id. -/
theorem find?_of_mapM_node (h : cs.mapM g.node = .ok ns) :
    cs = ns.map (·.id) ∧ ∀ n ∈ ns, g.find? n.id = some n := by
  have hfound := forall₂_of_mapM h
  clear h
  induction hfound with
  | nil => simp
  | @cons c n cs ns hnode _ ih =>
    have hn : g.find? c = some n := by
      unfold node at hnode
      split at hnode
      · next hm => rw [hm, Except.ok.inj hnode]
      · cases hnode
    obtain ⟨rfl, hall⟩ := ih
    obtain rfl := id_of_find? hn
    exact ⟨rfl, by simpa using ⟨hn, hall⟩⟩

/-- What is put into the order of a log is in this order. -/
theorem exists_isNewestFirst {es : List LogEntry} (hcs : cs.Nodup)
    (h : g.newestFirst cs = .ok es) : ∃ ns, es = ns.map Node.entry ∧ g.IsNewestFirst ns := by
  unfold newestFirst at h
  obtain ⟨ns, hns, h⟩ := bind_eq_ok_iff.1 h
  cases h
  obtain ⟨rfl, hfound⟩ := find?_of_mapM_node hns
  have hperm := List.mergeSort_perm ns isNewer
  exact ⟨ns.mergeSort isNewer, rfl, fun n hn => hfound n (hperm.mem_iff.1 hn),
    List.pairwise_mergeSort isNewer_trans isNewer_total ns, (hperm.map Node.id).nodup_iff.2 hcs⟩

/-- Commits in their order have different numbers. -/
theorem Ranked.nodup_order (hg : g.Ranked) : (g.nodes.map (·.order)).Nodup :=
  hg.numbered ▸ List.nodup_range

/-- Different numbers tell the commits apart. -/
theorem eq_of_order_eq (hg : (g.nodes.map (·.order)).Nodup) {a b : Node}
    (ha : g.find? a.id = some a) (hb : g.find? b.id = some b) (h : a.order = b.order) : a = b :=
  List.inj_on_of_nodup_map hg (List.mem_of_find?_eq_some ha) (List.mem_of_find?_eq_some hb) h

/-- Two logs of the same commits are the same. -/
theorem IsNewestFirst.eq_of_perm (hg : (g.nodes.map (·.order)).Nodup) (hns : g.IsNewestFirst ns)
    (hms : g.IsNewestFirst ms) (hperm : ns.Perm ms) : ns = ms := by
  refine List.Perm.eq_of_pairwise (fun a b ha hb hab hba => ?_) hns.sorted hms.sorted hperm
  rw [isNewer_iff] at hab hba
  exact eq_of_order_eq hg (hns.found a ha) (hms.found b hb) (by omega)

/-- Where all commits of one log are on another one, and all others there are newer, these come
first. -/
theorem IsNewestFirst.exists_append (hg : g.Ranked) (hns : g.IsNewestFirst ns)
    (hms : g.IsNewestFirst ms) (hsub : ns ⊆ ms)
    (hnew : ∀ m ∈ ms, m ∉ ns → ∀ n ∈ ns, n.time < m.time) :
    ∃ newer, ms = newer ++ ns ∧ ∀ m ∈ newer, ∀ n ∈ ns, n.time < m.time := by
  let newer := ms.filter fun m => m ∉ ns
  have hnewer : ∀ m ∈ newer, ∀ n ∈ ns, n.time < m.time := by
    intro m hm
    obtain ⟨hmem, hfresh⟩ := List.mem_filter.1 hm
    exact hnew m hmem (of_decide_eq_true hfresh)
  have hids : ns.Nodup ∧ ms.Nodup := ⟨hns.nodup.of_map, hms.nodup.of_map⟩
  have hdisjoint : (newer ++ ns).Nodup := by
    refine List.nodup_append.2 ⟨hids.2.filter _, hids.1, fun m hm n hn hmn => ?_⟩
    exact of_decide_eq_true (List.mem_filter.1 hm).2 (hmn ▸ hn)
  have hperm : (newer ++ ns).Perm ms := by
    rw [List.perm_ext_iff_of_nodup hdisjoint hids.2]
    intro m
    by_cases hm : m ∈ ns
    · simp [hm, hsub hm]
    · simp [newer, hm]
  have horder : g.IsNewestFirst (newer ++ ns) := by
    refine ⟨fun n hn => hms.found n (hperm.mem_iff.1 hn), List.pairwise_append.2
      ⟨hms.sorted.filter _, hns.sorted, fun m hm n hn => ?_⟩, ?_⟩
    · rw [isNewer_iff]
      exact .inl (Int64.lt_iff_toInt_lt.1 (hnewer m hm n hn))
    · exact (hperm.map (·.id)).nodup_iff.2 hms.nodup
  exact ⟨newer, hms.eq_of_perm hg.nodup_order horder hperm.symm, hnewer⟩

end Dag

namespace MemoryGraph

variable {g g' : MemoryGraph} {reference : Option String} {log log' : List LogEntry}

/-- A log lists distinct commits of the graph in its order. -/
theorem exists_isNewestFirst_of_log (h : g.log reference = .ok log) :
    ∃ ns, log = ns.map Node.entry ∧ g.dag.IsNewestFirst ns := by
  obtain ⟨starts, h⟩ : ∃ starts, (g.dag.reach [] starts >>= g.dag.newestFirst) = .ok log := by
    cases reference with
    | none => exact ⟨_, h⟩
    | some name =>
      obtain ⟨starts, -, h⟩ := bind_eq_ok_iff.1 h
      exact ⟨starts, h⟩
  obtain ⟨out, hout, h⟩ := bind_eq_ok_iff.1 h
  exact Dag.exists_isNewestFirst (Dag.nodup_of_reach hout List.nodup_nil) h

/-- No commit is on a log twice. -/
theorem nodup_of_log (h : g.log reference = .ok log) : (log.map (·.commit)).Nodup := by
  obtain ⟨ns, rfl, hns⟩ := exists_isNewestFirst_of_log h
  simpa [Node.entry, Function.comp_def] using hns.nodup

/-- An entry of a log has the time of its commit. -/
theorem time_of_mem_log (h : g.log reference = .ok log) {e : LogEntry} (he : e ∈ log) {n : Node}
    (hn : g.dag.find? e.commit = some n) : e.time = n.time := by
  obtain ⟨ns, rfl, hns⟩ := exists_isNewestFirst_of_log h
  obtain ⟨m, hm, rfl⟩ := List.mem_map.1 he
  have hfound : some m = some n := (hns.found m hm).symm.trans hn
  rw [← Option.some.inj hfound]
  rfl

/-- The line of history has grown: all commits of the old log are on the new one, and the other
commits there are newer than all of these. -/
structure Extends (log log' : List LogEntry) : Prop where
  kept : ∀ d ∈ log, d.commit ∈ log'.map (·.commit)
  newer : ∀ e ∈ log', e.commit ∉ log.map (·.commit) → ∀ d ∈ log, d.time < e.time

/-- The log of a line that has grown is the old log behind entries that are newer. -/
theorem Extends.exists_append (hg' : g'.dag.Ranked)
    (hkeep : ∀ c n, g.dag.find? c = some n → g'.dag.find? c = some n)
    (hlog : g.log reference = .ok log) (hlog' : g'.log reference = .ok log')
    (h : Extends log log') :
    ∃ newer, log' = newer ++ log ∧ ∀ e ∈ newer, ∀ d ∈ log, d.time < e.time := by
  obtain ⟨ns, rfl, hns⟩ := exists_isNewestFirst_of_log hlog
  obtain ⟨ms, rfl, hms⟩ := exists_isNewestFirst_of_log hlog'
  have hns' : g'.dag.IsNewestFirst ns :=
    ⟨fun n hn => hkeep _ _ (hns.found n hn), hns.sorted, hns.nodup⟩
  -- Commits of the same id are the same commit of the graph, so membership may be told by the id.
  have hsame : ∀ n ∈ ns, ∀ m ∈ ms, m.id = n.id → m = n := by
    intro n hn m hm hid
    have hfound := hms.found m hm
    rw [hid, hns'.found n hn] at hfound
    exact (Option.some.inj hfound).symm
  have hsub : ns ⊆ ms := by
    intro n hn
    have hkept := h.kept n.entry (List.mem_map_of_mem hn)
    simp only [List.map_map, List.mem_map, Function.comp_apply] at hkept
    obtain ⟨m, hm, hid⟩ := hkept
    exact hsame n hn m hm hid ▸ hm
  have hnew : ∀ m ∈ ms, m ∉ ns → ∀ n ∈ ns, n.time < m.time := by
    intro m hm hfresh n hn
    refine h.newer m.entry (List.mem_map_of_mem hm) (fun hmem => hfresh ?_) n.entry
      (List.mem_map_of_mem hn)
    simp only [List.map_map, List.mem_map, Function.comp_apply] at hmem
    obtain ⟨k, hk, hid⟩ := hmem
    exact hsame k hk m hm hid.symm ▸ hk
  obtain ⟨newer, rfl, hnewer⟩ := hns'.exists_append hg' hms hsub hnew
  refine ⟨newer.map Node.entry, List.map_append, fun e he d hd => ?_⟩
  obtain ⟨m, hm, rfl⟩ := List.mem_map.1 he
  obtain ⟨n, hn, rfl⟩ := List.mem_map.1 hd
  exact hnewer m hm n hn

/-- In the example the log of the newer commit goes on to the older one. -/
theorem log_of_resolve_newerCommit {name : String} (hdag : g.dag = twoBranches.dag)
    (hresolve : g.resolve name = .ok newerCommit) :
    g.log (some name) = .ok [⟨newerCommit, 200⟩, ⟨olderCommit, 100⟩] := by
  let older : Node := ⟨olderCommit, [], 100, 0⟩
  let newer : Node := ⟨newerCommit, [olderCommit], 200, 1⟩
  have hreach : twoBranches.dag.reach [] [newerCommit] = .ok [olderCommit, newerCommit] := by
    have hnewer : twoBranches.dag.find? newerCommit = some newer := rfl
    have holder : twoBranches.dag.find? olderCommit = some older := rfl
    rw [Dag.reach_cons List.not_mem_nil hnewer]
    show twoBranches.dag.reach [newerCommit] [olderCommit] = _
    rw [Dag.reach_cons (by decide) holder]
    exact Dag.reach.eq_1 _ _
  have hnewest : twoBranches.dag.newestFirst [olderCommit, newerCommit] =
      .ok [⟨newerCommit, 200⟩, ⟨olderCommit, 100⟩] := by
    have hnodes : [olderCommit, newerCommit].mapM twoBranches.dag.node = .ok [older, newer] := rfl
    have hsort : [older, newer].mergeSort Dag.isNewer = [newer, older] := by
      simp [List.mergeSort, Dag.isNewer, Node.isLater, older, newer]
    rw [Dag.newestFirst, hnodes, ok_bind, hsort]
    rfl
  simp only [MemoryGraph.log, hresolve, Except.map, ok_bind, hdag, hreach, hnewest]

end MemoryGraph

end NextBuild
