import Mathlib.Logic.Relation
import NextBuild.Proofs.Graph.Log
import NextBuild.Proofs.Selection.Queue

/-!
# The queue on a growing line

A line of history may grow while a queue builds it.  As long as all that is added is newer than what
was there, the entries of the log keep their order, although each one gets another place, and the
commit of the last build stays on the line.  So the commits from the one the queue started at on are
the same before and after, with the new ones at the far end, and the queue takes them one by one:
between the start and the commit of the last build there is what was taken, beyond it what waits.
-/

namespace NextBuild.QueueStrategy

variable {log newer : List LogEntry} {c start : CommitId} {taken waiting : List CommitId}

/-- Entries that are newer than a log, and in front of it, come before all of it. -/
theorem newestFirst_append (h : ∀ e ∈ newer, ∀ d ∈ log, d.time < e.time) :
    newestFirst (newer ++ log) = newestFirst newer ++ newestFirst log := by
  let shift (a : LogEntry × Nat) : LogEntry × Nat := (a.1, newer.length + a.2)
  have hshift : log.zipIdx newer.length = log.zipIdx.map shift := List.zipIdx_eq_map_add
  have hperm : ((newer ++ log).zipIdx.mergeSort isNewer).Perm
      (newer.zipIdx.mergeSort isNewer ++ (log.zipIdx.mergeSort isNewer).map shift) := by
    refine (List.mergeSort_perm _ _).trans ?_
    rw [List.zipIdx_append, Nat.zero_add, hshift]
    exact ((List.mergeSort_perm _ _).append ((List.mergeSort_perm _ _).map shift)).symm
  have hold : ((log.zipIdx.mergeSort isNewer).map shift).Pairwise Newer := by
    refine List.pairwise_map.2 ((pairwise_newer log).imp fun {a b} hab => ?_)
    rw [newer_iff] at hab ⊢
    simp only [shift]
    omega
  have hpairwise : (newer.zipIdx.mergeSort isNewer ++
      (log.zipIdx.mergeSort isNewer).map shift).Pairwise Newer := by
    refine List.pairwise_append.2 ⟨pairwise_newer newer, hold, fun a ha b hb => .inl ?_⟩
    obtain ⟨d, hd, rfl⟩ := List.mem_map.1 hb
    rw [List.mem_mergeSort] at ha hd
    exact h a.1 (List.fst_mem_of_mem_zipIdx ha) d.1 (List.fst_mem_of_mem_zipIdx hd)
  -- No two entries are of the same age, so there is one way only to put them into order.
  have heq := List.Perm.eq_of_pairwise (fun a b _ _ hab hba => absurd hba (Newer.asymm a b hab))
    (pairwise_newer (newer ++ log)) hpairwise hperm
  rw [newestFirst, heq, List.map_append, List.map_map]
  rfl

/-- The commits of a log from new to old. -/
def line (log : List LogEntry) : List CommitId := (newestFirst log).map (·.commit)

/-- Newer commits come in front of the line, in their own order. -/
theorem line_append (h : ∀ e ∈ newer, ∀ d ∈ log, d.time < e.time) :
    line (newer ++ log) = line newer ++ line log := by
  rw [line, newestFirst_append h, List.map_append]
  rfl

/-- The line holds the commits of the log. -/
theorem line_perm (log : List LogEntry) : (line log).Perm (log.map (·.commit)) := by
  have hplaces := ((List.mergeSort_perm log.zipIdx isNewer).map Prod.fst).map LogEntry.commit
  rwa [List.zipIdx_map_fst] at hplaces

/-- The commits of the entries ahead. -/
theorem map_ahead (log : List LogEntry) (c : CommitId) :
    (ahead log c).map (·.1.commit) = (line log).takeWhile (· != c) := by
  rw [line, List.takeWhile_map]
  have hentries := congrArg (List.map LogEntry.commit) (takeWhile_newestFirst log c)
  rw [List.map_map] at hentries
  exact hentries.symm

/-- On a line without repetitions what is in front of a commit is what is ahead of it. -/
theorem map_ahead_eq {older : List CommitId} (hnodup : (log.map (·.commit)).Nodup)
    (h : line log = waiting ++ c :: older) : (ahead log c).map (·.1.commit) = waiting := by
  have hdistinct : (waiting ++ c :: older).Nodup := h ▸ (line_perm log).nodup_iff.2 hnodup
  have hfront : ∀ d ∈ waiting, (d != c) = true := by
    intro d hd
    exact bne_iff_ne.2 ((List.nodup_append.1 hdistinct).2.2 d hd c List.mem_cons_self)
  rw [map_ahead, h, List.takeWhile_append_of_pos hfront, List.takeWhile_cons_of_neg (by simp),
    List.append_nil]

/-- Next to the commit where the queue started there are on the line the commits that were taken,
in their order, up to that of the last build, and then those that wait. -/
structure Queued (ledger : Ledger) (log : List LogEntry) (start : CommitId)
    (taken waiting : List CommitId) : Prop where
  nodup : (log.map (·.commit)).Nodup
  cursor : ledger.last.map (·.marked.commit) = (start :: taken).getLast?
  split : ∃ older, line log = waiting ++ ((start :: taken).reverse ++ older)

namespace Queued

variable {ledger : Ledger} {last : Build} {g : CommitGraph} {s : QueueStrategy} {req : Request}

/-- Before the first build nothing is taken, and all that is ahead of the start waits. -/
theorem begin (hnodup : (log.map (·.commit)).Nodup) (hlast : ledger.last = some last)
    (hstart : last.marked.commit ∈ log.map (·.commit)) :
    ∃ waiting, Queued ledger log last.marked.commit [] waiting := by
  obtain ⟨waiting, older, h⟩ := List.append_of_mem ((line_perm log).mem_iff.2 hstart)
  exact ⟨waiting, hnodup, by simp [hlast], older, h⟩

/-- What is ahead of the start was taken or waits. -/
theorem map_ahead_start (h : Queued ledger log start taken waiting) :
    (ahead log start).map (·.1.commit) = waiting ++ taken.reverse := by
  obtain ⟨older, hline⟩ := h.split
  have hsplit : line log = (waiting ++ taken.reverse) ++ start :: older := by simp [hline]
  exact map_ahead_eq h.nodup hsplit

/-- A poll answers with the commit that has waited longest. -/
theorem exists_poll (h : Queued ledger log start taken waiting) (hpoll : req.poll = true)
    (hlog : g (.log (s.logTarget? req)) = .ok log) :
    ∃ rs, (s.select req ledger).run g = .ok rs ∧ rs.map (·.commit) = waiting.getLast?.toList := by
  obtain ⟨older, hline⟩ := h.split
  -- The last commit taken, or the start before the first build, is the one the walk stops at.
  obtain ⟨c, before, hbefore⟩ : ∃ c before, (start :: taken) = before ++ [c] :=
    ⟨_, _, (List.dropLast_append_getLast (List.cons_ne_nil start taken)).symm⟩
  obtain ⟨last, hlast, hcommit⟩ : ∃ last, ledger.last = some last ∧ last.marked.commit = c := by
    have hcursor := h.cursor
    rw [hbefore, List.getLast?_concat] at hcursor
    exact Option.map_eq_some_iff.1 hcursor
  have hahead : (ahead log last.marked.commit).map (·.1.commit) = waiting := by
    have hsplit : line log = waiting ++ last.marked.commit :: (before.reverse ++ older) := by
      rw [hline, hbefore, hcommit]
      simp
    exact map_ahead_eq h.nodup hsplit
  refine ⟨_, run_select_after_build hlast hlog, ?_⟩
  rw [← hahead, List.getLast?_map]
  cases (ahead log last.marked.commit).getLast? <;> simp [hpoll]

/-- A build takes the commit that has waited longest. -/
theorem build (h : Queued ledger log start taken waiting) (hc : waiting.getLast? = some c)
    {b : Build} (hb : b.marked.commit = c) :
    Queued (ledger.record b) log start (taken ++ [c]) waiting.dropLast where
  nodup := h.nodup
  cursor := by
    rw [← List.cons_append, List.getLast?_concat]
    exact congrArg some hb
  split := by
    obtain ⟨older, hline⟩ := h.split
    obtain ⟨rest, rfl⟩ := List.getLast?_eq_some_iff.1 hc
    exact ⟨older, by simp [hline]⟩

/-- When the line grows the new commits wait behind the others. -/
theorem grow (h : Queued ledger log start taken waiting)
    (hnodup : ((newer ++ log).map (·.commit)).Nodup)
    (hnewer : ∀ e ∈ newer, ∀ d ∈ log, d.time < e.time) :
    Queued ledger (newer ++ log) start taken (line newer ++ waiting) where
  nodup := hnodup
  cursor := h.cursor
  split := by
    obtain ⟨older, hline⟩ := h.split
    exact ⟨older, by rw [line_append hnewer, hline, List.append_assoc]⟩

end Queued

/-- A graph that grows while a queue builds a line of it, with the builds so far.  Each build is of
what a poll has found, with any number and any outcome.  Between two builds the graph may change in
any way that only adds newer commits to the line. -/
inductive Progress (target : Option String) (g₀ : MemoryGraph) (ledger : Ledger) :
    MemoryGraph → List Build → Prop
  | start : Progress target g₀ ledger g₀ []
  | build {g : MemoryGraph} {done : List Build} {s : QueueStrategy} {req : Request}
      {rs : List Revision} {r : Revision} (number : UInt64) (result : BuildResult) :
      Progress target g₀ ledger g done → s.logTarget? req = target → req.poll = true →
      (s.select req (ledger.recordAll done)).run g.answers = .ok rs → r ∈ rs →
      Progress target g₀ ledger g (done ++ [⟨r, none, number, result⟩])
  | extend {g g' : MemoryGraph} {done : List Build} {log log' : List LogEntry} :
      Progress target g₀ ledger g done → Relation.ReflTransGen MemoryGraph.Change g g' →
      g.log target = .ok log → g'.log target = .ok log' → MemoryGraph.Extends log log' →
      Progress target g₀ ledger g' done

/-- The entries of a log that are ahead of a commit, each commit once and the oldest one first. -/
structure IsAgenda (log : List LogEntry) (start : CommitId) (agenda : List (LogEntry × Nat)) :
    Prop where
  mem_iff : ∀ a, a ∈ agenda ↔ IsAhead log start a
  increasing : agenda.Pairwise fun a b => Newer b a
  nodup : (agenda.map (·.1.commit)).Nodup

namespace Progress

variable {target : Option String} {g₀ g : MemoryGraph} {ledger : Ledger} {last : Build}
  {done : List Build} {log₀ : List LogEntry}

/-- Changes keep a graph one that was built up, and its commits as they are. -/
theorem grown_of_changes {g' : MemoryGraph} (hg : g.Grown)
    (h : Relation.ReflTransGen MemoryGraph.Change g g') :
    g'.Grown ∧ ∀ c n, g.dag.find? c = some n → g'.dag.find? c = some n := by
  induction h with
  | refl => exact ⟨hg, fun _ _ hn => hn⟩
  | tail _ hchange ih => exact ⟨ih.1.change hchange, fun c n hn => hchange.find?_eq_some (ih.2 c n hn)⟩

/-- At every moment the commits on the line were taken in their order, or wait. -/
theorem exists_queued (hg : g₀.Grown) (hlast : ledger.last = some last)
    (hlog₀ : g₀.log target = .ok log₀) (hstart : last.marked.commit ∈ log₀.map (·.commit))
    (h : Progress target g₀ ledger g done) :
    g.Grown ∧ ∃ log waiting, g.log target = .ok log ∧ Queued (ledger.recordAll done) log
      last.marked.commit (done.map (·.revision.commit)) waiting := by
  induction h with
  | start =>
    obtain ⟨waiting, hqueued⟩ := Queued.begin (MemoryGraph.nodup_of_log hlog₀) hlast hstart
    exact ⟨hg, log₀, waiting, hlog₀, hqueued⟩
  | @build g done s req rs r number result _ htarget hpoll hrun hr ih =>
    obtain ⟨hgrown, log, waiting, hlog, hqueued⟩ := ih
    obtain ⟨_, hrun', hcommits⟩ := hqueued.exists_poll (s := s) (g := g.answers) hpoll (htarget ▸ hlog)
    cases hrun.symm.trans hrun'
    -- There is one commit only that a poll can find, so the build is of this one.
    have hnext : waiting.getLast? = some r.commit := by
      have hmem : r.commit ∈ waiting.getLast?.toList := hcommits ▸ List.mem_map_of_mem hr
      simpa using hmem
    refine ⟨hgrown, log, waiting.dropLast, hlog, ?_⟩
    simpa using hqueued.build (b := ⟨r, none, number, result⟩) hnext rfl
  | @extend g g' done log log' _ hchanges hlog hlog' hextends ih =>
    obtain ⟨hgrown, _, waiting, hlog'', hqueued⟩ := ih
    cases hlog.symm.trans hlog''
    obtain ⟨hgrown', hkeep⟩ := grown_of_changes hgrown hchanges
    obtain ⟨newer, rfl, hnewer⟩ :=
      hextends.exists_append hgrown'.ranked_and_refsResolve.1 hkeep hlog hlog'
    exact ⟨hgrown', _, _, hlog', hqueued.grow (MemoryGraph.nodup_of_log hlog') hnewer⟩

/-- On a line that grows by newer commits a queue takes the commits ahead of the one it started at
in their order, none of them twice and none left out, and finds nothing when all are taken. -/
theorem takes_agenda (hg : g₀.Grown) (hlast : ledger.last = some last)
    (hlog₀ : g₀.log target = .ok log₀) (hstart : last.marked.commit ∈ log₀.map (·.commit))
    (h : Progress target g₀ ledger g done) :
    ∃ log agenda, g.log target = .ok log ∧ IsAgenda log last.marked.commit agenda ∧
      done.map (·.revision.commit) <+: agenda.map (·.1.commit) ∧
      ∀ (s : QueueStrategy) (req : Request), s.logTarget? req = target → req.poll = true →
        ∃ rs, (s.select req (ledger.recordAll done)).run g.answers = .ok rs ∧
          (rs = [] ↔ done.map (·.revision.commit) = agenda.map (·.1.commit)) := by
  obtain ⟨-, log, waiting, hlog, hqueued⟩ := h.exists_queued hg hlast hlog₀ hstart
  have hagenda : ((ahead log last.marked.commit).reverse).map (·.1.commit) =
      done.map (·.revision.commit) ++ waiting.reverse := by
    rw [List.map_reverse, hqueued.map_ahead_start, List.reverse_append, List.reverse_reverse]
  refine ⟨log, (ahead log last.marked.commit).reverse, hlog, ⟨fun a => ?_, ?_, ?_⟩, ?_, ?_⟩
  · rw [List.mem_reverse, mem_ahead]
  · exact List.pairwise_reverse.2 (pairwise_ahead log _)
  · rw [List.map_reverse, List.nodup_reverse, map_ahead]
    exact (List.takeWhile_sublist _).nodup ((line_perm log).nodup_iff.2 hqueued.nodup)
  · rw [hagenda]
    exact List.prefix_append _ _
  · intro s req htarget hpoll
    obtain ⟨rs, hrun, hcommits⟩ := hqueued.exists_poll (s := s) (g := g.answers) hpoll (htarget ▸ hlog)
    have hnil : rs.map (·.commit) = [] ↔ waiting = [] := by
      rw [hcommits, Option.toList_eq_nil_iff, List.getLast?_eq_none_iff]
    refine ⟨rs, hrun, ?_⟩
    rw [hagenda, List.self_eq_append_right, List.reverse_eq_nil_iff, ← hnil, List.map_eq_nil_iff]

end Progress

open MemoryGraph in
/-- A branch of the example that is moved to the newer commit after the older one was built. -/
theorem takes_agenda_twoBranches :
    let target : Option String := some "origin/master"
    let moved : MemoryGraph :=
      { twoBranches with refs := twoBranches.refs.insert "refs/remotes/origin/master" newerCommit }
    let first : Build := ⟨.labelled olderCommit "origin/master", none, 1, .success⟩
    let second : Build := ⟨.labelled newerCommit "origin/master", none, 2, .success⟩
    Grown twoBranches ∧ oneBuild.last = some first ∧ twoBranches.log target = .ok [⟨olderCommit, 100⟩] ∧
      first.marked.commit ∈ [(⟨olderCommit, 100⟩ : LogEntry)].map (·.commit) ∧
      Progress target twoBranches oneBuild moved [second] ∧
      ∃ log agenda, moved.log target = .ok log ∧ IsAgenda log olderCommit agenda ∧
        [newerCommit] <+: agenda.map (·.1.commit) ∧
        ∀ (s : QueueStrategy) (req : Request), s.logTarget? req = target → req.poll = true →
          ∃ rs, (s.select req (oneBuild.recordAll [second])).run moved.answers = .ok rs ∧
            (rs = [] ↔ [newerCommit] = agenda.map (·.1.commit)) := by
  intro target moved first second
  let strategy : QueueStrategy := ⟨target⟩
  let request : Request := ⟨true, none, [], ⟨2024, 1, 31⟩, 0⟩
  let log : List LogEntry := [⟨newerCommit, 200⟩, ⟨olderCommit, 100⟩]
  have hlast : oneBuild.last = some first := rfl
  have hstart : first.marked.commit ∈ [(⟨olderCommit, 100⟩ : LogEntry)].map (·.commit) := by decide
  have htarget : strategy.logTarget? request = target :=
    congrArg some (Text.expand_eq_self (by decide))
  have hlog₀ : twoBranches.log target = .ok [⟨olderCommit, 100⟩] := log_twoBranches
  have hset : twoBranches.setRef "refs/remotes/origin/master" newerCommit = .ok moved := rfl
  have hlog : moved.log target = .ok log := log_of_resolve_newerCommit rfl rfl
  have hextends : Extends [⟨olderCommit, 100⟩] log := ⟨by decide, by decide⟩
  have hpoll : (strategy.select request oneBuild).run moved.answers =
      .ok [.labelled newerCommit "origin/master"] := by
    have hahead : ahead log first.marked.commit = [(⟨newerCommit, 200⟩, 0)] := by
      have hsort : log.zipIdx.mergeSort isNewer = log.zipIdx := by simp [List.mergeSort, isNewer, log]
      rw [ahead, hsort]
      rfl
    rw [run_select_after_build hlast (htarget ▸ hlog), hahead, label, htarget]
    rfl
  have hmoved : Progress target twoBranches oneBuild moved [] :=
    .extend .start (.single (.setRef hset)) hlog₀ hlog hextends
  have hdone : Progress target twoBranches oneBuild moved [second] :=
    .build 2 .success hmoved htarget rfl hpoll List.mem_cons_self
  exact ⟨grown_twoBranches, hlast, hlog₀, hstart, hdone,
    Progress.takes_agenda grown_twoBranches hlast hlog₀ hstart hdone⟩

end NextBuild.QueueStrategy
