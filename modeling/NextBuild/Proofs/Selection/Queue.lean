import Mathlib.Data.List.Nodup
import NextBuild.Proofs.Graph.Growth
import NextBuild.Proofs.Graph.Runs
import NextBuild.Proofs.Ledger
import NextBuild.Strategy.Queue

/-!
# The next commit of the queue

The queue goes through a log from new to old until it meets the commit that the last build was for,
and takes the entry just before.  Entries are told apart by their places, so the order of the log is
strict, and what is taken is the oldest of the entries that are newer than every entry of that
commit.  Nothing else in the ledger is looked at: a poll repeats a build exactly when the next entry
is covered by the last build as its merge, or by the last build of some branch.
-/

namespace NextBuild

/-- Before the first entry that fails a test there are the entries that a strict order puts before
all that fail it. -/
theorem mem_takeWhile_iff_of_pairwise {α : Type} {R : α → α → Prop} {p : α → Bool} {xs : List α}
    (hasymm : ∀ a b, R a b → ¬ R b a) (hxs : xs.Pairwise R) {a : α} :
    a ∈ xs.takeWhile p ↔ a ∈ xs ∧ ∀ b ∈ xs, p b = false → R a b := by
  induction xs with
  | nil => simp
  | cons x xs ih =>
    obtain ⟨hx, hxs⟩ := List.pairwise_cons.1 hxs
    cases hp : p x with
    | true =>
      simp only [List.takeWhile_cons_of_pos hp, List.mem_cons, ih hxs, forall_eq_or_imp, hp,
        Bool.true_eq_false, false_implies, true_and]
      constructor
      · intro h
        rcases h with rfl | ⟨ha, hall⟩
        · exact ⟨.inl rfl, fun b hb _ => hx b hb⟩
        · exact ⟨.inr ha, hall⟩
      · intro h
        rcases h with ⟨rfl | ha, hall⟩
        · exact .inl rfl
        · exact .inr ⟨ha, hall⟩
    | false =>
      have hnil : (x :: xs).takeWhile p = [] := List.takeWhile_cons_of_neg (by simp [hp])
      rw [hnil]
      constructor
      · intro h
        cases h
      · intro h
        obtain ⟨ha, hall⟩ := h
        have hax := hall x List.mem_cons_self hp
        rcases List.mem_cons.1 ha with rfl | ha
        · exact absurd hax (hasymm _ _ hax)
        · exact absurd (hx a ha) (hasymm _ _ hax)

/-- The last entry is the one that a strict order puts behind all others. -/
theorem getLast?_eq_some_iff_of_pairwise {α : Type} {R : α → α → Prop} {xs : List α}
    (hasymm : ∀ a b, R a b → ¬ R b a) (hxs : xs.Pairwise R) {a : α} :
    xs.getLast? = some a ↔ a ∈ xs ∧ ∀ b ∈ xs, b ≠ a → R b a := by
  have hlast : ∀ c, xs.getLast? = some c → c ∈ xs ∧ ∀ b ∈ xs, b ≠ c → R b c := by
    intro c hc
    obtain ⟨ys, rfl⟩ := List.getLast?_eq_some_iff.1 hc
    refine ⟨by simp, fun b hb hne => ?_⟩
    have hb : b ∈ ys := by simpa [hne] using hb
    exact (List.pairwise_append.1 hxs).2.2 b hb c List.mem_cons_self
  refine ⟨hlast a, fun ⟨ha, hall⟩ => ?_⟩
  cases hc : xs.getLast? with
  | none => simp [List.getLast?_eq_none_iff.1 hc] at ha
  | some c =>
    obtain ⟨hmem, hbehind⟩ := hlast c hc
    by_contra hne
    have hca : c ≠ a := fun h => hne (h ▸ rfl)
    exact hasymm _ _ (hbehind a ha hca.symm) (hall c hmem hca)

namespace QueueStrategy

/-- The entry is newer: by time, and of the same time by its place further down the log. -/
def Newer (a b : LogEntry × Nat) : Prop :=
  b.1.time < a.1.time ∨ a.1.time = b.1.time ∧ b.2 < a.2

/-- The entry of a log is newer than every entry of a commit. -/
def IsAhead (log : List LogEntry) (cursor : CommitId) (a : LogEntry × Nat) : Prop :=
  a ∈ log.zipIdx ∧ ∀ b ∈ log.zipIdx, b.1.commit = cursor → Newer a b

/-- The entry of a log is the oldest one that is newer than every entry of a commit. -/
def IsNext (log : List LogEntry) (cursor : CommitId) (a : LogEntry × Nat) : Prop :=
  IsAhead log cursor a ∧ ∀ b, IsAhead log cursor b → b ≠ a → Newer b a

variable {log : List LogEntry} {cursor : CommitId}

/-- Newer entries have a later time, or stand later in the log at the same time. -/
theorem newer_iff {a b : LogEntry × Nat} :
    Newer a b ↔ b.1.time.toInt < a.1.time.toInt ∨ a.1.time.toInt = b.1.time.toInt ∧ b.2 < a.2 := by
  rw [Newer, Int64.lt_iff_toInt_lt, Int64.toInt_inj]

/-- Of two entries one is newer at most. -/
theorem Newer.asymm (a b : LogEntry × Nat) (hab : Newer a b) : ¬ Newer b a := by
  rw [newer_iff] at *
  omega

/-- The comparison of the program, which also holds for an entry and itself. -/
theorem isNewer_iff {a b : LogEntry × Nat} :
    isNewer a b = true ↔
      b.1.time.toInt < a.1.time.toInt ∨ a.1.time.toInt = b.1.time.toInt ∧ b.2 ≤ a.2 := by
  simp only [isNewer, Bool.or_eq_true, Bool.and_eq_true, decide_eq_true_eq, beq_iff_eq,
    Int64.lt_iff_toInt_lt, Int64.toInt_inj]

/-- The comparison is transitive. -/
theorem isNewer_trans (a b c : LogEntry × Nat) (hab : isNewer a b = true)
    (hbc : isNewer b c = true) : isNewer a c = true := by
  rw [isNewer_iff] at *
  omega

/-- Any two entries can be compared. -/
theorem isNewer_total (a b : LogEntry × Nat) : (isNewer a b || isNewer b a) = true := by
  rw [Bool.or_eq_true, isNewer_iff, isNewer_iff]
  omega

/-- No two entries of a sorted log are of the same age. -/
theorem pairwise_newer (log : List LogEntry) : (log.zipIdx.mergeSort isNewer).Pairwise Newer := by
  have hsorted := List.pairwise_mergeSort isNewer_trans isNewer_total log.zipIdx
  have hplaces : ((log.zipIdx.mergeSort isNewer).map (·.2)).Nodup := by
    refine ((List.mergeSort_perm log.zipIdx isNewer).map (·.2)).nodup_iff.2 ?_
    rw [List.zipIdx_map_snd]
    exact List.nodup_range'
  refine (hsorted.and (List.pairwise_map.1 hplaces)).imp ?_
  intro a b h
  obtain ⟨hab, hne⟩ := h
  rw [isNewer_iff] at hab
  rw [newer_iff]
  omega

/-- The entries of a log, from new to old, in front of the first one of a commit. -/
def ahead (log : List LogEntry) (cursor : CommitId) : List (LogEntry × Nat) :=
  (log.zipIdx.mergeSort isNewer).takeWhile fun d => d.1.commit != cursor

/-- The list of entries ahead holds exactly these. -/
theorem mem_ahead {a : LogEntry × Nat} : a ∈ ahead log cursor ↔ IsAhead log cursor a := by
  simp only [ahead, mem_takeWhile_iff_of_pairwise Newer.asymm (pairwise_newer log),
    List.mem_mergeSort, IsAhead, bne_eq_false_iff_eq]

/-- Entries ahead are listed from new to old. -/
theorem pairwise_ahead (log : List LogEntry) (cursor : CommitId) :
    (ahead log cursor).Pairwise Newer :=
  (pairwise_newer log).sublist (List.takeWhile_sublist _)

/-- The last of the entries ahead is the next one. -/
theorem getLast?_ahead {a : LogEntry × Nat} :
    (ahead log cursor).getLast? = some a ↔ IsNext log cursor a := by
  simp only [getLast?_eq_some_iff_of_pairwise Newer.asymm (pairwise_ahead log cursor), mem_ahead,
    IsNext]

/-- Where no entry is the next one, none is ahead. -/
theorem getLast?_ahead_eq_none :
    (ahead log cursor).getLast? = none ↔ ∀ a, ¬ IsAhead log cursor a := by
  simp only [List.getLast?_eq_none_iff, List.eq_nil_iff_forall_not_mem, mem_ahead]

/-- The walk of the queue meets the entries ahead. -/
theorem takeWhile_newestFirst (log : List LogEntry) (cursor : CommitId) :
    (newestFirst log).takeWhile (fun d => d.commit != cursor) = (ahead log cursor).map (·.1) := by
  rw [newestFirst, List.takeWhile_map]
  rfl

variable {s : QueueStrategy} {req : Request} {ledger : Ledger} {g : CommitGraph} {last : Build}

/-- The name under which the queue builds. -/
def label (s : QueueStrategy) (req : Request) : String := (s.logTarget? req).getD detached

/-- After a build the queue answers with the next entry of the log, if there is one. -/
theorem run_select_after_build (hlast : ledger.last = some last)
    (hlog : g (.log (s.logTarget? req)) = .ok log) :
    (s.select req ledger).run g = .ok (match (ahead log last.marked.commit).getLast? with
      | some a => [.labelled a.1.commit (s.label req)]
      | none => if req.poll then [] else [last.revision]) := by
  rw [select, Inquiry.run_bind, Inquiry.run_query, hlog, ok_bind, hlast]
  dsimp only
  rw [takeWhile_newestFirst, List.getLast?_map]
  cases (ahead log last.marked.commit).getLast? <;> rfl

/-- After a build a poll answers with the next entry of the log, if there is one. -/
theorem exists_poll (hpoll : req.poll = true) (hlast : ledger.last = some last)
    (hlog : g (.log (s.logTarget? req)) = .ok log) :
    ∃ rs, (s.select req ledger).run g = .ok rs ∧ ∀ r, r ∈ rs ↔
      ∃ a, IsNext log last.marked.commit a ∧ r = .labelled a.1.commit (s.label req) := by
  refine ⟨_, run_select_after_build hlast hlog, fun r => ?_⟩
  simp only [← getLast?_ahead]
  cases (ahead log last.marked.commit).getLast? with
  | none => simp [hpoll]
  | some a => simp

/-- An entry that is ahead of a commit is none of its entries. -/
theorem IsAhead.commit_ne {a : LogEntry × Nat} (h : IsAhead log cursor a) : a.1.commit ≠ cursor := by
  intro hcommit
  have hself := h.2 a h.1 hcommit
  exact Newer.asymm a a hself hself

/-- A poll of the queue answers with nothing that was built exactly when the next entry of the log
is neither the commit that the last build built nor covered by the last build of any branch. -/
theorem not_hasBuilt_of_poll_iff (hrecorded : ledger.Recorded) (hpoll : req.poll = true) :
    (∀ rs, (s.select req ledger).run g = .ok rs → ∀ r ∈ rs, ledger.hasBuilt r.commit = false) ↔
      ∀ last log a, ledger.last = some last → g (.log (s.logTarget? req)) = .ok log →
        IsNext log last.marked.commit a →
          a.1.commit ≠ last.revision.commit ∧
            ∀ b ∈ ledger.byBranch.values, b.covers a.1.commit = false := by
  constructor
  · intro hfresh last log a hlast hlog ha
    obtain ⟨rs, hrun, hmem⟩ := exists_poll hpoll hlast hlog
    have hnot := hfresh rs hrun _ ((hmem _).2 ⟨a, ha, rfl⟩)
    rw [Revision.commit_labelled, Ledger.hasBuilt_eq_false_iff] at hnot
    refine ⟨fun hsame => ?_, hnot.2⟩
    have hcovers : last.covers a.1.commit = true := Build.covers_iff.2 (.inl hsame.symm)
    rw [hnot.1 last hlast] at hcovers
    cases hcovers
  · intro hnext rs hrun r hr
    cases hlast : ledger.last with
    | none => exact hrecorded.hasBuilt_eq_false hlast r.commit
    | some last =>
      have hlogged := hrun
      rw [select, Inquiry.run_bind, Inquiry.run_query] at hlogged
      obtain ⟨log, hlog, -⟩ := bind_eq_ok_iff.1 hlogged
      obtain ⟨_, hsame, hmem⟩ := exists_poll hpoll hlast hlog
      cases hrun.symm.trans hsame
      obtain ⟨a, ha, rfl⟩ := (hmem r).1 hr
      obtain ⟨hbuilt, hbranches⟩ := hnext last log a hlast hlog ha
      rw [Revision.commit_labelled, Ledger.hasBuilt_eq_false_iff]
      refine ⟨fun b hb => ?_, hbranches⟩
      cases hlast.symm.trans hb
      rw [← Bool.not_eq_true, Build.covers_iff, not_or]
      exact ⟨hbuilt.symm, ha.1.commit_ne.symm⟩

open MemoryGraph in
/-- The log of the branch that is behind holds its commit alone. -/
theorem log_twoBranches :
    twoBranches.answers (.log (some "origin/master")) = .ok [⟨olderCommit, 100⟩] := by
  have hresolve : twoBranches.resolve "origin/master" = .ok olderCommit := rfl
  have hfind : twoBranches.dag.find? olderCommit = some ⟨olderCommit, [], 100, 0⟩ := rfl
  have hreach : twoBranches.dag.reach [] [olderCommit] = .ok [olderCommit] := by
    rw [Dag.reach_cons List.not_mem_nil hfind]
    exact Dag.reach.eq_1 _ _
  have hnewest : twoBranches.dag.newestFirst [olderCommit] = .ok [⟨olderCommit, 100⟩] := by
    have hnodes : [olderCommit].mapM twoBranches.dag.node = .ok [⟨olderCommit, [], 100, 0⟩] := rfl
    rw [Dag.newestFirst, hnodes, ok_bind, List.mergeSort_singleton]
    rfl
  show twoBranches.log (some "origin/master") = _
  simp only [MemoryGraph.log, hresolve, Except.map, ok_bind, hreach, hnewest]

/-- The ledger after a build of the branch that is behind. -/
def oneBuild : Ledger :=
  Ledger.empty.record ⟨.labelled MemoryGraph.olderCommit "origin/master", none, 1, .success⟩

/-- The ledger after a build of each branch, of the one ahead last. -/
def twoBuilds : Ledger :=
  oneBuild.record ⟨.labelled MemoryGraph.newerCommit "origin/side", none, 2, .success⟩

open MemoryGraph in
/-- After its only build the branch that is behind has nothing new. -/
theorem poll_after_oneBuild :
    oneBuild.Recorded ∧
      ∀ rs, (select ⟨some "origin/master"⟩ ⟨true, none, [], ⟨2024, 1, 31⟩, 0⟩ oneBuild).run
        twoBranches.answers = .ok rs → ∀ r ∈ rs, oneBuild.hasBuilt r.commit = false := by
  let request : Request := ⟨true, none, [], ⟨2024, 1, 31⟩, 0⟩
  have hrecorded : oneBuild.Recorded := .record _ .empty
  have htarget : logTarget? ⟨some "origin/master"⟩ request = some "origin/master" :=
    congrArg some (Text.expand_eq_self (by decide))
  have hpoll : request.poll = true := rfl
  refine ⟨hrecorded, (not_hasBuilt_of_poll_iff hrecorded hpoll).2 fun last log a hlast hlog ha => ?_⟩
  rw [htarget, log_twoBranches] at hlog
  cases hlog
  cases hlast
  have hentry : a = (⟨olderCommit, 100⟩, 0) := List.mem_singleton.1 ha.1.1
  exact absurd (hentry ▸ rfl) ha.1.commit_ne

open MemoryGraph in
/-- After a build of the branch ahead a poll of the other branch repeats its build. -/
theorem poll_repeats_after_twoBuilds :
    Grown twoBranches ∧ twoBuilds.Recorded ∧
      (select ⟨some "origin/master"⟩ ⟨true, none, [], ⟨2024, 1, 31⟩, 0⟩ twoBuilds).run
        twoBranches.answers = .ok [.labelled olderCommit "origin/master"] ∧
      twoBuilds.hasBuilt olderCommit = true := by
  have htarget : logTarget? ⟨some "origin/master"⟩ ⟨true, none, [], ⟨2024, 1, 31⟩, 0⟩ =
      some "origin/master" := congrArg some (Text.expand_eq_self (by decide))
  refine ⟨grown_twoBranches, .record _ (.record _ .empty), ?_, by decide⟩
  have hnewest : newestFirst [⟨olderCommit, 100⟩] = [⟨olderCommit, 100⟩] := by simp [newestFirst]
  rw [select, Inquiry.run_bind, Inquiry.run_query, htarget, log_twoBranches, ok_bind, hnewest]
  rfl

end QueueStrategy

end NextBuild
