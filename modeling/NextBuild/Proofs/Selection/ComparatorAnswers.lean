import Mathlib.Data.List.TakeWhile
import Mathlib.Logic.Relation
import NextBuild.Proofs.Graph.Replacement
import NextBuild.Proofs.Graph.Runs
import NextBuild.Strategy.Comparator

/-!
# What one comparator answers

A comparator compares by time as long as all times can be read, and by id from the first failure on.
Each of the two is a total preorder, so the answers before the failure do not contradict each other,
and those from it on do not either.  An answer by time that is not the one by id is contradicted when
the same revisions are compared again after the failure.
-/

namespace NextBuild

open Std (TransCmp OrientedCmp ReflCmp)

/-! ## Answers that agree with an order -/

/-- Comparisons of revisions, each with the order that was answered. -/
abbrev Told := List ((Revision × Revision) × Ordering)

/-- The first revision was told to come before the second one, in an answer to either question. -/
def Told.Before (told : Told) (a b : Revision) : Prop :=
  ((a, b), Ordering.lt) ∈ told ∨ ((b, a), Ordering.gt) ∈ told

/-- What was told agrees with one total preorder of the revisions. -/
structure Told.Consistent (told : Told) : Prop where
  exists_order : ∃ order : Revision → Revision → Ordering, TransCmp order ∧
    ∀ e ∈ told, e.2 = order e.1.1 e.1.2
  /-- The same question has the same answer. -/
  unique : ∀ a b o o', ((a, b), o) ∈ told → ((a, b), o') ∈ told → o = o'
  /-- The question the other way round has the reverse answer. -/
  swap : ∀ a b o o', ((a, b), o) ∈ told → ((b, a), o') ∈ told → o' = o.swap
  acyclic : ∀ a, ¬ Relation.TransGen told.Before a a

namespace Told

variable {told : Told} {order : Revision → Revision → Ordering} {a b : Revision}

/-- What comes before in a chain of answers comes before in the order. -/
theorem lt_of_before [TransCmp order] (h : ∀ e ∈ told, e.2 = order e.1.1 e.1.2)
    (hab : Relation.TransGen told.Before a b) : order a b = .lt := by
  have hstep {a b : Revision} (hab : told.Before a b) : order a b = .lt := by
    rcases hab with hlt | hgt
    · exact (h _ hlt).symm
    · exact OrientedCmp.lt_of_gt (h _ hgt).symm
  induction hab with
  | single hab => exact hstep hab
  | tail _ hbc ih => exact TransCmp.lt_trans ih (hstep hbc)

/-- Answers that one order gives do not contradict each other. -/
theorem Consistent.of_order [TransCmp order] (h : ∀ e ∈ told, e.2 = order e.1.1 e.1.2) :
    told.Consistent := by
  constructor
  case exists_order => exact ⟨order, inferInstance, h⟩
  case unique =>
    intro a b o o' ho ho'
    exact (h _ ho).trans (h _ ho').symm
  case swap =>
    intro a b o o' ho ho'
    calc
      o' = order b a := h _ ho'
      _ = (order a b).swap := OrientedCmp.eq_swap
      _ = o.swap := congrArg Ordering.swap (h _ ho).symm
  case acyclic =>
    intro a ha
    have hlt : order a a = .lt := lt_of_before h ha
    have heq : order a a = .eq := ReflCmp.compare_self
    rw [hlt] at heq
    cases heq

end Told

/-! ## The two orders of a comparator -/

instance : TransCmp compareIds :=
  inferInstanceAs (TransCmp (compareOn fun r : Revision => r.commit.text))

namespace Dag

variable {g : Dag} {a b : Revision}

/-- Revisions in the order of their times in the graph, and then of their ids. -/
def compareIn (g : Dag) (a b : Revision) : Ordering :=
  (compare (g.timeOf a.commit).toInt (g.timeOf b.commit).toInt).then (compareIds a b)

instance : TransCmp g.compareIn :=
  inferInstanceAs (TransCmp
    (compareLex (compareOn fun r : Revision => (g.timeOf r.commit).toInt) compareIds))

/-- What is wrong with a pair of revisions when the commit of one of them is missing. -/
def missing? (g : Dag) (pair : Revision × Revision) : Option Failure :=
  if (g.find? pair.1.commit).isNone then some (.missingObject pair.1.commit.text)
  else if (g.find? pair.2.commit).isNone then some (.missingObject pair.2.commit.text)
  else none

/-- Nothing is wrong with a pair if both commits are there. -/
theorem missing?_eq_none_iff : g.missing? (a, b) = none ↔ g.Has a.commit ∧ g.Has b.commit := by
  unfold missing? Has
  cases g.find? a.commit <;> cases g.find? b.commit <;> simp

end Dag

variable {g : MemoryGraph} {a b : Revision} {f : Failure}

/-- Whether or not both commits are there, a comparison without an earlier failure is answered: by time
or by id. -/
theorem run_comparator (g : MemoryGraph) (a b : Revision) :
    ((comparator a b).run none).run g.answers =
      .ok (if (g.dag.missing? (a, b)).isNone then g.dag.compareIn a b else compareIds a b,
        g.dag.missing? (a, b)) := by
  have htime (c : CommitId) : g.answers (.commitTime c) = (g.dag.node c).map (·.time) := rfl
  show (compareTimes none a b).run g.answers = _
  unfold Dag.missing? Dag.compareIn Dag.timeOf
  cases ha : g.dag.find? a.commit with
  | none => simp [compareTimes, Inquiry.attempt, Inquiry.run, htime, Dag.node, ha, Except.map]
  | some m => cases hb : g.dag.find? b.commit with
    | none => simp [compareTimes, Inquiry.attempt, Inquiry.run, htime, Dag.node, ha, hb, Except.map]
    | some n => simp [compareTimes, Inquiry.attempt, Inquiry.run, htime, Dag.node, ha, hb, Except.map]

/-- After a failure ids alone are compared, and the failure is kept. -/
theorem run_compareEach_of_failed (g : CommitGraph) (f : Failure)
    (pairs : List (Revision × Revision)) :
    (compareEach (some f) pairs).run g = .ok (pairs.map fun p => compareIds p.1 p.2, some f) := by
  induction pairs with
  | nil => rfl
  | cons p pairs ih =>
    rw [compareEach, Inquiry.run_bind]
    show (compareEach (some f) pairs >>= fun r => pure (compareIds p.1 p.2 :: r.1, r.2)).run g = _
    rw [Inquiry.run_bind, ih]
    rfl

/-- The first call that names a missing commit is the one at which the rule changes. -/
theorem run_compareEach (g : MemoryGraph) (pairs : List (Revision × Revision)) :
    (compareEach none pairs).run g.answers =
      .ok ((pairs.takeWhile fun p => (g.dag.missing? p).isNone).map (fun p => g.dag.compareIn p.1 p.2) ++
          (pairs.dropWhile fun p => (g.dag.missing? p).isNone).map (fun p => compareIds p.1 p.2),
        pairs.findSome? g.dag.missing?) := by
  induction pairs with
  | nil => rfl
  | cons p pairs ih =>
    rw [compareEach, Inquiry.run_bind, run_comparator, ok_bind, List.findSome?_cons,
      List.takeWhile_cons, List.dropWhile_cons]
    cases hmissing : g.dag.missing? p with
    | none =>
      dsimp only
      rw [Inquiry.run_bind, ih]
      rfl
    | some f =>
      dsimp only
      rw [Inquiry.run_bind, run_compareEach_of_failed]
      rfl

/-! ## All answers of a comparator -/

/-- Pairs of revisions, each with the answer that an order gives. -/
def Told.ofOrder (order : Revision → Revision → Ordering) (pairs : List (Revision × Revision)) :
    Told :=
  pairs.map fun p => (p, order p.1 p.2)

namespace Told

variable {order : Revision → Revision → Ordering} {pairs : List (Revision × Revision)}

/-- The answer to each pair is that of the order. -/
theorem eq_of_mem_ofOrder : ∀ e ∈ ofOrder order pairs, e.2 = order e.1.1 e.1.2 := by
  intro e he
  obtain ⟨p, -, rfl⟩ := List.mem_map.1 he
  rfl

/-- Pairs put together with the answers of an order. -/
theorem zip_eq_ofOrder : pairs.zip (pairs.map fun p => order p.1 p.2) = ofOrder order pairs :=
  List.map_prod_left_eq_zip.symm

end Told

/-- What one comparator has answered before the first call that names a missing commit, and from that
call on. -/
structure Changeover (g : MemoryGraph) (before after : Told) (failed : Option Failure) : Prop where
  present : ∀ e ∈ before, g.dag.Has e.1.1.commit ∧ g.dag.Has e.1.2.commit
  absent : ∀ e, after.head? = some e → ¬ (g.dag.Has e.1.1.commit ∧ g.dag.Has e.1.2.commit)
  failed_eq_none_iff : failed = none ↔ after = []
  /-- While the times can be read, they decide, and ids decide between equal times. -/
  by_time : ∀ e ∈ before, e.2 = g.dag.compareIn e.1.1 e.1.2
  /-- From then on ids alone decide. -/
  by_id : ∀ e ∈ after, e.2 = compareIds e.1.1 e.1.2
  consistent_before : before.Consistent
  consistent_after : after.Consistent
  /-- Without a failure there is no change. -/
  consistent : failed = none → (before ++ after).Consistent
  /-- After a failure no answer contradicts another one, whatever is compared then, exactly when the
  answers before it were those that the ids alone give. -/
  lasting_iff : failed ≠ none →
    ((∀ more answers failed', (compareEach failed more).run g.answers = .ok (answers, failed') →
        Told.Consistent (before ++ after ++ more.zip answers)) ↔
      ∀ e ∈ before, e.2 = compareIds e.1.1 e.1.2)

/-- Further answers by id keep the peace exactly when all earlier ones are by id. -/
theorem consistent_more_iff {g : CommitGraph} {before after : Told} {f : Failure}
    (hafter : ∀ e ∈ after, e.2 = compareIds e.1.1 e.1.2) :
    (∀ more answers failed', (compareEach (some f) more).run g = .ok (answers, failed') →
        Told.Consistent (before ++ after ++ more.zip answers)) ↔
      ∀ e ∈ before, e.2 = compareIds e.1.1 e.1.2 := by
  constructor
  · intro h e he
    -- The same pair is compared once more.
    have hmore := h [e.1] _ _ (run_compareEach_of_failed g f [e.1])
    exact hmore.unique e.1.1 e.1.2 _ _ (List.mem_append_left _ (List.mem_append_left _ he))
      (List.mem_append_right _ List.mem_cons_self)
  · intro hbefore more answers failed' hrun
    rw [run_compareEach_of_failed] at hrun
    cases hrun
    have hids : ∀ e ∈ before ++ after ++ more.zip (more.map fun p => compareIds p.1 p.2),
        e.2 = compareIds e.1.1 e.1.2 := by
      intro e he
      rw [Told.zip_eq_ofOrder, List.mem_append, List.mem_append] at he
      rcases he with (he | he) | he
      · exact hbefore e he
      · exact hafter e he
      · exact Told.eq_of_mem_ofOrder e he
    exact .of_order hids

/-- However often one comparator is asked, about any revisions, it answers by time before the first
missing commit and by id from there on.  The answers of neither part contradict each other; all of
them together do not if no commit is missing, and else for good exactly when those before are the ones
that the ids give. -/
theorem compareEach_changes_once (g : MemoryGraph) (pairs : List (Revision × Revision)) :
    ∃ (before after : Told) (failed : Option Failure),
      (compareEach none pairs).run g.answers = .ok ((before ++ after).map (·.2), failed) ∧
        (before ++ after).map (·.1) = pairs ∧ Changeover g before after failed := by
  let readable := fun p : Revision × Revision => (g.dag.missing? p).isNone
  have hreadable (p : Revision × Revision) :
      readable p = true ↔ g.dag.Has p.1.commit ∧ g.dag.Has p.2.commit :=
    Option.isNone_iff_eq_none.trans Dag.missing?_eq_none_iff
  have hbefore : ∀ e ∈ Told.ofOrder g.dag.compareIn (pairs.takeWhile readable),
      e.2 = g.dag.compareIn e.1.1 e.1.2 := Told.eq_of_mem_ofOrder
  have hafter : ∀ e ∈ Told.ofOrder compareIds (pairs.dropWhile readable),
      e.2 = compareIds e.1.1 e.1.2 := Told.eq_of_mem_ofOrder
  have hfailed : pairs.findSome? g.dag.missing? = none ↔ pairs.dropWhile readable = [] := by
    rw [List.findSome?_eq_none_iff, List.dropWhile_eq_nil_iff]
    simp only [readable, Option.isNone_iff_eq_none]
  refine ⟨.ofOrder g.dag.compareIn (pairs.takeWhile readable),
    .ofOrder compareIds (pairs.dropWhile readable), pairs.findSome? g.dag.missing?,
    ?run, ?pairs, ?changeover⟩
  case run =>
    rw [run_compareEach]
    simp [Told.ofOrder, readable, Function.comp_def]
  case pairs => simp [Told.ofOrder, Function.comp_def]
  case changeover =>
    constructor
    case present =>
      intro e he
      obtain ⟨p, hp, rfl⟩ := List.mem_map.1 he
      exact (hreadable p).1 (List.mem_takeWhile_imp hp)
    case absent =>
      intro e he
      rw [Told.ofOrder, List.head?_map, Option.map_eq_some_iff] at he
      obtain ⟨p, hp, rfl⟩ := he
      rw [← List.find?_not_eq_head?_dropWhile] at hp
      rw [← hreadable, Bool.not_eq_true]
      simpa using List.find?_some hp
    case failed_eq_none_iff => simpa [Told.ofOrder] using hfailed
    case by_time => exact hbefore
    case by_id => exact hafter
    case consistent_before => exact .of_order hbefore
    case consistent_after => exact .of_order hafter
    case consistent =>
      intro hnone
      rw [hfailed.1 hnone]
      simpa [Told.ofOrder] using Told.Consistent.of_order hbefore
    case lasting_iff =>
      intro hsome
      obtain ⟨f, hf⟩ := Option.ne_none_iff_exists'.1 hsome
      rw [hf]
      exact consistent_more_iff hafter

/-! ## A comparison before and after a failure -/

namespace MemoryGraph

/-- A graph in which the commit with the smaller id has the greater time. -/
def smallIdLater : MemoryGraph :=
  empty.afterAll [.addCommit olderCommit [] 200, .addCommit newerCommit [] 100]

/-- A commit that is not in this graph. -/
def absentCommit : CommitId := ⟨"eeeeeeeeeeeeeeeeeeeeeeeeeeeeeeeeeeeeeeee", by decide⟩

/-- The same two revisions are compared before and after one that is missing. -/
def comparedTwice : List (Revision × Revision) :=
  [(.ofCommit olderCommit, .ofCommit newerCommit), (.ofCommit olderCommit, .ofCommit absentCommit),
    (.ofCommit olderCommit, .ofCommit newerCommit)]

/-- The second comparison of the two is answered the other way. -/
theorem compareEach_contradicts_itself :
    (compareEach none comparedTwice).run smallIdLater.answers =
        .ok ([.gt, .lt, .lt], some (.missingObject absentCommit.text)) ∧
      ¬ Told.Consistent (comparedTwice.zip [.gt, .lt, .lt]) := by
  constructor
  · rfl
  · intro h
    have hsame := h.unique (.ofCommit olderCommit) (.ofCommit newerCommit) .gt .lt
      List.mem_cons_self (by simp [comparedTwice])
    cases hsame

end MemoryGraph

end NextBuild
