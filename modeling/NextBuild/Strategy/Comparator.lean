import NextBuild.Strategy.Candidates

/-!
# Comparing revisions by time

A comparator reads the times of two revisions whenever it compares them, and keeps the first failure
of its readings.  A merge sort that is driven by it changes a list of revisions in place, so what
counts besides success or failure is the order in which the list is left.  All times are read once
before the sort begins, so that a commit without one is found while the list is still as it was.
-/

namespace NextBuild

/-- Merge two lists with a comparison that has effects; of entries that are equal those of the first
list come first. -/
def mergeBy {m : Type → Type} [Monad m] {α : Type} (cmp : α → α → m Ordering) :
    List α → List α → m (List α)
  | [], ys => return ys
  | x :: xs, [] => return x :: xs
  | x :: xs, y :: ys => do
    if (← cmp x y).isLE then return x :: (← mergeBy cmp xs (y :: ys))
    else return y :: (← mergeBy cmp (x :: xs) ys)
termination_by xs ys => xs.length + ys.length

/-- Sort a list by halves with a comparison that has effects. -/
def sortBy {m : Type → Type} [Monad m] {α : Type} (cmp : α → α → m Ordering) :
    List α → m (List α)
  | [] => return []
  | [a] => return [a]
  | a :: b :: xs => do
    let half := (xs.length + 3) / 2
    let left ← sortBy cmp ((a :: b :: xs).take half)
    let right ← sortBy cmp ((a :: b :: xs).drop half)
    mergeBy cmp left right
termination_by xs => xs.length
decreasing_by
  · simp only [List.length_take, List.length_cons]
    omega
  · simp only [List.length_drop, List.length_cons]
    omega

/-- A comparator of revisions; its state is the failure that it keeps. -/
def comparator (a b : Revision) : StateT (Option Failure) Inquiry Ordering :=
  fun failed => compareTimes failed a b

/-- Compare revisions one pair after the other.  Answers the orders, and the failure that is kept in
the end. -/
def compareEach (failed : Option Failure) :
    List (Revision × Revision) → Inquiry (List Ordering × Option Failure)
  | [] => return ([], failed)
  | (a, b) :: pairs => do
    let (order, failed) ← (comparator a b).run failed
    let (orders, failed) ← compareEach failed pairs
    return (order :: orders, failed)

/-- The failure of the first time that cannot be read. -/
def unreadable? : List Revision → Inquiry (Option Failure)
  | [] => return none
  | r :: rs => do
    match ← .attempt (.commitTime r.commit) with
    | .ok _ => unreadable? rs
    | .error f => return some f

/-- Sort revisions from old to new in their place.  Answers the failure, if there is one, and the list
as it is left. -/
def sortInPlace (rs : List Revision) : Inquiry (Option Failure × List Revision) := do
  if rs.length < 2 then return (none, rs)
  match ← .attempt .openWalk with
  | .error f => return (some f, rs)
  | .ok () => match ← unreadable? rs with
    | some f => return (some f, rs)
    | none =>
      let (sorted, failed) ← (sortBy comparator rs).run none
      return (failed, sorted)

end NextBuild
