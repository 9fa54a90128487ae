import NextBuild.Proofs.Graph.Runs

/-!
# Which questions are asked

What is said here about an inquiry holds whatever the answers are: it asks no other questions than
some, and a fault in answer to any of them ends it.  A fault is a failure other than that a reference
does not exist.  All ways of putting inquiries together keep both.

Such an inquiry has the same result on graphs that answer its questions alike.  When more questions
of a graph are answered with faults, it either meets none of them and has the result it had, or it
ends with one of them.
-/

namespace NextBuild

namespace Inquiry

variable {α β : Type} {P : Query → Prop}

/-- Every question that is asked is one of these, and a fault in answer is the failure of the
inquiry. -/
inductive Asks (P : Query → Prop) : Inquiry α → Prop
  | answer (a : α) : Asks P (answer a)
  | fail (f : Failure) : Asks P (fail f)
  | ask {q : Query} {next : Except Failure q.Answer → Inquiry α} :
      P q → (∀ f, f.isRefNotFound = false → next (.error f) = .fail f) →
      (∀ r, Asks P (next r)) → Asks P (ask q next)

/-- A result asks nothing. -/
theorem asks_pure (a : α) : Asks P (pure a : Inquiry α) := .answer a

/-- A result that is there already asks nothing. -/
theorem asks_ofExcept (x : Except Failure α) : Asks P (ofExcept x) := by
  cases x with
  | ok a => exact .answer a
  | error f => exact .fail f

/-- A question asks itself. -/
theorem asks_query {q : Query} (hq : P q) : Asks P (query q) := by
  refine .ask hq (fun _ _ => rfl) fun r => ?_
  cases r with
  | ok a => exact .answer a
  | error f => exact .fail f

/-- That a name does not exist is the only failure that is no fault. -/
theorem asks_queryIfExists {q : Query} (hq : P q) : Asks P (queryIfExists q) := by
  refine .ask hq (fun f hf => by simp [hf]) fun r => ?_
  cases r with
  | ok a => exact .answer (some a)
  | error f =>
    dsimp only
    split
    · exact .answer none
    · exact .fail f

/-- Going on from an inquiry asks what both parts ask. -/
theorem Asks.bind {x : Inquiry α} {k : α → Inquiry β} (hx : Asks P x) (hk : ∀ a, Asks P (k a)) :
    Asks P (x >>= k) := by
  show Asks P (x.bind k)
  induction hx with
  | answer a => exact hk a
  | fail f => exact .fail f
  | ask hq hfault _ ih =>
    refine .ask hq (fun f hf => ?_) ih
    rw [hfault f hf]
    rfl

/-- Over a list, the questions are those for its entries. -/
theorem Asks.mapM {f : α → Inquiry β} (hf : ∀ a, Asks P (f a)) (xs : List α) :
    Asks P (xs.mapM f) := by
  induction xs with
  | nil => exact asks_pure []
  | cons a xs ih =>
    rw [List.mapM_cons]
    exact (hf a).bind fun b => ih.bind fun bs => asks_pure (b :: bs)

/-- In a filter, the questions are those for the entries. -/
theorem Asks.filterM {p : α → Inquiry Bool} (hp : ∀ a, Asks P (p a)) (xs : List α) :
    Asks P (xs.filterM p) := by
  have haux (acc : List α) : Asks P (xs.filterAuxM p acc) := by
    induction xs generalizing acc with
    | nil => exact asks_pure acc
    | cons a xs ih =>
      rw [List.filterAuxM]
      exact (hp a).bind fun keep => ih _
  exact (haux []).bind fun kept => asks_pure kept.reverse

/-- Graphs that answer alike what is asked lead to the same result. -/
theorem Asks.run_eq {x : Inquiry α} (hx : Asks P x) {g g' : CommitGraph}
    (h : ∀ q, P q → g q = g' q) : x.run g = x.run g' := by
  induction hx with
  | answer a => rfl
  | fail f => rfl
  | ask hq _ _ ih =>
    rw [run, run, h _ hq]
    exact ih _

end Inquiry

/-! ## Faults -/

/-- The second graph answers like the first one, but for questions that it answers with a fault. -/
def AddsFaults (g g' : CommitGraph) : Prop :=
  ∀ q, g' q = g q ∨ ∃ f, g' q = .error f ∧ f.isRefNotFound = false

/-- The failure is the answer of the second graph to a question that the first one answers
otherwise. -/
def IsAddedFault (g g' : CommitGraph) (f : Failure) : Prop :=
  ∃ q, g' q = .error f ∧ g' q ≠ g q

/-- With faults added, an inquiry has the same result, or one of the added faults as its failure. -/
theorem Inquiry.Asks.run_eq_or_error {α : Type} {P : Query → Prop} {x : Inquiry α}
    {g g' : CommitGraph} (hx : Asks P x) (h : AddsFaults g g') :
    x.run g' = x.run g ∨ ∃ f, IsAddedFault g g' f ∧ x.run g' = .error f := by
  induction hx with
  | answer a => exact .inl rfl
  | fail f => exact .inl rfl
  | @ask q next _ hfault _ ih =>
    by_cases hq : g' q = g q
    · have hnext := ih (g q)
      simpa only [run, hq] using hnext
    · obtain ⟨f, hf, hisFault⟩ := (h q).resolve_left hq
      refine .inr ⟨f, ⟨q, hf, hq⟩, ?_⟩
      rw [run, hf, hfault f hisFault]
      rfl

end NextBuild
