import NextBuild.Graph.Query

/-!
# Inquiries

An inquiry is a computation that asks questions about a graph, one after the other, where each
question may depend on the answers before it.  It does not know who answers: the same inquiry is run
on a graph in memory, on a repository, or over a line to an agent.
-/

namespace NextBuild

/-- A computation that asks questions about a graph. -/
inductive Inquiry (α : Type) where
  | answer (a : α)
  | fail (f : Failure)
  | ask (q : Query) (next : Except Failure q.Answer → Inquiry α)

namespace Inquiry

variable {α β : Type}

/-- Go on with the answer of an inquiry. -/
def bind : Inquiry α → (α → Inquiry β) → Inquiry β
  | answer a, k => k a
  | fail f, _ => fail f
  | ask q next, k => ask q fun r => (next r).bind k

instance : Monad Inquiry where
  pure := answer
  bind := bind

/-- Ask a question; its failure is the failure of the inquiry. -/
def query (q : Query) : Inquiry q.Answer :=
  ask q fun
    | .ok a => answer a
    | .error f => fail f

/-- Ask a question that may fail. -/
def attempt (q : Query) : Inquiry (Except Failure q.Answer) :=
  ask q answer

/-- Ask a question about a name that may not exist. -/
def queryIfExists (q : Query) : Inquiry (Option q.Answer) :=
  ask q fun
    | .ok a => answer (some a)
    | .error f => if f.isRefNotFound then answer none else fail f

/-- The inquiry that has come to a result. -/
def ofExcept : Except Failure α → Inquiry α
  | .ok a => answer a
  | .error f => fail f

instance : MonadLift (Except Failure) Inquiry := ⟨ofExcept⟩

/-- Run an inquiry on a graph. -/
def run (g : CommitGraph) : Inquiry α → Except Failure α
  | answer a => .ok a
  | fail f => .error f
  | ask q next => (next (g q)).run g

/-- Run an inquiry with answers that change a state. -/
def runWith {m : Type → Type} [Monad m] (g : (q : Query) → m (Except Failure q.Answer)) :
    Inquiry α → m (Except Failure α)
  | answer a => return .ok a
  | fail f => return .error f
  | ask q next => do (next (← g q)).runWith g

/-- A result is the same on every graph. -/
@[simp]
theorem run_pure (g : CommitGraph) (a : α) : (pure a : Inquiry α).run g = .ok a := rfl

/-- Running one inquiry after the other is running them in this order. -/
@[simp]
theorem run_bind (g : CommitGraph) (x : Inquiry α) (k : α → Inquiry β) :
    (x >>= k).run g = (x.run g >>= fun a => (k a).run g) := by
  show (x.bind k).run g = _
  induction x with
  | answer a => rfl
  | fail f => rfl
  | ask q next ih => exact ih (g q)

/-- A question is answered by the graph. -/
@[simp]
theorem run_query (g : CommitGraph) (q : Query) : (query q).run g = g q := by
  unfold query run
  cases g q <;> rfl

end Inquiry

end NextBuild
