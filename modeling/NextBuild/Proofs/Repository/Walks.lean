import NextBuild.Graph.Walk
import NextBuild.Proofs.Graph.Runs
import NextBuild.Proofs.Graph.Serving
import NextBuild.Repository.Library

/-!
# Inquiries within a walk

A walk through a repository keeps what the library said about two commits, and one through a graph in
memory keeps the ancestors that it gathered.  Both are opened within an inquiry and used for the rest
of it.  What is kept was an answer before, so an inquiry has the result that it has without keeping
anything.
-/

namespace NextBuild

variable {α : Type}

namespace Library

variable {l : Library} {r : Repository} {kept : Kept} {a c : CommitId}

/-- What the library says about two commits, of which the first may be the second. -/
def verdict (l : Library) (a c : CommitId) : Except Failure Bool :=
  if a = c then .ok true else (l.descends c a).mapError LibraryFault.failure

/-- What the library says about the merge base of two commits. -/
def base (l : Library) (a b : CommitId) : Except Failure (Option CommitId) :=
  match l.mergeBase a b with
  | .ok c => pure (some c)
  | .error f => if f.notFound then pure none else throw f.failure

/-- What is kept was said by the library. -/
def Faithful (l : Library) (kept : Kept) : Prop :=
  ∀ a c merged, kept.lookup (a, c) = some merged → l.descends c a = .ok merged

/-- An empty cache remembers nothing wrong. -/
theorem faithful_nil (l : Library) : l.Faithful [] := fun _ _ _ h => by cases h

/-- In a walk two commits are looked up, and the answer is what the library says. -/
theorem Faithful.fst_isMergedInto (h : l.Faithful kept) (r : Repository) (a c : CommitId) :
    (l.isMergedInto r a c kept).1 = (do
      let m ← r.node a
      let n ← r.node c
      l.verdict m.id n.id) := by
  unfold isMergedInto verdict
  cases r.node a with
  | error f => rfl
  | ok m => cases r.node c with
    | error f => rfl
    | ok n =>
      rw [ok_bind, ok_bind]
      dsimp only
      split
      · rfl
      · cases hkept : kept.lookup (m.id, n.id) with
        | some merged => rw [h _ _ _ hkept]; rfl
        | none => cases l.descends n.id m.id <;> rfl

/-- A walk only keeps what the library has said. -/
theorem Faithful.snd_isMergedInto (h : l.Faithful kept) (r : Repository) (a c : CommitId) :
    l.Faithful (l.isMergedInto r a c kept).2 := by
  unfold isMergedInto
  cases r.node a with
  | error f => exact h
  | ok m => cases r.node c with
    | error f => exact h
    | ok n =>
      dsimp only
      split
      · exact h
      · cases kept.lookup (m.id, n.id) with
        | some merged => exact h
        | none => cases hsaid : l.descends n.id m.id with
          | error f => exact h
          | ok merged =>
            intro b d v hv
            rw [List.lookup_cons] at hv
            by_cases hbd : (b, d) = (m.id, n.id)
            · obtain ⟨rfl, rfl⟩ := Prod.mk.inj hbd
              rw [beq_self_eq_true] at hv
              cases hv
              exact hsaid
            · rw [beq_false_of_ne hbd] at hv
              exact h b d v hv

/-- An inquiry in walks through a repository has the result that it has without them. -/
theorem runWith_answersInWalk (l : Library) (r : Repository) (x : Inquiry α) :
    ((x.runWith (l.answersInWalk r)).run []).1 = x.run (l.answers r) := by
  refine Inquiry.runWith_eq_run (fun q kept hkept => ?_) x l.faithful_nil
  cases q with
  | openWalk => exact ⟨rfl, l.faithful_nil⟩
  | isMergedInto a c =>
    refine ⟨?_, hkept.snd_isMergedInto r a c⟩
    exact (hkept.fst_isMergedInto r a c).trans (l.faithful_nil.fst_isMergedInto r a c).symm
  | _ => exact ⟨rfl, hkept⟩

end Library

/-- An inquiry in walks through a graph in memory has the result that it has without them. -/
theorem MemoryGraph.runWith_answersInWalk (g : MemoryGraph) (x : Inquiry α) :
    ((x.runWith g.answersInWalk).run {}).1 = x.run g.answers := by
  have hstep (q : Query) (w : Walk) (hw : w.Faithful g.dag) :
      ((g.answersInWalk q).run w).1 = g.answers q ∧
        ((g.answersInWalk q).run w).2.Faithful g.dag := by
    cases q with
    | openWalk => exact ⟨rfl, Walk.faithful_start g.dag⟩
    | isMergedInto a c => exact ⟨hw.fst_isMergedInto a c, hw.snd_isMergedInto a c⟩
    | _ => exact ⟨rfl, hw⟩
  exact Inquiry.runWith_eq_run hstep x (Walk.faithful_start g.dag)

end NextBuild
