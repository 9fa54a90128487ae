import Mathlib.Data.List.Forall2
import NextBuild.Graph.Inquiry

/-!
# Runs of inquiries

An inquiry that is run on a graph is an ordinary computation that may fail, so every rule here says
what running does to one way of putting inquiries together: a failure that is passed on, a question
about a name that may not exist, and one inquiry for each entry of a list.  With these rules a run
is read off the text of the inquiry, and no proof opens an inquiry itself.
-/

namespace NextBuild

/-- After a success, what follows is done with its result. -/
@[simp]
theorem ok_bind {ε α β : Type} (a : α) (k : α → Except ε β) : (Except.ok a >>= k) = k a := rfl

/-- After a failure nothing follows. -/
@[simp]
theorem error_bind {ε α β : Type} (e : ε) (k : α → Except ε β) :
    (Except.error e >>= k) = .error e := rfl

/-- A result that is there is a success. -/
theorem eq_ok_of_toOption {ε α : Type} {x : Except ε α} {a : α} (h : x.toOption = some a) :
    x = .ok a := by
  cases x with
  | ok b => exact congrArg _ (Option.some.inj h)
  | error e => cases h

/-- A sequence gives a value exactly when its first step does and the rest gives it from there. -/
theorem bind_eq_ok_iff {ε α β : Type} {x : Except ε α} {k : α → Except ε β} {b : β} :
    (x >>= k) = .ok b ↔ ∃ a, x = .ok a ∧ k a = .ok b := by
  cases x with
  | ok a => simp
  | error e => simp

/-- A sequence fails where its first step does, or from there on. -/
theorem bind_eq_error_iff {ε α β : Type} {x : Except ε α} {k : α → Except ε β} {e : ε} :
    (x >>= k) = .error e ↔ x = .error e ∨ ∃ a, x = .ok a ∧ k a = .error e := by
  cases x with
  | ok a => simp
  | error e' => simp

/-- A guard lets a computation go on where its condition does not hold. -/
theorem guard_eq_ok_iff {ε α β : Type} {p : Prop} [Decidable p] {e : ε} {after : α → Except ε β}
    {rest : Except ε β} {b : β} :
    (if p then throw e >>= after else rest) = .ok b ↔ ¬ p ∧ rest = .ok b := by
  split
  · next h => exact iff_of_false (fun hok => by cases hok) fun hrest => hrest.1 h
  · next h => exact (and_iff_right h).symm

/-- A check that nothing follows succeeds if its fault is not there. -/
theorem lastGuard_eq_ok_iff {ε : Type} {p : Prop} [Decidable p] {e : ε} :
    (if p then throw e else pure () : Except ε Unit) = .ok () ↔ ¬ p := by
  split
  · next h => exact iff_of_false (fun hok => by cases hok) fun hrest => hrest h
  · next h => exact iff_of_true rfl h

/-- A changed result is there if the result is. -/
theorem exists_map_eq_ok_iff {ε α β : Type} {x : Except ε α} {f : α → β} :
    (∃ b, x.map f = .ok b) ↔ ∃ a, x = .ok a := by
  cases x with
  | ok a => exact iff_of_true ⟨f a, rfl⟩ ⟨a, rfl⟩
  | error e => exact iff_of_false (fun ⟨b, h⟩ => by cases h) fun ⟨a, h⟩ => by cases h

/-- A computation for each entry gives the values of a function when it does so at each entry. -/
theorem mapM_eq_ok {ε α β : Type} {f : α → Except ε β} {h : α → β} {xs : List α}
    (hf : ∀ a ∈ xs, f a = .ok (h a)) : xs.mapM f = .ok (xs.map h) := by
  induction xs with
  | nil => rfl
  | cons a xs ih =>
    rw [List.mapM_cons, hf a List.mem_cons_self,
      ih fun b hb => hf b (List.mem_cons_of_mem _ hb)]
    rfl

/-- A computation for each entry, paired with the entry, gives the pairs of what it gives alone. -/
theorem mapM_pair {ε α β : Type} (f : α → Except ε β) (xs : List α) :
    (xs.mapM fun a => do return (← f a, a)) = (xs.mapM f).map fun bs => bs.zip xs := by
  induction xs with
  | nil => rfl
  | cons a xs ih =>
    rw [List.mapM_cons, List.mapM_cons, ih]
    cases f a with
    | error e => rfl
    | ok b => cases xs.mapM f <;> rfl

/-- A computation that gives at each entry a value related to the entry gives a list of these. -/
theorem exists_mapM {ε α β : Type} {f : α → Except ε β} {R : α → β → Prop} {xs : List α}
    (hf : ∀ a ∈ xs, ∃ b, f a = .ok b ∧ R a b) :
    ∃ ys, xs.mapM f = .ok ys ∧ List.Forall₂ R xs ys := by
  induction xs with
  | nil => exact ⟨[], rfl, .nil⟩
  | cons a xs ih =>
    obtain ⟨b, hb, hab⟩ := hf a List.mem_cons_self
    obtain ⟨ys, hys, hall⟩ := ih fun c hc => hf c (List.mem_cons_of_mem _ hc)
    refine ⟨b :: ys, ?_, .cons hab hall⟩
    rw [List.mapM_cons, hb, hys]
    rfl

/-- A computation for each entry that has given a list has given each value at its entry. -/
theorem forall₂_of_mapM {ε α β : Type} {f : α → Except ε β} {xs : List α} {ys : List β}
    (h : xs.mapM f = .ok ys) : List.Forall₂ (fun a b => f a = .ok b) xs ys := by
  induction xs generalizing ys with
  | nil =>
    cases h
    exact .nil
  | cons a xs ih =>
    rw [List.mapM_cons] at h
    obtain ⟨b, hb, h⟩ := bind_eq_ok_iff.1 h
    obtain ⟨bs, hbs, h⟩ := bind_eq_ok_iff.1 h
    cases h
    exact .cons hb (ih hbs)

/-- A computation for each entry that succeeds has given a value at each entry. -/
theorem exists_value_of_mapM {ε α β : Type} {f : α → Except ε β} {xs : List α} {ys : List β}
    (h : xs.mapM f = .ok ys) : ∀ a ∈ xs, ∃ b, f a = .ok b := by
  have hall := forall₂_of_mapM h
  clear h
  induction hall with
  | nil => simp
  | @cons a b _ _ hhead _ ih => simpa using ⟨⟨b, hhead⟩, ih⟩

/-- A computation for each entry fails with its failure at one of them. -/
theorem exists_error_of_mapM {ε α β : Type} {f : α → Except ε β} {xs : List α} {e : ε}
    (h : xs.mapM f = .error e) : ∃ a ∈ xs, f a = .error e := by
  induction xs with
  | nil => cases h
  | cons a xs ih =>
    rw [List.mapM_cons] at h
    rcases bind_eq_error_iff.1 h with hhead | ⟨b, -, h⟩
    · exact ⟨a, List.mem_cons_self, hhead⟩
    · rcases bind_eq_error_iff.1 h with htail | ⟨bs, -, h⟩
      · obtain ⟨c, hc, hce⟩ := ih htail
        exact ⟨c, List.mem_cons_of_mem _ hc, hce⟩
      · cases h

/-- The accumulator of a monadic filter stands, reversed, in front of what is kept. -/
theorem filterAuxM_eq_ok {ε α : Type} {p : α → Except ε Bool} {q : α → Bool} {xs : List α}
    (hp : ∀ a ∈ xs, p a = .ok (q a)) (acc : List α) :
    xs.filterAuxM p acc = .ok ((xs.filter q).reverse ++ acc) := by
  induction xs generalizing acc with
  | nil => rfl
  | cons a xs ih =>
    have htail := ih fun b hb => hp b (List.mem_cons_of_mem _ hb)
    unfold List.filterAuxM
    rw [hp a List.mem_cons_self]
    show xs.filterAuxM p (cond (q a) (a :: acc) acc) = _
    rw [htail]
    cases hq : q a <;> simp [hq]

/-- A monadic filter is the filter of a predicate that its test always answers with. -/
theorem filterM_eq_ok {ε α : Type} {p : α → Except ε Bool} {q : α → Bool} {xs : List α}
    (hp : ∀ a ∈ xs, p a = .ok (q a)) : xs.filterM p = .ok (xs.filter q) := by
  unfold List.filterM
  rw [filterAuxM_eq_ok hp]
  simp [bind, Except.bind, pure, Except.pure]

/-- A monadic filter that succeeds has got an answer at each entry. -/
theorem exists_answer_of_filterAuxM {ε α : Type} {p : α → Except ε Bool} {xs acc ys : List α}
    (h : xs.filterAuxM p acc = .ok ys) : ∀ a ∈ xs, ∃ v, p a = .ok v := by
  induction xs generalizing acc with
  | nil => simp
  | cons a xs ih =>
    unfold List.filterAuxM at h
    obtain ⟨keep, hkeep, h⟩ := bind_eq_ok_iff.1 h
    intro b hb
    rcases List.mem_cons.1 hb with rfl | hb
    · exact ⟨keep, hkeep⟩
    · exact ih h b hb

/-- A filter that succeeds has an answer for every entry. -/
theorem exists_answer_of_filterM {ε α : Type} {p : α → Except ε Bool} {xs ys : List α}
    (h : xs.filterM p = .ok ys) : ∀ a ∈ xs, ∃ v, p a = .ok v := by
  unfold List.filterM at h
  obtain ⟨kept, hkept, -⟩ := bind_eq_ok_iff.1 h
  exact exists_answer_of_filterAuxM hkept

/-- A monadic filter fails with the failure of its test at some entry. -/
theorem exists_error_of_filterAuxM {ε α : Type} {p : α → Except ε Bool} {xs acc : List α} {e : ε}
    (h : xs.filterAuxM p acc = .error e) : ∃ a ∈ xs, p a = .error e := by
  induction xs generalizing acc with
  | nil => cases h
  | cons a xs ih =>
    unfold List.filterAuxM at h
    rcases bind_eq_error_iff.1 h with hhead | ⟨keep, -, h⟩
    · exact ⟨a, List.mem_cons_self, hhead⟩
    · obtain ⟨b, hb, hbe⟩ := ih h
      exact ⟨b, List.mem_cons_of_mem _ hb, hbe⟩

/-- A filter that fails has failed at an entry. -/
theorem exists_error_of_filterM {ε α : Type} {p : α → Except ε Bool} {xs : List α} {e : ε}
    (h : xs.filterM p = .error e) : ∃ a ∈ xs, p a = .error e := by
  unfold List.filterM at h
  rcases bind_eq_error_iff.1 h with hkept | ⟨kept, -, h⟩
  · exact exists_error_of_filterAuxM hkept
  · cases h

/-- Tests that agree on the entries of a list keep the same ones. -/
theorem filterM_congr {m : Type → Type} [Monad m] {α : Type} {p q : α → m Bool} {xs : List α}
    (h : ∀ a ∈ xs, p a = q a) : xs.filterM p = xs.filterM q := by
  have haux (acc : List α) : xs.filterAuxM p acc = xs.filterAuxM q acc := by
    induction xs generalizing acc with
    | nil => rfl
    | cons a xs ih =>
      rw [List.filterAuxM, List.filterAuxM, h a List.mem_cons_self]
      congr 1
      funext keep
      exact ih (fun b hb => h b (List.mem_cons_of_mem _ hb)) _
  rw [List.filterM, List.filterM, haux]

namespace Inquiry

variable {α β : Type}

instance : LawfulMonad Inquiry := LawfulMonad.mk' Inquiry
  (fun x => by
    show x.bind (fun a => answer a) = x
    induction x with
    | answer a => rfl
    | fail f => rfl
    | ask q next ih => simp [bind, ih])
  (fun a k => rfl)
  (fun x k l => by
    show (x.bind k).bind l = x.bind fun a => (k a).bind l
    induction x with
    | answer a => rfl
    | fail f => rfl
    | ask q next ih => simp [bind, ih])

/-- A question asks for nothing but its answer. -/
theorem run_query_congr {q : Query} {g g' : CommitGraph} (h : g q = g' q) :
    (query q).run g = (query q).run g' := by
  rw [run_query, run_query, h]

/-- Asking a question that may fail never fails itself. -/
@[simp]
theorem run_attempt (g : CommitGraph) (q : Query) : (attempt q).run g = .ok (g q) := rfl

/-- Inquiries that begin alike have the same result if they go on alike. -/
theorem run_bind_congr {x : Inquiry α} {k : α → Inquiry β} {g g' : CommitGraph}
    (hx : x.run g = x.run g') (hk : ∀ a, x.run g = .ok a → (k a).run g = (k a).run g') :
    (x >>= k).run g = (x >>= k).run g' := by
  rw [run_bind, run_bind, ← hx]
  cases hrun : x.run g with
  | error f => rfl
  | ok a => exact hk a hrun

/-- A result that asks nothing is the same on every graph. -/
@[simp]
theorem run_ofExcept (g : CommitGraph) (x : Except Failure α) : (ofExcept x).run g = x := by
  cases x <;> rfl

/-- A failure is the same on every graph. -/
@[simp]
theorem run_fail (g : CommitGraph) (f : Failure) : (fail f : Inquiry α).run g = .error f := rfl

/-- A question about a name that may not exist fails only for other reasons. -/
@[simp]
theorem run_queryIfExists (g : CommitGraph) (q : Query) :
    (queryIfExists q).run g = match g q with
      | .ok a => .ok (some a)
      | .error f => if f.isRefNotFound then .ok none else .error f := by
  unfold queryIfExists run
  cases g q with
  | ok a => rfl
  | error f => cases h : f.isRefNotFound <;> simp [h, run]

/-- Running an inquiry for each entry of a list runs them in the order of the list. -/
@[simp]
theorem run_mapM (g : CommitGraph) (f : α → Inquiry β) (xs : List α) :
    (xs.mapM f).run g = xs.mapM fun a => (f a).run g := by
  induction xs with
  | nil => rfl
  | cons a xs ih =>
    simp only [List.mapM_cons, run_bind, ih, run_pure]
    rfl

/-- A test that asks questions keeps, in a run, the entries that the run of the test keeps. -/
@[simp]
theorem run_filterM (g : CommitGraph) (p : α → Inquiry Bool) (xs : List α) :
    (xs.filterM p).run g = xs.filterM fun a => (p a).run g := by
  have haux (acc : List α) :
      (xs.filterAuxM p acc).run g = xs.filterAuxM (fun a => (p a).run g) acc := by
    induction xs generalizing acc with
    | nil => rfl
    | cons a xs ih => simp only [List.filterAuxM, run_bind, ih]
  simp only [List.filterM, run_bind, haux, run_pure]
  rfl

/-- Answers that keep something about a state, and are those of a graph as long as it holds, lead to
the result of a run on the graph. -/
theorem runWith_eq_run {σ : Type} {keeps : σ → Prop} {g : CommitGraph}
    {stateful : (q : Query) → StateM σ (Except Failure q.Answer)}
    (hstep : ∀ q s, keeps s →
      ((stateful q).run s).1 = g q ∧ keeps ((stateful q).run s).2)
    (x : Inquiry α) {s : σ} (hs : keeps s) : ((x.runWith stateful).run s).1 = x.run g := by
  induction x generalizing s with
  | answer a => rfl
  | fail f => rfl
  | ask q next ih =>
    obtain ⟨hanswer, hkept⟩ := hstep q s hs
    show (((next ((stateful q).run s).1).runWith stateful).run ((stateful q).run s).2).1 = _
    rw [hanswer]
    exact ih (g q) hkept

end Inquiry

end NextBuild
