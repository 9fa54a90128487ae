import NextBuild.Graph.Remote
import NextBuild.Proofs.Graph.Runs

/-!
# What an inquiry ensures

Some results of an inquiry do not depend on who answers: whatever the answers are, the same question
asked twice included, a result has a property.  This is kept by all ways of putting inquiries
together, and so it holds of a run on a graph, and of a run over a line to a peer of any kind.
-/

namespace NextBuild

namespace Inquiry

variable {α β : Type} {P : α → Prop} {Q : β → Prop}

/-- Whatever the questions are answered with, a result has the property. -/
inductive Ensures (P : α → Prop) : Inquiry α → Prop
  | answer {a : α} : P a → Ensures P (answer a)
  | fail (f : Failure) : Ensures P (fail f)
  | ask {q : Query} {next : Except Failure q.Answer → Inquiry α} :
      (∀ r, Ensures P (next r)) → Ensures P (ask q next)

/-- A result ensures what holds of it. -/
theorem ensures_pure {a : α} (ha : P a) : Ensures P (pure a) := .answer ha

/-- Every inquiry ensures what always holds. -/
theorem ensures_true (x : Inquiry α) : Ensures (fun _ => True) x := by
  induction x with
  | answer a => exact .answer trivial
  | fail f => exact .fail f
  | ask q next ih => exact .ask ih

/-- What is ensured may be weakened. -/
theorem Ensures.mono {P' : α → Prop} {x : Inquiry α} (hx : Ensures P x) (h : ∀ a, P a → P' a) :
    Ensures P' x := by
  induction hx with
  | answer ha => exact .answer (h _ ha)
  | fail f => exact .fail f
  | ask _ ih => exact .ask ih

/-- What the second of two inquiries ensures may rest on what the first one does. -/
theorem Ensures.bind {x : Inquiry α} {k : α → Inquiry β} (hx : Ensures P x)
    (hk : ∀ a, P a → Ensures Q (k a)) : Ensures Q (x >>= k) := by
  show Ensures Q (x.bind k)
  induction hx with
  | answer ha => exact hk _ ha
  | fail f => exact .fail f
  | ask _ ih => exact .ask ih

/-- What the second of two inquiries ensures in any case. -/
theorem ensures_bind {x : Inquiry α} {k : α → Inquiry β} (hk : ∀ a, Ensures Q (k a)) :
    Ensures Q (x >>= k) :=
  (ensures_true x).bind fun a _ => hk a

/-- A result that is there already ensures what holds of it. -/
theorem ensures_ofExcept {x : Except Failure α} (h : ∀ a, x = .ok a → P a) :
    Ensures P (ofExcept x) := by
  cases x with
  | ok a => exact .answer (h a rfl)
  | error f => exact .fail f

/-- Inquiries that go on alike from what the first one ensures are the same. -/
theorem Ensures.bind_congr {x : Inquiry α} {k l : α → Inquiry β} (hx : Ensures P x)
    (hkl : ∀ a, P a → k a = l a) : x >>= k = x >>= l := by
  show x.bind k = x.bind l
  induction hx with
  | answer ha => exact hkl _ ha
  | fail f => rfl
  | ask _ ih =>
    rw [Inquiry.bind, Inquiry.bind]
    congr 1
    funext r
    exact ih r

/-- One inquiry for each entry gives values that each go with their entry. -/
theorem ensures_mapM {R : α → β → Prop} {f : α → Inquiry β} (hf : ∀ a, Ensures (R a) (f a))
    (xs : List α) : Ensures (List.Forall₂ R xs) (xs.mapM f) := by
  induction xs with
  | nil => exact ensures_pure .nil
  | cons a xs ih =>
    rw [List.mapM_cons]
    apply (hf a).bind
    intro b hb
    apply ih.bind
    intro bs hbs
    exact ensures_pure (.cons hb hbs)

/-- A test keeps some of the entries in their order. -/
theorem ensures_filterM (p : α → Inquiry Bool) (xs : List α) :
    Ensures (·.Sublist xs) (xs.filterM p) := by
  have haux (acc : List α) :
      Ensures (fun ys => ys.reverse.Sublist (acc.reverse ++ xs)) (xs.filterAuxM p acc) := by
    induction xs generalizing acc with
    | nil => exact ensures_pure (by simp)
    | cons a xs ih =>
      rw [List.filterAuxM]
      apply ensures_bind
      intro keep
      cases keep with
      | true => simpa using ih (a :: acc)
      | false =>
        apply (ih acc).mono
        intro ys hys
        exact hys.trans (((List.Sublist.refl xs).cons a).append_left acc.reverse)
  apply (haux []).bind
  intro kept hkept
  exact ensures_pure (by simpa using hkept)

/-- A result of a run on a graph has the property. -/
theorem Ensures.run {x : Inquiry α} (hx : Ensures P x) {g : CommitGraph} {a : α}
    (h : x.run g = .ok a) : P a := by
  induction hx with
  | answer ha =>
    cases h
    exact ha
  | fail f => cases h
  | ask _ ih => exact ih _ h

/-- A result of a run with answers that change a state has the property. -/
theorem Ensures.runWith {σ : Type} {x : Inquiry α} (hx : Ensures P x)
    {g : (q : Query) → StateM σ (Except Failure q.Answer)} {s : σ} {a : α}
    (h : ((x.runWith g).run s).1 = .ok a) : P a := by
  induction hx generalizing s with
  | answer ha =>
    cases h
    exact ha
  | fail f => cases h
  | ask _ ih => exact ih _ h

/-- A computation on the result of an inquiry asks nothing more. -/
theorem runWith_bind_pure {σ : Type} {g : (q : Query) → StateM σ (Except Failure q.Answer)}
    (f : α → β) (x : Inquiry α) (s : σ) :
    (((x >>= fun a => pure (f a)).runWith g).run s).1 = ((x.runWith g).run s).1.map f := by
  show (((x.bind fun a => answer (f a)).runWith g).run s).1 = _
  induction x generalizing s with
  | answer a => rfl
  | fail e => rfl
  | ask q next ih => exact ih ((g q).run s).1 ((g q).run s).2

/-- A result of a run over a line has the property, whatever is at the other end. -/
theorem Ensures.peer {x : Inquiry α} (hx : Ensures P x) {peer : Peer} {a : α}
    (h : peer.run x = .ok a) : P a := by
  cases peer with
  | agent g => exact hx.runWith h
  | speaker text => exact hx.runWith h

end Inquiry

end NextBuild
