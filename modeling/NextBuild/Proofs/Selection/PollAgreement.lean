import NextBuild.Proofs.Graph.Growth
import NextBuild.Proofs.Graph.Runs
import NextBuild.Proofs.Ledger
import NextBuild.Proofs.Selection.Bounds
import NextBuild.Proofs.Selection.Listing
import NextBuild.Proofs.Selection.Questions

/-!
# Polls and builds agree

A poll announces what a build would start with.  The two runs ask the same questions and part only
where a poll has nothing left to answer with: there a build may repeat the last build, as a single
revision.  Bounds and priorities are applied to both answers alike, and what they do to the answer
of the poll they do to that of the build, so the agreement of two answers passes through them.

A requested text that looks like an abbreviated id is the exception: a poll takes it for a name
alone.
-/

namespace NextBuild

/-- The result of a poll announces the result of a build on the same inputs. -/
structure PollAgrees (ledger : Ledger) (poll build : Except Failure (List Revision)) : Prop where
  /-- What a poll finds is what is built. -/
  found : ∀ rs, poll = .ok rs → rs ≠ [] → build = .ok rs
  /-- Where a poll finds nothing, at most one revision is built again. -/
  repeated : ∀ rs, poll = .ok [] → build = .ok rs →
    rs = [] ∨ ∃ r, rs = [r] ∧ ledger.hasBuilt r.commit = true
  /-- Where a poll fails, so does a build. -/
  failed : ∀ f, poll = .error f → ∃ f', build = .error f'

namespace PollAgrees

variable {ledger : Ledger} {poll build : Except Failure (List Revision)}

/-- A result agrees with itself. -/
theorem refl (result : Except Failure (List Revision)) : PollAgrees ledger result result where
  found _ h _ := h
  repeated _ hpoll hbuild := .inl (Except.ok.inj (hbuild.symm.trans hpoll))
  failed f h := ⟨f, h⟩

/-- A poll that finds nothing agrees with a build that repeats at most one revision. -/
theorem of_nothing (h : ∀ rs, build = .ok rs →
    rs = [] ∨ ∃ r, rs = [r] ∧ ledger.hasBuilt r.commit = true) :
    PollAgrees ledger (.ok []) build where
  found rs hpoll hne := absurd (Except.ok.inj hpoll).symm hne
  repeated rs _ hbuild := h rs hbuild
  failed f hpoll := by cases hpoll

/-- A poll that fails agrees with a build that does. -/
theorem of_failed (f : Failure) (h : ∃ f', build = .error f') :
    PollAgrees ledger (.error f) build where
  found rs hpoll := by cases hpoll
  repeated rs hpoll := by cases hpoll
  failed _ _ := h

/-- Runs that begin alike agree if they agree from there on. -/
theorem after {α : Type} (x : Except Failure α) {k l : α → Except Failure (List Revision)}
    (h : ∀ a, PollAgrees ledger (k a) (l a)) : PollAgrees ledger (x >>= k) (x >>= l) := by
  cases x with
  | ok a => exact h a
  | error f => exact refl (.error f)

/-- Agreement passes through a step that drops candidates, if failing on none of them means failing
on one. -/
theorem andThen {k : List Revision → Except Failure (List Revision)}
    (h : PollAgrees ledger poll build) (hnil : ∀ out, k [] = .ok out → out = [])
    (hone : ∀ r out, k [r] = .ok out → out = [] ∨ out = [r])
    (hfail : ∀ r f, k [] = .error f → ∃ f', k [r] = .error f') :
    PollAgrees ledger (poll >>= k) (build >>= k) := by
  cases poll with
  | error f =>
    obtain ⟨f', hbuild⟩ := h.failed f rfl
    rw [hbuild]
    exact of_failed f ⟨f', rfl⟩
  | ok rs =>
    by_cases hrs : rs = []
    · subst hrs
      rw [ok_bind]
      cases hk : k [] with
      | ok out =>
        rw [hnil out hk]
        refine of_nothing fun made hmade => ?_
        obtain ⟨again, hagain, hmade⟩ := bind_eq_ok_iff.1 hmade
        rcases h.repeated again rfl hagain with rfl | ⟨r, rfl, hbuilt⟩
        · exact .inl (hnil made hmade)
        · rcases hone r made hmade with rfl | rfl
          · exact .inl rfl
          · exact .inr ⟨r, rfl, hbuilt⟩
      | error f =>
        refine of_failed f ?_
        cases hbuild : build with
        | error f' => exact ⟨f', rfl⟩
        | ok again =>
          rcases h.repeated again rfl hbuild with rfl | ⟨r, rfl, -⟩
          · exact ⟨f, hk⟩
          · exact hfail r f hk
    · rw [h.found rs rfl hrs]
      exact refl _

end PollAgrees

/-- The request for new commits alone. -/
def Request.polling (req : Request) : Request := { req with poll := true }

/-- The request for something to build. -/
def Request.building (req : Request) : Request := { req with poll := false }

variable {g : CommitGraph} {req : Request} {ledger : Ledger}

/-- The revision to build again was built. -/
theorem hasBuilt_of_dropBuilt {rs : List Revision} {r : Revision}
    (h : (dropBuilt ledger rs).2 = some r) : ledger.hasBuilt r.commit = true := by
  obtain ⟨last, hlast, hcommit⟩ := exists_lastRevision?_of_dropBuilt h
  obtain ⟨b, hb, rfl⟩ := Option.map_eq_some_iff.1 hlast
  rw [← hcommit]
  exact Ledger.hasBuilt_of_last hb b.covers_revision

namespace DefaultStrategy

/-- On one definite branch a poll and a build differ only in whether a built commit counts. -/
theorem pollAgrees_selectSingle (s : DefaultStrategy) {name : String}
    (hname : CommitId.looksLikeAbbreviation name = false) :
    PollAgrees ledger ((s.selectSingle req.polling ledger name).run g)
      ((s.selectSingle req.building ledger name).run g) := by
  simp only [selectSingle, Request.polling, Request.building, hname, Bool.and_false, Bool.true_and,
    Bool.false_and, Bool.false_eq_true, if_false, Inquiry.run_bind]
  refine .after _ fun found => ?_
  cases found.head? with
  | none => exact .refl _
  | some r =>
    show PollAgrees ledger (.ok (if ledger.hasBuilt r.commit = true then [] else [r])) (.ok [r])
    by_cases hbuilt : ledger.hasBuilt r.commit = true
    · rw [if_pos hbuilt]
      refine .of_nothing fun rs hrs => .inr ⟨r, (Except.ok.inj hrs).symm, hbuilt⟩
    · rw [if_neg hbuilt]
      exact .refl _

/-- Over the matching branches a poll and a build differ only where no tip is left. -/
theorem pollAgrees_selectMatching (specs : List BranchSpec) :
    PollAgrees ledger ((selectMatching req.polling ledger specs).run g)
      ((selectMatching req.building ledger specs).run g) := by
  simp only [selectMatching, Request.polling, Request.building, Inquiry.run_bind]
  refine .after _ fun listed => .after _ fun matched => .after _ fun newest => ?_
  rcases hdrop : dropBuilt ledger newest with ⟨_ | ⟨r, fresh⟩, again⟩
  · refine .of_nothing fun rs hrs => ?_
    cases again with
    | none => exact .inl (Except.ok.inj hrs).symm
    | some r =>
      have hbuilt := hasBuilt_of_dropBuilt (congrArg Prod.snd hdrop)
      rcases hsort : r.sortBranches specs req.env with ⟨_ | f, sorted⟩
      · have hcommit := r.commit_sortBranches specs req.env
        simp only [hsort] at hrs hcommit
        exact .inr ⟨sorted, (Except.ok.inj hrs).symm, hcommit ▸ hbuilt⟩
      · simp only [hsort] at hrs
        cases hrs
  · exact .refl _

end DefaultStrategy

/-- Over the branches that are left a poll and a build differ only where no tip is left. -/
theorem InverseStrategy.pollAgrees_select (s : InverseStrategy) :
    PollAgrees ledger ((s.select req.polling ledger).run g)
      ((s.select req.building ledger).run g) := by
  simp only [select, Request.polling, Request.building, Inquiry.run_bind]
  refine .after _ fun listed => .after _ fun left => .after _ fun newest => ?_
  cases newest with
  | nil => exact .refl _
  | cons t ts =>
    rcases hdrop : dropBuilt ledger (t :: ts) with ⟨_ | ⟨r, fresh⟩, again⟩ <;> simp only [hdrop]
    · refine .of_nothing fun rs hrs => ?_
      cases again with
      | none => exact .inl (Except.ok.inj hrs).symm
      | some r =>
        have hbuilt := hasBuilt_of_dropBuilt (congrArg Prod.snd hdrop)
        exact .inr ⟨r, (Except.ok.inj hrs).symm, hbuilt⟩
    · exact .refl _

/-- The default strategy takes the requested text for a definite branch, and this branch may be an
abbreviated id. -/
def BaseStrategy.resolvesAbbreviation (req : Request) : BaseStrategy → Bool
  | .default s => (s.singleTarget? req).any CommitId.looksLikeAbbreviation
  | .inverse _ => false

/-- A poll of a base strategy agrees with a build. -/
theorem BaseStrategy.pollAgrees_select {s : BaseStrategy}
    (hname : s.resolvesAbbreviation req = false) :
    PollAgrees ledger ((s.select req.polling ledger).run g)
      ((s.select req.building ledger).run g) := by
  cases s with
  | inverse s => exact s.pollAgrees_select
  | default s =>
    have hpoll : s.singleTarget? req.polling = s.singleTarget? req := rfl
    have hbuild : s.singleTarget? req.building = s.singleTarget? req := rfl
    simp only [select, DefaultStrategy.select, hpoll, hbuild]
    cases hsingle : s.singleTarget? req with
    | some name => exact s.pollAgrees_selectSingle (by simpa [resolvesAbbreviation, hsingle] using hname)
    | none =>
      have htarget : req.polling.target = req.building.target := rfl
      simp only [htarget]
      split
      · simp only [Inquiry.run_bind]
        exact .after _ fun b => DefaultStrategy.pollAgrees_selectMatching [b]
      · exact DefaultStrategy.pollAgrees_selectMatching s.specs

/-- Bounds on the candidates of a poll and of a build keep the agreement. -/
theorem Strategy.pollAgrees_bounded {inner : BaseStrategy} (b : Bounds)
    (hname : inner.resolvesAbbreviation req = false) :
    PollAgrees ledger (((bounded inner b).select req.polling ledger).run g)
      (((bounded inner b).select req.building ledger).run g) := by
  simp only [select, Inquiry.run_bind]
  refine (BaseStrategy.pollAgrees_select hname).andThen (fun out hout => ?_) (fun r out hout => ?_)
    fun r f hf => ?_
  · exact List.sublist_nil.1 (Bounds.sublist_of_filter hout)
  · exact List.sublist_singleton.1 (Bounds.sublist_of_filter hout)
  · exact ⟨f, Bounds.filter_eq_error_of_nil hf⟩

/-- On the line of the queue a poll and a build differ only where nothing newer is left. -/
theorem QueueStrategy.pollAgrees_select (s : QueueStrategy) :
    PollAgrees ledger ((s.select req.polling ledger).run g)
      ((s.select req.building ledger).run g) := by
  have htarget : s.logTarget? req.polling = s.logTarget? req.building := rfl
  simp only [select, htarget, Inquiry.run_bind]
  refine .after _ fun log => ?_
  cases hlast : ledger.last with
  | none => exact .refl _
  | some b =>
    dsimp only
    split
    · exact .refl _
    · refine .of_nothing fun rs hrs => .inr ⟨b.revision, (Except.ok.inj hrs).symm, ?_⟩
      exact Ledger.hasBuilt_of_last hlast b.covers_revision

/-- The strategy takes a requested or configured text for an abbreviated id. -/
def Strategy.resolvesAbbreviation (req : Request) : Strategy → Bool
  | base s | bounded s _ | prioritized s _ _ => s.resolvesAbbreviation req
  | queue _ => false

/-- A poll agrees with a build on the same inputs, for every strategy and whatever the graph
answers, unless an abbreviated id is asked for. -/
theorem Strategy.poll_agrees_build {s : Strategy} (hname : s.resolvesAbbreviation req = false) :
    PollAgrees ledger ((s.select req.polling ledger).run g)
      ((s.select req.building ledger).run g) := by
  cases s with
  | base s => exact BaseStrategy.pollAgrees_select hname
  | bounded inner b => exact pollAgrees_bounded b hname
  | prioritized inner b priorities =>
    simp only [select_prioritized, Inquiry.run_bind, Inquiry.run_pure]
    refine (pollAgrees_bounded b hname).andThen (fun out hout => ?_) (fun r out hout => ?_)
      fun r f hf => ?_
    · exact (Except.ok.inj hout).symm.trans List.mergeSort_nil
    · exact .inr ((Except.ok.inj hout).symm.trans (List.mergeSort_singleton r))
    · cases hf
  | queue s => exact s.pollAgrees_select

/-- A branch of the example that is asked for by its name is announced and built while it is new.  Once
it was built, a poll announces nothing and a build repeats it. -/
theorem pollAgrees_side :
    let request : Request := ⟨true, some "side", [], ⟨2024, 1, 31⟩, 0⟩
    let strategy : Strategy := .base (.default ⟨[], ["origin"]⟩)
    let side : Revision := .labelled MemoryGraph.newerCommit "origin/side"
    let built := Ledger.empty.record ⟨side, none, 1, .success⟩
    let poll := fun ledger =>
      (strategy.select request.polling ledger).run MemoryGraph.twoBranches.answers
    let build := fun ledger =>
      (strategy.select request.building ledger).run MemoryGraph.twoBranches.answers
    strategy.resolvesAbbreviation request = false ∧
      poll .empty = .ok [side] ∧ build .empty = .ok [side] ∧
      PollAgrees .empty (poll .empty) (build .empty) ∧
      built.hasBuilt side.commit = true ∧ poll built = .ok [] ∧ build built = .ok [side] ∧
      PollAgrees built (poll built) (build built) := by
  intro request strategy side built poll build
  have hname : strategy.resolvesAbbreviation request = false := by
    rw [Strategy.resolvesAbbreviation, BaseStrategy.resolvesAbbreviation,
      DefaultStrategy.singleTarget?_of_target rfl (by decide) (by decide) (by decide)]
    decide
  have hselect (req : Request) (ledger : Ledger) (htarget : req.target = some "side") :
      strategy.select req ledger = DefaultStrategy.selectSingle ⟨[], ["origin"]⟩ req ledger "side" :=
    DefaultStrategy.select_of_target ledger htarget (by decide) (by decide) (by decide)
  have hpoll (ledger : Ledger) : poll ledger = _ :=
    congrArg (·.run MemoryGraph.twoBranches.answers) (hselect request.polling ledger rfl)
  have hbuild (ledger : Ledger) : build ledger = _ :=
    congrArg (·.run MemoryGraph.twoBranches.answers) (hselect request.building ledger rfl)
  refine ⟨hname, ?_, ?_, Strategy.poll_agrees_build hname, by decide, ?_, ?_,
    Strategy.poll_agrees_build hname⟩
  · rw [hpoll]
    rfl
  · rw [hbuild]
    rfl
  · rw [hpoll]
    rfl
  · rw [hbuild]
    rfl

end NextBuild
