import NextBuild.Graph.Memory
import NextBuild.Graph.Remote
import NextBuild.Proofs.Graph.Runs
import NextBuild.Proofs.Json.Messages
import NextBuild.Strategy.Basic

/-!
# Asking over a line is asking at hand

Every message comes back from its text, so a question that is sent to a session is answered as the
graph answers it, as long as the failure of the graph is one that a response can tell.  A graph in
memory fails in no other way.  So an inquiry has the same result over a line and at hand, whatever
was asked in the session before.
-/

namespace NextBuild

/-! ## Failures that can be told -/

/-- The failure comes back from the class and the text that tell it. -/
def Failure.IsTold (f : Failure) : Prop := f.told.1.failure f.told.2 = f

/-- A computation fails only with failures that can be told. -/
def FailsTold {α : Type} (x : Except Failure α) : Prop := ∀ f, x = .error f → f.IsTold

namespace FailsTold

variable {α β : Type}

/-- A result has no failure to tell. -/
theorem ok (a : α) : FailsTold (.ok a) := by simp [FailsTold]

/-- A reference that does not exist is told by its name. -/
theorem refNotFound (name : String) :
    FailsTold (.error (.refNotFound name) : Except Failure α) := by
  rintro _ ⟨⟩
  rfl

/-- A commit that is missing is told by its id. -/
theorem missingObject (id : String) :
    FailsTold (.error (.missingObject id) : Except Failure α) := by
  rintro _ ⟨⟩
  rfl

/-- In two steps, the failures of each can be told. -/
theorem bind {x : Except Failure α} {k : α → Except Failure β} (hx : FailsTold x)
    (hk : ∀ a, FailsTold (k a)) : FailsTold (x >>= k) := by
  cases x with
  | ok a => exact hk a
  | error f => exact fun f' h => hx f' (by cases h; rfl)

/-- A changed result leaves the failures as they are. -/
theorem map {x : Except Failure α} (f : α → β) (hx : FailsTold x) : FailsTold (x.map f) := by
  cases x with
  | ok a => exact ok (f a)
  | error e => exact fun f' h => hx f' (by cases h; rfl)

/-- Over a list, the failures of each entry can be told. -/
theorem mapM {f : α → Except Failure β} (hf : ∀ a, FailsTold (f a)) (xs : List α) :
    FailsTold (xs.mapM f) := by
  induction xs with
  | nil => exact ok []
  | cons a xs ih =>
    rw [List.mapM_cons]
    exact (hf a).bind fun b => ih.bind fun bs => ok (b :: bs)

end FailsTold

namespace Dag

variable (g : Dag)

/-- Looking up a commit fails only where it is missing. -/
theorem failsTold_node (c : CommitId) : FailsTold (g.node c) := by
  unfold node
  split
  · exact .ok _
  · exact .missingObject _

/-- Walking the graph fails only where a commit is missing. -/
theorem failsTold_reach (seen todo : List CommitId) : FailsTold (g.reach seen todo) := by
  fun_induction reach g seen todo with
  | case1 seen => exact .ok seen
  | case2 _ _ _ _ ih => exact ih
  | case3 _ _ _ _ _ _ ih => exact ih
  | case4 => exact .missingObject _

/-- Sorting commits fails only where one is missing. -/
theorem failsTold_newestFirst (cs : List CommitId) : FailsTold (g.newestFirst cs) :=
  (FailsTold.mapM g.failsTold_node cs).bind fun _ => .ok _

/-- A merge base fails only where a commit is missing. -/
theorem failsTold_mergeBase (a b : CommitId) : FailsTold (g.mergeBase a b) := by
  have hbest : FailsTold (g.bestCommonAncestors a b) :=
    (g.failsTold_reach [] [a]).bind fun left => (g.failsTold_reach [] [b]).bind fun right =>
      (FailsTold.mapM (fun c => (g.failsTold_node c).map (·.parents)) _).bind fun parents =>
        (g.failsTold_reach [] parents.flatten).bind fun _ => .ok _
  exact hbest.bind fun best => (g.failsTold_newestFirst best).bind fun _ => .ok _

/-- So does the question whether a commit is merged into another one. -/
theorem failsTold_isMergedInto (a c : CommitId) : FailsTold (g.isMergedInto a c) :=
  (g.failsTold_node a).bind fun _ => (g.failsTold_reach [] [c]).bind fun _ => .ok _

end Dag

namespace MemoryGraph

variable (g : MemoryGraph)

/-- Without a fetch there is no commit that was fetched. -/
theorem failsTold_fetched : FailsTold g.fetched := by
  unfold fetched
  split
  · exact .ok _
  · exact .refNotFound _

/-- A name that means nothing is told as a reference that does not exist. -/
theorem failsTold_resolve (name : String) : FailsTold (g.resolve name) := by
  unfold resolve
  split
  · exact g.failsTold_fetched
  · split
    · exact .ok _
    · split
      · exact .ok _
      · exact .refNotFound _

/-- A log fails where its reference does not exist or a commit is missing. -/
theorem failsTold_log (reference : Option String) : FailsTold (g.log reference) := by
  have hlog (starts : List CommitId) :
      FailsTold (g.dag.reach [] starts >>= fun cs => g.dag.newestFirst cs) :=
    (g.dag.failsTold_reach [] starts).bind fun cs => g.dag.failsTold_newestFirst cs
  cases reference with
  | none => exact hlog g.refs.values
  | some name => exact ((g.failsTold_resolve name).map fun c => [c]).bind hlog

/-- A graph in memory only fails because something does not exist. -/
theorem failsTold_answers (q : Query) : FailsTold (g.answers q) := by
  cases q with
  | references => exact .ok _
  | resolve name => exact g.failsTold_resolve name
  | mergeBase a b => exact g.dag.failsTold_mergeBase a b
  | timestamp c => exact (g.dag.failsTold_node c).map _
  | log reference => exact g.failsTold_log reference
  | fetchHead => exact g.failsTold_fetched
  | openWalk => exact .ok ()
  | isMergedInto a c => exact g.dag.failsTold_isMergedInto a c
  | commitTime c => exact (g.dag.failsTold_node c).map _

end MemoryGraph

/-! ## One question -/

namespace Response

/-- The answer of a question comes back from its response. -/
theorem answer_ofAnswer (q : Query) (a : q.Answer) : (ofAnswer q a).answer q = .ok a := by
  cases q <;> rfl

/-- A failure that can be told comes back from its response. -/
theorem answer_ofFailure {f : Failure} (h : f.IsTold) (q : Query) :
    (ofFailure f).answer q = .error f := by
  have hanswer : (ofFailure f).answer q = .error (f.told.1.failure f.told.2) := by cases q <;> rfl
  rw [hanswer, h]

/-- A result whose failure can be told comes back from its response. -/
theorem answer_ofResult {q : Query} {x : Except Failure q.Answer} (h : FailsTold x) :
    (ofResult q x).answer q = x := by
  cases x with
  | ok a => exact answer_ofAnswer q a
  | error f => exact answer_ofFailure (h f rfl) q

end Response

variable {g : CommitGraph}

/-- Where a walk can be opened, the response gives what the graph answers, in any session. -/
theorem Session.fst_respond (hopen : g .openWalk = .ok ()) (q : Query) (s : Session) :
    (s.respond g q).1 = .ofResult q (g q) := by
  by_cases hwalk : q = .openWalk
  · subst hwalk
    simp [respond, hopen, Response.ofResult, Response.ofAnswer]
  · by_cases hopens : (isWalkQuery q && !s.walking) = true <;>
      cases hq : g q <;> simp [respond, hwalk, hopens, hopen, hq, Response.ofResult]

/-- The response of a session gives the answer of the graph. -/
theorem Session.answer_respond (hopen : g .openWalk = .ok ()) {q : Query} (htold : FailsTold (g q))
    (s : Session) : (s.respond g q).1.answer q = g q := by
  rw [Session.fst_respond hopen, Response.answer_ofResult htold]

namespace Loopback

/-- A question that goes through its text has the answer of the graph, in any session. -/
theorem run_ask (hopen : g .openWalk = .ok ()) {q : Query} (htold : FailsTold (g q)) (s : Session) :
    ((ask g q).run s).1 = g q := by
  have hanswer := s.answer_respond hopen htold
  have hask : ask g q = fun s => (s.respond g q).map (fun r => r.answer q) id := by
    funext s
    unfold ask
    rw [Query.ofText?_text]
    simp only [Response.ofText?_text]
    rfl
  rw [hask]
  exact hanswer

/-- An inquiry through texts has the result that it has at hand, in any session. -/
theorem run_runWith_ask {α : Type} (hopen : g .openWalk = .ok ()) (htold : ∀ q, FailsTold (g q))
    (x : Inquiry α) (s : Session) : ((x.runWith (ask g)).run s).1 = x.run g := by
  induction x generalizing s with
  | answer a => rfl
  | fail f => rfl
  | ask q next ih =>
    -- The question may open a walk, so the rest goes on in another session.
    have hq := run_ask hopen (htold q) s
    have hnext := ih (g q) ((ask g q).run s).2
    rw [← hq] at hnext
    rw [Inquiry.run, ← hq]
    exact hnext

end Loopback

/-! ## Many questions -/

/-- Ask the questions of a list, one after the other, whether they fail or not. -/
def Inquiry.askAll (qs : List Query) : Inquiry (List (Σ q : Query, Except Failure q.Answer)) :=
  qs.mapM fun q => do return ⟨q, ← .attempt q⟩

/-- Asking the questions of a list gives what the graph answers to each. -/
theorem Inquiry.run_askAll (g : CommitGraph) (qs : List Query) :
    (askAll qs).run g = .ok (qs.map fun q => ⟨q, g q⟩) := by
  rw [askAll, run_mapM]
  exact mapM_eq_ok fun _ _ => rfl

/-- On a graph in memory a selection has the same result over a line as at hand, and so has every
question, in any sequence and in any session. -/
theorem MemoryGraph.loopback_agrees (g : MemoryGraph) :
    (∀ (strategy : Strategy) (req : Request) (ledger : Ledger),
      Loopback.run g.answers (strategy.select req ledger) =
        (strategy.select req ledger).run g.answers) ∧
    ∀ (session : Session) (qs : List Query),
      (((Inquiry.askAll qs).runWith (Loopback.ask g.answers)).run session).1 =
        .ok (qs.map fun q => ⟨q, g.answers q⟩) := by
  have hrun {α : Type} (x : Inquiry α) (session : Session) :
      ((x.runWith (Loopback.ask g.answers)).run session).1 = x.run g.answers :=
    Loopback.run_runWith_ask rfl g.failsTold_answers x session
  refine ⟨fun strategy req ledger => hrun (strategy.select req ledger) {}, fun session qs => ?_⟩
  rw [hrun, Inquiry.run_askAll]

end NextBuild
