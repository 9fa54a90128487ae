import NextBuild.Proofs.Ledger
import NextBuild.Proofs.Selection.Offers

/-!
# What is built again

A job polls all listed branches and builds one of the revisions that are found, while branches come,
move and go.  The ledger keeps one build for each name, so a build of a name makes it forget what
was built of this name before.  A tip is found again exactly when the ledger has forgotten all builds
of it, each under each of its names: that is the case when a branch that was reset goes back to where
it has been.
-/

namespace NextBuild

/-- A job on a graph that changes, from its first build on: the graph as it is, and the builds so
far.  Each build is of a revision that a poll over all listed branches has found, with any number
and any outcome; what the polls look for may change too. -/
inductive Job : MemoryGraph → List Build → Prop
  | start {g : MemoryGraph} : g.Grown → Job g []
  | change {g g' : MemoryGraph} {done : List Build} :
      Job g done → MemoryGraph.Change g g' → Job g' done
  | build {g : MemoryGraph} {done : List Build} {s : BaseStrategy} {ch : Choice} {req : Request}
      {rs : List Revision} {r : Revision} (number : UInt64) (result : BuildResult) :
      Job g done → req.poll = true → s.choice? req = some ch →
      (s.select req (Ledger.empty.recordAll done)).run g.answers = .ok rs → r ∈ rs →
      Job g (done ++ [⟨r, none, number, result⟩])

namespace Job

variable {g : MemoryGraph} {done : List Build} {s : BaseStrategy} {ch : Choice} {req : Request}

/-- The graph of a job has grown. -/
theorem grown (h : Job g done) : g.Grown := by
  induction h with
  | start hg => exact hg
  | change _ hchange ih => exact ih.change hchange
  | build _ _ _ _ _ _ _ ih => exact ih

/-- Every build of a job has a name. -/
theorem named (h : Job g done) : ∀ b ∈ done, b.marked.names ≠ [] := by
  induction h with
  | start => simp
  | change _ _ ih => exact ih
  | build number result _ hpoll hchoice hrun hr ih =>
    rw [BaseStrategy.run_select_eq_poll _ hpoll hchoice] at hrun
    intro b hb
    rcases List.mem_append.1 hb with hb | hb
    · exact ih b hb
    · rw [List.mem_singleton.1 hb]
      exact (Choice.offers_of_poll rfl hrun).named _ hr

/-- A poll of a job fails only where a spec that is tried gives no answer.  It finds the tips of
which every build, if there was any, is forgotten. -/
theorem mem_poll_iff_forgotten (h : Job g done) (hpoll : req.poll = true)
    (hchoice : s.choice? req = some ch) :
    ((∃ rs, (s.select req (Ledger.empty.recordAll done)).run g.answers = .ok rs) ↔
        ch.Answers req.env g.branches) ∧
      ∀ rs, (s.select req (Ledger.empty.recordAll done)).run g.answers = .ok rs →
        ∀ c, c ∈ rs.map (·.commit) ↔
          IsTip g.dag (fun c => ch.eligible req.env g.branches c) c ∧ Ledger.Forgotten done c := by
  rw [BaseStrategy.run_select_eq_poll g.answers hpoll hchoice]
  have hanswers : ∀ rs, (ch.poll req (Ledger.empty.recordAll done)).run g.answers = .ok rs →
      ch.Answers req.env g.branches := fun rs hrun => (Choice.exists_sublist_of_poll rfl hrun).1
  refine ⟨⟨fun ⟨rs, hrun⟩ => hanswers rs hrun, fun hall => ?_⟩, fun rs hrun c => ?_⟩
  · obtain ⟨rs, hrun, -⟩ := h.grown.exists_poll (Ledger.empty.recordAll done) hall
    exact ⟨rs, hrun⟩
  · obtain ⟨_, hrun', htips⟩ := h.grown.exists_poll (Ledger.empty.recordAll done) (hanswers rs hrun)
    cases hrun.symm.trans hrun'
    rw [htips.mem_iff, Ledger.hasBuilt_recordAll_eq_false_iff h.named]

end Job

namespace BranchSpec

/-- The spec that matches every branch. -/
def everything : BranchSpec := ofName "**" (by decide +kernel)

/-- Its name is two stars. -/
theorem name_everything : everything.name = "**" := name_ofName _

/-- The spec for everything can be read. -/
theorem ofText_everything : ofText "**" = .ok everything := ofText_eq_ofName _ (by decide)

/-- It matches what two stars match. -/
theorem isMatch_everything (env : Text.Environment) (name : String) :
    everything.isMatch env name = .ok ((wildcardPattern "**").isMatch name) :=
  isMatch_ofName _ (by decide) (Text.hasReference_eq_false (by decide)) (by decide) env name

end BranchSpec

namespace MemoryGraph

/-- The commits of the example with one branch, which points to a commit. -/
def tracking (c : CommitId) : MemoryGraph :=
  { twoBranches with refs := Table.empty.insert "refs/remotes/origin/master" c }

/-- One branch is listed. -/
theorem branches_tracking (c : CommitId) : (tracking c).branches = [⟨"origin/master", c⟩] := by
  have hentries : (tracking c).refs.entries = [("refs/remotes/origin/master", c)] := rfl
  have hlocal : (tracking c).localBranches = false := rfl
  have hlisted : isListed false "refs/remotes/origin/master" = true := by decide
  have hname : displayName "refs/remotes/origin/master" = "origin/master" := by decide
  simp [branches, hentries, hlocal, hlisted, hname]

/-- The only tip of the example is the commit of its branch. -/
theorem run_tipsThen_tracking {c : CommitId} {req : Request}
    (rest : List Revision → Inquiry (List Revision)) :
    ((Choice.matching [.everything]).tipsThen req rest).run (tracking c).answers =
      (rest [.ofNames c ["origin/master"]]).run (tracking c).answers := by
  let found : Revision := .ofNames c ["origin/master"]
  have hlist : (tracking c).answers .references = .ok [⟨"origin/master", c⟩] :=
    congrArg Except.ok (branches_tracking c)
  have hgroup : Revision.group [⟨"origin/master", c⟩] = [found] := rfl
  have hmatch : (BranchSpec.wildcardPattern "**").isMatch "origin/master" = true := by decide
  have hpick : [found].mapM ((Choice.matching [.everything]).pick req.env) = .ok [found] := by
    have hmatches : ∀ name ∈ ["origin/master"],
        BranchSpec.anyMatch [.everything] req.env name = .ok true := by
      intro name hname
      rw [List.mem_singleton.1 hname, BranchSpec.anyMatch, List.anyM, BranchSpec.isMatch_everything,
        hmatch]
      rfl
    have hkept : (Choice.matching [.everything]).pick req.env found = .ok found := by
      rw [Choice.pick, DefaultStrategy.eligible,
        Choice.filterNames_ofNames (p := fun _ => true) hmatches]
      rfl
    simp [hkept, pure, Except.pure, bind, Except.bind]
  rw [Choice.run_tipsThen hlist, hgroup, hpick, ok_bind]
  rfl

/-- A poll answers with the commit of the branch, unless it was built. -/
theorem poll_tracking {c : CommitId} {ledger : Ledger} {req : Request}
    (hfresh : ledger.hasBuilt c = false) :
    ((Choice.matching [.everything]).poll req ledger).run (tracking c).answers =
      .ok [.ofNames c ["origin/master"]] := by
  let found : Revision := .ofNames c ["origin/master"]
  have hcommit : found.commit = c := rfl
  have hfilter : [found].filter (fun r => !ledger.hasBuilt r.commit) = [found] := by
    simp [hcommit, hfresh]
  refine (run_tipsThen_tracking _).trans ?_
  show (sortOldestFirst ([found].filter fun r => !ledger.hasBuilt r.commit)).run _ = _
  rw [hfilter]
  rfl

end MemoryGraph

/-- A request for new commits of all branches. -/
def pollAll : Request := ⟨true, none, [], ⟨2024, 1, 31⟩, 0⟩

/-- The job that builds every branch. -/
def buildAll : BaseStrategy := .default ⟨[.everything], ["origin"]⟩

/-- A wildcard stands for no definite branch. -/
theorem choice?_buildAll : buildAll.choice? pollAll = some (.matching [.everything]) := by
  have hsingle : DefaultStrategy.singleTarget? ⟨[.everything], ["origin"]⟩ pollAll = none := by
    show ((some BranchSpec.everything.name).map fun t => Text.trim (Text.expand [] (Text.trim t))).filter
      (fun name => !name.isEmpty && !DefaultStrategy.isPattern name) = none
    rw [BranchSpec.name_everything, Option.map_some, Text.expand_eq_self (by decide)]
    decide
  rw [buildAll, BaseStrategy.choice?, hsingle]
  rfl

/-- A poll of the example answers with the commit of its branch, unless it was built. -/
theorem run_buildAll_tracking {c : CommitId} {ledger : Ledger} (hfresh : ledger.hasBuilt c = false) :
    (buildAll.select pollAll ledger).run (MemoryGraph.tracking c).answers =
      .ok [.ofNames c ["origin/master"]] := by
  rw [BaseStrategy.run_select_eq_poll _ rfl choice?_buildAll]
  exact MemoryGraph.poll_tracking hfresh

/-- The builds of a branch that is built, moved on and built once more. -/
def masterBuilds : List Build :=
  [⟨.ofNames MemoryGraph.olderCommit ["origin/master"], none, 1, .success⟩,
    ⟨.ofNames MemoryGraph.newerCommit ["origin/master"], none, 2, .success⟩]

open MemoryGraph in
/-- After the second build the branch is reset to the commit of the first one. -/
theorem job_masterBuilds : Job (tracking olderCommit) masterBuilds := by
  have hgrown : (tracking olderCommit).Grown :=
    grown_twoBranches.removeRef "refs/remotes/origin/side"
  have hmove : (tracking olderCommit).setRef "refs/remotes/origin/master" newerCommit =
      .ok (tracking newerCommit) := rfl
  have hreset : (tracking newerCommit).setRef "refs/remotes/origin/master" olderCommit =
      .ok (tracking olderCommit) := rfl
  have hfirst := Job.build 1 .success (.start hgrown) rfl choice?_buildAll
    (run_buildAll_tracking rfl) List.mem_cons_self
  have hsecond := Job.build 2 .success (hfirst.change (.setRef hmove)) rfl choice?_buildAll
    (run_buildAll_tracking (by decide)) List.mem_cons_self
  exact hsecond.change (.setRef hreset)

open MemoryGraph in
/-- After the reset a poll answers with the commit that was built first. -/
theorem poll_rebuilds_after_reset :
    Job (tracking olderCommit) masterBuilds ∧ pollAll.poll = true ∧
      buildAll.choice? pollAll = some (.matching [.everything]) ∧
      (buildAll.select pollAll (Ledger.empty.recordAll masterBuilds)).run
        (tracking olderCommit).answers = .ok [.ofNames olderCommit ["origin/master"]] ∧
      olderCommit ∈ masterBuilds.map (·.revision.commit) :=
  ⟨job_masterBuilds, rfl, choice?_buildAll, run_buildAll_tracking (by decide), by decide⟩

open MemoryGraph in
/-- After the reset a poll finds the tips of which every build is forgotten. -/
theorem mem_poll_iff_forgotten_masterBuilds :
    Job (tracking olderCommit) masterBuilds ∧ pollAll.poll = true ∧
      buildAll.choice? pollAll = some (.matching [.everything]) ∧
      ((∃ rs, (buildAll.select pollAll (Ledger.empty.recordAll masterBuilds)).run
          (tracking olderCommit).answers = .ok rs) ↔
        (Choice.matching [.everything]).Answers pollAll.env (tracking olderCommit).branches) ∧
      ∀ rs, (buildAll.select pollAll (Ledger.empty.recordAll masterBuilds)).run
          (tracking olderCommit).answers = .ok rs →
        ∀ c, c ∈ rs.map (·.commit) ↔
          IsTip (tracking olderCommit).dag (fun c => (Choice.matching [.everything]).eligible
            pollAll.env (tracking olderCommit).branches c) c ∧ Ledger.Forgotten masterBuilds c :=
  ⟨job_masterBuilds, rfl, choice?_buildAll,
    Job.mem_poll_iff_forgotten job_masterBuilds rfl choice?_buildAll⟩

end NextBuild
