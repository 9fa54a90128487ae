import NextBuild.Proofs.Selection.Listing
import NextBuild.Proofs.Selection.Rebuilds

/-!
# Repeating the last build

A build that is asked for when all tips were built repeats the last build.  Its commit is that of the
revision that was built, for a merge the merged one.  If this commit is a tip, it has the names that
are eligible now, as its revision was met when the built tips were taken out; otherwise it keeps the
recorded ones.  Specs that match names put these into their order, and specs that exclude names do
not; without any tip, these repeat nothing.
-/

namespace NextBuild

/-! ## The revision to build again -/

/-- Where all revisions were built, none is left, and the last build may be taken over by one. -/
theorem dropBuilt_of_hasBuilt {ledger : Ledger} {rs : List Revision}
    (h : ∀ r ∈ rs, ledger.hasBuilt r.commit = true) :
    dropBuilt ledger rs = ([], ledger.lastRevision?.map (takeOver rs)) := by
  have hfresh : rs.filter (fun r => !ledger.hasBuilt r.commit) = [] := by
    rw [List.filter_eq_nil_iff]
    intro r hr
    simp [h r hr]
  have hbuilt : rs.filter (fun r => ledger.hasBuilt r.commit) = rs := List.filter_eq_self.2 h
  rw [dropBuilt, hfresh, hbuilt]
  rfl

namespace MemoryGraph

variable {g : MemoryGraph} {req : Request} {ledger : Ledger} {ch : Choice} {s : BaseStrategy}
  {rs newest : List Revision}

/-- The commit is a tip among those with a name that is eligible for a choice. -/
def IsTipOf (g : MemoryGraph) (env : Text.Environment) (ch : Choice) (c : CommitId) : Prop :=
  IsTip g.dag (fun c => ch.eligible env g.branches c) c

open Classical in
/-- A revision with the names that are eligible now if its commit is a tip. -/
noncomputable def present (g : MemoryGraph) (env : Text.Environment) (ch : Choice)
    (last : Revision) : Revision :=
  if g.IsTipOf env ch last.commit then
    .ofNames last.commit (ch.eligible env g.branches last.commit)
  else last

/-- The tips of a choice are met under their eligible names, and they were all built. -/
structure MeetsBuiltTips (g : MemoryGraph) (env : Text.Environment) (ledger : Ledger) (ch : Choice)
    (newest : List Revision) : Prop where
  mem_iff : ∀ r, r ∈ newest ↔
    r = ch.revision env g.branches r.commit ∧ g.IsTipOf env ch r.commit
  built : ∀ c, g.IsTipOf env ch c → ledger.hasBuilt c = true

/-- Nothing is left of tips that are all built, and the last build is repeated. -/
theorem MeetsBuiltTips.dropBuilt_eq (h : g.MeetsBuiltTips req.env ledger ch newest) :
    dropBuilt ledger newest = ([], ledger.lastRevision?.map (g.present req.env ch)) := by
  have htaken : takeOver newest = g.present req.env ch := by
    funext last
    unfold present
    rcases takeOver_cases newest last with ⟨hmem, hcommit⟩ | ⟨heq, hnone⟩
    · obtain ⟨hlive, htip⟩ := (h.mem_iff _).1 hmem
      rw [hcommit] at hlive htip
      rw [if_pos htip, hlive]
      rfl
    · rw [heq, if_neg]
      intro htip
      exact hnone _ ((h.mem_iff (ch.revision req.env g.branches last.commit)).2 ⟨rfl, htip⟩) rfl
  rw [dropBuilt_of_hasBuilt fun r hr => h.built _ ((h.mem_iff r).1 hr).2, htaken]

/-- So the selection is closed with what is repeated. -/
theorem MeetsBuiltTips.closing_eq (h : g.MeetsBuiltTips req.env ledger ch newest)
    (repeated : Option Revision → Inquiry (List Revision)) :
    closing ledger repeated newest = repeated (ledger.lastRevision?.map (g.present req.env ch)) := by
  rw [closing, h.dropBuilt_eq]

/-- The last build is presented at its commit. -/
theorem commit_present (g : MemoryGraph) (env : Text.Environment) (ch : Choice) (last : Revision) :
    (g.present env ch last).commit = last.commit := by
  unfold present
  split
  · rfl
  · rfl

/-- Names that specs match are built again in the order of these. -/
theorem MeetsBuiltTips.run_finish_matching {specs : List BranchSpec} {a : CommitGraph}
    (h : g.MeetsBuiltTips req.env ledger (.matching specs) newest) (hbuild : req.poll = false)
    (hrun : ((Choice.matching specs).finish req ledger newest).run a = .ok rs) :
    (ledger.lastRevision? = none → rs = []) ∧
      ∀ last, ledger.lastRevision? = some last → ∃ branches,
        SortedBy (fun b => BranchSpec.firstMatch specs req.env b.name)
          (g.present req.env (.matching specs) last).branches branches ∧
        rs = [⟨last.commit, branches⟩] := by
  rw [Choice.finish, h.closing_eq, Choice.repeated] at hrun
  unfold DefaultStrategy.repeated at hrun
  rw [hbuild, if_neg Bool.false_ne_true] at hrun
  cases hlast : ledger.lastRevision? with
  | none =>
    rw [hlast] at hrun
    cases hrun
    exact ⟨fun _ => rfl, fun last h => absurd h (Option.some_ne_none last).symm⟩
  | some last =>
    refine ⟨fun h => absurd h (Option.some_ne_none last), fun other hother => ?_⟩
    cases hother
    rw [hlast, Option.map_some] at hrun
    dsimp only at hrun
    rcases hsort : (g.present req.env (.matching specs) last).sortBranches specs req.env
      with ⟨_ | f, sorted⟩
    · rw [hsort] at hrun
      cases hrun
      obtain ⟨hcommit, hsorted⟩ := Revision.sortedBy_sortBranches hsort
      rw [commit_present] at hcommit
      exact ⟨sorted.branches, hsorted, by rw [← hcommit]⟩
    · rw [hsort] at hrun
      cases hrun

/-- Names that no spec matches are built again as they are, if there is a tip. -/
theorem MeetsBuiltTips.run_finish_outside {excluded : List BranchSpec} {a : CommitGraph}
    (h : g.MeetsBuiltTips req.env ledger (.outside excluded) newest) (hbuild : req.poll = false)
    (hrun : ((Choice.outside excluded).finish req ledger newest).run a = .ok rs) :
    (ledger.lastRevision? = none ∨ (∀ c, ¬ g.IsTipOf req.env (.outside excluded) c) → rs = []) ∧
      ∀ last, ledger.lastRevision? = some last → (∃ c, g.IsTipOf req.env (.outside excluded) c) →
        rs = [g.present req.env (.outside excluded) last] := by
  unfold Choice.finish at hrun
  cases newest with
  | nil =>
    cases hrun
    refine ⟨fun _ => rfl, fun last _ htip => ?_⟩
    obtain ⟨c, hc⟩ := htip
    exact absurd ((h.mem_iff (Choice.revision req.env g.branches _ c)).2 ⟨rfl, hc⟩) List.not_mem_nil
  | cons r newest =>
    have htip := ((h.mem_iff r).1 List.mem_cons_self).2
    dsimp only at hrun
    rw [if_neg (by simp), h.closing_eq, Choice.repeated, hbuild, if_neg Bool.false_ne_true,
      Inquiry.run_pure] at hrun
    cases hrun
    refine ⟨fun hnone => ?_, fun last hlast _ => ?_⟩
    · rcases hnone with hnone | hnone
      · rw [hnone]
        rfl
      · exact absurd htip (hnone r.commit)
    · rw [hlast]
      rfl

/-- A selection over the listed branches of a graph that was built up starts from its tips. -/
theorem Grown.exists_newest (hg : g.Grown) (hchoice : s.choice? req = some ch)
    (hbuilt : ∀ c, g.IsTipOf req.env ch c → ledger.hasBuilt c = true)
    (hrun : (s.select req ledger).run g.answers = .ok rs) :
    ∃ newest, g.MeetsBuiltTips req.env ledger ch newest ∧
      (ch.finish req ledger newest).run g.answers = .ok rs := by
  rw [BaseStrategy.select_eq_tipsThen hchoice] at hrun
  have hanswers : ch.Answers req.env g.branches := by
    rw [ch.run_tipsThen (g := g.answers) rfl] at hrun
    obtain ⟨picked, hpicked, -⟩ := bind_eq_ok_iff.1 hrun
    exact Choice.answers_of_mapM_pick hpicked
  rw [hg.run_tipsThen hanswers] at hrun
  exact ⟨_, ⟨fun r => hg.mem_maximalRevisions_iff, hbuilt⟩, hrun⟩

/-- A build that is asked for when every tip of the choice was built repeats the last build: with the
eligible names of its commit if this is a tip, and with the recorded names if not.  The names come in
the order of the specs that match them, or as they are if the specs exclude names; without a tip,
these give nothing. -/
theorem Grown.repeats_lastBuild (hg : g.Grown) (hbuild : req.poll = false)
    (hchoice : s.choice? req = some ch)
    (hbuilt : ∀ c, g.IsTipOf req.env ch c → ledger.hasBuilt c = true)
    (hrun : (s.select req ledger).run g.answers = .ok rs) :
    (ledger.last = none → rs = []) ∧
    (∀ specs, ch = .matching specs → ∀ b, ledger.last = some b → ∃ branches,
      SortedBy (fun branch => BranchSpec.firstMatch specs req.env branch.name)
        (g.present req.env ch b.revision).branches branches ∧
      rs = [⟨b.revision.commit, branches⟩]) ∧
    ∀ excluded, ch = .outside excluded →
      ((∀ c, ¬ g.IsTipOf req.env ch c) → rs = []) ∧
      ∀ b, ledger.last = some b → (∃ c, g.IsTipOf req.env ch c) →
        rs = [g.present req.env ch b.revision] := by
  obtain ⟨newest, hnewest, hfinish⟩ := hg.exists_newest hchoice hbuilt hrun
  have hnone (h : ledger.last = none) : ledger.lastRevision? = none := by
    rw [Ledger.lastRevision?, h, Option.map_none]
  have hsome {b : Build} (h : ledger.last = some b) : ledger.lastRevision? = some b.revision := by
    rw [Ledger.lastRevision?, h, Option.map_some]
  cases ch with
  | matching specs =>
    obtain ⟨hempty, hlast⟩ := hnewest.run_finish_matching hbuild hfinish
    refine ⟨fun h => hempty (hnone h), fun specs' hspecs b hb => ?_, nofun⟩
    cases hspecs
    exact hlast b.revision (hsome hb)
  | outside excluded =>
    obtain ⟨hempty, hlast⟩ := hnewest.run_finish_outside hbuild hfinish
    refine ⟨fun h => hempty (.inl (hnone h)), nofun, fun excluded' hexcluded => ?_⟩
    cases hexcluded
    exact ⟨fun h => hempty (.inr h), fun b hb => hlast b.revision (hsome hb)⟩

/-- A commit that was built under a name that is gone is built again under the one that it has. -/
theorem repeats_lastBuild_tracking :
    let g := tracking newerCommit
    let request : Request := { pollAll with poll := false }
    let ledger := Ledger.empty.record ⟨.ofNames newerCommit ["origin/side"], none, 1, .success⟩
    let ch := Choice.matching [.everything]
    (buildAll.select request ledger).run g.answers = .ok [.ofNames newerCommit ["origin/master"]] ∧
      ∃ branches, SortedBy (fun b => BranchSpec.firstMatch [.everything] request.env b.name)
          (g.present request.env ch (.ofNames newerCommit ["origin/side"])).branches branches ∧
        [Revision.ofNames newerCommit ["origin/master"]] = [⟨newerCommit, branches⟩] := by
  intro g request ledger ch
  have hmove : (tracking olderCommit).setRef "refs/remotes/origin/master" newerCommit = .ok g := rfl
  have hg : g.Grown := .setRef job_masterBuilds.grown hmove
  have hchoice : buildAll.choice? request = some ch := choice?_buildAll
  have hbuilt : ∀ c, g.IsTipOf request.env ch c → ledger.hasBuilt c = true := by
    intro c hc
    obtain ⟨name, hname⟩ := List.exists_mem_of_ne_nil _ hc.1
    have hlisted := mem_namesAt.1 (Choice.mem_namesAt_of_mem_eligible hname)
    rw [branches_tracking, List.mem_singleton] at hlisted
    cases hlisted
    decide
  let found : Revision := .ofNames newerCommit ["origin/master"]
  have hsorted : found.sortBranches [.everything] request.env = (none, found) := by
    have hmatch : (BranchSpec.wildcardPattern "**").isMatch "origin/master" = true := by decide
    have hmatches : BranchSpec.everything.isMatch request.env "origin/master" = .ok true :=
      (BranchSpec.isMatch_everything _ _).trans (congrArg _ hmatch)
    simp [Revision.sortBranches, Revision.rankedBranches, BranchSpec.rank, found, Revision.ofNames,
      hmatches, pure, Except.pure, bind, Except.bind]
  have hrun : (buildAll.select request ledger).run g.answers =
      .ok [.ofNames newerCommit ["origin/master"]] := by
    rw [BaseStrategy.select_eq_tipsThen hchoice, run_tipsThen_tracking]
    show (DefaultStrategy.repeated request [.everything] (some found)).run g.answers = _
    rw [DefaultStrategy.repeated, if_neg Bool.false_ne_true, hsorted]
    rfl
  obtain ⟨-, hmatching, -⟩ := hg.repeats_lastBuild rfl hchoice hbuilt hrun
  have hlast : ledger.last = some ⟨.ofNames newerCommit ["origin/side"], none, 1, .success⟩ := rfl
  have hrepeated := hmatching [.everything] rfl _ hlast
  exact ⟨hrun, hrepeated⟩

end MemoryGraph

end NextBuild
