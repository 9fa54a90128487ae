import NextBuild.Proofs.CommandLine.Recording
import NextBuild.Proofs.Selection.FreshPolls
import NextBuild.Proofs.Selection.Queue

/-!
# A recorded commit is not polled

A command that records a build leaves a ledger in the file of the job whose last build is this one.  A
later command finds that ledger, whatever has become of the repository, of the configuration and of
the variables, as long as the text of the file is the same.  With such a ledger no poll of any strategy
answers with the commit of the build, and it does not matter who answers the questions.
-/

namespace NextBuild

open Files (Yields yields_bind yields_pure yields_liftM)

variable {fs fs' : Files} {setting : Setting} {repository job : Option String} {w : Workspace}

/-! ## Polling -/

/-- The selection that a command makes. -/
def SelectArguments.selection (a : SelectArguments) (setting : Setting)
    (repository job : Option String) : FileAction Selection := do
  (← a.prepare setting repository job).select (a.agent.map setting.agent)

/-- A command that selects ends with the result of its selection. -/
theorem Invocation.ending_select {i : Invocation} {a : SelectArguments}
    (hcommand : i.command = .select a) (setting : Setting) (input : String) (fs : Files) :
    ((i.run setting input).run fs).1.ending =
      i.ending (fun s => i.reported s.report s.json)
        ((a.selection setting i.repository i.job).run.run fs).1 := by
  have hrun : i.run setting input = i.runSelect a setting := by rw [run, hcommand]
  rw [hrun, runSelect, SelectArguments.selection, Files.run_bind, StateT.run_bind]
  rcases (a.prepare setting i.repository i.job).run.run fs with ⟨x, fs₁⟩
  cases x with
  | error f => rfl
  | ok p =>
    dsimp only
    rw [Files.run_liftM]
    rfl

/-- A selection that is prepared has the strategy of its options, the variables and the ledger of the
job. -/
theorem SelectArguments.yields_prepareIn {a : SelectArguments} {p : Preparation} :
    Yields (a.prepareIn setting w) fs p fs' ↔ ∃ options strategy env l,
      a.options w.config = .ok options ∧ Strategy.ofOptions options = .ok strategy ∧
        a.environment setting.env = .ok env ∧ Yields (w.store.load w.job) fs l fs' ∧
        p = ⟨w, strategy, ⟨a.poll, options.target, env, setting.today, setting.offset⟩, l⟩ := by
  simp only [prepareIn, yields_bind, yields_liftM, yields_pure]
  constructor
  · rintro ⟨options, _, ⟨hoptions, rfl⟩, strategy, _, ⟨hstrategy, rfl⟩, env, _, ⟨henv, rfl⟩, l, _,
      hload, rfl, rfl⟩
    exact ⟨options, strategy, env, l, hoptions, hstrategy, henv, hload, rfl⟩
  · rintro ⟨options, strategy, env, l, hoptions, hstrategy, henv, hload, rfl⟩
    exact ⟨options, _, ⟨hoptions, rfl⟩, strategy, _, ⟨hstrategy, rfl⟩, env, _, ⟨henv, rfl⟩, l, _,
      hload, rfl, rfl⟩

/-- The candidates of a poll do not include the commit of the last build in the file of the job. -/
theorem SelectArguments.notMem_of_selection {a : SelectArguments} {s : Selection} {l : Ledger}
    {b : Build} (hpoll : a.poll = true) (henter : Yields (Workspace.enter setting repository job) fs w fs)
    (htext : fs.text? (w.store.file w.job) = some l.text) (hlast : l.last = some b)
    (h : Yields (a.selection setting repository job) fs s fs') :
    b.marked.commit ∉ s.candidates.map (·.commit) := by
  obtain ⟨p, fs₁, hprepare, hselect⟩ := yields_bind.1 h
  obtain ⟨w', fs₂, henter', hin⟩ := yields_bind.1 hprepare
  have hw : w' = w ∧ fs₂ = fs := by
    rw [Yields, henter] at henter'
    cases henter'
    exact ⟨rfl, rfl⟩
  obtain ⟨rfl, rfl⟩ := hw
  obtain ⟨options, strategy, env, found, -, -, -, hload, rfl⟩ := yields_prepareIn.1 hin
  obtain rfl := Store.eq_of_load hload htext
  have hensures : (strategy.select ⟨a.poll, options.target, env, setting.today, setting.offset⟩
      found).Ensures fun rs => ∀ r ∈ rs, r.commit ≠ b.marked.commit :=
    strategy.ensures_poll_ne hpoll hlast
  have hmade := (yields_liftM.1 hselect).1
  unfold Preparation.select at hmade
  obtain ⟨candidates, hcandidates, hdone⟩ := bind_eq_ok_iff.1 hmade
  -- It does not matter whether an agent or the repository answers.
  have hne : ∀ r ∈ candidates, r.commit ≠ b.marked.commit := by
    unfold Preparation.candidates at hcandidates
    split at hcandidates
    · exact hensures.peer hcandidates
    · exact hensures.run hcandidates
  cases hdone
  intro hmem
  obtain ⟨r, hr, heq⟩ := List.mem_map.1 hmem
  exact hne r hr heq

/-- A commit that was recorded is not polled.  When a command that records a build of a commit exits
without a failure, no later command lists this commit when it polls with the ledger of the job: its
setting, which has the repository, its words and its other files are any, only the text of the ledger's
file is the one that the first command left. -/
theorem poll_omits_recorded {words : List String} {input : String} {files files₁ : Files}
    {outcome : Outcome} {i : Invocation} {a : RecordArguments}
    (hwords : Invocation.ofWords setting.env words = .ok i) (hcommand : i.command = .record a)
    (hmarked : a.marked = none)
    (hrun : (runWords setting words input).run files = (outcome, files₁))
    (hexit : outcome.exitCode = 0) :
    ∃ w c, i.Enters setting files w ∧
      w.repository.resolve (Text.trim a.revision) = .ok c ∧
      ∀ (setting' : Setting) (words' : List String) (input' : String) (files' : Files)
        (i' : Invocation) (a' : SelectArguments) (w' : Workspace),
        Invocation.ofWords setting'.env words' = .ok i' →
        i'.command = .select a' → a'.poll = true →
        i'.Enters setting' files' w' → w'.store.file w'.job = w.store.file w.job →
        files'.text? (w.store.file w.job) = files₁.text? (w.store.file w.job) →
        ∃ made, made = ((a'.selection setting' i'.repository i'.job).run.run files').1 ∧
          ((runWords setting' words' input').run files').1.ending =
            i'.ending (fun s => i'.reported s.report s.json) made ∧
          ∀ s, made = .ok s → c ∉ s.candidates.map (·.commit) := by
  obtain ⟨w, b, l, henter, hresolve, htext⟩ :=
    exists_ledger_of_recorded hwords hcommand hmarked hrun hexit
  refine ⟨w, b.marked.commit, henter, hresolve, ?_⟩
  intro setting' words' input' files' i' a' w' hwords' hcommand' hpoll henter' hfile hsame
  refine ⟨_, rfl, ?_, ?_⟩
  · rw [runWords_of_ofWords hwords']
    exact Invocation.ending_select hcommand' setting' input' files'
  · intro s hs
    have htext' : files'.text? (w'.store.file w'.job) = some (l.record b).text := by
      rw [hfile, hsame, htext]
    exact SelectArguments.notMem_of_selection hpoll henter'.yields htext' rfl
      (Files.yields_of_fst hs)

/-! ## A branch that goes on -/

open MemoryGraph (olderCommit newerCommit)

/-- A repository whose only branch has this tip. -/
def Repository.ofMaster (dag : Dag) (tip : CommitId) : Repository :=
  ⟨dag, Table.empty.insert "refs/remotes/origin/master" (.commit tip), none, false⟩

/-- The branch has a single commit. -/
def Repository.shortMaster : Repository := .ofMaster ⟨[⟨olderCommit, [], 100, 0⟩]⟩ olderCommit

/-- The branch has a further commit. -/
def Repository.longMaster : Repository :=
  .ofMaster ⟨[⟨olderCommit, [], 100, 0⟩, ⟨newerCommit, [olderCommit], 200, 1⟩]⟩ newerCommit

/-- The setting of a checkout of a repository. -/
def Setting.ofRepository (r : Repository) : Setting where
  checkouts := [⟨"/job", "/job/.git", "/job/.git", r⟩]
  workingDirectory := "/job"
  env := []
  today := ⟨2024, 1, 31⟩
  offset := 0
  agent := fun _ => ⟨.speaker "", ""⟩

/-- The workspace of such a checkout without a configuration. -/
def Workspace.ofRepository (r : Repository) : Workspace := ⟨r, {}, ⟨"/job/.git"⟩, "default"⟩

/-- What comes of recording the only commit of the branch. -/
def recordedMaster : Outcome × Files :=
  (runWords (.ofRepository .shortMaster) ["record", "origin/master", "--build-number", "1"] "").run
    ⟨Table.empty.insert "job" .directory, []⟩

/-- The arguments of a poll of the queue. -/
def pollOfMaster : SelectArguments :=
  ⟨true, some "queue", none, [], some "origin/master", none, none, [], [], none⟩

/-- After a build of the first commit the queue answers a poll with the second one. -/
theorem run_select_longMaster (l : Ledger) {b : Build} (hcommit : b.marked.commit = olderCommit) :
    (QueueStrategy.select ⟨some "origin/master"⟩
        ⟨true, some "origin/master", [], ⟨2024, 1, 31⟩, 0⟩ (l.record b)).run
      Repository.longMaster.answers = .ok [.labelled newerCommit "origin/master"] := by
  have htarget : QueueStrategy.logTarget? ⟨some "origin/master"⟩
      ⟨true, some "origin/master", [], ⟨2024, 1, 31⟩, 0⟩ = some "origin/master" :=
    congrArg some (Text.expand_eq_self (by decide))
  have hlog : Repository.longMaster.answers (.log (some "origin/master")) =
      .ok [⟨newerCommit, 200⟩, ⟨olderCommit, 100⟩] := eq_ok_of_toOption (by decide +kernel)
  have hnewest : QueueStrategy.newestFirst [⟨newerCommit, 200⟩, ⟨olderCommit, 100⟩] =
      [⟨newerCommit, 200⟩, ⟨olderCommit, 100⟩] := by
    simp [QueueStrategy.newestFirst, List.mergeSort, QueueStrategy.isNewer]
  have hlast : (l.record b).last = some b := rfl
  rw [QueueStrategy.select, Inquiry.run_bind, Inquiry.run_query, htarget, hlog, ok_bind, hnewest,
    hlast]
  dsimp only
  rw [hcommit]
  rfl

/-- When the only commit of the branch was recorded and the branch has got a further commit, a poll of
the queue lists the further commit and not the recorded one. -/
theorem newer_polled_after_recorded :
    recordedMaster.1.exitCode = 0 ∧ ∃ s : Selection,
      ((runWords (.ofRepository .longMaster)
        ["select", "--poll", "--strategy", "queue", "--target", "origin/master"] "").run
          recordedMaster.2).1.ending = .reported (s.report.streams ⟨false, false⟩ "select" s.json) ∧
      s.candidates.map (·.commit) = [newerCommit] ∧ olderCommit ∉ s.candidates.map (·.commit) := by
  have hwords : Invocation.ofWords (Setting.ofRepository .shortMaster).env
      ["record", "origin/master", "--build-number", "1"] =
      .ok ⟨none, none, ⟨false, false⟩, .record ⟨"origin/master", 1, "success", [], none⟩⟩ := rfl
  have hpoll : Invocation.ofWords (Setting.ofRepository .longMaster).env
      ["select", "--poll", "--strategy", "queue", "--target", "origin/master"] =
      .ok ⟨none, none, ⟨false, false⟩, .select pollOfMaster⟩ := rfl
  have hrun : (runWords (.ofRepository .shortMaster)
      ["record", "origin/master", "--build-number", "1"] "").run
        ⟨Table.empty.insert "job" .directory, []⟩ = (recordedMaster.1, recordedMaster.2) :=
    (Prod.eta recordedMaster).symm
  have hexit : recordedMaster.1.exitCode = 0 := by decide +kernel
  have hshort : ((Workspace.enter (.ofRepository .shortMaster) none none).run.run
      ⟨Table.empty.insert "job" .directory, []⟩).1 = .ok (.ofRepository .shortMaster) :=
    eq_ok_of_toOption (by decide +kernel)
  have hlong : ((Workspace.enter (.ofRepository .longMaster) none none).run.run
      recordedMaster.2).1 = .ok (.ofRepository .longMaster) :=
    eq_ok_of_toOption (by decide +kernel)
  have hlock : ((Files.lock (Files.lockPath
      ((Workspace.ofRepository .longMaster).store.file "default"))).run.run
        recordedMaster.2).1 = .ok () := eq_ok_of_toOption (by decide +kernel)
  have hresolve : Repository.shortMaster.resolve (Text.trim "origin/master") = .ok olderCommit := rfl
  -- The later command is a poll that omits what was recorded.
  obtain ⟨w, c, henter, hcommit, hpolls⟩ := poll_omits_recorded hwords rfl rfl hrun hexit
  obtain rfl : w = .ofRepository .shortMaster := Except.ok.inj (henter.symm.trans hshort)
  obtain rfl : c = olderCommit := Except.ok.inj (hcommit.symm.trans hresolve)
  obtain ⟨made, hmade, hending, homits⟩ := hpolls (.ofRepository .longMaster) _ ""
    recordedMaster.2 _ pollOfMaster (.ofRepository .longMaster) hpoll rfl rfl hlong rfl rfl
  -- It loads the ledger that was stored, and so it succeeds.
  obtain ⟨w, b, l, henter, hcommit, htext⟩ := exists_ledger_of_recorded hwords rfl rfl hrun hexit
  obtain rfl : w = .ofRepository .shortMaster := Except.ok.inj (henter.symm.trans hshort)
  have hbuilt : b.marked.commit = olderCommit := Except.ok.inj (hcommit.symm.trans hresolve)
  obtain ⟨fs', hload⟩ := Store.exists_load htext (Files.yields_of_fst hlock)
  let p : Preparation := ⟨.ofRepository .longMaster, .queue ⟨some "origin/master"⟩,
    ⟨true, some "origin/master", [], ⟨2024, 1, 31⟩, 0⟩, l.record b⟩
  have hprepare : Yields
      (pollOfMaster.prepareIn (.ofRepository .longMaster) (.ofRepository .longMaster))
      recordedMaster.2 p fs' :=
    SelectArguments.yields_prepareIn.2 ⟨_, _, _, _, rfl, rfl, rfl, hload, rfl⟩
  have henters : Yields (Workspace.enter (.ofRepository .longMaster) none none) recordedMaster.2
      (.ofRepository .longMaster) recordedMaster.2 :=
    Invocation.Enters.yields (i := ⟨none, none, ⟨false, false⟩, .select pollOfMaster⟩) hlong
  have hcandidates : p.candidates none = .ok [.labelled newerCommit "origin/master"] :=
    run_select_longMaster l hbuilt
  obtain ⟨s, hselect, hs⟩ : ∃ s, p.select none = .ok s ∧
      s.candidates = [.labelled newerCommit "origin/master"] := by
    rw [Preparation.select, hcandidates]
    exact ⟨_, rfl, rfl⟩
  have hselection : Yields (pollOfMaster.selection (.ofRepository .longMaster) none none)
      recordedMaster.2 s fs' :=
    yields_bind.2 ⟨p, fs', yields_bind.2 ⟨_, _, henters, hprepare⟩, yields_liftM.2 ⟨hselect, rfl⟩⟩
  have hok : made = .ok s := hmade.trans (congrArg Prod.fst hselection)
  rw [hok] at hending
  refine ⟨hexit, s, hending, ?_, homits s hok⟩
  rw [hs]
  rfl

end NextBuild
