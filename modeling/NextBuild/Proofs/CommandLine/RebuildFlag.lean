import NextBuild.Proofs.CommandLine.RecordThenPoll

/-!
# What a recording tells of earlier builds

A recording tells whether its commit was built before.  It goes through the builds that are kept for
names and asks what they built, and not what has asked for them; a selection, which tells the same of
its candidate, counts both.  So a recording never tells too much.  It misses an earlier build exactly
when all builds of the commit that are still found are merges that the commit had asked for.
-/

namespace NextBuild

/-- A revision with branches has names. -/
theorem Revision.names_ne_nil {r : Revision} (h : r.hasBranches = true) : r.names ≠ [] := by
  simpa [names, hasBranches] using h

/-- A selection of a single candidate for a build tells whether the ledger has built it. -/
theorem Preparation.isRebuild_of_select {p : Preparation} {agent : Option Agent} {s : Selection}
    {only : Revision} (h : p.select agent = .ok s) (hbuild : p.request.poll = false)
    (honly : s.candidates = [only]) : s.isRebuild = p.ledger.hasBuilt only.commit := by
  unfold select at h
  obtain ⟨candidates, -, hdone⟩ := bind_eq_ok_iff.1 h
  cases hdone
  dsimp only at honly
  rw [honly]
  simp [isRebuild, hbuild]

/-! ## What is reported -/

/-- What a recording tells of the builds before it. -/
structure Recording.TellsOf (r : Recording) (before : List Build) : Prop where
  /-- The latest build for some name built the commit. -/
  isRebuild_iff : r.isRebuild = true ↔
    ∃ name b, Ledger.Latest before name b ∧ b.revision.commit = r.build.revision.commit
  /-- It is warned of just that. -/
  warned_iff : "commit " ++ r.build.revision.commit.text ++ " was already built" ∈ r.report.warnings ↔
    r.isRebuild = true
  /-- Whatever is told to be built before has been built. -/
  hasBuilt : r.isRebuild = true →
    (Ledger.empty.recordAll before).hasBuilt r.build.revision.commit = true
  /-- It is told of each commit that has been built, but for one that has only asked for merges. -/
  agrees_iff : r.isRebuild = (Ledger.empty.recordAll before).hasBuilt r.build.revision.commit ↔
    ∀ name b, Ledger.Latest before name b → b.marked.commit = r.build.revision.commit →
      ∃ other d, Ledger.Latest before other d ∧ d.revision.commit = r.build.revision.commit
  /-- A selection with the same ledger tells of each commit that has been built. -/
  selection : ∀ (p : Preparation) (agent : Option Agent) (s : Selection) (only : Revision),
    p.ledger = Ledger.empty.recordAll before → p.request.poll = false → p.select agent = .ok s →
    s.candidates = [only] → only.commit = r.build.revision.commit →
    s.isRebuild = (Ledger.empty.recordAll before).hasBuilt r.build.revision.commit

/-- A recording that looks for the built commit tells what it should if all builds before are named.
-/
theorem Recording.tellsOf_of_isReferenced {r : Recording} {before : List Build}
    (hnamed : ∀ b ∈ before, b.marked.names ≠ [])
    (h : r.isRebuild = (Ledger.empty.recordAll before).isReferenced r.build.revision.commit) :
    r.TellsOf before := by
  constructor
  case isRebuild_iff => rw [h, Ledger.isReferenced_recordAll_iff]
  case warned_iff =>
    unfold report
    cases r.isRebuild <;> simp
  case hasBuilt =>
    rw [h, Ledger.isReferenced_recordAll_iff, Ledger.hasBuilt_recordAll_iff hnamed]
    rintro ⟨name, b, hb, hbuilt⟩
    exact ⟨name, b, hb, .inl hbuilt⟩
  case agrees_iff => rw [h, Ledger.isReferenced_eq_hasBuilt_iff hnamed]
  case selection =>
    intro p agent s only hledger hbuild hselect honly hcommit
    rw [Preparation.isRebuild_of_select hselect hbuild honly, hledger, hcommit]

/-- Whatever was recorded before by command lines, merges or not, a command that records a build and
exits without a failure tells of an earlier build when the commit is what the latest build for some
name built.  It does not tell of one that was only a merge for the commit, though this counts as built
where a selection is made. -/
theorem tellsOf_recorded {setting : Setting} {words : List String} {input : String}
    {files files₁ : Files} {outcome : Outcome} {i : Invocation} {a : RecordArguments}
    (hwords : Invocation.ofWords setting.env words = .ok i) (hcommand : i.command = .record a)
    (hrun : (runWords setting words input).run files = (outcome, files₁))
    (hexit : outcome.exitCode = 0) :
    ∃ (w : Workspace) (r : Recording) (l : Ledger), i.Enters setting files w ∧
      outcome.ending = i.reported r.report r.json ∧
      w.repository.resolve (Text.trim a.revision) = .ok r.build.revision.commit ∧
      r.build.marked.names ≠ [] ∧
      Files.outcome (Store.readLedger (w.store.file w.job)) files = .ok l ∧
      files₁.text? (w.store.file w.job) = some (l.record r.build).text ∧
      ∀ before, (∀ b ∈ before, b.marked.names ≠ []) → l = Ledger.empty.recordAll before →
        r.TellsOf before := by
  obtain ⟨w, result, r, l, henter, hending, hbuild, hledger, hrebuild, htext⟩ :=
    exists_recording hwords hcommand hrun hexit
  have hresolve : w.repository.answers (.resolve (Text.trim a.revision)) =
      .ok r.build.revision.commit := (of_namedRevision (RecordArguments.named_of_build hbuild).1).1
  refine ⟨w, r, l, henter, hending, hresolve, ?_, hledger, htext, ?_⟩
  · exact Revision.names_ne_nil (RecordArguments.hasBranches_of_build hbuild)
  · rintro before hnamed rfl
    exact Recording.tellsOf_of_isReferenced hnamed hrebuild

/-! ## Recording in the files of a store -/

/-- Where the files hold the ledgers of a store, a command that describes a build records it in the
ledger of the job, if the lock is free. -/
theorem recorded_of_represents {setting : Setting} {words : List String} {files : Files}
    {i : Invocation} {a : RecordArguments} {w : Workspace} {result : BuildResult} {b : Build}
    {log : Store.Log} (hwords : Invocation.ofWords setting.env words = .ok i)
    (hcommand : i.command = .record a) (henter : i.Enters setting files w)
    (hresult : BuildResult.ofText a.result = .ok result)
    (hbuild : (a.build result).run w.repository.answers = .ok b)
    (hrepresents : w.store.Represents log files) (hfree : w.store.isHeld w.job files = false)
    (input : String) :
    ((runWords setting words input).run files).1.ending =
        i.reported (RecordArguments.recordIn w.job b (Store.ledgerOf log w.job)).1.report
          (RecordArguments.recordIn w.job b (Store.ledgerOf log w.job)).1.json ∧
      w.store.Represents (log ++ [(w.job, (·.record b))]) ((runWords setting words input).run files).2 ∧
      w.store.isHeld w.job ((runWords setting words input).run files).2 = false := by
  let change (l : Ledger) : Except Failure (Recording × Ledger) :=
    .ok (RecordArguments.recordIn w.job b l)
  have hrun : (a.run setting i.repository i.job).run.run files =
      (w.store.update w.job change).run.run files := by
    have hentered : (Workspace.enter setting i.repository i.job).run.run files = (.ok w, files) :=
      henter.yields
    rw [RecordArguments.run, Files.run_bind, hentered]
    dsimp only
    rw [Files.run_bind, Files.run_liftM, hresult]
    dsimp only
    rw [Files.run_bind, Files.run_liftM, hbuild]
  have hok : ((w.store.update w.job change).run.run files).1 =
      .ok (RecordArguments.recordIn w.job b (Store.ledgerOf log w.job)).1 := by
    rw [← Files.outcome, hrepresents.outcome_update, hfree]
    rfl
  have hheld := Store.isHeld_of_putsOnly (s := w.store)
    (Store.within_update w.store w.job change files) w.job
  rw [runWords_of_ofWords hwords, Invocation.run_record hcommand, hrun]
  dsimp only
  rw [hok]
  exact ⟨rfl, hrepresents.update hok, hheld.trans hfree⟩

/-! ## A commit that has asked for a merge -/

open MemoryGraph (olderCommit newerCommit)

/-- A repository with a commit that is ahead of its only branch. -/
def Repository.aheadOfMaster : Repository := .ofMaster longMaster.dag olderCommit

/-- The build of the commit ahead, which the tip of the branch has asked for. -/
def mergeForMaster : Build where
  revision := .labelled newerCommit "origin/master"
  cause := some (.labelled olderCommit "origin/master")
  number := 1
  result := .success

/-- The files of a checkout in which nothing has been recorded. -/
def Files.newJob : Files := ⟨Table.empty.insert "job" .directory, []⟩

/-- What comes of recording this build. -/
def recordedMerge : Outcome × Files :=
  (runWords (.ofRepository .aheadOfMaster)
    ["record", newerCommit.text, "--marked", "origin/master", "--build-number", "1"] "").run .newJob

/-- What comes of recording another build afterwards. -/
def recordedAfterMerge (name : String) : Outcome × Files :=
  (runWords (.ofRepository .aheadOfMaster) ["record", name, "--build-number", "2"] "").run
    recordedMerge.2

/-- The directory of a new job represents a history without builds. -/
theorem represents_newJob : (⟨"/job/.git"⟩ : Store).Represents [] .newJob := by
  have hget (path : String) (e : Entry) (h : Files.newJob.get? path = some e) :
      e = .directory ∧ (Path.parts path).length ≤ 1 := by
    unfold Files.get? at h
    split at h
    · next hroot =>
      cases h
      simp [List.isEmpty_iff.1 hroot]
    · rw [Files.newJob, Table.get?_insert] at h
      split at h
      · next hjob =>
        cases h
        have hkey : Path.key path = Path.key "job" := hjob.symm ▸ by decide
        rw [Path.key_eq_iff.1 hkey]
        decide
      · cases h
  refine .of_isFresh (Store.isFresh_of_gitDirectory ?_ ?_)
  · intro path _ text htext
    cases (hget path _ htext).1
  · intro path hbelow _
    by_contra hsome
    obtain ⟨e, he⟩ := Option.ne_none_iff_exists'.1 hsome
    have hlong := hbelow.length_le
    have hshort := (hget path e he).2
    have hgit : (Path.parts "/job/.git").length = 2 := by decide
    rw [hgit] at hlong
    omega

/-- A command that wrote a report has not failed. -/
theorem exitCode_of_reported {o : Outcome} {streams : Streams} (h : o.ending = .reported streams) :
    o.exitCode = 0 := by
  rw [Outcome.exitCode, h]
  rfl

/-- The word for a success is read as one. -/
theorem ofText_success : BuildResult.ofText "success" = .ok .success :=
  eq_ok_of_toOption (by decide +kernel)

/-- The recording leaves a ledger with this build, whose lock is free. -/
theorem recordedMerge_represents : recordedMerge.1.exitCode = 0 ∧
    (⟨"/job/.git"⟩ : Store).Represents [("default", (·.record mergeForMaster))] recordedMerge.2 ∧
    (⟨"/job/.git"⟩ : Store).isHeld "default" recordedMerge.2 = false := by
  have hwords : Invocation.ofWords (Setting.ofRepository .aheadOfMaster).env
      ["record", newerCommit.text, "--marked", "origin/master", "--build-number", "1"] =
      .ok ⟨none, none, ⟨false, false⟩,
        .record ⟨newerCommit.text, 1, "success", [], some "origin/master"⟩⟩ := rfl
  have henter : ((Workspace.enter (.ofRepository .aheadOfMaster) none none).run.run .newJob).1 =
      .ok (.ofRepository .aheadOfMaster) := eq_ok_of_toOption (by decide +kernel)
  have hbuild : ((⟨newerCommit.text, 1, "success", [], some "origin/master"⟩ : RecordArguments).build
      .success).run Repository.aheadOfMaster.answers = .ok mergeForMaster :=
    eq_ok_of_toOption (by decide +kernel)
  obtain ⟨hending, hrepresents, hfree⟩ := recorded_of_represents
    (w := Workspace.ofRepository .aheadOfMaster) hwords rfl henter ofText_success hbuild
    represents_newJob rfl ""
  refine ⟨?_, hrepresents, hfree⟩
  rw [recordedMerge]
  exact exitCode_of_reported hending

/-- The commands of the example find their repository. -/
theorem enters_recordedMerge : ((Workspace.enter (.ofRepository .aheadOfMaster) none none).run.run
    recordedMerge.2).1 = .ok (.ofRepository .aheadOfMaster) := eq_ok_of_toOption (by decide +kernel)

/-- Another build is recorded afterwards. -/
theorem recordedAfterMerge_ending {name : String} {b : Build}
    (hwords : Invocation.ofWords (Setting.ofRepository .aheadOfMaster).env
      ["record", name, "--build-number", "2"] =
      .ok ⟨none, none, ⟨false, false⟩, .record ⟨name, 2, "success", [], none⟩⟩)
    (hbuild : ((⟨name, 2, "success", [], none⟩ : RecordArguments).build .success).run
      Repository.aheadOfMaster.answers = .ok b) :
    (recordedAfterMerge name).1.ending = .reported
      ((RecordArguments.recordIn "default" b (Ledger.empty.record mergeForMaster)).1.report.streams
        ⟨false, false⟩ "record"
        (RecordArguments.recordIn "default" b (Ledger.empty.record mergeForMaster)).1.json) := by
  obtain ⟨-, hrepresents, hfree⟩ := recordedMerge_represents
  exact (recorded_of_represents (w := Workspace.ofRepository .aheadOfMaster) hwords rfl
    enters_recordedMerge ofText_success hbuild hrepresents hfree "").1

/-- The commit that asked for the merge counts as built, but recording a build of it does not tell so. -/
theorem recording_untold_after_merge :
    recordedMerge.1.exitCode = 0 ∧ (recordedAfterMerge "origin/master").1.exitCode = 0 ∧
      ∃ (r : Recording) (l : Ledger),
        Files.outcome (Store.readLedger "/job/.git/revsel/history/default.json") recordedMerge.2 =
            .ok l ∧
          (recordedAfterMerge "origin/master").1.ending =
            .reported (r.report.streams ⟨false, false⟩ "record" r.json) ∧
          r.build.revision.commit = olderCommit ∧ l.hasBuilt olderCommit = true ∧
          r.isRebuild = false ∧ r.report.warnings = [] := by
  obtain ⟨hexit, hrepresents, -⟩ := recordedMerge_represents
  have hwords : Invocation.ofWords (Setting.ofRepository .aheadOfMaster).env
      ["record", "origin/master", "--build-number", "2"] =
      .ok ⟨none, none, ⟨false, false⟩, .record ⟨"origin/master", 2, "success", [], none⟩⟩ := rfl
  have hending := recordedAfterMerge_ending hwords
    (b := ⟨.labelled olderCommit "origin/master", none, 2, .success⟩)
    (eq_ok_of_toOption (by decide +kernel))
  exact ⟨hexit, exitCode_of_reported hending, _, _, hrepresents.ledger "default", hending, rfl,
    by decide, by decide, by decide⟩

/-- Recording a build of the merge again tells that it was built. -/
theorem recording_told_after_merge :
    (recordedAfterMerge newerCommit.text).1.exitCode = 0 ∧ ∃ r : Recording,
      (recordedAfterMerge newerCommit.text).1.ending =
          .reported (r.report.streams ⟨false, false⟩ "record" r.json) ∧
        r.TellsOf [mergeForMaster] ∧ r.build.revision.commit = newerCommit ∧ r.isRebuild = true := by
  have hwords : Invocation.ofWords (Setting.ofRepository .aheadOfMaster).env
      ["record", newerCommit.text, "--build-number", "2"] =
      .ok ⟨none, none, ⟨false, false⟩, .record ⟨newerCommit.text, 2, "success", [], none⟩⟩ := rfl
  have hending := recordedAfterMerge_ending hwords
    (b := ⟨.labelled newerCommit "detached", none, 2, .success⟩)
    (eq_ok_of_toOption (by decide +kernel))
  have hexit := exitCode_of_reported hending
  have hrun : (runWords (.ofRepository .aheadOfMaster)
      ["record", newerCommit.text, "--build-number", "2"] "").run recordedMerge.2 =
      ((recordedAfterMerge newerCommit.text).1, (recordedAfterMerge newerCommit.text).2) :=
    (Prod.eta (recordedAfterMerge newerCommit.text)).symm
  have hresolve : Repository.aheadOfMaster.resolve (Text.trim newerCommit.text) = .ok newerCommit :=
    eq_ok_of_toOption (by decide +kernel)
  obtain ⟨w, r, l, henter, hreport, hcommit, -, hledger, -, htells⟩ :=
    tellsOf_recorded hwords rfl hrun hexit
  obtain rfl : w = .ofRepository .aheadOfMaster :=
    Except.ok.inj (henter.symm.trans enters_recordedMerge)
  have hbuilt : r.build.revision.commit = newerCommit := Except.ok.inj (hcommit.symm.trans hresolve)
  obtain ⟨-, hrepresents, -⟩ := recordedMerge_represents
  have hl : l = Ledger.empty.recordAll [mergeForMaster] :=
    Except.ok.inj (hledger.symm.trans (hrepresents.ledger "default"))
  have htold := htells [mergeForMaster] (by decide) hl
  refine ⟨hexit, r, hreport, htold, hbuilt, htold.isRebuild_iff.2 ?_⟩
  refine ⟨"origin/master", mergeForMaster, ⟨[], [], rfl, by decide, nofun⟩, ?_⟩
  rw [hbuilt]
  rfl

end NextBuild
