import NextBuild.CommandLine.Outcome
import NextBuild.Proofs.Graph.Runs
import NextBuild.Proofs.Store.Transactions

/-!
# Commands that record builds

A command that records a build and exits without a failure has found a ledger in the file of the job
and leaves there this ledger with the build.  The build is of the commit that the command names, under
names of branches: given ones, those that point to the commit, or a label.
-/

namespace NextBuild

open Files (Yields yields_bind yields_pure yields_get_bind yields_liftM not_yields_throw)

variable {fs fs' : Files} {setting : Setting} {repository job : Option String} {w : Workspace}

/-! ## Entering a workspace -/

/-- Finding a checkout changes no files. -/
theorem Checkout.files_of_discover {cs : List Checkout} {directory : String}
    {start : Option String} {c : Checkout} (h : Yields (discover cs directory start) fs c fs') :
    fs' = fs := by
  unfold discover at h
  dsimp only at h
  rw [yields_get_bind] at h
  split at h
  · exact absurd h not_yields_throw
  · exact (yields_pure.1 h).2.symm

/-- Reading a configuration changes no files. -/
theorem Config.files_of_load {root : String} {c : Config} (h : Yields (load root) fs c fs') :
    fs' = fs := by
  unfold load at h
  dsimp only at h
  rw [yields_get_bind] at h
  split at h
  · obtain ⟨text, fs₁, hread, hconfig⟩ := yields_bind.1 h
    rw [(yields_liftM.1 hconfig).2, (Files.yields_read.1 hread).2]
  · exact (yields_pure.1 h).2.symm

/-- Entering a workspace leaves the files as they are. -/
theorem Workspace.files_of_enter (h : Yields (enter setting repository job) fs w fs') :
    fs' = fs := by
  obtain ⟨checkout, fs₁, hdiscover, hconfig⟩ := yields_bind.1 h
  obtain ⟨config, fs₂, hload, hdone⟩ := yields_bind.1 hconfig
  rw [← (yields_pure.1 hdone).2, Config.files_of_load hload, Checkout.files_of_discover hdiscover]

/-- The workspace that a command finds. -/
def Invocation.Enters (i : Invocation) (setting : Setting) (fs : Files) (w : Workspace) : Prop :=
  ((Workspace.enter setting i.repository i.job).run.run fs).1 = .ok w

/-- A command that enters a workspace leaves the files as they are. -/
theorem Invocation.Enters.yields {i : Invocation} (h : i.Enters setting fs w) :
    Yields (Workspace.enter setting i.repository i.job) fs w fs := by
  have hyields := Files.yields_of_fst h
  rwa [Workspace.files_of_enter hyields] at hyields

/-! ## Recording -/

/-- Adding names does not change the commit. -/
theorem Revision.commit_addAll (r : Revision) (names : List String) :
    (r.addAll names).commit = r.commit := by
  induction names generalizing r with
  | nil => rfl
  | cons name names ih => exact (ih (r.add name)).trans (r.commit_add name)

/-- A revision with a name added has branches. -/
theorem Revision.hasBranches_add (r : Revision) (name : String) :
    (r.add name).hasBranches = true := by
  unfold add
  split
  · next hname =>
    obtain ⟨b, hb, -⟩ := List.any_eq_true.1 hname
    simpa [hasBranches] using List.ne_nil_of_mem hb
  · simp [hasBranches]

/-- A label changes no commit, and a labelled revision has a branch. -/
theorem Revision.orLabelled_eq (fallback : Option Revision) (r : Revision) :
    (r.orLabelled fallback).commit = r.commit ∧ (r.orLabelled fallback).hasBranches = true := by
  let lent := if r.hasBranches then r else r.addAll ((fallback.map names).getD [])
  have hlent : lent.commit = r.commit := by
    unfold lent
    split
    · rfl
    · exact r.commit_addAll _
  have horLabelled : r.orLabelled fallback =
      if lent.hasBranches then lent else lent.add detached := rfl
  rw [horLabelled]
  split
  · next hbranches => exact ⟨hlent, hbranches⟩
  · exact ⟨(lent.commit_add detached).trans hlent, lent.hasBranches_add detached⟩

/-- A revision that is named has the commit that the name denotes, and it has a branch. -/
theorem of_namedRevision {g : CommitGraph} {name : String} {branches : List String}
    {fallback : Option Revision} {r : Revision}
    (h : (namedRevision name branches fallback).run g = .ok r) :
    g (.resolve (Text.trim name)) = .ok r.commit ∧ r.hasBranches = true := by
  rw [namedRevision, Inquiry.run_bind, Inquiry.run_query] at h
  obtain ⟨commit, hresolve, hrest⟩ := bind_eq_ok_iff.1 h
  have hgiven (names : List String) : ((Revision.ofCommit commit).addAll names).commit = commit :=
    (Revision.ofCommit commit).commit_addAll names
  rw [hresolve]
  dsimp only at hrest
  split at hrest
  · next hbranches =>
    cases hrest
    rw [hgiven]
    exact ⟨rfl, hbranches⟩
  · rw [Inquiry.run_bind, Inquiry.run_query] at hrest
    obtain ⟨listed, -, hlisted⟩ := bind_eq_ok_iff.1 hrest
    cases hlisted
    obtain ⟨hcommit, hbranches⟩ := Revision.orLabelled_eq fallback
      (((Revision.ofCommit commit).addAll ((branches.map Text.trim).filter (!·.isEmpty))).addAll
        ((listed.filter fun b => b.commit == commit).map (·.name)))
    rw [hcommit, Revision.commit_addAll, hgiven]
    exact ⟨rfl, hbranches⟩

/-- The revisions of a build are named, the one that was built and the one that asked for it. -/
theorem RecordArguments.named_of_build {g : CommitGraph} {a : RecordArguments}
    {result : BuildResult} {b : Build} (h : (a.build result).run g = .ok b) :
    (namedRevision a.revision a.branches b.cause).run g = .ok b.revision ∧
      (a.marked = none → b.cause = none) ∧
      ∀ r, b.cause = some r → ∃ name, (namedRevision name a.branches none).run g = .ok r := by
  unfold build at h
  cases hmarked : a.marked with
  | none =>
    simp only [hmarked, pure_bind] at h
    rw [Inquiry.run_bind] at h
    obtain ⟨built, hbuilt, hdone⟩ := bind_eq_ok_iff.1 h
    cases hdone
    exact ⟨hbuilt, fun _ => rfl, nofun⟩
  | some name =>
    simp only [hmarked, pure_bind] at h
    rw [Inquiry.run_bind] at h
    obtain ⟨asked, hasked, hrest⟩ := bind_eq_ok_iff.1 h
    rw [Inquiry.run_bind] at hrest
    obtain ⟨built, hbuilt, hdone⟩ := bind_eq_ok_iff.1 hrest
    cases hdone
    refine ⟨hbuilt, nofun, fun r hr => ?_⟩
    cases hr
    exact ⟨name, hasked⟩

/-- What has asked for a build has a branch. -/
theorem RecordArguments.hasBranches_of_build {g : CommitGraph} {a : RecordArguments}
    {result : BuildResult} {b : Build} (h : (a.build result).run g = .ok b) :
    b.marked.hasBranches = true := by
  obtain ⟨hbuilt, -, hasked⟩ := named_of_build h
  cases hcause : b.cause with
  | none =>
    rw [Build.marked, hcause, Option.getD_none]
    exact (of_namedRevision hbuilt).2
  | some r =>
    obtain ⟨name, hr⟩ := hasked r hcause
    rw [Build.marked, hcause, Option.getD_some]
    exact (of_namedRevision hr).2

/-- A build that no other revision asked for is of the commit that the operand denotes. -/
theorem RecordArguments.resolve_of_build {g : CommitGraph} {a : RecordArguments}
    {result : BuildResult} {b : Build} (hmarked : a.marked = none)
    (h : (a.build result).run g = .ok b) :
    g (.resolve (Text.trim a.revision)) = .ok b.marked.commit := by
  obtain ⟨hbuilt, hcause, -⟩ := named_of_build h
  rw [Build.marked, hcause hmarked, Option.getD_none]
  exact (of_namedRevision hbuilt).1

/-- A recording is made of the ledger that was in the file, and leaves there this ledger with the
build. -/
theorem RecordArguments.exists_of_run {a : RecordArguments} {r : Recording}
    (h : Yields (a.run setting repository job) fs r fs') :
    ∃ w result l, Yields (Workspace.enter setting repository job) fs w fs ∧
      (a.build result).run w.repository.answers = .ok r.build ∧
      Files.outcome (Store.readLedger (w.store.file w.job)) fs = .ok l ∧
      r.isRebuild = l.isReferenced r.build.revision.commit ∧
      fs'.text? (w.store.file w.job) = some (l.record r.build).text := by
  obtain ⟨w, fs₁, henter, hrun⟩ := yields_bind.1 h
  obtain rfl := Workspace.files_of_enter henter
  obtain ⟨result, fs₂, hresult, hread⟩ := yields_bind.1 hrun
  obtain rfl := (yields_liftM.1 hresult).2
  obtain ⟨b, fs₃, hbuild, hupdate⟩ := yields_bind.1 hread
  obtain ⟨hb, rfl⟩ := yields_liftM.1 hbuild
  obtain ⟨l, l', hledger, hrecord, htext⟩ := Store.exists_change_of_update hupdate
  cases hrecord
  exact ⟨w, result, l, henter, hb, hledger, rfl, Files.text?_eq_some_iff.2 htext⟩

/-- A command that records ends with the result of the recording. -/
theorem Invocation.run_record {i : Invocation} {a : RecordArguments} (hcommand : i.command = .record a)
    (setting : Setting) (input : String) (fs : Files) :
    (i.run setting input).run fs =
      (⟨i.ending (fun r => i.reported r.report r.json)
          ((a.run setting i.repository i.job).run.run fs).1, ""⟩,
        ((a.run setting i.repository i.job).run.run fs).2) := by
  rw [run, hcommand]
  rfl

/-- Failures have exit codes of their own. -/
theorem Failure.exitCode_ne_zero (f : Failure) : f.exitCode ≠ 0 := by
  unfold exitCode
  split <;> decide

/-- A command that exits without a failure has done what it was asked for. -/
theorem Invocation.exists_of_exitCode {α : Type} {i : Invocation} {done : α → Ending}
    {x : Except Failure α} (h : (i.ending done x).exitCode = 0) : ∃ a, x = .ok a := by
  cases x with
  | ok a => exact ⟨a, rfl⟩
  | error f => exact absurd h f.exitCode_ne_zero

/-! ## Command lines -/

/-- A command line is carried out if it can be read. -/
theorem runWords_of_ofWords {words : List String} {i : Invocation}
    (h : Invocation.ofWords setting.env words = .ok i) (input : String) :
    runWords setting words input = i.run setting input := by
  rw [runWords, h]

/-- A command that records a build and exits without a failure reports it, and leaves the ledger that it
has found with the build. -/
theorem exists_recording {words : List String} {input : String} {files files₁ : Files}
    {outcome : Outcome} {i : Invocation} {a : RecordArguments}
    (hwords : Invocation.ofWords setting.env words = .ok i) (hcommand : i.command = .record a)
    (hrun : (runWords setting words input).run files = (outcome, files₁))
    (hexit : outcome.exitCode = 0) :
    ∃ (w : Workspace) (result : BuildResult) (r : Recording) (l : Ledger),
      i.Enters setting files w ∧
      outcome.ending = i.reported r.report r.json ∧
      (a.build result).run w.repository.answers = .ok r.build ∧
      Files.outcome (Store.readLedger (w.store.file w.job)) files = .ok l ∧
      r.isRebuild = l.isReferenced r.build.revision.commit ∧
      files₁.text? (w.store.file w.job) = some (l.record r.build).text := by
  rw [runWords_of_ofWords hwords, Invocation.run_record hcommand] at hrun
  obtain ⟨rfl, rfl⟩ := Prod.mk.inj hrun
  obtain ⟨r, hr⟩ := Invocation.exists_of_exitCode hexit
  obtain ⟨w, result, l, henter, hbuild, hledger, hrebuild, htext⟩ :=
    RecordArguments.exists_of_run (Files.yields_of_fst hr)
  refine ⟨w, result, r, l, congrArg Prod.fst henter, ?_, hbuild, hledger, hrebuild, htext⟩
  dsimp only
  rw [hr]
  rfl

/-- A command that records a build and exits without a failure leaves a ledger whose last build is of
the commit that it named. -/
theorem exists_ledger_of_recorded {words : List String} {input : String} {files files₁ : Files}
    {outcome : Outcome} {i : Invocation} {a : RecordArguments}
    (hwords : Invocation.ofWords setting.env words = .ok i) (hcommand : i.command = .record a)
    (hmarked : a.marked = none)
    (hrun : (runWords setting words input).run files = (outcome, files₁))
    (hexit : outcome.exitCode = 0) :
    ∃ w b l, i.Enters setting files w ∧
      w.repository.resolve (Text.trim a.revision) = .ok b.marked.commit ∧
      files₁.text? (w.store.file w.job) = some (Ledger.record l b).text := by
  obtain ⟨w, result, r, l, henter, -, hbuild, -, -, htext⟩ :=
    exists_recording hwords hcommand hrun hexit
  have hresolve : w.repository.answers (.resolve (Text.trim a.revision)) = .ok r.build.marked.commit :=
    RecordArguments.resolve_of_build hmarked hbuild
  exact ⟨w, r.build, l, henter, hresolve, htext⟩

end NextBuild
