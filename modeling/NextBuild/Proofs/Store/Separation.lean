import NextBuild.Proofs.Store.Transactions

/-!
# Jobs that keep ledgers apart

The name of a job is made safe for names of files, and jobs that become the same name share one file.
So a change for one job is invisible to another one exactly when their keys differ.  Names that are
safe as they are, blanks around them aside, are their own keys and never share a file.
-/

namespace NextBuild.Store

open Files (outcome after PutsOnly IsOpened WayFree lockPath)

variable {α : Type} {s : Store} {job other : String} {fs fs' : Files}

/-- A change that succeeds has found no file above the ledgers. -/
theorem wayFree_of_update {f : Ledger → Except Failure (α × Ledger)} {a : α}
    (h : outcome (s.update job f) fs = .ok a) (other : String) : WayFree fs (s.file other) := by
  rw [update, Files.outcome_bind] at h
  obtain ⟨u, hparents, -⟩ := bind_eq_ok_iff.1 h
  rw [WayFree, ← above_lockPath s job other, above_lockPath s job job]
  exact Files.wayFree_of_makeAll hparents

/-- A change leaves the locks of the ledgers with other keys as they were. -/
theorem get?_lock_of_puts (h : PutsOnly (s.Puts job) fs fs') (hkey : key job ≠ key other) :
    fs'.get? (lockPath (s.file other)) = fs.get? (lockPath (s.file other)) := by
  refine h.get?_eq fun e hput => ?_
  rcases hput with (habove | ⟨-, hps⟩) | ⟨-, hps⟩
  · rw [parts_lockPath s other] at habove
    exact Files.not_isAbove_concat (parts_lockPath s job) habove
  · rw [parts_lockPath, parts_lockPath, List.append_cancel_left_eq, List.singleton_inj] at hps
    exact hkey ((String.append_left_inj _).1 hps).symm
  · exact parts_file_ne_lockPath s job other hps.symm

/-- For other keys a change that succeeds makes no difference to what is loaded. -/
theorem outcome_load_of_update (hkey : key job ≠ key other)
    {f : Ledger → Except Failure (α × Ledger)} {a : α} (hok : outcome (s.update job f) fs = .ok a) :
    outcome (s.load other) (after (s.update job f) fs) = outcome (s.load other) fs := by
  have hputs := within_update s job f fs
  have hway := wayFree_of_update hok other
  rw [outcome_load, outcome_load, outcome_lock hway, outcome_lock (wayFree_of_puts hputs hway),
    isHeld_of_putsOnly hputs, outcome_readLedger, outcome_readLedger, get?_lock_of_puts hputs hkey,
    get?_file_of_puts hputs hkey]

/-- A job whose key is that of another one is loaded with the first build of the other one. -/
theorem load_of_key_eq (hkey : key job = key other) (s : Store) (b : Build) :
    outcome (s.load other) .empty = .ok .empty ∧
      outcome (s.update job (recording b)) .empty = .ok () ∧
      outcome (s.load other) (after (s.update job (recording b)) .empty) = .ok (.record .empty b) := by
  have hfresh : s.Represents [] .empty := .of_isFresh (isFresh_empty s)
  have hok : outcome (s.update job (recording b)) .empty = .ok () := by
    rw [hfresh.outcome_update]
    rfl
  refine ⟨?_, hok, ?_⟩
  · rw [hfresh.outcome_load]
    rfl
  · have hfree : s.isHeld other (after (s.update job (recording b)) .empty) = false := by
      rw [isHeld_of_putsOnly (within_update s job (recording b) .empty)]
      rfl
    rw [(hfresh.update hok).outcome_load, hfree, ledgerOf_concat_of_eq hkey]
    rfl

/-- The name of a job, without blanks around it, may stand in names of files as it is. -/
structure IsSafe (job : String) : Prop where
  safe : ∀ c ∈ Text.trimChars job.toList, isKeyChar c = true
  not_dots : ∃ c ∈ Text.trimChars job.toList, c ≠ '.'

/-- A safe name is its own key. -/
theorem IsSafe.key_eq (h : IsSafe job) : key job = Text.trim job := by
  have hmap : (Text.trimChars job.toList).map (fun c => if isKeyChar c then c else '_') =
      Text.trimChars job.toList := by
    refine (List.map_congr_left fun c hc => ?_).trans (List.map_id' _)
    exact if_pos (h.safe c hc)
  obtain ⟨c, hc, hdot⟩ := h.not_dots
  rw [key, hmap, if_neg]
  · rfl
  · rw [List.all_eq_true]
    intro hall
    exact hdot (beq_iff_eq.1 (hall c hc))

/-- Safe names that differ keep their ledgers apart. -/
theorem IsSafe.key_eq_iff (hjob : IsSafe job) (hother : IsSafe other) :
    key job = key other ↔ Text.trim job = Text.trim other := by
  rw [hjob.key_eq, hother.key_eq]

/-- Changes of a job's ledger that succeed make no difference to what is loaded for another job,
whatever files there are, exactly when the two jobs have different keys. -/
theorem load_unchanged_iff (s : Store) (job other : String) :
    (∀ (α : Type) (f : Ledger → Except Failure (α × Ledger)) (fs : Files) (a : α),
      outcome (s.update job f) fs = .ok a →
      outcome (s.load other) (after (s.update job f) fs) = outcome (s.load other) fs) ↔
    key job ≠ key other := by
  constructor
  · intro h hkey
    obtain ⟨hempty, hok, hrecorded⟩ := load_of_key_eq hkey s mergeBuild
    have hsame := h Unit (recording mergeBuild) .empty () hok
    rw [hempty, hrecorded] at hsame
    cases congrArg Ledger.last (Except.ok.inj hsame)
  · intro hkey α f fs a hok
    exact outcome_load_of_update hkey hok

/-- A slash is written as an underscore in names of files, so these two jobs share a ledger. -/
theorem load_shares_team_app :
    let s : Store := ⟨".git"⟩
    Text.trim "team/app" ≠ Text.trim "team_app" ∧
      outcome (s.update "team/app" (recording mergeBuild)) .empty = .ok () ∧
      outcome (s.load "team_app") (after (s.update "team/app" (recording mergeBuild)) .empty) ≠
        outcome (s.load "team_app") .empty := by
  intro s
  have hkey : key "team/app" = key "team_app" := by decide
  obtain ⟨hempty, hok, hrecorded⟩ := load_of_key_eq hkey s mergeBuild
  refine ⟨by decide, hok, ?_⟩
  rw [hempty, hrecorded]
  intro hsame
  cases congrArg Ledger.last (Except.ok.inj hsame)

end NextBuild.Store
