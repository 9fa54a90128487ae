import NextBuild.Proofs.Files.Footprints
import NextBuild.Proofs.Store
import NextBuild.Proofs.Store.Places

/-!
# The store is a map of ledgers

Whatever calls a store has answered, each key of a job stands for one ledger: the empty one, changed
by the changes that succeeded, in their order.  Loading gives that ledger and a change is made of it,
if the lock is free.  A change that fails has put at most the file of its lock, so no ledger is
another one afterwards.
-/

namespace NextBuild.Store

open Files (Yields outcome after PutsOnly Within FailsWithin IsAbove IsOpened WayFree lockPath
  yields_iff text?_eq_some_iff get?_of_unlock)

variable {α : Type} {s : Store} {job other : String} {fs fs' : Files}

/-! ## What a change puts -/

/-- A ledger is read off what is at its path. -/
theorem outcome_readLedger (path : String) (fs : Files) :
    outcome (readLedger path) fs = match fs.get? path with
      | none => .ok .empty
      | some (.file text) => Ledger.ofText text
      | some .directory => .error (.io ("no such file: " ++ path)) := by
  rw [readLedger, Files.outcome_get_bind, Files.has]
  cases hentry : fs.get? path with
  | none => rfl
  | some e =>
    rw [Option.isSome_some, if_pos rfl, Files.outcome_bind, Files.read, Files.outcome_get_bind,
      Files.text?, hentry]
    cases e with
    | directory => rfl
    | file text => exact Files.outcome_liftM (Ledger.ofText text) fs

/-- Reading a ledger changes no files. -/
theorem after_readLedger (path : String) (fs : Files) : after (readLedger path) fs = fs := by
  have hread : after (Files.read path) fs = fs := by
    rw [Files.read, Files.after_get_bind]
    cases fs.text? path <;> rfl
  rw [readLedger, Files.after_get_bind]
  split
  · rw [Files.after_bind, hread]
    cases outcome (Files.read path) fs with
    | error f => rfl
    | ok text => exact Files.after_liftM _ fs
  · rfl

/-- Reading a ledger changes nothing. -/
theorem within_readLedger (P : List String → Entry → Prop) (path : String) :
    Within P (readLedger path) := by
  intro fs
  rw [after_readLedger]
  exact .refl P fs

/-- The entry may be put by a change of the job's ledger: by opening the lock, or as the text of the
ledger. -/
def Puts (s : Store) (job : String) (ps : List String) (e : Entry) : Prop :=
  IsOpened (lockPath (s.file job)) ps e ∨ (∃ text, e = .file text) ∧ ps = Path.parts (s.file job)

/-- The directories above a ledger are those above its lock. -/
theorem isOpened_of_isAbove {ps : List String} {e : Entry} (h : IsAbove (s.file job) ps e) :
    IsOpened (lockPath (s.file job)) ps e :=
  .inl ((Files.isAbove_iff (parts_lockPath s job)).2 ((Files.isAbove_iff (parts_file s job)).1 h))

/-- The directories above the file of a job are those above its lock. -/
theorem within_makeParents (s : Store) (job : String) :
    Within (IsOpened (lockPath (s.file job))) (Files.makeParents (s.file job)) :=
  fun fs => (Files.within_makeParents _ fs).mono fun _ _ => isOpened_of_isAbove

/-- Writing the file of a job changes what belongs to the job. -/
theorem within_write (s : Store) (job text : String) :
    Within (s.Puts job) (Files.write (s.file job) text) := by
  intro fs
  refine (Files.within_write _ _ fs).mono ?_
  rintro ps e (habove | ⟨rfl, hps⟩)
  · exact .inl (isOpened_of_isAbove habove)
  · exact .inr ⟨⟨_, rfl⟩, hps⟩

/-- Loading a job changes nothing but its lock. -/
theorem within_load (s : Store) (job : String) :
    Within (IsOpened (lockPath (s.file job))) (s.load job) :=
  Files.within_withLock (fun _ _ => id) (within_readLedger _ _)

/-- Whatever its outcome, a change touches the file of its lock and its own ledger. -/
theorem within_update (s : Store) (job : String) (f : Ledger → Except Failure (α × Ledger)) :
    Within (s.Puts job) (s.update job f) := by
  refine Within.bind (fun fs => (within_makeParents s job fs).mono fun _ _ => .inl) fun _ => ?_
  refine Files.within_withLock (fun _ _ => .inl) ?_
  refine (within_readLedger _ _).bind fun l => (Files.within_liftM _ _).bind fun al => ?_
  exact (within_write s job _).bind fun _ => Files.within_pure _ _

/-- A change that fails touches nothing but the file of its lock. -/
theorem failsWithin_update (s : Store) (job : String) (f : Ledger → Except Failure (α × Ledger)) :
    FailsWithin (IsOpened (lockPath (s.file job))) (s.update job f) := by
  refine FailsWithin.bind (within_makeParents s job) fun _ => ?_
  refine Files.failsWithin_withLock (fun _ _ => id) ?_
  refine FailsWithin.bind (within_readLedger _ _) fun l => ?_
  refine FailsWithin.bind (Files.within_liftM _ _) fun al => FailsWithin.bind_pure ?_ fun _ => al.1
  -- The ledger is written last, and writing that fails has put no text.
  intro fs d hfail
  exact (Files.failsWithin_write _ _ fs d hfail).mono fun _ _ => isOpened_of_isAbove

/-! ## What is left alone -/

/-- A directory above a ledger is not where ledgers and locks are. -/
theorem parts_length_of_mem_above {d : String} (h : d ∈ Path.above (s.file job)) :
    (Path.parts d).length < (Path.parts s.directory).length + 1 := by
  have hlt := (Path.parts_of_mem_above h).2
  rwa [parts_file, List.length_append, List.length_singleton] at hlt

/-- Directories are put only above ledgers. -/
theorem not_puts_lock_directory : ¬ s.Puts job (Path.parts (lockPath (s.file other))) .directory := by
  rw [parts_lockPath s other]
  rintro ((habove | ⟨h, -⟩) | ⟨⟨_, h⟩, -⟩)
  · exact Files.not_isAbove_concat (parts_lockPath s job) habove
  · cases h
  · cases h

/-- No file is put above a ledger. -/
theorem not_puts_above {d text : String} (hd : d ∈ Path.above (s.file other)) :
    ¬ s.Puts job (Path.parts d) (.file text) := by
  have hlt := parts_length_of_mem_above hd
  rintro ((⟨h, -⟩ | ⟨-, hps⟩) | ⟨-, hps⟩)
  · cases h
  · simp [hps, parts_lockPath] at hlt
  · simp [hps, parts_file] at hlt

/-- Opening a lock puts nothing under the name of a ledger. -/
theorem not_isOpened_json {n : String} {e : Entry} : ¬ IsOpened (lockPath (s.file job))
    (Path.parts s.directory ++ [n ++ ".json"]) e := by
  rintro (habove | ⟨-, hps⟩)
  · exact Files.not_isAbove_concat (parts_lockPath s job) habove
  · rw [parts_lockPath, List.append_cancel_left_eq, List.singleton_inj] at hps
    exact json_ne_lock _ _ hps

/-- The file of a job is no lock and no directory above one. -/
theorem not_isOpened_file {e : Entry} :
    ¬ IsOpened (lockPath (s.file job)) (Path.parts (s.file other)) e := by
  rw [parts_file s other]
  exact not_isOpened_json

/-- What is put for one job is not in the way of another. -/
theorem wayFree_of_puts (h : PutsOnly (s.Puts job) fs fs') (hway : WayFree fs (s.file other)) :
    WayFree fs' (s.file other) :=
  fun d hd text => h.get?_ne (not_puts_above hd) (hway d hd text)

/-- Opening a lock leaves all ledgers as they were. -/
theorem get?_file_of_opened (h : PutsOnly (IsOpened (lockPath (s.file job))) fs fs') (other : String) :
    fs'.get? (s.file other) = fs.get? (s.file other) :=
  h.get?_eq fun _ => not_isOpened_file

/-- A change of a job's ledger leaves the ledgers with other keys as they were. -/
theorem get?_file_of_puts (h : PutsOnly (s.Puts job) fs fs') (hkey : key job ≠ key other) :
    fs'.get? (s.file other) = fs.get? (s.file other) := by
  refine h.get?_eq fun e hput => ?_
  rcases hput with hopened | ⟨-, hps⟩
  · exact not_isOpened_file hopened
  · exact hkey (parts_file_eq_iff.1 hps).symm

/-- The lock of the job's ledger is held. -/
def isHeld (s : Store) (job : String) (fs : Files) : Bool :=
  fs.locked.contains (Path.key (lockPath (s.file job)))

/-- Entries that are put do not change which locks are held. -/
theorem isHeld_of_putsOnly {P : List String → Entry → Prop} (h : PutsOnly P fs fs') (job : String) :
    s.isHeld job fs' = s.isHeld job fs := by
  rw [isHeld, isHeld, h.locked]

/-- The lock of a ledger can be taken unless a directory is in its place or it is held. -/
theorem outcome_lock (hway : WayFree fs (s.file job)) :
    outcome (Files.lock (lockPath (s.file job))) fs =
      if fs.get? (lockPath (s.file job)) = some .directory then
        .error (.io ("a directory: " ++ lockPath (s.file job)))
      else if s.isHeld job fs then .error (.lockFailed (lockPath (s.file job)))
      else .ok () := by
  have hlock : WayFree fs (lockPath (s.file job)) := by
    rwa [WayFree, above_lockPath s job job]
  rw [Files.outcome_lock, Files.outcome_openLock hlock]
  split <;> rfl

/-- Loading takes the lock, which does not touch the ledger. -/
theorem outcome_load (s : Store) (job : String) (fs : Files) :
    outcome (s.load job) fs = outcome (Files.lock (lockPath (s.file job))) fs >>= fun _ =>
      outcome (readLedger (s.file job)) fs := by
  have hsame : (after (Files.lock (lockPath (s.file job))) fs).get? (s.file job) =
      fs.get? (s.file job) := by
    rw [Files.entry_lock]
    exact get?_file_of_opened (Files.within_openLock _ fs) job
  rw [load, Files.outcome_withLock, outcome_readLedger, outcome_readLedger, hsame]

/-- A change that succeeds is made of the ledger that was in the file, and leaves there what it makes of
it. -/
theorem exists_change_of_update {f : Ledger → Except Failure (α × Ledger)} {a : α}
    (h : Yields (s.update job f) fs a fs') : ∃ l l',
      outcome (readLedger (s.file job)) fs = .ok l ∧ f l = .ok (a, l') ∧
        fs'.get? (s.file job) = some (.file l'.text) := by
  obtain ⟨fs₁, fs₂, fs₃, fs₄, l, l', hparents, hlock, hread, hf, hwrite, hunlock⟩ := exists_of_update h
  -- Taking the lock does not touch the ledger.
  have hsame : fs₂.get? (s.file job) = fs.get? (s.file job) := by
    obtain rfl := (yields_iff.1 hparents).2
    obtain rfl := (yields_iff.1 hlock).2
    rw [Files.entry_lock, get?_file_of_opened (Files.within_openLock _ _),
      get?_file_of_opened (within_makeParents s job fs)]
  refine ⟨l, l', ?_, hf, ?_⟩
  · rw [outcome_readLedger, ← hsame, ← outcome_readLedger]
    exact (yields_iff.1 hread).1
  · rw [get?_of_unlock hunlock]
    exact text?_eq_some_iff.1 (Files.text?_of_write hwrite)

/-! ## Runs of a store -/

/-- What is made of a ledger where the change succeeds. -/
def changed (f : Ledger → Except Failure (α × Ledger)) (l : Ledger) : Ledger :=
  match f l with
  | .ok (_, l') => l'
  | .error _ => l

/-- Changes of ledgers, each with the job that it was made for, in their order. -/
abbrev Log := List (String × (Ledger → Ledger))

/-- The ledger of a job after changes of ledgers: those of its key are made one after the other. -/
def ledgerOf (log : Log) (job : String) : Ledger :=
  (log.filter fun c => key c.1 == key job).foldl (fun l c => c.2 l) .empty

/-- Nothing is in the directory of the ledgers, and no file is above them. -/
structure IsFresh (s : Store) (fs : Files) : Prop where
  way : ∀ job, WayFree fs (s.file job)
  empty : ∀ path, Path.parts s.directory <+: Path.parts path →
    Path.parts path ≠ Path.parts s.directory → fs.get? path = none

/-- The store has answered calls from its beginning on, of which these changes succeeded, and has left
these files.  In between others may open and hold any locks. -/
inductive Run (s : Store) : Log → Files → Prop
  | fresh {fs : Files} : s.IsFresh fs → Run s [] fs
  | opened {log : Log} {fs : Files} (job : String) :
      Run s log fs → Run s log (after (Files.openLock (lockPath (s.file job))) fs)
  | held {log : Log} {fs : Files} (locked : List String) :
      Run s log fs → Run s log { fs with locked }
  | load {log : Log} {fs : Files} (job : String) :
      Run s log fs → Run s log (after (s.load job) fs)
  | update {log : Log} {fs : Files} {α : Type} {a : α} (job : String)
      (f : Ledger → Except Failure (α × Ledger)) :
      Run s log fs → outcome (s.update job f) fs = .ok a →
      Run s (log ++ [(job, changed f)]) (after (s.update job f) fs)
  | failed {log : Log} {fs : Files} {α : Type} {d : Failure} (job : String)
      (f : Ledger → Except Failure (α × Ledger)) :
      Run s log fs → outcome (s.update job f) fs = .error d →
      Run s log (after (s.update job f) fs)

/-- The files hold the ledger of every job, and nothing is in the way of a change. -/
structure Represents (s : Store) (log : Log) (fs : Files) : Prop where
  way : ∀ job, WayFree fs (s.file job)
  lock : ∀ job, fs.get? (lockPath (s.file job)) ≠ some .directory
  ledger : ∀ job, outcome (readLedger (s.file job)) fs = .ok (ledgerOf log job)

variable {log : Log}

/-- A change is made of the ledgers with its key. -/
theorem ledgerOf_concat_of_eq {change : Ledger → Ledger} (h : key job = key other) :
    ledgerOf (log ++ [(job, change)]) other = change (ledgerOf log other) := by
  simp [ledgerOf, h]

/-- A change of another job leaves the ledger of this one. -/
theorem ledgerOf_concat_of_ne {change : Ledger → Ledger} (h : key job ≠ key other) :
    ledgerOf (log ++ [(job, change)]) other = ledgerOf log other := by
  simp [ledgerOf, h]

/-- A git directory in which nothing is and above which no file is has a fresh store. -/
theorem isFresh_of_gitDirectory
    (hway : ∀ path, Path.parts path <+: Path.parts s.gitDirectory →
      ∀ text, fs.get? path ≠ some (.file text))
    (hempty : ∀ path, Path.parts s.gitDirectory <+: Path.parts path →
      Path.parts path ≠ Path.parts s.gitDirectory → fs.get? path = none) : s.IsFresh fs := by
  have hbelow : Path.parts s.gitDirectory <+: Path.parts s.directory := by
    rw [parts_directory]
    exact List.prefix_append _ _
  constructor
  · intro job d hd text
    obtain ⟨hlead, -⟩ := Path.parts_of_mem_above hd
    have hlt := parts_length_of_mem_above hd
    have hfile : Path.parts s.gitDirectory <+: Path.parts (s.file job) := by
      rw [parts_file]
      exact hbelow.trans (List.prefix_append _ _)
    rcases List.prefix_or_prefix_of_prefix hlead hfile with hup | hdown
    · exact hway d hup text
    · by_cases hsame : Path.parts d = Path.parts s.gitDirectory
      · exact hway d (hsame ▸ List.prefix_rfl) text
      · simp [hempty d hdown hsame]
  · intro path hlead hne
    refine hempty path (hbelow.trans hlead) fun hsame => hne ?_
    exact (hlead.eq_of_length_le (hsame ▸ hbelow.length_le)).symm

/-- The store is fresh where nothing is at all. -/
theorem isFresh_empty (s : Store) : s.IsFresh .empty := by
  have hget : ∀ path, Files.empty.get? path = if Path.parts path = [] then some .directory else none := by
    intro path
    simp [Files.get?, Files.empty, List.isEmpty_iff]
  refine isFresh_of_gitDirectory (fun path _ text => ?_) fun path hlead hne => ?_
  · rw [hget]
    split <;> simp
  · rw [hget, if_neg]
    intro hroot
    rw [hroot, List.prefix_nil] at hlead
    exact hne (hroot.trans hlead.symm)

/-- A fresh store represents the log without changes. -/
theorem Represents.of_isFresh (h : s.IsFresh fs) : s.Represents [] fs := by
  have hnone : ∀ path n, Path.parts path = Path.parts s.directory ++ [n] → fs.get? path = none := by
    intro path n hparts
    refine h.empty path ?_ ?_
    · rw [hparts]
      exact List.prefix_append _ _
    · rw [hparts]
      simp
  refine ⟨h.way, fun job => ?_, fun job => ?_⟩
  · rw [hnone _ _ (parts_lockPath s job)]
    simp
  · rw [outcome_readLedger, hnone _ _ (parts_file s job)]
    rfl

/-- Locks are not what a ledger is read from. -/
theorem Represents.of_get?_eq (h : s.Represents log fs) (hsame : ∀ path, fs'.get? path = fs.get? path) :
    s.Represents log fs' := by
  refine ⟨fun job d hd text => ?_, fun job => ?_, fun job => ?_⟩
  · rw [hsame]
    exact h.way job d hd text
  · rw [hsame]
    exact h.lock job
  · rw [← h.ledger job, outcome_readLedger, outcome_readLedger, hsame]

/-- Opening a lock does not change what is represented. -/
theorem Represents.of_opened (h : s.Represents log fs)
    (hopened : PutsOnly (IsOpened (lockPath (s.file job))) fs fs') : s.Represents log fs' := by
  have hputs : PutsOnly (s.Puts job) fs fs' := hopened.mono fun _ _ => .inl
  refine ⟨fun other => wayFree_of_puts hputs (h.way other), fun other => ?_, fun other => ?_⟩
  · exact hputs.get?_ne not_puts_lock_directory (h.lock other)
  · rw [← h.ledger other, outcome_readLedger, outcome_readLedger, get?_file_of_opened hopened]

/-- The ledgers are what they were when the lock of one of them is taken for a change. -/
theorem Represents.taken (h : s.Represents log fs) (job : String) : s.Represents log
    (after (Files.lock (lockPath (s.file job))) (after (Files.makeParents (s.file job)) fs)) := by
  have hmade := h.of_opened (within_makeParents s job fs)
  exact (hmade.of_opened (Files.within_openLock (lockPath (s.file job)) _)).of_get?_eq
    (Files.entry_lock _ _)

/-- There is no directory in place of the file of a job. -/
theorem Represents.file_ne_directory (h : s.Represents log fs) (job : String) :
    fs.get? (s.file job) ≠ some .directory := by
  intro hdirectory
  have hledger := h.ledger job
  rw [outcome_readLedger, hdirectory] at hledger
  cases hledger

/-- A lock is taken unless it is held. -/
theorem Represents.outcome_lock (h : s.Represents log fs) (job : String) :
    outcome (Files.lock (lockPath (s.file job))) fs =
      if s.isHeld job fs then .error (.lockFailed (lockPath (s.file job))) else .ok () := by
  rw [Store.outcome_lock (h.way job), if_neg (h.lock job)]

/-- Loading gives the ledger of the job if its lock is free. -/
theorem Represents.outcome_load (h : s.Represents log fs) (job : String) :
    outcome (s.load job) fs =
      if s.isHeld job fs then .error (.lockFailed (lockPath (s.file job)))
      else .ok (ledgerOf log job) := by
  rw [Store.outcome_load, h.outcome_lock, h.ledger]
  split <;> rfl

/-- The ledger of the job is changed if its lock is free and the change succeeds. -/
theorem Represents.outcome_update (h : s.Represents log fs) (job : String)
    (f : Ledger → Except Failure (α × Ledger)) :
    outcome (s.update job f) fs =
      if s.isHeld job fs then .error (.lockFailed (lockPath (s.file job)))
      else (f (ledgerOf log job)).map Prod.fst := by
  have hparents := within_makeParents s job fs
  rw [update, Files.outcome_bind, Files.outcome_makeParents (h.way job), ok_bind,
    Files.outcome_withLock, (h.of_opened hparents).outcome_lock, isHeld_of_putsOnly hparents]
  split
  · rfl
  · have htaken := h.taken job
    rw [ok_bind, Files.outcome_bind, htaken.ledger, ok_bind, after_readLedger, Files.outcome_bind,
      Files.outcome_liftM, Files.after_liftM]
    cases f (ledgerOf log job) with
    | error d => rfl
    | ok al =>
      rw [ok_bind, Files.outcome_bind,
        Files.outcome_write (htaken.way job) (htaken.file_ne_directory job)]
      rfl

/-- A change that succeeds leaves what it makes of the ledger in the file of the job. -/
theorem Represents.exists_of_update (h : s.Represents log fs)
    {f : Ledger → Except Failure (α × Ledger)} {a : α} (hok : outcome (s.update job f) fs = .ok a) :
    ∃ l, f (ledgerOf log job) = .ok (a, l) ∧
      (after (s.update job f) fs).get? (s.file job) = some (.file l.text) := by
  obtain ⟨l, l', hread, hf, htext⟩ := exists_change_of_update (yields_iff.2 ⟨hok, rfl⟩)
  rw [h.ledger job] at hread
  cases hread
  exact ⟨l', hf, htext⟩

/-- A change that succeeds is a change of the ledger of the job. -/
theorem Represents.update (h : s.Represents log fs) {f : Ledger → Except Failure (α × Ledger)} {a : α}
    (hok : outcome (s.update job f) fs = .ok a) :
    s.Represents (log ++ [(job, changed f)]) (after (s.update job f) fs) := by
  have hputs := within_update s job f fs
  refine ⟨fun other => wayFree_of_puts hputs (h.way other), fun other => ?_, fun other => ?_⟩
  · exact hputs.get?_ne not_puts_lock_directory (h.lock other)
  -- The change is seen by all jobs that share the file, whatever their names are.
  by_cases hkey : key job = key other
  · obtain ⟨l, hf, htext⟩ := h.exists_of_update hok
    have hfile : s.file other = s.file job := by
      rw [file, file, hkey]
    have hsame : ledgerOf log other = ledgerOf log job := by
      rw [ledgerOf, ledgerOf, hkey]
    rw [ledgerOf_concat_of_eq hkey, hsame, changed, hf, outcome_readLedger, hfile, htext]
    exact l.ofText_text
  · rw [ledgerOf_concat_of_ne hkey, ← h.ledger other, outcome_readLedger, outcome_readLedger,
      get?_file_of_puts hputs hkey]

/-- Whatever calls a store has answered, its files hold the ledgers that the changes have made. -/
theorem Run.represents (h : Run s log fs) : s.Represents log fs := by
  induction h with
  | fresh hfresh => exact .of_isFresh hfresh
  | opened job _ ih => exact ih.of_opened (Files.within_openLock _ _)
  | held locked _ ih => exact ih.of_get?_eq fun _ => rfl
  | load job _ ih => exact ih.of_opened (within_load s job _)
  | update job f _ hok ih => exact ih.update hok
  | failed job f _ hfail ih => exact ih.of_opened (failsWithin_update s job f _ _ hfail)

/-- A store is a map from keys to ledgers whose changes are made as a whole or not at all: loading
gives the empty ledger after the changes with that key which succeeded, in their order, if the lock
is free; a change is made of this ledger, and its own outcome is that of the call; and from any files
whatever, a change that fails leaves each ledger's file as it was. -/
theorem Run.is_transactional (h : Run s log fs) :
    (∀ job, outcome (s.load job) fs =
      if s.isHeld job fs then .error (.lockFailed (lockPath (s.file job)))
      else .ok (ledgerOf log job)) ∧
    (∀ (α : Type) (job : String) (f : Ledger → Except Failure (α × Ledger)),
      outcome (s.update job f) fs =
        if s.isHeld job fs then .error (.lockFailed (lockPath (s.file job)))
        else (f (ledgerOf log job)).map Prod.fst) ∧
    ∀ (α : Type) (fs₀ : Files) (job : String) (f : Ledger → Except Failure (α × Ledger)) (d : Failure),
      outcome (s.update job f) fs₀ = .error d →
      ∀ other, (after (s.update job f) fs₀).get? (s.file other) = fs₀.get? (s.file other) := by
  refine ⟨h.represents.outcome_load, fun α job f => h.represents.outcome_update job f, ?_⟩
  intro α fs₀ job f d hfail other
  exact get?_file_of_opened (failsWithin_update s job f fs₀ d hfail) other

/-- A change that records a build. -/
def recording (b : Build) (l : Ledger) : Except Failure (Unit × Ledger) := .ok ((), l.record b)

/-- A build of a merge that was made for another commit. -/
def mergeBuild : Build where
  revision := .labelled ⟨"2222222222222222222222222222222222222222", by decide⟩ "origin/master"
  cause := some (.labelled ⟨"1111111111111111111111111111111111111111", by decide⟩ "origin/side")
  number := 7
  result := .unstable

/-- A build was recorded, another change was given up, and the lock of a third job is held. -/
theorem Run.load_after_mergeBuild :
    let s : Store := ⟨".git"⟩
    let abandon (_ : Ledger) : Except Failure (Unit × Ledger) := .error (.operationFailed "abort")
    let recorded := after (s.update "app" (recording mergeBuild)) .empty
    let fs := { after (s.update "app" abandon) recorded with
      locked := [Path.key (lockPath (s.file "lib"))] }
    Run s [("app", changed (recording mergeBuild))] fs ∧
      outcome (s.load "app") fs = .ok (.record .empty mergeBuild) ∧
      outcome (s.load "lib") fs = .error (.lockFailed (lockPath (s.file "lib"))) ∧
      (after (s.update "app" abandon) recorded).get? (s.file "app") = recorded.get? (s.file "app") := by
  intro s abandon recorded fs
  have hfresh : Run s [] .empty := .fresh (isFresh_empty s)
  have hok : outcome (s.update "app" (recording mergeBuild)) .empty = .ok () := by
    rw [hfresh.represents.outcome_update]
    rfl
  have hrecorded : Run s [("app", changed (recording mergeBuild))] recorded :=
    hfresh.update "app" _ hok
  have hnone : s.isHeld "app" recorded = false := by
    rw [isHeld_of_putsOnly (within_update s "app" (recording mergeBuild) .empty)]
    rfl
  have hfail : outcome (s.update "app" abandon) recorded = .error (.operationFailed "abort") := by
    rw [hrecorded.represents.outcome_update, hnone]
    rfl
  have hrun : Run s [("app", changed (recording mergeBuild))] fs := (hrecorded.failed "app" _ hfail).held _
  obtain ⟨hload, -, hkept⟩ := hrun.is_transactional
  refine ⟨hrun, (hload "app").trans ?_, (hload "lib").trans ?_, hkept _ _ _ _ _ hfail _⟩
  · have hfree : s.isHeld "app" fs = false := by decide
    rw [hfree]
    rfl
  · have hheld : s.isHeld "lib" fs = true := by decide
    rw [hheld]
    rfl

end NextBuild.Store
