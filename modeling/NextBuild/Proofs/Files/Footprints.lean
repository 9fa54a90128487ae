import NextBuild.Proofs.Files
import NextBuild.Proofs.Files.Paths
import NextBuild.Proofs.Graph.Runs

/-!
# What file actions leave alone

An action may fail half way, and what it did before stays done.  So here everything is said of the
files that an action leaves whatever its outcome: which entries it may have put where, and that it
holds no lock more or less than before.  Opening the file of a lock puts the directories above it
and, where nothing is, an empty file; it goes wrong only where an entry of the other kind is in the
way.
-/

namespace NextBuild.Files

variable {α β : Type} {fs fs' fs'' : Files} {path : String} {P Q : List String → Entry → Prop}
  {x : FileAction α} {k : α → FileAction β}

/-- The outcome of an action. -/
def outcome (x : FileAction α) (fs : Files) : Except Failure α := (x.run.run fs).1

/-- The files that an action leaves. -/
def after (x : FileAction α) (fs : Files) : Files := (x.run.run fs).2

/-- A success is an outcome with the file system that it leaves. -/
theorem yields_iff {a : α} : Yields x fs a fs' ↔ outcome x fs = .ok a ∧ after x fs = fs' :=
  Prod.ext_iff

/-- The second action has an outcome of its own if the first one succeeds. -/
theorem outcome_bind (x : FileAction α) (k : α → FileAction β) (fs : Files) :
    outcome (x >>= k) fs = outcome x fs >>= fun a => outcome (k a) (after x fs) := by
  unfold outcome after
  rw [run_bind]
  rcases x.run.run fs with ⟨r, fs'⟩
  cases r <;> rfl

/-- The second action changes files if the first one succeeds. -/
theorem after_bind (x : FileAction α) (k : α → FileAction β) (fs : Files) :
    after (x >>= k) fs = match outcome x fs with
      | .ok a => after (k a) (after x fs)
      | .error _ => after x fs := by
  unfold outcome after
  rw [run_bind]
  rcases x.run.run fs with ⟨r, fs'⟩
  cases r <;> rfl

/-- Looking at the file system comes to nothing by itself. -/
theorem outcome_get_bind (k : Files → FileAction β) (fs : Files) :
    outcome (get >>= k) fs = outcome (k fs) fs := rfl

/-- Looking at the file system changes nothing by itself. -/
theorem after_get_bind (k : Files → FileAction β) (fs : Files) :
    after (get >>= k) fs = after (k fs) fs := rfl

/-- A result that needs no files is the outcome. -/
theorem outcome_liftM (r : Except Failure α) (fs : Files) :
    outcome (liftM r : FileAction α) fs = r := by
  rw [outcome, run_liftM]

/-- A result that needs no files leaves them. -/
theorem after_liftM (r : Except Failure α) (fs : Files) :
    after (liftM r : FileAction α) fs = fs := by
  rw [after, run_liftM]

/-! ## Entries that are put -/

/-- Nothing changes but that entries are put where `P` allows them, and the same locks are held. -/
structure PutsOnly (P : List String → Entry → Prop) (fs fs' : Files) : Prop where
  /-- An entry is as it was, or was allowed. -/
  entry : ∀ path, fs'.get? path = fs.get? path ∨
    ∃ e, fs'.get? path = some e ∧ P (Path.parts path) e
  /-- The same locks are held. -/
  locked : fs'.locked = fs.locked

/-- No change is a change within any bounds. -/
theorem PutsOnly.refl (P : List String → Entry → Prop) (fs : Files) : PutsOnly P fs fs :=
  ⟨fun _ => .inl rfl, rfl⟩

/-- Two changes within bounds are one change within them. -/
theorem PutsOnly.trans (h : PutsOnly P fs fs') (h' : PutsOnly P fs' fs'') : PutsOnly P fs fs'' := by
  refine ⟨fun path => ?_, h'.locked.trans h.locked⟩
  rcases h'.entry path with hsame | hput
  · rw [hsame]
    exact h.entry path
  · exact .inr hput

/-- The bounds of a change may be taken wider. -/
theorem PutsOnly.mono (hPQ : ∀ ps e, P ps e → Q ps e) (h : PutsOnly P fs fs') :
    PutsOnly Q fs fs' := by
  refine ⟨fun path => (h.entry path).imp_right ?_, h.locked⟩
  rintro ⟨e, he, hP⟩
  exact ⟨e, he, hPQ _ _ hP⟩

/-- Where no entry is allowed, everything is as it was. -/
theorem PutsOnly.get?_eq (h : PutsOnly P fs fs') (hP : ∀ e, ¬ P (Path.parts path) e) :
    fs'.get? path = fs.get? path :=
  (h.entry path).resolve_right fun ⟨e, _, he⟩ => hP e he

/-- Entries that are never put are not there unless they were. -/
theorem PutsOnly.get?_ne (h : PutsOnly P fs fs') {e : Entry} (hP : ¬ P (Path.parts path) e)
    (hne : fs.get? path ≠ some e) : fs'.get? path ≠ some e := by
  rcases h.entry path with hsame | ⟨d, hd, hPd⟩
  · rwa [hsame]
  · rw [hd]
    intro heq
    exact hP (Option.some.inj heq ▸ hPd)

/-- What is there stays there. -/
theorem PutsOnly.has (h : PutsOnly P fs fs') (hhas : fs.has path = true) : fs'.has path = true := by
  rcases h.entry path with hsame | ⟨e, he, -⟩
  · rwa [Files.has, hsame]
  · rw [Files.has, he]
    rfl

/-- Whatever its outcome, the action puts only entries that are allowed. -/
def Within (P : List String → Entry → Prop) (x : FileAction α) : Prop :=
  ∀ fs, PutsOnly P fs (after x fs)

/-- The action puts only entries that are allowed unless it succeeds. -/
def FailsWithin (P : List String → Entry → Prop) (x : FileAction α) : Prop :=
  ∀ fs f, outcome x fs = .error f → PutsOnly P fs (after x fs)

/-- A result changes nothing. -/
theorem within_pure (P : List String → Entry → Prop) (a : α) : Within P (pure a : FileAction α) :=
  fun fs => .refl P fs

/-- A failure alone changes nothing. -/
theorem within_throw (P : List String → Entry → Prop) (f : Failure) :
    Within P (throw f : FileAction α) := fun fs => .refl P fs

/-- A result that needs no files changes nothing. -/
theorem within_liftM (P : List String → Entry → Prop) (r : Except Failure α) :
    Within P (liftM r : FileAction α) := by
  intro fs
  rw [after_liftM]
  exact .refl P fs

/-- Two actions within bounds are one action within them, whichever fails. -/
theorem Within.bind (hx : Within P x) (hk : ∀ a, Within P (k a)) : Within P (x >>= k) := by
  intro fs
  rw [after_bind]
  cases outcome x fs with
  | ok a => exact (hx fs).trans (hk a _)
  | error f => exact hx fs

/-- An action that looks at the files keeps its bounds if it does for every file system. -/
theorem within_get_bind {k : Files → FileAction β} (hk : ∀ s, Within P (k s)) :
    Within P (get >>= k) := fun fs => hk fs fs

/-- Up to its last step the action may only put what is allowed. -/
theorem FailsWithin.bind (hx : Within P x) (hk : ∀ a, FailsWithin P (k a)) :
    FailsWithin P (x >>= k) := by
  intro fs f hfail
  rw [outcome_bind] at hfail
  rw [after_bind]
  cases hout : outcome x fs with
  | ok a =>
    rw [hout] at hfail
    exact (hx fs).trans (hk a _ f hfail)
  | error _ => exact hx fs

/-- Behind the last step nothing fails. -/
theorem FailsWithin.bind_pure (hx : FailsWithin P x) (g : α → β) :
    FailsWithin P (x >>= fun a => pure (g a)) := by
  intro fs f hfail
  rw [outcome_bind] at hfail
  rw [after_bind]
  cases hout : outcome x fs with
  | ok a =>
    rw [hout] at hfail
    cases hfail
  | error d => exact hx fs d hout

/-- What is at a place once an entry was put. -/
theorem get?_put (path : String) (e : Entry) (fs : Files) (other : String) :
    (after (put path e) fs).get? other =
      if Path.parts other ≠ [] ∧ Path.parts other = Path.parts path then some e else fs.get? other := by
  show ({ fs with entries := fs.entries.insert (Path.key path) e } : Files).get? other = _
  simp only [get?, Table.get?_insert, List.isEmpty_iff, Path.key_eq_iff]
  by_cases hroot : Path.parts other = [] <;> simp [hroot]

/-- What is at a path depends on its parts. -/
theorem get?_congr {a b : String} (h : Path.parts a = Path.parts b) (fs : Files) : fs.get? a = fs.get? b := by
  rw [get?, get?, h, Path.key_eq_iff.2 h]

/-- Putting an entry changes nothing but its place. -/
theorem within_put {e : Entry} (h : P (Path.parts path) e) : Within P (put path e) := by
  intro fs
  refine ⟨fun other => ?_, rfl⟩
  rw [get?_put]
  split
  · next hsame => exact .inr ⟨e, rfl, hsame.2 ▸ h⟩
  · exact .inl rfl

/-! ## Directories above a path -/

/-- The entry is a directory above the path. -/
def IsAbove (path : String) (ps : List String) (e : Entry) : Prop :=
  e = .directory ∧ ps <+: Path.parts path ∧ ps.length < (Path.parts path).length

/-- What is above a path is above every other path of the same directory. -/
theorem isAbove_iff {ds ps : List String} {n : String} {e : Entry} (h : Path.parts path = ds ++ [n]) :
    IsAbove path ps e ↔ e = .directory ∧ ps <+: ds := by
  rw [IsAbove, h, List.length_append, List.length_singleton, List.prefix_concat_iff]
  refine and_congr_right fun _ => ⟨?_, fun hps => ⟨.inr hps, Nat.lt_succ_of_le hps.length_le⟩⟩
  rintro ⟨rfl | hps, hlt⟩
  · simp at hlt
  · exact hps

/-- What is beside a path is not above it. -/
theorem not_isAbove_concat {ds : List String} {n m : String} {e : Entry}
    (h : Path.parts path = ds ++ [n]) : ¬ IsAbove path (ds ++ [m]) e := by
  intro habove
  have hlt := habove.2.2
  simp [h] at hlt

/-- Above the path there is no file. -/
def WayFree (fs : Files) (path : String) : Prop :=
  ∀ d ∈ Path.above path, ∀ text, fs.get? d ≠ some (.file text)

/-- Creating directories changes nothing but their places. -/
theorem within_makeAll {ds : List String} (h : ∀ d ∈ ds, P (Path.parts d) .directory) :
    Within P (makeAll ds) := by
  induction ds with
  | nil => exact within_pure P ()
  | cons d ds ih =>
    obtain ⟨hd, hds⟩ := List.forall_mem_cons.1 h
    refine within_get_bind fun s => ?_
    split
    · exact within_throw P _
    · exact ih hds
    · exact (within_put hd).bind fun _ => ih hds

/-- The directories above a path are created above it. -/
theorem within_makeParents (path : String) : Within (IsAbove path) (makeParents path) :=
  within_makeAll fun _ hd => ⟨rfl, Path.parts_of_mem_above hd⟩

/-- Directories can be made unless a file is in the way. -/
theorem outcome_makeAll {ds : List String} (h : ∀ d ∈ ds, ∀ text, fs.get? d ≠ some (.file text)) :
    outcome (makeAll ds) fs = .ok () := by
  induction ds generalizing fs with
  | nil => rfl
  | cons d ds ih =>
    obtain ⟨hd, hds⟩ := List.forall_mem_cons.1 h
    rw [makeAll, outcome_get_bind]
    split
    · next text hfile => exact absurd hfile (hd text)
    · exact ih hds
    · rw [outcome_bind]
      refine ih fun c hc text => ?_
      rw [get?_put]
      split
      · simp
      · exact hds c hc text

/-- Directories that were made had no file in their way. -/
theorem wayFree_of_makeAll {ds : List String} {u : Unit} (h : outcome (makeAll ds) fs = .ok u) :
    ∀ d ∈ ds, ∀ text, fs.get? d ≠ some (.file text) := by
  induction ds generalizing fs with
  | nil => exact fun _ hd => absurd hd List.not_mem_nil
  | cons d ds ih =>
    rw [makeAll, outcome_get_bind] at h
    split at h
    · cases h
    · next hdirectory =>
      exact List.forall_mem_cons.2 ⟨fun text => by simp [hdirectory], ih h⟩
    · next hnone =>
      rw [outcome_bind] at h
      refine List.forall_mem_cons.2 ⟨fun text => by simp [hnone], fun c hc text hfile => ?_⟩
      refine ih h c hc text ?_
      rw [get?_put, if_neg, hfile]
      -- where the directory was made, there was nothing
      rintro ⟨-, hsame⟩
      rw [get?_congr hsame, hnone] at hfile
      cases hfile

/-- Directories that were made are there. -/
theorem isDirectory_of_makeAll {ds : List String} {u : Unit} (h : outcome (makeAll ds) fs = .ok u) :
    ∀ d ∈ ds, (after (makeAll ds) fs).get? d = some .directory := by
  induction ds generalizing fs with
  | nil => exact fun _ hd => absurd hd List.not_mem_nil
  | cons d ds ih =>
    rw [makeAll, outcome_get_bind] at h
    rw [makeAll, after_get_bind]
    -- further directories leave a directory in its place
    have hkept (fs : Files) (hd : fs.get? d = some .directory) :
        (after (makeAll ds) fs).get? d = some .directory := by
      have hputs : PutsOnly (fun _ e => e = .directory) fs (after (makeAll ds) fs) :=
        within_makeAll (fun _ _ => rfl) fs
      rcases hputs.entry d with hsame | ⟨_, he, rfl⟩
      · exact hsame.trans hd
      · exact he
    split at h
    · cases h
    · next hd => exact List.forall_mem_cons.2 ⟨hkept fs hd, ih h⟩
    · next hnone =>
      rw [outcome_bind] at h
      have hput : (after (put d .directory) fs).get? d = some .directory := by
        rw [get?_put, if_pos]
        refine ⟨fun hroot => ?_, rfl⟩
        rw [get?, hroot] at hnone
        cases hnone
      exact List.forall_mem_cons.2 ⟨hkept _ hput, ih h⟩

/-- Where no file is in the way, the directories above a path are created. -/
theorem outcome_makeParents (h : WayFree fs path) : outcome (makeParents path) fs = .ok () :=
  outcome_makeAll h

/-- Making the directories above a path changes nothing at the path itself. -/
theorem get?_makeParents (path : String) (fs : Files) :
    (after (makeParents path) fs).get? path = fs.get? path :=
  (within_makeParents path fs).get?_eq fun _ h => Nat.lt_irrefl _ h.2.2

/-! ## Locks -/

/-- The entry is what opening the file of a lock puts: a directory above it, or the empty file. -/
def IsOpened (path : String) (ps : List String) (e : Entry) : Prop :=
  IsAbove path ps e ∨ e = .file "" ∧ ps = Path.parts path

/-- Opening a lock creates its file and what is above it. -/
theorem within_openLock (path : String) : Within (IsOpened path) (openLock path) := by
  have hparents : Within (IsOpened path) (makeParents path) :=
    fun fs => (within_makeParents path fs).mono fun _ _ => .inl
  refine hparents.bind fun _ => within_get_bind fun s => ?_
  split
  · exact within_pure _ ()
  · exact within_throw _ _
  · exact within_put (.inr ⟨rfl, rfl⟩)

/-- The file of a lock can be opened unless a directory is in its place. -/
theorem outcome_openLock (h : WayFree fs path) :
    outcome (openLock path) fs =
      if fs.get? path = some .directory then .error (.io ("a directory: " ++ path)) else .ok () := by
  rw [openLock, outcome_bind, outcome_makeParents h, ok_bind, outcome_get_bind, get?_makeParents]
  cases fs.get? path with
  | none => rfl
  | some e => cases e <;> rfl

/-- A lock is free when its file can be opened and nobody holds it. -/
theorem outcome_tryLock (path : String) (fs : Files) :
    outcome (tryLock path) fs =
      outcome (openLock path) fs >>= fun _ => .ok (!fs.locked.contains (Path.key path)) := by
  rw [tryLock, outcome_bind, ← (within_openLock path fs).locked]
  congr 1
  funext _
  rw [outcome_get_bind]
  cases (after (openLock path) fs).locked.contains (Path.key path) <;> rfl

/-- Taking a lock opens its file, and holds it besides if it was free. -/
theorem after_tryLock (path : String) (fs : Files) :
    after (tryLock path) fs = match outcome (tryLock path) fs with
      | .ok true => { after (openLock path) fs with locked := Path.key path :: fs.locked }
      | _ => after (openLock path) fs := by
  rw [outcome_tryLock, tryLock, after_bind]
  cases outcome (openLock path) fs with
  | error f => rfl
  | ok _ =>
    rw [ok_bind, ← (within_openLock path fs).locked]
    dsimp only
    rw [after_get_bind]
    cases (after (openLock path) fs).locked.contains (Path.key path) <;> rfl

/-- A lock is taken where its file can be opened, unless it is held. -/
theorem outcome_lock (path : String) (fs : Files) :
    outcome (lock path) fs = outcome (openLock path) fs >>= fun _ =>
      if fs.locked.contains (Path.key path) then .error (.lockFailed path) else .ok () := by
  rw [lock, outcome_bind, outcome_tryLock]
  cases outcome (openLock path) fs with
  | error f => rfl
  | ok _ => cases fs.locked.contains (Path.key path) <;> rfl

/-- A lock that is taken is held; one that is not taken changes nothing more. -/
theorem after_lock (path : String) (fs : Files) :
    after (lock path) fs = match outcome (lock path) fs with
      | .ok _ => { after (openLock path) fs with locked := Path.key path :: fs.locked }
      | .error _ => after (openLock path) fs := by
  rw [lock, after_bind, after_tryLock, ← lock, outcome_lock, outcome_tryLock]
  cases outcome (openLock path) fs with
  | error f => rfl
  | ok _ => cases fs.locked.contains (Path.key path) <;> rfl

/-- Under a lock the action is done if the lock is taken, and then the lock is given back. -/
theorem run_withLock (path : String) (x : FileAction α) (fs : Files) :
    (withLock path x).run.run fs = match outcome (lock path) fs with
      | .ok _ => (outcome x (after (lock path) fs), after (unlock path) (after x (after (lock path) fs)))
      | .error f => (.error f, after (lock path) fs) := by
  unfold outcome after
  rw [withLock, run_bind]
  rcases (lock path).run.run fs with ⟨r, held⟩
  cases r with
  | error f => rfl
  | ok _ =>
    rcases hx : x.run.run held with ⟨r, done⟩
    have hlift : (ExceptT.lift x.run : FileAction _).run.run held = (.ok r, done) := yields_lift.2 hx
    dsimp only
    rw [run_bind, hlift]
    cases r <;> rfl

/-- Under a lock an action has the outcome that it has once the lock is taken. -/
theorem outcome_withLock (path : String) (x : FileAction α) (fs : Files) :
    outcome (withLock path x) fs =
      outcome (lock path) fs >>= fun _ => outcome x (after (lock path) fs) := by
  rw [outcome, run_withLock]
  cases outcome (lock path) fs <;> rfl

/-- The lock is released after the action, also after a failure. -/
theorem after_withLock (path : String) (x : FileAction α) (fs : Files) :
    after (withLock path x) fs = match outcome (lock path) fs with
      | .ok _ => after (unlock path) (after x (after (lock path) fs))
      | .error _ => after (lock path) fs := by
  rw [after, run_withLock]
  cases outcome (lock path) fs <;> rfl

/-- Taking a lock puts what opening its file puts. -/
theorem entry_lock (path : String) (fs : Files) (other : String) :
    (after (lock path) fs).get? other = (after (openLock path) fs).get? other := by
  rw [after_lock]
  cases outcome (lock path) fs <;> rfl

/-- What an action puts under a lock is put besides the file of the lock. -/
theorem putsOnly_withLock (hopened : ∀ ps e, IsOpened path ps e → P ps e)
    (hx : outcome (lock path) fs = .ok () →
      PutsOnly P (after (lock path) fs) (after x (after (lock path) fs))) :
    PutsOnly P fs (after (withLock path x) fs) := by
  have hopen : PutsOnly P fs (after (openLock path) fs) := (within_openLock path fs).mono hopened
  rw [after_withLock]
  cases hlock : outcome (lock path) fs with
  | error f =>
    have hafter : after (lock path) fs = after (openLock path) fs := by rw [after_lock, hlock]
    dsimp only
    rwa [hafter]
  | ok _ =>
    have hafter : after (lock path) fs =
        { after (openLock path) fs with locked := Path.key path :: fs.locked } := by
      rw [after_lock, hlock]
    have hdone := hx hlock
    refine ⟨fun other => ?_, ?_⟩
    · rcases hdone.entry other with hsame | hput
      · rcases hopen.entry other with hsame' | hput'
        · left
          exact hsame.trans ((entry_lock path fs other).trans hsame')
        · right
          obtain ⟨e, he, hP⟩ := hput'
          exact ⟨e, hsame.trans ((entry_lock path fs other).trans he), hP⟩
      · exact .inr hput
    · show (after x (after (lock path) fs)).locked.erase (Path.key path) = fs.locked
      rw [hdone.locked, hafter]
      exact List.erase_cons_head (Path.key path) fs.locked

/-- Under a lock an action keeps its bounds, if they leave room for the lock. -/
theorem within_withLock (hopened : ∀ ps e, IsOpened path ps e → P ps e) (hx : Within P x) :
    Within P (withLock path x) :=
  fun _ => putsOnly_withLock hopened fun _ => hx _

/-- So does an action that keeps them only when it fails. -/
theorem failsWithin_withLock (hopened : ∀ ps e, IsOpened path ps e → P ps e)
    (hx : FailsWithin P x) : FailsWithin P (withLock path x) := by
  intro fs f hfail
  refine putsOnly_withLock hopened fun hlock => hx _ f ?_
  rwa [outcome_withLock, hlock] at hfail

/-! ## Reading and writing -/

/-- Writing puts the directories above the file, and the text as a whole. -/
theorem within_write (path text : String) :
    Within (fun ps e => IsAbove path ps e ∨ e = .file text ∧ ps = Path.parts path)
      (write path text) := by
  refine Within.bind (fun fs => (within_makeParents path fs).mono fun _ _ => .inl) fun _ => ?_
  refine within_get_bind fun s => ?_
  split
  · exact (within_throw _ _).bind fun _ => within_put (.inr ⟨rfl, rfl⟩)
  · exact within_put (.inr ⟨rfl, rfl⟩)

/-- Writing fails before the text is put. -/
theorem failsWithin_write (path text : String) : FailsWithin (IsAbove path) (write path text) := by
  refine FailsWithin.bind (within_makeParents path) fun _ => ?_
  intro fs f hfail
  rw [outcome_get_bind] at hfail
  rw [after_get_bind]
  split at hfail
  · next hdirectory =>
    rw [if_pos hdirectory]
    exact .refl _ fs
  · cases hfail

/-- A file is written unless a file is above it or a directory in its place. -/
theorem outcome_write {text : String} (h : WayFree fs path) (hfile : fs.get? path ≠ some .directory) :
    outcome (write path text) fs = .ok () := by
  rw [write, outcome_bind, outcome_makeParents h, ok_bind, outcome_get_bind, isDirectory,
    get?_makeParents]
  simp [hfile]
  rfl

end NextBuild.Files
