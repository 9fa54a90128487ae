import NextBuild.Files

/-!
# What file actions leave in place

A file action that succeeds is read off its text: each step succeeds and hands its files to the next
one.  Directories and locks are only created where nothing is, so they keep everything that is there;
a lock that is given back changes no entry.  A text that is written is the text of its file.
-/

namespace NextBuild.Files

variable {α β : Type} {fs fs' fs'' : Files} {path : String}

/-- The action succeeds with this value and leaves these files. -/
def Yields (x : FileAction α) (fs : Files) (a : α) (fs' : Files) : Prop :=
  x.run.run fs = (.ok a, fs')

/-- An action whose outcome is a value succeeds. -/
theorem yields_of_fst {x : FileAction α} {a : α} (h : (x.run.run fs).1 = .ok a) :
    Yields x fs a (x.run.run fs).2 := Prod.ext h rfl

/-- Actions one after the other: the second one is done on what the first one leaves, unless that
fails. -/
theorem run_bind (x : FileAction α) (k : α → FileAction β) (fs : Files) :
    (x >>= k).run.run fs = match x.run.run fs with
      | (.ok a, fs') => (k a).run.run fs'
      | (.error f, fs') => (.error f, fs') := by
  rcases hx : x.run.run fs with ⟨r, fs'⟩
  simp only [Bind.bind, ExceptT.bind, ExceptT.run, ExceptT.mk, StateT.bind, StateT.run] at hx ⊢
  rw [hx]
  cases r <;> rfl

/-- Actions one after the other succeed when the first one does and the second one from there. -/
theorem yields_bind {x : FileAction α} {k : α → FileAction β} {b : β} :
    Yields (x >>= k) fs b fs'' ↔ ∃ a fs', Yields x fs a fs' ∧ Yields (k a) fs' b fs'' := by
  unfold Yields
  rw [run_bind]
  rcases x.run.run fs with ⟨r, fs'⟩
  cases r with
  | ok a =>
    constructor
    · intro h
      exact ⟨a, fs', rfl, h⟩
    · rintro ⟨a', fs₁, heq, h⟩
      cases heq
      exact h
  | error f =>
    constructor
    · intro h
      cases h
    · rintro ⟨a', fs₁, heq, -⟩
      cases heq

/-- A result leaves the files as they are. -/
@[simp]
theorem yields_pure {a b : α} : Yields (pure a) fs b fs' ↔ a = b ∧ fs = fs' := by
  constructor
  · intro h
    cases h
    exact ⟨rfl, rfl⟩
  · rintro ⟨rfl, rfl⟩
    rfl

/-- A failure is no success. -/
@[simp]
theorem not_yields_throw {f : Failure} {a : α} : ¬ Yields (throw f) fs a fs' := by
  intro h
  cases h

/-- Looking at the files finds them and leaves them. -/
@[simp]
theorem yields_get {s : Files} : Yields get fs s fs' ↔ s = fs ∧ fs' = fs := by
  constructor
  · intro h
    cases h
    exact ⟨rfl, rfl⟩
  · rintro ⟨rfl, rfl⟩
    rfl

/-- An action that looks at the files does what it does for what it finds. -/
theorem yields_get_bind {k : Files → FileAction α} {a : α} :
    Yields (get >>= k) fs a fs' ↔ Yields (k fs) fs a fs' := by
  rw [yields_bind]
  constructor
  · rintro ⟨s, fs₁, hget, h⟩
    obtain ⟨rfl, rfl⟩ := yields_get.1 hget
    exact h
  · intro h
    exact ⟨fs, fs, yields_get.2 ⟨rfl, rfl⟩, h⟩

/-- The files that are put in place are there afterwards. -/
@[simp]
theorem yields_set {s : Files} {u : Unit} : Yields (set s) fs u fs' ↔ fs' = s := by
  constructor
  · intro h
    cases h
    rfl
  · rintro rfl
    rfl

/-- A change of the files is made. -/
@[simp]
theorem yields_modify {f : Files → Files} {u : Unit} :
    Yields (modify f) fs u fs' ↔ fs' = f fs := by
  constructor
  · intro h
    cases h
    rfl
  · rintro rfl
    rfl

/-- A computation that has come to a result changes no files. -/
theorem run_liftM (x : Except Failure α) (fs : Files) :
    (liftM x : FileAction α).run.run fs = (x, fs) := by
  cases x <;> rfl

/-- A result that needs no files leaves them as they are. -/
@[simp]
theorem yields_liftM {x : Except Failure α} {a : α} :
    Yields (liftM x) fs a fs' ↔ x = .ok a ∧ fs' = fs := by
  rw [Yields, run_liftM, Prod.mk.injEq, eq_comm (a := fs)]

/-- The outcome of an action is a value like any other. -/
theorem yields_lift {m : StateM Files α} {a : α} :
    Yields (ExceptT.lift m) fs a fs' ↔ m.run fs = (a, fs') := by
  rcases hm : m.run fs with ⟨b, fs₁⟩
  have hrun : (ExceptT.lift m : FileAction α).run.run fs = (.ok b, fs₁) := by
    simp only [StateT.run] at hm
    simp only [ExceptT.lift, ExceptT.run, ExceptT.mk, Functor.map, StateT.map, StateT.run, hm]
    rfl
  rw [Yields, hrun]
  constructor
  · intro h
    cases h
    rfl
  · intro h
    cases h
    rfl

/-! ## Entries that stay -/

/-- Everything that is in the first file system is in the second one as it was. -/
def Keeps (fs fs' : Files) : Prop := ∀ path e, fs.get? path = some e → fs'.get? path = some e

/-- Without a change everything is kept. -/
theorem Keeps.refl (fs : Files) : Keeps fs fs := fun _ _ h => h

/-- Two changes that keep everything are one that does. -/
theorem Keeps.trans (h : Keeps fs fs') (h' : Keeps fs' fs'') : Keeps fs fs'' :=
  fun path e he => h' path e (h path e he)

/-- A text that is found is that of a file. -/
theorem text?_eq_some_iff {text : String} :
    fs.text? path = some text ↔ fs.get? path = some (.file text) := by
  unfold text?
  cases fs.get? path with
  | none => simp
  | some e => cases e <;> simp

/-- Files that are kept have the same text. -/
theorem Keeps.text? (h : Keeps fs fs') {text : String} (htext : fs.text? path = some text) :
    fs'.text? path = some text :=
  text?_eq_some_iff.2 (h path _ (text?_eq_some_iff.1 htext))

/-- A change of the locks alone changes no entry. -/
theorem keeps_locked (fs : Files) (locked : List String) : Keeps fs { fs with locked } :=
  fun _ _ h => h

/-- An entry is put where nothing is. -/
theorem keeps_put {e : Entry} {u : Unit} (h : Yields (put path e) fs u fs')
    (hnone : fs.get? path = none) : Keeps fs fs' := by
  obtain rfl := yields_modify.1 h
  intro other d hd
  unfold get? at hnone hd ⊢
  split at hd
  · next hroot => rw [if_pos hroot, hd]
  · next hroot =>
    rw [if_neg hroot, Table.get?_insert, hd]
    split at hnone
    · cases hnone
    · rw [if_neg]
      intro hsame
      rw [hsame, hnone] at hd
      cases hd

/-- Creating directories keeps what is there. -/
theorem keeps_makeAll {ds : List String} {u : Unit} (h : Yields (makeAll ds) fs u fs') :
    Keeps fs fs' := by
  induction ds generalizing fs with
  | nil =>
    obtain ⟨-, rfl⟩ := yields_pure.1 h
    exact .refl fs
  | cons d ds ih =>
    rw [makeAll, yields_get_bind] at h
    split at h
    · exact absurd h not_yields_throw
    · exact ih h
    · next hnone =>
      obtain ⟨_, fs₂, hput, h⟩ := yields_bind.1 h
      exact (keeps_put hput hnone).trans (ih h)

/-- Creating directories keeps every file. -/
theorem keeps_makeParents {u : Unit} (h : Yields (makeParents path) fs u fs') : Keeps fs fs' :=
  keeps_makeAll h

/-- The file of a lock is created only if it is not there. -/
theorem keeps_openLock {u : Unit} (h : Yields (openLock path) fs u fs') : Keeps fs fs' := by
  obtain ⟨_, fs₁, hparents, hopen⟩ := yields_bind.1 h
  have hkept := keeps_makeParents hparents
  rw [yields_get_bind] at hopen
  split at hopen
  · obtain ⟨-, rfl⟩ := yields_pure.1 hopen
    exact hkept
  · exact absurd hopen not_yields_throw
  · next hnone => exact hkept.trans (keeps_put hopen hnone)

/-- Trying a lock keeps every file. -/
theorem keeps_tryLock {free : Bool} (h : Yields (tryLock path) fs free fs') : Keeps fs fs' := by
  obtain ⟨_, fs₁, hopen, htry⟩ := yields_bind.1 h
  have hkept := keeps_openLock hopen
  rw [yields_get_bind] at htry
  split at htry
  · obtain ⟨-, rfl⟩ := yields_pure.1 htry
    exact hkept
  · obtain ⟨_, fs₂, hset, hdone⟩ := yields_bind.1 htry
    obtain rfl := yields_set.1 hset
    obtain ⟨-, rfl⟩ := yields_pure.1 hdone
    exact hkept.trans (keeps_locked _ _)

/-- Taking a lock keeps every file. -/
theorem keeps_lock {u : Unit} (h : Yields (lock path) fs u fs') : Keeps fs fs' := by
  obtain ⟨free, fs₁, htry, hdone⟩ := yields_bind.1 h
  have hkept := keeps_tryLock htry
  cases free with
  | true =>
    obtain ⟨-, rfl⟩ := yields_pure.1 hdone
    exact hkept
  | false => exact absurd hdone not_yields_throw

/-- Giving a lock back changes no entry. -/
theorem get?_of_unlock {u : Unit} (h : Yields (unlock path) fs u fs') (other : String) :
    fs'.get? other = fs.get? other := by
  obtain rfl := yields_modify.1 h
  rfl

/-- An action under a lock takes the lock, succeeds, and gives the lock back. -/
theorem yields_withLock {action : FileAction α} {a : α} :
    Yields (withLock path action) fs a fs' ↔ ∃ fs₁ fs₂, Yields (lock path) fs () fs₁ ∧
      Yields action fs₁ a fs₂ ∧ Yields (unlock path) fs₂ () fs' := by
  simp only [withLock, yields_bind, yields_lift]
  constructor
  · rintro ⟨_, fs₁, hlock, outcome, fs₂, haction, _, fs₃, hunlock, hdone⟩
    cases outcome with
    | error f => exact absurd hdone not_yields_throw
    | ok b =>
      obtain ⟨rfl, rfl⟩ := yields_pure.1 hdone
      exact ⟨fs₁, fs₂, hlock, haction, hunlock⟩
  · rintro ⟨fs₁, fs₂, hlock, haction, hunlock⟩
    exact ⟨(), fs₁, hlock, .ok a, fs₂, haction, (), fs', hunlock, yields_pure.2 ⟨rfl, rfl⟩⟩

/-- A text that is written is the text of its file. -/
theorem text?_of_write {text : String} {u : Unit} (h : Yields (write path text) fs u fs') :
    fs'.text? path = some text := by
  obtain ⟨_, fs₁, -, hwrite⟩ := yields_bind.1 h
  rw [yields_get_bind] at hwrite
  split at hwrite
  · obtain ⟨_, fs₂, hthrow, -⟩ := yields_bind.1 hwrite
    exact absurd hthrow not_yields_throw
  · next hdirectory =>
    obtain rfl := yields_modify.1 hwrite
    have hroot : ¬ (Path.parts path).isEmpty = true := by
      intro hroot
      apply hdirectory
      rw [isDirectory, get?, if_pos hroot]
      rfl
    rw [text?_eq_some_iff, get?, if_neg hroot, Table.get?_insert, if_pos rfl]

/-- What is read is the text of the file, which stays as it is. -/
theorem yields_read {text : String} :
    Yields (read path) fs text fs' ↔ fs.text? path = some text ∧ fs' = fs := by
  rw [read, yields_get_bind]
  cases fs.text? path with
  | none => simp
  | some found => simp [eq_comm]

end NextBuild.Files
