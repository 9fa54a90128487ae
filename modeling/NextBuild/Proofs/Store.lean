import NextBuild.Proofs.Files
import NextBuild.Proofs.Json.RoundTrip
import NextBuild.Store

/-!
# Ledgers that are stored are loaded

A change of a job's ledger that succeeds writes the text of the new ledger to the file of the job, and
loading a ledger reads it from the text that is there.  A ledger comes back from its text, so what was
stored is what is loaded, until the file is written again.
-/

namespace NextBuild.Store

open Files (Yields yields_bind yields_pure yields_get_bind yields_liftM yields_read yields_withLock
  text?_eq_some_iff)

variable {s : Store} {job : String} {fs fs' : Files} {l : Ledger}

/-- Where a file has a text, a ledger is read from this text. -/
theorem yields_readLedger {path text : String} (htext : fs.text? path = some text) :
    Yields (readLedger path) fs l fs' ↔ Ledger.ofText text = .ok l ∧ fs' = fs := by
  have hhas : fs.has path = true := by
    rw [Files.has, text?_eq_some_iff.1 htext]
    rfl
  rw [readLedger, yields_get_bind, if_pos hhas, yields_bind]
  simp [yields_read, htext, and_comm]

/-- Loading reads the ledger from the text that is there, once the lock is taken. -/
theorem yields_load {text : String} (htext : fs.text? (s.file job) = some text) :
    Yields (s.load job) fs l fs' ↔ ∃ fs₁, Yields (Files.lock (Files.lockPath (s.file job))) fs () fs₁ ∧
      Ledger.ofText text = .ok l ∧ Yields (Files.unlock (Files.lockPath (s.file job))) fs₁ () fs' := by
  rw [load, yields_withLock]
  constructor
  · rintro ⟨fs₁, fs₂, hlock, hread, hunlock⟩
    obtain ⟨hl, rfl⟩ := (yields_readLedger ((Files.keeps_lock hlock).text? htext)).1 hread
    exact ⟨fs₂, hlock, hl, hunlock⟩
  · rintro ⟨fs₁, hlock, hl, hunlock⟩
    have hread := (yields_readLedger ((Files.keeps_lock hlock).text? htext)).2 ⟨hl, rfl⟩
    exact ⟨fs₁, fs₁, hlock, hread, hunlock⟩

/-- A ledger that was stored is loaded. -/
theorem eq_of_load {l' : Ledger} (h : Yields (s.load job) fs l fs')
    (htext : fs.text? (s.file job) = some l'.text) : l = l' := by
  obtain ⟨fs₁, -, hl, -⟩ := (yields_load htext).1 h
  rw [l'.ofText_text] at hl
  exact (Except.ok.inj hl).symm

/-- A ledger that was stored can be loaded when its lock is free. -/
theorem exists_load {fs₁ : Files} (htext : fs.text? (s.file job) = some l.text)
    (hlock : Yields (Files.lock (Files.lockPath (s.file job))) fs () fs₁) :
    ∃ fs', Yields (s.load job) fs l fs' :=
  ⟨_, (yields_load htext).2 ⟨fs₁, hlock, l.ofText_text, Files.yields_modify.2 rfl⟩⟩

/-- A change that succeeds reads a ledger under the lock, changes it, and writes what it has become. -/
theorem exists_of_update {α : Type} {f : Ledger → Except Failure (α × Ledger)} {a : α}
    (h : Yields (s.update job f) fs a fs') : ∃ fs₁ fs₂ fs₃ fs₄ l l',
      Yields (Files.makeParents (s.file job)) fs () fs₁ ∧
      Yields (Files.lock (Files.lockPath (s.file job))) fs₁ () fs₂ ∧
      Yields (readLedger (s.file job)) fs₂ l fs₃ ∧ f l = .ok (a, l') ∧
      Yields (Files.write (s.file job) l'.text) fs₃ () fs₄ ∧
      Yields (Files.unlock (Files.lockPath (s.file job))) fs₄ () fs' := by
  obtain ⟨_, fs₁, hparents, hlocked⟩ := yields_bind.1 h
  obtain ⟨fs₂, fs₅, hlock, haction, hunlock⟩ := yields_withLock.1 hlocked
  obtain ⟨l, fs₃, hread, hchange⟩ := yields_bind.1 haction
  obtain ⟨⟨b, l'⟩, fs₆, hlift, hwrite⟩ := yields_bind.1 hchange
  obtain ⟨hf, rfl⟩ := yields_liftM.1 hlift
  obtain ⟨_, fs₇, hwritten, hdone⟩ := yields_bind.1 hwrite
  obtain ⟨rfl, rfl⟩ := yields_pure.1 hdone
  exact ⟨fs₁, fs₂, fs₆, fs₇, l, l', hparents, hlock, hread, hf, hwritten, hunlock⟩

end NextBuild.Store
