import NextBuild.Proofs.Files.Names
import NextBuild.Proofs.Store.Separation
import NextBuild.Proofs.Store.Transactions

/-!
# The jobs of a store

A store does not keep a list of its jobs: it reads them off the names of the files in its directory.
The name of a ledger's file is the key of its job with an extension, and the file of a lock ends
otherwise, so taking the extension off finds the keys again.  A key is its own key; a job that is
listed can be loaded by the name that is listed.
-/

namespace NextBuild

namespace Store

open Files (Yields outcome after PutsOnly IsOpened lockPath yields_iff get?_of_unlock)
open NextBuild.Path (IsName)

/-! ## Keys -/

/-- The characters of a key are not blank. -/
theorem isBlank_of_isKeyChar {c : Char} (h : isKeyChar c = true) : Text.isBlank c = false := by
  have hrange : c.toNat < 123 := by
    unfold isKeyChar at h
    delta Char.isAlphanum Char.isAlpha Char.isUpper Char.isLower Char.isDigit at h
    simp [UInt32.le_iff_toNat_le] at h
    rcases h with ((hrange | rfl) | rfl) | rfl
    · omega
    all_goals decide
  have hall : ∀ n < 123, isKeyChar (Char.ofNat n) = true → Text.isBlank (Char.ofNat n) = false := by
    decide
  rw [← Char.ofNat_toNat c] at h ⊢
  exact hall _ hrange h

/-- A key is not made of dots alone. -/
theorem not_all_dots_key (job : String) : (key job).toList.all (· == '.') = false := by
  have hunfold : key job = "_" ∨
      ∃ cs : List Char, key job = String.ofList cs ∧ ¬ cs.all (· == '.') = true := by
    unfold key
    dsimp only
    split
    · exact .inl rfl
    · next h => exact .inr ⟨_, rfl, h⟩
  rcases hunfold with h | ⟨cs, h, hdots⟩
  · rw [h]
    decide
  · rw [h, String.toList_ofList]
    exact Bool.not_eq_true _ ▸ hdots

/-- A key has a character. -/
theorem key_ne_empty (job : String) : key job ≠ "" := by
  intro h
  have hdots := not_all_dots_key job
  rw [h] at hdots
  cases hdots

/-- A key is a safe name without blanks around it, and so it is its own key. -/
theorem key_key (job : String) : key (key job) = key job := by
  have hchars : ∀ c ∈ (key job).toList, isKeyChar c = true := fun c hc => isKeyChar_of_mem_key hc
  have htrim : Text.trimChars (key job).toList = (key job).toList :=
    Text.trimChars_eq_self fun c hc => isBlank_of_isKeyChar (hchars c hc)
  have hsafe : IsSafe (key job) := by
    constructor
    · rw [htrim]
      exact hchars
    · rw [htrim]
      simpa using not_all_dots_key job
  rw [hsafe.key_eq, Text.trim, htrim, String.ofList_toList]

/-- A job is loaded by its key as well. -/
theorem load_key (s : Store) (job : String) : s.load (key job) = s.load job := by
  rw [load, load, file, file, key_key]

/-- The stem of a name is what the extension is appended to. -/
theorem stem?_eq_some_iff {name k : String} :
    stem? name = some k ↔ name = k ++ ".json" ∧ k ≠ "" := by
  have hlength : ".json".toList.length = 5 := rfl
  constructor
  · intro h
    unfold stem? at h
    dsimp only at h
    split at h
    · next hends =>
      rw [Bool.and_eq_true, Text.endsWith, List.isSuffixOf_iff_suffix, decide_eq_true_eq] at hends
      obtain ⟨⟨front, hfront⟩, hlong⟩ := hends
      rw [← hfront, List.length_append, hlength, Nat.add_sub_cancel, List.take_left' rfl] at h
      obtain rfl := Option.some.inj h
      constructor
      · apply String.toList_injective
        simp [← hfront]
      · intro hempty
        rw [String.ofList_eq_empty_iff.1 hempty] at hfront
        rw [← hfront] at hlong
        exact absurd hlong (by decide)
    · cases h
  · rintro ⟨rfl, hk⟩
    have hlong : 0 < k.toList.length := by
      rw [List.length_pos_iff]
      simpa using hk
    simp [stem?, Text.endsWith, hlong]

/-! ## What is listed -/

variable {α : Type} {s : Store} {log : Log} {fs fs' : Files} {job other n : String}

/-- The directory of the store is right above each ledger. -/
theorem exists_mem_above_file (s : Store) (job : String) :
    ∃ d ∈ Path.above (s.file job), Path.parts d = Path.parts s.directory := by
  have hnames : ∀ n ∈ Path.parts s.directory, IsName n := fun n => Path.isName_of_mem_parts
  have hne : 0 < (Path.parts s.directory).length := by simp [parts_directory]
  refine ⟨_, ?_, Path.parts_ofParts hnames⟩
  rw [Path.above_eq_of_parts (parts_file s job)]
  refine List.mem_map.2 ⟨(Path.parts s.directory).length - 1, List.mem_range.2 (by omega), ?_⟩
  rw [Nat.sub_add_cancel hne, List.take_length]

/-- Putting ledgers and locks leaves the directory where it is. -/
theorem isDirectory_of_puts (h : PutsOnly (s.Puts job) fs fs')
    (hdirectory : fs.get? s.directory = some .directory) :
    fs'.get? s.directory = some .directory := by
  rcases h.entry s.directory with hsame | ⟨e, he, hput⟩
  · exact hsame.trans hdirectory
  · rcases hput with (⟨rfl, -⟩ | ⟨-, hps⟩) | ⟨-, hps⟩
    · exact he
    · simp [parts_lockPath] at hps
    · simp [parts_file] at hps

/-- After a change that succeeds the directory is there. -/
theorem isDirectory_of_update {f : Ledger → Except Failure (α × Ledger)} {a : α}
    (h : Yields (s.update job f) fs a fs') : fs'.get? s.directory = some .directory := by
  obtain ⟨fs₁, fs₂, fs₃, fs₄, l, l', hparents, hlock, hread, hf, hwrite, hunlock⟩ := exists_of_update h
  obtain ⟨hmade, rfl⟩ := yields_iff.1 hparents
  obtain ⟨-, rfl⟩ := yields_iff.1 hread
  obtain ⟨-, rfl⟩ := yields_iff.1 hwrite
  obtain ⟨d, hd, hparts⟩ := exists_mem_above_file s job
  have hdirectory := (Files.get?_congr hparts _).symm.trans (Files.isDirectory_of_makeAll hmade d hd)
  have htaken := Files.keeps_lock hlock _ _ hdirectory
  rw [get?_of_unlock hunlock]
  refine isDirectory_of_puts (within_write s job l'.text _) ?_
  rwa [after_readLedger]

/-- The directory holds the ledgers of the jobs that were changed, and no others. -/
structure Lists (s : Store) (log : Log) (fs : Files) : Prop where
  directory : log ≠ [] → fs.get? s.directory = some .directory
  ledger : ∀ c ∈ log, fs.has (s.file c.1) = true
  only : ∀ n, IsName (n ++ ".json") → fs.has (Path.join s.directory (n ++ ".json")) = true →
    ∃ c ∈ log, key c.1 = n

/-- A fresh store lists no job. -/
theorem Lists.of_isFresh (h : s.IsFresh fs) : s.Lists [] fs := by
  refine ⟨fun hne => absurd rfl hne, fun c hc => absurd hc List.not_mem_nil, fun n hn hhas => ?_⟩
  have hparts := Path.parts_join_name s.directory hn
  have hbelow : Path.parts s.directory <+: Path.parts (Path.join s.directory (n ++ ".json")) := by
    rw [hparts]
    exact List.prefix_append _ _
  rw [Files.has, h.empty _ hbelow (by simp [hparts])] at hhas
  cases hhas

/-- What is listed depends on what is at each path. -/
theorem Lists.of_get?_eq (h : s.Lists log fs) (hsame : ∀ path, fs'.get? path = fs.get? path) :
    s.Lists log fs' := by
  refine ⟨fun hne => (hsame _).trans (h.directory hne), fun c hc => ?_, fun n hn hhas => ?_⟩
  · rw [Files.has, hsame]
    exact h.ledger c hc
  · rw [Files.has, hsame] at hhas
    exact h.only n hn hhas

/-- Under the name of a ledger nothing is put but the ledger of the job. -/
theorem has_of_puts (h : PutsOnly (s.Puts job) fs fs') (hn : IsName (n ++ ".json"))
    (hhas : fs'.has (Path.join s.directory (n ++ ".json")) = true) :
    fs.has (Path.join s.directory (n ++ ".json")) = true ∨ key job = n := by
  rcases h.entry (Path.join s.directory (n ++ ".json")) with hsame | ⟨e, -, hput⟩
  · left
    rw [Files.has, hsame] at hhas
    exact hhas
  · right
    rw [Path.parts_join_name _ hn] at hput
    rcases hput with hopened | ⟨-, hps⟩
    · exact absurd hopened not_isOpened_json
    · rw [parts_file, List.append_cancel_left_eq, List.singleton_inj] at hps
      exact ((String.append_left_inj _).1 hps).symm

/-- Opening a lock lists no further job. -/
theorem Lists.of_opened (h : s.Lists log fs)
    (hopened : PutsOnly (IsOpened (lockPath (s.file job))) fs fs') : s.Lists log fs' := by
  refine ⟨fun hne => ?_, fun c hc => hopened.has (h.ledger c hc), fun n hn hhas => h.only n hn ?_⟩
  · exact isDirectory_of_puts (hopened.mono fun _ _ => .inl) (h.directory hne)
  · have hsame : fs'.get? (Path.join s.directory (n ++ ".json")) =
        fs.get? (Path.join s.directory (n ++ ".json")) :=
      hopened.get?_eq fun e => Path.parts_join_name s.directory hn ▸ not_isOpened_json
    rw [Files.has, hsame] at hhas
    exact hhas

/-- A job that was updated is listed with those before. -/
theorem Lists.update (h : s.Lists log fs) {f : Ledger → Except Failure (α × Ledger)} {a : α}
    (hok : outcome (s.update job f) fs = .ok a) :
    s.Lists (log ++ [(job, changed f)]) (after (s.update job f) fs) := by
  have hputs := within_update s job f fs
  have hyields : Yields (s.update job f) fs a (after (s.update job f) fs) := yields_iff.2 ⟨hok, rfl⟩
  obtain ⟨_, l', -, -, htext⟩ := exists_change_of_update hyields
  refine ⟨fun _ => isDirectory_of_update hyields, fun c hc => ?_, fun n hn hhas => ?_⟩
  · rcases List.mem_append.1 hc with hc | hc
    · exact hputs.has (h.ledger c hc)
    · rw [List.mem_singleton.1 hc, Files.has, htext]
      rfl
  · rcases has_of_puts hputs hn hhas with hhas | hkey
    · obtain ⟨c, hc, hkey⟩ := h.only n hn hhas
      exact ⟨c, List.mem_append_left _ hc, hkey⟩
    · exact ⟨_, List.mem_append_right _ (List.mem_singleton.2 rfl), hkey⟩

/-- Along a run the jobs that were updated are listed. -/
theorem Run.lists (h : Run s log fs) : s.Lists log fs := by
  induction h with
  | fresh hfresh => exact .of_isFresh hfresh
  | opened job _ ih => exact ih.of_opened (Files.within_openLock _ _)
  | held locked _ ih => exact ih.of_get?_eq fun _ => rfl
  | load job _ ih => exact ih.of_opened (within_load s job _)
  | update job f _ hok ih => exact ih.update hok
  | failed job f _ hfail ih => exact ih.of_opened (failsWithin_update s job f _ _ hfail)

/-- A key is listed as the stem of a name when the file of its ledger is there. -/
theorem mem_stems_iff {k : String} : k ∈ (fs.names s.directory).filterMap stem? ↔
    IsName (k ++ ".json") ∧ k ≠ "" ∧ fs.has (Path.join s.directory (k ++ ".json")) = true := by
  have hdirectory : Path.parts s.directory ≠ [] := by simp [parts_directory]
  rw [List.mem_filterMap]
  constructor
  · rintro ⟨n, hn, hstem⟩
    obtain ⟨rfl, hk⟩ := stem?_eq_some_iff.1 hstem
    have hname : IsName (k ++ ".json") := by
      refine .of_length ?_ (Files.slash_notMem_of_mem_names hn)
      rw [String.length_append, show ".json".length = 5 from rfl]
      omega
    exact ⟨hname, hk, (Files.mem_names_iff hdirectory hname).1 hn⟩
  · rintro ⟨hname, hk, hhas⟩
    exact ⟨_, (Files.mem_names_iff hdirectory hname).2 hhas, stem?_eq_some_iff.2 ⟨rfl, hk⟩⟩

/-- The names that are listed are the keys of the jobs that were changed. -/
theorem Lists.mem_stems_iff (h : s.Lists log fs) {k : String} :
    k ∈ (fs.names s.directory).filterMap stem? ↔ ∃ c ∈ log, key c.1 = k := by
  rw [Store.mem_stems_iff]
  constructor
  · rintro ⟨hname, -, hhas⟩
    exact h.only k hname hhas
  · rintro ⟨c, hc, rfl⟩
    exact ⟨isName_ledger c.1, key_ne_empty c.1, h.ledger c hc⟩

/-- No name is listed twice. -/
theorem nodup_stems (fs : Files) (d : String) : ((fs.names d).filterMap stem?).Nodup := by
  refine (Files.nodup_names fs d).filterMap fun a b k ha hb => ?_
  rw [(stem?_eq_some_iff.1 ha).1, (stem?_eq_some_iff.1 hb).1]

/-- Different texts are sorted into a strictly ascending order. -/
theorem strictlySorted_mergeSort {ks : List String} (h : ks.Nodup) :
    (ks.mergeSort Text.le).Pairwise (· < ·) := by
  have hsorted : (ks.mergeSort Text.le).Pairwise (· ≤ ·) := Text.pairwise_mergeSort_le id ks
  have hnodup : (ks.mergeSort Text.le).Nodup := (List.mergeSort_perm ks Text.le).nodup_iff.2 h
  exact (hsorted.and hnodup).imp fun ⟨hab, hne⟩ =>
    String.not_le.1 fun hba => hne (String.le_antisymm hab hba)

/-- Listing answers with the stems of the names in the directory, once a ledger was changed or the
directory was made otherwise. -/
theorem outcome_jobs (s : Store) (fs : Files) : outcome s.jobs fs = match fs.get? s.directory with
    | none => .ok []
    | some (.file _) => .error (.io ("not a directory: " ++ s.directory))
    | some .directory => .ok (((fs.names s.directory).filterMap stem?).mergeSort Text.le) := by
  rw [jobs, Files.outcome_get_bind]
  cases fs.get? s.directory with
  | none => rfl
  | some e => cases e <;> rfl

/-- Whatever the name of a job is, its ledger is right below the directory under a plain name, and its
key is its own key.  Whatever calls a store has answered, listing succeeds and gives, in strictly
ascending order, the keys of the jobs of which a change succeeded.  A key that is listed is as good
as any name of the job: both load the same, the ledger that the changes have made if the lock is free. -/
theorem Run.jobs_listed (h : Run s log fs) :
    (∀ job, Path.parts (s.file job) = Path.parts s.directory ++ [key job ++ ".json"] ∧
      IsName (key job ++ ".json") ∧ key (key job) = key job) ∧
    ∃ jobs, outcome s.jobs fs = .ok jobs ∧ jobs.Pairwise (· < ·) ∧
      (∀ k, k ∈ jobs ↔ ∃ c ∈ log, key c.1 = k) ∧
      ∀ k ∈ jobs, ∀ job, key job = k → s.load k = s.load job ∧
        outcome (s.load k) fs = if s.isHeld job fs then .error (.lockFailed (lockPath (s.file job)))
          else .ok (ledgerOf log job) := by
  have hlists := h.lists
  have hload (k job : String) (hkey : key job = k) : s.load k = s.load job ∧
      outcome (s.load k) fs = if s.isHeld job fs then .error (.lockFailed (lockPath (s.file job)))
        else .ok (ledgerOf log job) := by
    rw [← hkey, load_key]
    exact ⟨rfl, h.represents.outcome_load job⟩
  refine ⟨fun job => ⟨parts_file s job, isName_ledger job, key_key job⟩, ?_⟩
  rw [outcome_jobs]
  cases hentry : fs.get? s.directory with
  | none =>
    -- the directory is missing only as long as no ledger was changed
    have hlog : log = [] := by
      by_contra hne
      rw [hlists.directory hne] at hentry
      cases hentry
    exact ⟨[], rfl, .nil, by simp [hlog], by simp⟩
  | some e => cases e with
    | file text =>
      obtain ⟨d, hd, hparts⟩ := exists_mem_above_file s ""
      exact absurd ((Files.get?_congr hparts fs).trans hentry) (h.represents.way "" d hd text)
    | directory =>
      refine ⟨_, rfl, strictlySorted_mergeSort (nodup_stems _ _), fun k => ?_, fun k _ => hload k⟩
      rw [List.mem_mergeSort, hlists.mem_stems_iff]

/-- Two jobs were recorded, the ledger of a third one was to be changed in vain, and a fourth one was
only loaded: the keys of the first two are listed, and the first one is loaded by its key. -/
theorem Run.jobs_listed_team_app :
    let s : Store := ⟨".git"⟩
    let abandon (_ : Ledger) : Except Failure (Unit × Ledger) := .error (.operationFailed "abort")
    let first := after (s.update " team/app" (recording mergeBuild)) .empty
    let second := after (s.update "..." (recording mergeBuild)) first
    let fs := after (s.load "new.json") (after (s.update "lib" abandon) second)
    Run s [(" team/app", changed (recording mergeBuild)), ("...", changed (recording mergeBuild))] fs ∧
      ∃ jobs, outcome s.jobs fs = .ok jobs ∧ "team_app" ∈ jobs ∧ "_" ∈ jobs ∧ "lib" ∉ jobs ∧
        "new.json" ∉ jobs ∧ outcome (s.load "team_app") fs = .ok (.record .empty mergeBuild) := by
  intro s abandon first second fs
  have hfirst (job : String) : s.isHeld job first = false := by
    rw [isHeld_of_putsOnly (within_update s _ (recording mergeBuild) .empty)]
    rfl
  have hsecond (job : String) : s.isHeld job second = false := by
    rw [isHeld_of_putsOnly (within_update s _ (recording mergeBuild) first), hfirst]
  have hthird (job : String) : s.isHeld job fs = false := by
    rw [isHeld_of_putsOnly (within_load s _ _),
      isHeld_of_putsOnly (within_update s _ abandon second), hsecond]
  have hfresh : Run s [] .empty := .fresh (isFresh_empty s)
  have hok : outcome (s.update " team/app" (recording mergeBuild)) .empty = .ok () := by
    rw [hfresh.represents.outcome_update]
    rfl
  have hok' : outcome (s.update "..." (recording mergeBuild)) first = .ok () := by
    rw [(hfresh.update _ _ hok).represents.outcome_update, hfirst]
    rfl
  have hrun := (hfresh.update _ _ hok).update _ _ hok'
  have hfail : outcome (s.update "lib" abandon) second = .error (.operationFailed "abort") := by
    rw [hrun.represents.outcome_update, hsecond]
    rfl
  have hrun := (hrun.failed _ _ hfail).load "new.json"
  obtain ⟨-, jobs, hjobs, -, hmem, hload⟩ := hrun.jobs_listed
  have hteam : key " team/app" = "team_app" := by decide
  have hdots : key "..." = "_" := by decide
  have hlisted (k : String) : k ∈ jobs ↔ k = "team_app" ∨ k = "_" := by
    rw [hmem]
    simp [hteam, hdots, eq_comm]
  have hmem : "team_app" ∈ jobs := (hlisted _).2 (.inl rfl)
  refine ⟨hrun, jobs, hjobs, hmem, (hlisted _).2 (.inr rfl), ?_, ?_, ?_⟩
  · rw [hlisted]
    decide
  · rw [hlisted]
    decide
  rw [(hload _ hmem " team/app" hteam).2, hthird]
  rfl

end Store

end NextBuild
