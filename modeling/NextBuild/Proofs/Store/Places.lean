import NextBuild.Proofs.Files.Paths
import NextBuild.Store

/-!
# The places of ledgers

The file of a job's ledger and the file of its lock stand side by side in one directory, under plain
names that are read off the key of the job.  So two jobs have the same file exactly when they have
the same key, and no file of a ledger is the file of a lock.
-/

namespace NextBuild

namespace Path

variable {n t : String}

/-- A text of more than two characters is a plain name if no slash is in it. -/
theorem IsName.of_length (hlong : 2 < n.length) (hslash : '/' ∉ n.toList) : IsName n := by
  refine ⟨?_, ?_, ?_, hslash⟩ <;>
    · rintro rfl
      exact absurd hlong (by decide)

/-- What is appended to a name below a directory is appended to the path. -/
theorem join_append (d : String) (hn : IsName n) (hnt : IsName (n ++ t)) :
    join d n ++ t = join d (n ++ t) := by
  rw [join, join, hn.startsWith_slash, hnt.startsWith_slash, if_neg Bool.false_ne_true,
    if_neg Bool.false_ne_true]
  split
  · exact String.append_assoc
  · simp only [String.append_assoc]

end Path

namespace Store

open NextBuild.Path (IsName)

variable {s : Store} {job other : String}

/-- The key of a job is made of the characters that may stand in names of files. -/
theorem isKeyChar_of_mem_key {c : Char} (h : c ∈ (key job).toList) : isKeyChar c = true := by
  unfold key at h
  dsimp only at h
  split at h
  · rw [show c = '_' by simpa using h]
    decide
  · rw [String.toList_ofList] at h
    obtain ⟨d, -, rfl⟩ := List.mem_map.1 h
    split
    · next hd => exact hd
    · decide

/-- A key with an extension is a plain name. -/
theorem isName_key_append {ext : String} (hslash : '/' ∉ ext.toList) (hlong : 2 < ext.length) :
    IsName (key job ++ ext) := by
  refine .of_length ?_ ?_
  · rw [String.length_append]
    omega
  · rw [String.toList_append, List.mem_append, not_or]
    refine ⟨fun h => ?_, hslash⟩
    exact absurd (isKeyChar_of_mem_key h) (by decide)

/-- The file of a job has a name. -/
theorem isName_ledger (job : String) : IsName (key job ++ ".json") :=
  isName_key_append (by decide) (by decide)

/-- The lock of a job has a name. -/
theorem isName_lock (job : String) : IsName (key job ++ ".json.lock") :=
  isName_key_append (by decide) (by decide)

/-- The file of a ledger is right below the directory of the ledgers. -/
theorem parts_file (s : Store) (job : String) :
    Path.parts (s.file job) = Path.parts s.directory ++ [key job ++ ".json"] :=
  Path.parts_join_name _ (isName_ledger job)

/-- The file of a lock is beside the file of the ledger. -/
theorem parts_lockPath (s : Store) (job : String) :
    Path.parts (Files.lockPath (s.file job)) = Path.parts s.directory ++ [key job ++ ".json.lock"] := by
  have happend : key job ++ ".json" ++ ".lock" = key job ++ ".json.lock" := String.append_assoc
  have hname : IsName (key job ++ ".json" ++ ".lock") := by
    rw [happend]
    exact isName_lock job
  rw [Files.lockPath, file, Path.join_append _ (isName_ledger job) hname,
    Path.parts_join_name _ hname, happend]

/-- The directory of the ledgers is two levels below the git directory. -/
theorem parts_directory (s : Store) :
    Path.parts s.directory = Path.parts s.gitDirectory ++ ["revsel", "history"] := by
  have hsplit : Text.splitOn '/' "revsel/history" = ["revsel", "history"] := by decide
  have hnames : ∀ n ∈ ["revsel", "history"], IsName n :=
    List.forall_mem_cons.2 ⟨⟨by decide, by decide, by decide, by decide⟩,
      List.forall_mem_singleton.2 ⟨by decide, by decide, by decide, by decide⟩⟩
  rw [directory, Path.parts_join (by decide), hsplit, Path.normalFrom_of_names _ hnames,
    List.reverse_reverse]

/-- The same directories are above all files of ledgers and locks. -/
theorem above_lockPath (s : Store) (job other : String) :
    Path.above (Files.lockPath (s.file job)) = Path.above (s.file other) := by
  rw [Path.above_eq_of_parts (parts_lockPath s job), Path.above_eq_of_parts (parts_file s other)]

/-- Two ledgers have the same file when the keys of their jobs are the same. -/
theorem parts_file_eq_iff :
    Path.parts (s.file job) = Path.parts (s.file other) ↔ key job = key other := by
  rw [parts_file, parts_file, List.append_cancel_left_eq, List.singleton_inj]
  exact String.append_left_inj _

/-- The names of ledgers and the names of locks end differently. -/
theorem json_ne_lock (n k : String) : n ++ ".json" ≠ k ++ ".json.lock" := by
  intro h
  have hlast := congrArg (fun n : String => n.toList.getLast?) h
  simp [String.toList_append] at hlast

/-- No file of a ledger is the file of a lock. -/
theorem parts_file_ne_lockPath (s : Store) (job other : String) :
    Path.parts (s.file job) ≠ Path.parts (Files.lockPath (s.file other)) := by
  rw [parts_file, parts_lockPath, Ne, List.append_cancel_left_eq, List.singleton_inj]
  exact json_ne_lock _ _

end Store

end NextBuild
