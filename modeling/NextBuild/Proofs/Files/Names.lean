import Mathlib.Data.List.Nodup
import NextBuild.Proofs.Files.Paths

/-!
# Names in a directory

A directory has no list of its own: what is right below it is read off the paths of all entries.  A
plain name is listed exactly when something is at the path of the name below the directory, and no
name is listed twice.
-/

namespace NextBuild

namespace Path

variable {d n : String}

/-- One more part is written behind a slash. -/
theorem ofParts_concat {ds : List String} (hd : ds ≠ []) (n : String) :
    ofParts (ds ++ [n]) = ofParts ds ++ "/" ++ n := by
  induction ds with
  | nil => exact absurd rfl hd
  | cons m ds ih =>
    cases ds with
    | nil =>
      apply String.toList_injective
      simp [ofParts]
    | cons m' ds =>
      rw [List.cons_append, List.cons_append, ofParts_cons, ← List.cons_append, ih (by simp),
        ofParts_cons]
      simp only [String.append_assoc]

/-- The key of a file in a directory is that of the directory with the name behind it. -/
theorem key_join_name (hd : parts d ≠ []) (hn : IsName n) : key (join d n) = key d ++ "/" ++ n := by
  rw [key, parts_join_name d hn, ofParts_concat hd, key]

end Path

namespace Files

variable {fs : Files} {d n : String}

/-- A plain name is listed when something is there. -/
theorem mem_names_iff (hd : Path.parts d ≠ []) (hn : Path.IsName n) :
    n ∈ fs.names d ↔ fs.has (Path.join d n) = true := by
  have hpath : fs.get? (Path.join d n) = fs.entries.get? (Path.key d ++ "/" ++ n) := by
    rw [get?, Path.parts_join_name d hn, Path.key_join_name hd hn, if_neg (by simp)]
  have hslash : Text.hasChar '/' n = false := by simpa [Text.hasChar] using hn.slash_notMem
  simp only [names, List.mem_filter, hslash, Bool.not_false, and_true, List.mem_filterMap, has, hpath,
    ← Table.mem_keys_iff]
  constructor
  · rintro ⟨k, hk, hlead⟩
    rwa [Text.append_of_afterLead? hlead]
  · intro h
    exact ⟨_, h, Text.afterLead?_append _ _⟩

/-- There is no slash in a name of a directory. -/
theorem slash_notMem_of_mem_names (h : n ∈ fs.names d) : '/' ∉ n.toList := by
  simpa [Text.hasChar] using (List.mem_filter.1 h).2

/-- No name is listed twice. -/
theorem nodup_names (fs : Files) (d : String) : (fs.names d).Nodup := by
  refine List.Nodup.filter _ ?_
  refine (Table.nodup_keys fs.entries).filterMap fun a b n ha hb => ?_
  rw [Option.mem_def] at ha hb
  rw [← Text.append_of_afterLead? ha, ← Text.append_of_afterLead? hb]

end Files

end NextBuild
