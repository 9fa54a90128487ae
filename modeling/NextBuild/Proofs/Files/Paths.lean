import Mathlib.Data.List.Basic
import NextBuild.Files

/-!
# Paths and their parts

The file system knows a path by its parts: blank parts and `.` are left out, and `..` takes back the
part before it.  So every part is a plain name, and two paths are the same place exactly when they
have the same parts.  A path below a directory goes on where the parts of the directory end; a plain
name there is one more part.
-/

namespace NextBuild

namespace Text

variable {c : Char} {part xs : List Char}

/-- Around a separator the parts are those before it and those behind it. -/
theorem splitFrom_append (c : Char) (part xs ys : List Char) :
    splitFrom c part (xs ++ c :: ys) = splitFrom c part xs ++ splitFrom c [] ys := by
  induction xs generalizing part with
  | nil => simp [splitFrom]
  | cons d xs ih =>
    by_cases hd : d = c
    · simp [splitFrom, hd, ih]
    · simp [splitFrom, hd, ih]

/-- A text without the separator is one part. -/
theorem splitFrom_of_notMem (h : c ∉ xs) : splitFrom c part xs = [part.reverse ++ xs] := by
  induction xs generalizing part with
  | nil => simp [splitFrom]
  | cons d xs ih =>
    obtain ⟨hd, hxs⟩ := List.ne_and_not_mem_of_not_mem_cons h
    simp [splitFrom, Ne.symm hd, ih hxs]

/-- No part has the separator in it. -/
theorem notMem_of_mem_splitFrom (hpart : c ∉ part) {p : List Char} (hp : p ∈ splitFrom c part xs) :
    c ∉ p := by
  induction xs generalizing part with
  | nil =>
    rw [splitFrom, List.mem_singleton] at hp
    simpa [hp] using hpart
  | cons d xs ih =>
    rw [splitFrom] at hp
    split at hp
    · rcases List.mem_cons.1 hp with rfl | hp
      · simpa using hpart
      · exact ih List.not_mem_nil hp
    · next hd => exact ih (List.not_mem_cons_of_ne_of_not_mem (Ne.symm hd) hpart) hp

/-- A slash between two paths splits them. -/
theorem splitOn_slash_append (a b : String) :
    splitOn '/' (a ++ "/" ++ b) = splitOn '/' a ++ splitOn '/' b := by
  have hslash : "/".toList = ['/'] := rfl
  simp only [splitOn, String.toList_append, hslash, List.append_assoc, List.singleton_append,
    splitFrom_append, List.map_append]

end Text

namespace Path

/-- The text names an entry of a directory. -/
structure IsName (n : String) : Prop where
  ne_empty : n ≠ ""
  ne_dot : n ≠ "."
  ne_dots : n ≠ ".."
  slash_notMem : '/' ∉ n.toList

variable {a b d n path : String} {ns : List String}

/-- A name is not split. -/
theorem IsName.splitOn_eq (h : IsName n) : Text.splitOn '/' n = [n] := by
  rw [Text.splitOn, Text.splitFrom_of_notMem h.slash_notMem]
  simp

/-- A name does not begin with a slash. -/
theorem IsName.startsWith_slash (h : IsName n) : Text.startsWith "/" n = false := by
  rw [← Bool.not_eq_true, Text.startsWith, List.isPrefixOf_iff_prefix]
  intro hlead
  exact h.slash_notMem (hlead.subset List.mem_cons_self)

/-- Parts are read from left to right, so those read so far stand for what was before. -/
theorem normalFrom_append (done ps qs : List String) :
    normalFrom done (ps ++ qs) = normalFrom (normalFrom done ps).reverse qs := by
  fun_induction normalFrom done ps with
  | case1 done => simp
  | case2 done p ps hp ih => rw [List.cons_append, normalFrom, if_pos hp, ih]
  | case3 done ps hp ih => rw [List.cons_append, normalFrom, if_neg hp, if_pos rfl, ih]
  | case4 done p ps hp hp' ih => rw [List.cons_append, normalFrom, if_neg hp, if_neg hp', ih]

/-- Plain names are all kept. -/
theorem normalFrom_of_names (done : List String) (h : ∀ n ∈ ns, IsName n) :
    normalFrom done ns = done.reverse ++ ns := by
  induction ns generalizing done with
  | nil => simp [normalFrom]
  | cons n ns ih =>
    obtain ⟨hn, hns⟩ := List.forall_mem_cons.1 h
    have hplain : ¬ (n = "" ∨ n = ".") := not_or.2 ⟨hn.ne_empty, hn.ne_dot⟩
    rw [normalFrom, if_neg hplain, if_neg hn.ne_dots, ih _ hns]
    simp

/-- Reading parts leaves nothing but plain names. -/
theorem isName_of_mem_normalFrom {done ps : List String} (hdone : ∀ n ∈ done, IsName n)
    (hps : ∀ p ∈ ps, '/' ∉ p.toList) (h : n ∈ normalFrom done ps) : IsName n := by
  fun_induction normalFrom done ps with
  | case1 done => exact hdone n (List.mem_reverse.1 h)
  | case2 done p ps hp ih => exact ih hdone (List.forall_mem_cons.1 hps).2 h
  | case3 done ps hp ih =>
    exact ih (fun m hm => hdone m (List.mem_of_mem_drop hm)) (List.forall_mem_cons.1 hps).2 h
  | case4 done p ps hp hp' ih =>
    obtain ⟨hslash, hps⟩ := List.forall_mem_cons.1 hps
    obtain ⟨hempty, hdot⟩ := not_or.1 hp
    exact ih (List.forall_mem_cons.2 ⟨⟨hempty, hdot, hp', hslash⟩, hdone⟩) hps h

/-- The parts of a path are names. -/
theorem isName_of_mem_parts (h : n ∈ parts path) : IsName n := by
  refine isName_of_mem_normalFrom (by simp) (fun p hp => ?_) h
  obtain ⟨cs, hcs, rfl⟩ := List.mem_map.1 hp
  rw [String.toList_ofList]
  exact Text.notMem_of_mem_splitFrom List.not_mem_nil hcs

/-- An empty path has no parts. -/
theorem parts_empty : parts "" = [] := by decide

/-- Behind a slash the parts go on. -/
theorem parts_slash (a b : String) :
    parts (a ++ "/" ++ b) = normalFrom (parts a).reverse (Text.splitOn '/' b) := by
  rw [parts, Text.splitOn_slash_append, normalFrom_append]
  rfl

/-- The first of several parts stands before a slash. -/
theorem ofParts_cons (n m : String) (ns : List String) :
    ofParts (n :: m :: ns) = n ++ "/" ++ ofParts (m :: ns) := by
  apply String.toList_injective
  simp [ofParts, String.toList_intercalate]

/-- The path of plain names is split into these names. -/
theorem splitOn_ofParts (hne : ns ≠ []) (h : ∀ n ∈ ns, IsName n) :
    Text.splitOn '/' (ofParts ns) = ns := by
  induction ns with
  | nil => exact absurd rfl hne
  | cons n ns ih =>
    obtain ⟨hn, hns⟩ := List.forall_mem_cons.1 h
    cases ns with
    | nil =>
      have hone : ofParts [n] = n := by
        apply String.toList_injective
        simp [ofParts]
      rw [hone, hn.splitOn_eq]
    | cons m ns =>
      rw [ofParts_cons, Text.splitOn_slash_append, hn.splitOn_eq, ih (by simp) hns]
      rfl

/-- The path of plain names has these names as its parts. -/
theorem parts_ofParts (h : ∀ n ∈ ns, IsName n) : parts (ofParts ns) = ns := by
  by_cases hne : ns = []
  · rw [hne]
    exact parts_empty
  · rw [parts, splitOn_ofParts hne h, normalFrom_of_names [] h]
    rfl

/-- Two paths are the same place when they have the same parts. -/
theorem key_eq_iff : key a = key b ↔ parts a = parts b := by
  constructor
  · intro h
    have hparts := congrArg parts h
    rwa [key, key, parts_ofParts fun _ => isName_of_mem_parts,
      parts_ofParts fun _ => isName_of_mem_parts] at hparts
  · intro h
    rw [key, key, h]

/-- A path that is put below a directory goes on from there. -/
theorem parts_join (h : Text.startsWith "/" path = false) :
    parts (join d path) = normalFrom (parts d).reverse (Text.splitOn '/' path) := by
  rw [join, h, if_neg Bool.false_ne_true]
  split
  · next hd =>
    rcases Bool.or_eq_true_iff.1 hd with hempty | hslash
    · rw [String.isEmpty_iff.1 hempty, String.empty_append, parts_empty]
      rfl
    · obtain ⟨cs, hcs⟩ := List.isSuffixOf_iff_suffix.1 hslash
      have hd : d = String.ofList cs ++ "/" := by
        apply String.toList_injective
        rw [String.toList_append, String.toList_ofList, hcs]
      have hsame : parts d = parts (String.ofList cs) := by
        rw [hd, ← String.append_empty (s := String.ofList cs ++ "/"), parts_slash]
        simp [Text.splitOn, Text.splitFrom, normalFrom]
      rw [hsame, hd, parts_slash]
  · exact parts_slash d path

/-- A name below a directory is one more part. -/
theorem parts_join_name (d : String) (h : IsName n) : parts (join d n) = parts d ++ [n] := by
  rw [parts_join h.startsWith_slash, h.splitOn_eq,
    normalFrom_of_names _ (List.forall_mem_singleton.2 h), List.reverse_reverse]

/-- A directory above a path has some of its first parts, and not all of them. -/
theorem parts_of_mem_above (h : d ∈ above path) :
    parts d <+: parts path ∧ (parts d).length < (parts path).length := by
  obtain ⟨n, hn, rfl⟩ := List.mem_map.1 h
  have hlt := List.mem_range.1 hn
  have hnames : ∀ m ∈ (parts path).take (n + 1), IsName m :=
    fun m hm => isName_of_mem_parts (List.mem_of_mem_take hm)
  rw [parts_ofParts hnames]
  refine ⟨List.take_prefix _ _, ?_⟩
  rw [List.length_take]
  omega

/-- The directories above a path are read off its parts but the last one. -/
theorem above_eq_of_parts {ds : List String} (h : parts path = ds ++ [n]) :
    above path = (List.range ds.length).map fun i => ofParts (ds.take (i + 1)) := by
  rw [above, h, List.length_append, List.length_singleton, Nat.add_sub_cancel]
  refine List.map_congr_left fun i hi => ?_
  rw [List.take_append_of_le_length (List.mem_range.1 hi)]

end Path

end NextBuild
