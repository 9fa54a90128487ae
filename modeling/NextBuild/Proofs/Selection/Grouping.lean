import Mathlib.Data.List.Induction
import NextBuild.Revision

/-!
# Grouping branches by commit

Grouping a list of branches is determined by two lists that are read off it: the commits, each once
and in the order in which they are first seen, and for a commit the names that point to it, again
each once and in their order.  One more branch at the end of the list either extends the names of
its commit or brings in a new commit at the end, and this is what the grouping does with it.
-/

namespace NextBuild

/-- The first occurrences in a longer list: the last entry counts if it is new. -/
theorem eraseDups_concat {α : Type} [DecidableEq α] (xs : List α) (a : α) :
    (xs ++ [a]).eraseDups = if a ∈ xs then xs.eraseDups else xs.eraseDups ++ [a] := by
  rw [List.eraseDups_append]
  by_cases h : a ∈ xs <;> simp [List.removeAll, List.eraseDups_cons, h]

/-- No entry is left twice. -/
theorem nodup_eraseDups {α : Type} [DecidableEq α] (xs : List α) : xs.eraseDups.Nodup := by
  induction xs using List.reverseRecOn with
  | nil => simp
  | append_singleton xs a ih =>
    rw [eraseDups_concat]
    split
    · exact ih
    · next h =>
      rw [List.nodup_append]
      refine ⟨ih, by simp, fun b hb c hc => ?_⟩
      intro heq
      subst heq
      rw [List.mem_singleton] at hc
      exact h (hc ▸ List.mem_eraseDups.1 hb)

/-- The commits that branches point to, in the order in which they are first seen. -/
def commitsOf (bs : List Branch) : List CommitId :=
  (bs.map (·.commit)).eraseDups

/-- The names of the branches that point to a commit, in the order in which they are first seen. -/
def namesAt (bs : List Branch) (c : CommitId) : List String :=
  ((bs.filter fun b => b.commit = c).map (·.name)).eraseDups

/-- Each commit is listed once. -/
theorem nodup_commitsOf (bs : List Branch) : (commitsOf bs).Nodup := nodup_eraseDups _

/-- The commits that are listed are those of the branches. -/
theorem mem_commitsOf {bs : List Branch} {c : CommitId} :
    c ∈ commitsOf bs ↔ ∃ b ∈ bs, b.commit = c := by
  simp [commitsOf, List.mem_eraseDups]

/-- The names at a commit are those of its branches. -/
theorem mem_namesAt {bs : List Branch} {c : CommitId} {name : String} :
    name ∈ namesAt bs c ↔ (⟨name, c⟩ : Branch) ∈ bs := by
  simp only [namesAt, List.mem_eraseDups, List.mem_map, List.mem_filter, decide_eq_true_eq]
  constructor
  · intro h
    obtain ⟨b, ⟨hb, rfl⟩, rfl⟩ := h
    exact hb
  · intro h
    exact ⟨_, ⟨h, rfl⟩, rfl⟩

/-- A commit of the list has a name, and no other commit has one. -/
theorem mem_commitsOf_iff_namesAt {bs : List Branch} {c : CommitId} :
    c ∈ commitsOf bs ↔ ∃ name, name ∈ namesAt bs c := by
  simp only [mem_commitsOf, mem_namesAt]
  constructor
  · intro h
    obtain ⟨b, hb, rfl⟩ := h
    exact ⟨b.name, hb⟩
  · intro h
    obtain ⟨name, h⟩ := h
    exact ⟨_, h, rfl⟩

/-- One more branch adds its commit if it is new. -/
theorem commitsOf_concat (bs : List Branch) (b : Branch) :
    commitsOf (bs ++ [b]) =
      if b.commit ∈ commitsOf bs then commitsOf bs else commitsOf bs ++ [b.commit] := by
  simp only [commitsOf, List.map_append, List.map_singleton, eraseDups_concat, List.mem_eraseDups]

/-- One more branch adds its name at its own commit, if it is not there. -/
theorem namesAt_concat (bs : List Branch) (b : Branch) (c : CommitId) :
    namesAt (bs ++ [b]) c =
      if b.commit = c ∧ b.name ∉ namesAt bs c then namesAt bs c ++ [b.name] else namesAt bs c := by
  by_cases hc : b.commit = c
  · have hsplit : namesAt (bs ++ [b]) c =
        (((bs.filter fun b => b.commit = c).map (·.name)) ++ [b.name]).eraseDups := by
      simp [namesAt, List.filter_append, hc]
    have hmem : b.name ∈ namesAt bs c ↔ b.name ∈ (bs.filter fun b => b.commit = c).map (·.name) :=
      List.mem_eraseDups
    rw [hsplit, eraseDups_concat]
    by_cases hn : b.name ∈ namesAt bs c
    · rw [if_pos (hmem.1 hn), if_neg (by simp [hn])]
      rfl
    · rw [if_neg fun h => hn (hmem.2 h), if_pos ⟨hc, hn⟩]
      rfl
  · simp [namesAt, List.filter_append, hc]

namespace Revision

/-- The revision of a commit with branches of these names. -/
def ofNames (c : CommitId) (names : List String) : Revision :=
  ⟨c, names.map fun name => ⟨name, c⟩⟩

/-- A revision made of names has the commit that it is made for. -/
@[simp]
theorem commit_ofNames (c : CommitId) (names : List String) : (ofNames c names).commit = c := rfl

/-- A revision made of names has these names. -/
theorem names_ofNames (c : CommitId) (names : List String) : (ofNames c names).names = names := by
  simp [ofNames, Revision.names, Function.comp_def]

/-- Adding a name to a revision adds it to its names, unless it is there. -/
theorem add_ofNames (c : CommitId) (names : List String) (name : String) :
    (ofNames c names).add name = ofNames c (if name ∈ names then names else names ++ [name]) := by
  unfold add
  by_cases h : name ∈ names <;> simp [hasName, ofNames, h]

/-- A branch is put to the revision of its commit, or behind all revisions. -/
theorem insertBranch_map (names : CommitId → List String) (b : Branch) {cs : List CommitId}
    (hcs : cs.Nodup) :
    insertBranch b (cs.map fun c => ofNames c (names c)) =
      if b.commit ∈ cs then
        cs.map fun c => if c = b.commit then (ofNames c (names c)).add b.name else ofNames c (names c)
      else cs.map (fun c => ofNames c (names c)) ++ [labelled b.commit b.name] := by
  induction cs with
  | nil => rfl
  | cons d cs ih =>
    obtain ⟨hd, hcs⟩ := List.nodup_cons.1 hcs
    rw [List.map_cons, insertBranch, commit_ofNames]
    by_cases hdb : d = b.commit
    · have hrest : ∀ c ∈ cs, ¬ c = b.commit := by
        intro c hc heq
        subst heq
        exact hd (hdb ▸ hc)
      have hmap : (cs.map fun c => if c = b.commit then (ofNames c (names c)).add b.name
          else ofNames c (names c)) = cs.map fun c => ofNames c (names c) :=
        List.map_congr_left fun c hc => if_neg (hrest c hc)
      simp only [hdb, if_true, List.mem_cons, true_or, List.map_cons]
      rw [hmap]
    · have hbd : ¬ b.commit = d := fun h => hdb h.symm
      rw [if_neg hdb, ih hcs]
      by_cases hb : b.commit ∈ cs <;> simp [hb, hbd, hdb]

/-- Grouping gives each commit, in the order in which it is first seen, with its names. -/
theorem group_eq (bs : List Branch) :
    group bs = (commitsOf bs).map fun c => ofNames c (namesAt bs c) := by
  induction bs using List.reverseRecOn with
  | nil => rfl
  | append_singleton bs b ih =>
    have hstep : group (bs ++ [b]) = insertBranch b (group bs) := by
      simp [group, List.foldl_append]
    rw [hstep, ih, insertBranch_map _ b (nodup_commitsOf bs), commitsOf_concat]
    by_cases hb : b.commit ∈ commitsOf bs
    · rw [if_pos hb, if_pos hb]
      refine List.map_congr_left fun c _ => ?_
      rw [namesAt_concat]
      by_cases hc : c = b.commit
      · rw [if_pos hc, add_ofNames]
        by_cases hn : b.name ∈ namesAt bs c <;> simp [hn, hc.symm]
      · have hbc : ¬ b.commit = c := fun h => hc h.symm
        simp [hc, hbc]
    · rw [if_neg hb, if_neg hb, List.map_append, List.map_singleton]
      have hnone : namesAt bs b.commit = [] := by
        by_contra hne
        obtain ⟨name, hname⟩ := List.exists_mem_of_ne_nil _ hne
        exact hb (mem_commitsOf_iff_namesAt.2 ⟨name, hname⟩)
      congr 1
      · refine List.map_congr_left fun c hc => ?_
        have hbc : ¬ b.commit = c := fun h => hb (h ▸ hc)
        simp [namesAt_concat, hbc]
      · rw [namesAt_concat, hnone]
        simp [labelled, ofCommit, ofNames, add, hasName]

end Revision

end NextBuild
