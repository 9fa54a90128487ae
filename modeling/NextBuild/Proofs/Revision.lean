import NextBuild.Proofs.Selection.Grouping

/-!
# Well-formed revisions

The branches of a revision have names of their own and point to the commit of the revision.  Whatever
is made from a commit by adding and taking away branches is like that, and nothing else is.
-/

namespace NextBuild.Revision

variable {r : Revision} {c : CommitId} {names : List String}

/-- The branches have different names, and all of them point to the commit. -/
structure IsWellFormed (r : Revision) : Prop where
  names : r.names.Nodup
  commit : ∀ b ∈ r.branches, b.commit = r.commit

instance : Decidable r.IsWellFormed :=
  decidable_of_iff (r.names.Nodup ∧ ∀ b ∈ r.branches, b.commit = r.commit)
    ⟨fun h => ⟨h.1, h.2⟩, fun h => ⟨h.names, h.commit⟩⟩

/-- A revision made of names is well formed if no name occurs twice. -/
theorem isWellFormed_ofNames_iff : (ofNames c names).IsWellFormed ↔ names.Nodup := by
  constructor
  · intro h
    rw [← names_ofNames c names]
    exact h.names
  · intro h
    refine ⟨(names_ofNames c names).symm ▸ h, fun b hb => ?_⟩
    obtain ⟨name, -, rfl⟩ := List.mem_map.1 hb
    rfl

/-- A well-formed revision is told by its commit and its names. -/
theorem IsWellFormed.eq_ofNames (h : r.IsWellFormed) : r = ofNames r.commit r.names := by
  obtain ⟨c, bs⟩ := r
  have hbranches : bs.map (fun b => (⟨b.name, c⟩ : Branch)) = bs := by
    refine (List.map_congr_left fun b hb => ?_).trans (List.map_id bs)
    exact congrArg (Branch.mk b.name) (h.commit b hb).symm
  simp only [ofNames, Revision.names, List.map_map, Function.comp_def, hbranches]

/-- A revision without branches is well formed. -/
theorem isWellFormed_ofCommit (c : CommitId) : (ofCommit c).IsWellFormed :=
  isWellFormed_ofNames_iff.2 .nil

/-- Adding a name keeps a revision well formed. -/
theorem IsWellFormed.add (h : r.IsWellFormed) (name : String) : (r.add name).IsWellFormed := by
  rw [h.eq_ofNames, add_ofNames, isWellFormed_ofNames_iff]
  split
  · exact h.names
  · next hnew =>
    refine List.nodup_append.2 ⟨h.names, by simp, fun a ha b hb heq => hnew ?_⟩
    rwa [← List.mem_singleton.1 hb, ← heq]

/-- Adding names keeps a revision well formed. -/
theorem IsWellFormed.addAll (h : r.IsWellFormed) (names : List String) :
    (r.addAll names).IsWellFormed := by
  induction names generalizing r with
  | nil => exact h
  | cons name names ih => exact ih (h.add name)

/-- A revision of one label is well formed. -/
theorem isWellFormed_labelled (c : CommitId) (label : String) : (labelled c label).IsWellFormed :=
  (isWellFormed_ofCommit c).add label

/-- Leaving out branches keeps a revision well formed. -/
theorem IsWellFormed.filter (h : r.IsWellFormed) (keep : Branch → Bool) :
    (r.filter keep).IsWellFormed where
  names := h.names.sublist (List.filter_sublist.map _)
  commit := fun b hb => h.commit b (List.mem_filter.1 hb).1

/-- Revisions that branches are grouped into are well formed. -/
theorem isWellFormed_of_mem_group {bs : List Branch} (h : r ∈ group bs) : r.IsWellFormed := by
  rw [group_eq] at h
  obtain ⟨c, -, rfl⟩ := List.mem_map.1 h
  exact isWellFormed_ofNames_iff.2 (nodup_eraseDups _)

/-- New names are added one behind the other. -/
theorem addAll_ofNames {done : List String} (h : (done ++ names).Nodup) :
    (ofNames c done).addAll names = ofNames c (done ++ names) := by
  induction names generalizing done with
  | nil => rw [List.append_nil]; rfl
  | cons name names ih =>
    have hnew : name ∉ done := fun hmem =>
      (List.nodup_append.1 h).2.2 name hmem name List.mem_cons_self rfl
    rw [List.append_cons] at h ⊢
    rw [← ih h, addAll, List.foldl_cons, add_ofNames, if_neg hnew]
    rfl

/-- A revision is well formed exactly when it can be made from its commit by adding branches. -/
theorem isWellFormed_iff_addAll : r.IsWellFormed ↔ ∃ c names, (ofCommit c).addAll names = r := by
  constructor
  · intro h
    refine ⟨r.commit, r.names, ?_⟩
    have hnames : ([] ++ r.names).Nodup := h.names
    conv_rhs => rw [h.eq_ofNames]
    exact addAll_ofNames hnames
  · rintro ⟨c, names, rfl⟩
    exact (isWellFormed_ofCommit c).addAll names

end NextBuild.Revision
