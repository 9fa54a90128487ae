import Mathlib.Data.List.Nodup
import NextBuild.Proofs.Graph.Replacement

/-!
# The names of a listing

Tags and local branches are listed under their full names, and references of remotes without their
lead.  Nothing keeps what is left of the latter from being a full name again: the branch `tags/v1` of
a remote called `refs` is listed as `refs/tags/v1`, as is the tag.  These are the only references that
share a name, two at most.  So a name of the listing tells its reference exactly where no listed tag
or local branch has such a double, and in particular as long as no remote is called `refs`.
-/

namespace NextBuild

variable {full name : String}

/-- The name of a remote branch is shown without its lead. -/
theorem displayName_remote (name : String) : displayName ("refs/remotes/" ++ name) = name := by
  rw [displayName, Text.afterLead?_append, Option.getD_some]

/-- Every other name is shown as it is. -/
theorem displayName_of_not_remote (h : Text.startsWith "refs/remotes/" name = false) :
    displayName name = name := by
  rw [displayName, (Text.afterLead?_eq_none_iff _ _).2 h, Option.getD_none]

/-- A short form has two full names, one of a remote and one that is no name of a remote. -/
theorem displayName_eq_iff : displayName full = name ↔
    full = "refs/remotes/" ++ name ∨ full = name ∧ Text.startsWith "refs/remotes/" name = false := by
  constructor
  · intro h
    unfold displayName at h
    cases hlead : Text.afterLead? "refs/remotes/" full with
    | some rest =>
      rw [hlead, Option.getD_some] at h
      rw [← h, Text.append_of_afterLead? hlead]
      exact .inl rfl
    | none =>
      rw [hlead, Option.getD_none] at h
      rw [← h, ← Text.afterLead?_eq_none_iff]
      exact .inr ⟨rfl, hlead⟩
  · rintro (rfl | ⟨rfl, hremote⟩)
    · exact displayName_remote name
    · exact displayName_of_not_remote hremote

/-- Remote branches are always listed. -/
theorem isListed_remote (localBranches : Bool) (name : String) :
    isListed localBranches ("refs/remotes/" ++ name) = true := by
  rw [isListed, Text.startsWith_append name (by decide), Bool.true_or, Bool.true_or]

namespace MemoryGraph

variable {g : MemoryGraph} {calls : List Call}

/-- A reference of the graph is listed under a name. -/
structure Lists (g : MemoryGraph) (full name : String) : Prop where
  mem : full ∈ g.refs.keys
  listed : isListed g.localBranches full = true
  name : displayName full = name

/-- A tag or local branch is listed, and a remote has a reference that is listed under its name. -/
structure Doubled (g : MemoryGraph) (name : String) : Prop where
  mem : name ∈ g.refs.keys
  listed : isListed g.localBranches name = true
  not_remote : Text.startsWith "refs/remotes/" name = false
  remote : "refs/remotes/" ++ name ∈ g.refs.keys

/-- A doubled name is the name of two references. -/
theorem doubled_iff : g.Doubled name ↔ g.Lists ("refs/remotes/" ++ name) name ∧ g.Lists name name := by
  constructor
  · intro h
    exact ⟨⟨h.remote, isListed_remote _ name, displayName_remote name⟩,
      ⟨h.mem, h.listed, displayName_of_not_remote h.not_remote⟩⟩
  · rintro ⟨hremote, hown⟩
    refine ⟨hown.mem, hown.listed, ?_, hremote.mem⟩
    rcases displayName_eq_iff.1 hown.name with hlead | ⟨-, hnot⟩
    · exact absurd (congrArg String.length hlead) (by simp)
    · exact hnot

/-- Two references with one name are the two of a doubled name. -/
theorem Lists.eq_of_not_doubled {other : String} (h : g.Lists full name) (h' : g.Lists other name)
    (hsingle : ¬ g.Doubled name) : full = other := by
  rcases displayName_eq_iff.1 h.name with rfl | ⟨rfl, -⟩ <;>
    rcases displayName_eq_iff.1 h'.name with rfl | ⟨rfl, -⟩
  · rfl
  · exact absurd (doubled_iff.2 ⟨h, h'⟩) hsingle
  · exact absurd (doubled_iff.2 ⟨h', h⟩) hsingle
  · rfl

/-- A name tells its reference where it is not doubled. -/
theorem existsUnique_lists_iff :
    (∃! full, g.Lists full name) ↔ (∃ full, g.Lists full name) ∧ ¬ g.Doubled name := by
  constructor
  · rintro ⟨full, hfull, hunique⟩
    refine ⟨⟨full, hfull⟩, fun hdouble => ?_⟩
    obtain ⟨hremote, hown⟩ := doubled_iff.1 hdouble
    have hsame : "refs/remotes/" ++ name = name := (hunique _ hremote).trans (hunique _ hown).symm
    exact absurd (congrArg String.length hsame) (by simp)
  · rintro ⟨⟨full, hfull⟩, hsingle⟩
    exact ⟨full, hfull, fun other hother => hother.eq_of_not_doubled hfull hsingle⟩

/-- The names of the listing are those of the listed references, in another order. -/
theorem perm_names (g : MemoryGraph) : (g.branches.map (·.name)).Perm
    ((g.refs.keys.filter (isListed g.localBranches)).map displayName) := by
  refine ((List.mergeSort_perm _ _).map _).trans (.of_eq ?_)
  rw [Table.keys, List.filter_map, List.map_map, List.map_map]
  rfl

/-- The names that are listed are those under which references are shown. -/
theorem mem_names_iff : name ∈ g.branches.map (·.name) ↔ ∃ full, g.Lists full name := by
  rw [g.perm_names.mem_iff, List.mem_map]
  constructor
  · rintro ⟨full, hfull, hname⟩
    obtain ⟨hmem, hlisted⟩ := List.mem_filter.1 hfull
    exact ⟨full, hmem, hlisted, hname⟩
  · rintro ⟨full, hmem, hlisted, hname⟩
    exact ⟨full, List.mem_filter.2 ⟨hmem, hlisted⟩, hname⟩

/-- The listing has different names exactly where none is doubled. -/
theorem nodup_names_iff : (g.branches.map (·.name)).Nodup ↔ ∀ name, ¬ g.Doubled name := by
  rw [g.perm_names.nodup_iff, List.nodup_map_iff_inj_on (g.refs.nodup_keys.filter _)]
  constructor
  · intro h name hdouble
    obtain ⟨hremote, hown⟩ := doubled_iff.1 hdouble
    have hsame := h _ (List.mem_filter.2 ⟨hremote.mem, hremote.listed⟩) _
      (List.mem_filter.2 ⟨hown.mem, hown.listed⟩) (hremote.name.trans hown.name.symm)
    exact absurd (congrArg String.length hsame) (by simp)
  · intro h full hfull other hother hname
    obtain ⟨hmem, hlisted⟩ := List.mem_filter.1 hfull
    obtain ⟨hmem', hlisted'⟩ := List.mem_filter.1 hother
    exact Lists.eq_of_not_doubled ⟨hmem, hlisted, rfl⟩ ⟨hmem', hlisted', hname.symm⟩ (h _)

/-- The names of a listing differ exactly where no listed tag or local branch has a double among the
references of remotes.  And whatever else is listed, a name tells its reference exactly where it is
listed and not doubled. -/
theorem branchNames_tell_references (g : MemoryGraph) :
    ((g.branches.map (·.name)).Nodup ↔ ∀ name, ¬ g.Doubled name) ∧
      ∀ name, (∃! full, g.Lists full name) ↔
        name ∈ g.branches.map (·.name) ∧ ¬ g.Doubled name := by
  refine ⟨nodup_names_iff, fun name => ?_⟩
  rw [existsUnique_lists_iff, mem_names_iff]

/-- Calls that set a tag, and the branch of a remote that writes the full name of the tag. -/
def doublingCalls : List Call :=
  [.addCommit olderCommit [] 100, .addCommit newerCommit [olderCommit] 200,
    .setRef "refs/tags/v1" olderCommit, .setRef "refs/remotes/refs/tags/v1" newerCommit]

/-- The two references, which point to different commits, are listed under one name. -/
theorem not_nodup_names_doublingCalls :
    (empty.afterAll doublingCalls).branches =
        [⟨"refs/tags/v1", newerCommit⟩, ⟨"refs/tags/v1", olderCommit⟩] ∧
      ¬ ((empty.afterAll doublingCalls).branches.map (·.name)).Nodup := by
  have hlisted : ((empty.afterAll doublingCalls).refs.entries.filter
      fun e => isListed (empty.afterAll doublingCalls).localBranches e.1).map
        (fun e => Branch.mk (displayName e.1) e.2) =
      [⟨"refs/tags/v1", newerCommit⟩, ⟨"refs/tags/v1", olderCommit⟩] := by decide
  have hbranches : (empty.afterAll doublingCalls).branches =
      [⟨"refs/tags/v1", newerCommit⟩, ⟨"refs/tags/v1", olderCommit⟩] := by
    rw [branches, hlisted]
    exact List.mergeSort_of_pairwise (by decide)
  refine ⟨hbranches, ?_⟩
  rw [hbranches]
  decide

/-! ## Remotes called `refs` -/

/-- A reference that is there after a call was there before, or the call has set it. -/
theorem mem_keys_of_after {k : Call} (h : name ∈ (g.after k).refs.keys) :
    name ∈ g.refs.keys ∨ ∃ c, k = .setRef name c := by
  unfold after at h
  split at h
  · next g' hk =>
    cases k with
    | addCommit id parents time => exact .inl ((addCommit_eq_ok hk).2 ▸ h)
    | setRef other c =>
      rw [(setRef_eq_ok hk).2.2, Table.mem_keys_iff, Table.get?_insert] at h
      by_cases hname : name = other
      · exact .inr ⟨c, by rw [hname]⟩
      · rw [if_neg hname, ← Table.mem_keys_iff] at h
        exact .inl h
    | removeRef other =>
      cases hk
      exact .inl ((List.filter_sublist.map _).subset h)
    | setFetchHead c =>
      cases hk
      exact .inl h
  · exact .inl h

/-- What is there after calls was there before, or one of them has set it. -/
theorem mem_keys_of_afterAll (h : name ∈ (g.afterAll calls).refs.keys) :
    name ∈ g.refs.keys ∨ ∃ c, .setRef name c ∈ calls := by
  induction calls using List.reverseRecOn with
  | nil => exact .inl h
  | append_singleton calls k ih =>
    rw [afterAll_concat] at h
    rcases mem_keys_of_after h with hbefore | ⟨c, rfl⟩
    · rcases ih hbefore with hstart | ⟨c, hc⟩
      · exact .inl hstart
      · exact .inr ⟨c, List.mem_append_left _ hc⟩
    · exact .inr ⟨c, by simp⟩

/-- The double of a name is a reference of a remote called `refs`. -/
theorem Doubled.startsWith_refs_remotes_refs (h : g.Doubled name) :
    Text.startsWith "refs/remotes/refs/" ("refs/remotes/" ++ name) = true := by
  have hlead := startsWith_refs_of_isListed h.listed
  have hsplit : "refs/remotes/refs/".toList = "refs/remotes/".toList ++ "refs/".toList := by decide
  unfold Text.startsWith at *
  rw [List.isPrefixOf_iff_prefix] at *
  rw [String.toList_append, hsplit]
  exact (List.prefix_append_right_inj _).2 hlead

/-- Whatever is called on a graph that begins empty, the names of its listing differ as long as no
reference of a remote called `refs` is set. -/
theorem nodup_names_afterAll {localBranches : Bool}
    (h : ∀ name c, .setRef name c ∈ calls → Text.startsWith "refs/remotes/refs/" name = false) :
    ((afterAll { empty with localBranches } calls).branches.map (·.name)).Nodup := by
  refine nodup_names_iff.2 fun name hdouble => ?_
  rcases mem_keys_of_afterAll hdouble.remote with hstart | ⟨c, hc⟩
  · cases hstart
  · exact absurd hdouble.startsWith_refs_remotes_refs (by rw [h _ c hc]; decide)

end MemoryGraph

end NextBuild
