import Mathlib.Data.List.Basic
import NextBuild.Proofs.Revision
import NextBuild.Revision.Gathering

/-!
# The partition of branches by their commits

Grouping is the one way to divide branches among revisions such that the commits differ, stand in the
order in which they are first seen, and have the names that were paired with them, each once and again
in order.  The index of a gathering stays in step with its revisions, whatever comes in between two
branches of a commit: it has a place for a commit exactly if the revision at that place has this
commit.  So each branch finds its revision, and gathering is grouping.
-/

namespace NextBuild

/-! ## First occurrences -/

section FirstSeen

variable {α : Type} [DecidableEq α] {xs ys : List α}

/-- The entries of a list, each of them once, in the order in which they are first seen. -/
structure FirstSeen (xs ys : List α) : Prop where
  nodup : ys.Nodup
  mem_iff : ∀ a, a ∈ ys ↔ a ∈ xs
  order : ys.Pairwise fun a b => xs.idxOf a < xs.idxOf b

/-- Without repetitions a list is in the order of first occurrence. -/
theorem pairwise_idxOf_eraseDups (xs : List α) :
    xs.eraseDups.Pairwise fun a b => xs.idxOf a < xs.idxOf b := by
  induction xs using List.reverseRecOn with
  | nil => simp
  | append_singleton xs x ih =>
    have hidx {a : α} (ha : a ∈ xs.eraseDups) : (xs ++ [x]).idxOf a = xs.idxOf a :=
      List.idxOf_append_of_mem (List.mem_eraseDups.1 ha)
    have hold : xs.eraseDups.Pairwise fun a b => (xs ++ [x]).idxOf a < (xs ++ [x]).idxOf b :=
      ih.imp_of_mem fun ha hb hab => by rwa [hidx ha, hidx hb]
    rw [eraseDups_concat]
    split
    · exact hold
    · next hx =>
      refine List.pairwise_append.2 ⟨hold, List.pairwise_singleton _ _, fun a ha b hb => ?_⟩
      rw [List.mem_singleton.1 hb, hidx ha, List.idxOf_append_of_notMem hx]
      have hlt := List.idxOf_lt_length_of_mem (List.mem_eraseDups.1 ha)
      omega

/-- First occurrences are told by the list. -/
theorem firstSeen_iff : FirstSeen xs ys ↔ ys = xs.eraseDups := by
  constructor
  · intro h
    have hperm : ys.Perm xs.eraseDups :=
      (List.perm_ext_iff_of_nodup h.nodup (nodup_eraseDups xs)).2 fun a => by
        rw [h.mem_iff, List.mem_eraseDups]
    refine hperm.eq_of_pairwise (fun a b _ _ hab hba => ?_) h.order (pairwise_idxOf_eraseDups xs)
    exact absurd hab (Nat.lt_asymm hba)
  · rintro rfl
    exact ⟨nodup_eraseDups xs, fun _ => List.mem_eraseDups, pairwise_idxOf_eraseDups xs⟩

end FirstSeen

/-! ## Partitions -/

namespace Revision

variable {bs : List Branch} {rs : List Revision} {r : Revision} {b : Branch}

/-- Revisions divide branches among their commits. -/
structure Partition (bs : List Branch) (rs : List Revision) : Prop where
  commits : FirstSeen (bs.map (·.commit)) (rs.map (·.commit))
  /-- A revision has the names that are paired with its commit. -/
  names : ∀ r ∈ rs, FirstSeen ((bs.filter fun b => b.commit = r.commit).map (·.name)) r.names
  commit : ∀ r ∈ rs, ∀ b ∈ r.branches, b.commit = r.commit
  nonempty : ∀ r ∈ rs, r.branches ≠ []

/-- Grouping the branches by commits is a partition. -/
theorem partition_group (bs : List Branch) : Partition bs (group bs) := by
  have hcommits : (group bs).map (·.commit) = commitsOf bs := by
    rw [group_eq, List.map_map]
    exact List.map_id (commitsOf bs)
  have hnames : ∀ r ∈ group bs, r.names = namesAt bs r.commit := by
    intro r hr
    rw [group_eq] at hr
    obtain ⟨c, -, rfl⟩ := List.mem_map.1 hr
    exact names_ofNames c _
  constructor
  case commits => exact firstSeen_iff.2 hcommits
  case names => exact fun r hr => firstSeen_iff.2 (hnames r hr)
  case commit => exact fun r hr => (isWellFormed_of_mem_group hr).commit
  case nonempty =>
    intro r hr hnone
    have hcommit : r.commit ∈ commitsOf bs := hcommits ▸ List.mem_map_of_mem hr
    obtain ⟨name, hname⟩ := mem_commitsOf_iff_namesAt.1 hcommit
    rw [← hnames r hr, Revision.names, hnone] at hname
    cases hname

/-- Branches are divided in one way. -/
theorem Partition.eq_group (h : Partition bs rs) : rs = group bs := by
  have hcommits : rs.map (·.commit) = commitsOf bs := firstSeen_iff.1 h.commits
  have hrevision : ∀ r ∈ rs, ofNames r.commit (namesAt bs r.commit) = r := by
    intro r hr
    have hnames : r.names = namesAt bs r.commit := firstSeen_iff.1 (h.names r hr)
    have hwell : r.IsWellFormed := ⟨(h.names r hr).nodup, h.commit r hr⟩
    rw [← hnames, ← hwell.eq_ofNames]
  rw [group_eq, ← hcommits, List.map_map]
  exact ((List.map_congr_left hrevision).trans (List.map_id rs)).symm

/-! ## Branches that come one after the other -/

/-- A branch goes to the first revision of its commit. -/
theorem insertBranch_append {front back : List Revision}
    (hfront : ∀ s ∈ front, s.commit ≠ b.commit) (hr : r.commit = b.commit) :
    insertBranch b (front ++ r :: back) = front ++ r.add b.name :: back := by
  induction front with
  | nil => rw [List.nil_append, insertBranch, if_pos hr, List.nil_append]
  | cons s front ih =>
    rw [List.cons_append, insertBranch, if_neg (hfront s List.mem_cons_self),
      ih fun t ht => hfront t (List.mem_cons_of_mem s ht), List.cons_append]

/-- A branch of a new commit begins a revision at the end. -/
theorem insertBranch_of_new (hnew : ∀ s ∈ rs, s.commit ≠ b.commit) :
    insertBranch b rs = rs ++ [labelled b.commit b.name] := by
  induction rs with
  | nil => rfl
  | cons s rs ih =>
    rw [insertBranch, if_neg (hnew s List.mem_cons_self),
      ih fun t ht => hnew t (List.mem_cons_of_mem s ht), List.cons_append]

/-- Further names of the commit at the end are added there. -/
theorem foldl_insertBranch_last {names : List String} (hnew : ∀ s ∈ rs, s.commit ≠ r.commit) :
    (names.map fun name => (⟨name, r.commit⟩ : Branch)).foldl (fun rs b => insertBranch b rs)
      (rs ++ [r]) = rs ++ [r.addAll names] := by
  induction names generalizing r with
  | nil => rfl
  | cons name names ih =>
    rw [List.map_cons, List.foldl_cons, insertBranch_append hnew rfl]
    have hrest := ih (r := r.add name) (by rwa [commit_add])
    rwa [commit_add] at hrest

/-- The branches of a revision of a new commit make up this revision again. -/
theorem IsWellFormed.foldl_insertBranch (h : r.IsWellFormed) (hsome : r.branches ≠ [])
    (hnew : ∀ s ∈ rs, s.commit ≠ r.commit) :
    r.branches.foldl (fun rs b => insertBranch b rs) rs = rs ++ [r] := by
  obtain ⟨name, names, hnames⟩ : ∃ name names, r.names = name :: names :=
    List.exists_cons_of_ne_nil fun hnil => hsome (List.map_eq_nil_iff.1 hnil)
  have hbranches : r.branches = ⟨name, r.commit⟩ :: names.map fun name => ⟨name, r.commit⟩ := by
    rw [congrArg branches h.eq_ofNames, ofNames, hnames, List.map_cons]
  have hfirst := insertBranch_of_new (b := ⟨name, r.commit⟩) hnew
  have hrest := @foldl_insertBranch_last rs (labelled r.commit name) names hnew
  have hall : (labelled r.commit name).addAll names = r := by
    have hnodup : ([] ++ name :: names).Nodup := hnames ▸ h.names
    have hadded := @addAll_ofNames r.commit (name :: names) [] hnodup
    conv_rhs => rw [h.eq_ofNames, hnames]
    exact hadded
  rw [hbranches, List.foldl_cons, hfirst]
  rw [commit_labelled] at hrest
  rw [hrest, hall]

/-- Revisions of different commits are found again among their branches. -/
theorem group_flatMap_branches (hdistinct : (rs.map (·.commit)).Nodup)
    (hrs : ∀ r ∈ rs, r.IsWellFormed ∧ r.branches ≠ []) : group (rs.flatMap (·.branches)) = rs := by
  induction rs using List.reverseRecOn with
  | nil => rfl
  | append_singleton rs r ih =>
    rw [List.map_append, List.map_singleton, List.nodup_append] at hdistinct
    have hfront := ih hdistinct.1 fun s hs => hrs s (List.mem_append_left _ hs)
    obtain ⟨hwell, hsome⟩ := hrs r (by simp)
    have hnew : ∀ s ∈ rs, s.commit ≠ r.commit := fun s hs =>
      hdistinct.2.2 s.commit (List.mem_map_of_mem hs) r.commit List.mem_cons_self
    rw [List.flatMap_append, List.flatMap_singleton, group, List.foldl_append]
    rw [group] at hfront
    rw [hfront, hwell.foldl_insertBranch hsome hnew]

end Revision

/-! ## Gathering -/

/-- An entry of a longer list is one of the list or the last one. -/
theorem getElem?_concat_eq_some_iff {α : Type} {xs : List α} {x a : α} {i : Nat} :
    (xs ++ [x])[i]? = some a ↔ xs[i]? = some a ∨ xs.length = i ∧ x = a := by
  grind

namespace Gathering

variable {s : Gathering} {c : CommitId} {i : Nat}

/-- The index gives the places of the commits in the list, and no others. -/
def InStep (s : Gathering) : Prop :=
  ∀ c i, s.places.lookup c = some i ↔ (s.revisions.map (·.commit))[i]? = some c

/-- At the start nothing is indexed. -/
theorem inStep_start : start.InStep := fun c i => by simp [start]

/-- At the place of a commit stands its only revision. -/
theorem InStep.exists_split (h : s.InStep) (hplace : s.places.lookup c = some i) :
    ∃ front r back, s.revisions = front ++ r :: back ∧ front.length = i ∧ r.commit = c ∧
      ∀ t ∈ front, t.commit ≠ c := by
  have hcommit := (h c i).1 hplace
  rw [List.getElem?_map, Option.map_eq_some_iff] at hcommit
  obtain ⟨r, hr, hc⟩ := hcommit
  obtain ⟨hlt, hget⟩ := List.getElem?_eq_some_iff.1 hr
  refine ⟨s.revisions.take i, r, s.revisions.drop (i + 1), ?_, ?_, hc, ?_⟩
  · rw [← hget, List.getElem_cons_drop, List.take_append_drop]
  · rw [List.length_take, Nat.min_eq_left (Nat.le_of_lt hlt)]
  · intro t ht htc
    obtain ⟨j, hj, rfl⟩ := List.mem_iff_getElem.1 ht
    rw [List.length_take] at hj
    have hearlier : s.places.lookup c = some j := by
      rw [h c j, List.getElem?_map, List.getElem?_eq_getElem (by omega), Option.map_some, ← htc,
        List.getElem_take]
    rw [hplace, Option.some.injEq] at hearlier
    omega

/-- A commit without a place has no revision. -/
theorem InStep.commit_ne (h : s.InStep) (hplace : s.places.lookup c = none) :
    ∀ t ∈ s.revisions, t.commit ≠ c := by
  intro t ht htc
  obtain ⟨j, hj, rfl⟩ := List.mem_iff_getElem.1 ht
  have hsome := (h c j).2 (by rw [List.getElem?_map, List.getElem?_eq_getElem hj, Option.map_some, htc])
  rw [hplace] at hsome
  cases hsome

/-- A branch finds its revision, by way of the index as well as by a look at all revisions. -/
theorem InStep.exists_put? (h : s.InStep) (b : Branch) :
    ∃ t, s.put? b = some t ∧ t.InStep ∧ t.revisions = Revision.insertBranch b s.revisions := by
  cases hplace : s.places.lookup b.commit with
  | some i =>
    obtain ⟨front, r, back, hrevisions, rfl, hr, hfront⟩ := h.exists_split hplace
    refine ⟨⟨s.places, front ++ r.add b.name :: back⟩, ?_, fun c i => ?_, ?_⟩
    · simp [put?, place, hplace, hrevisions]
    · rw [h c i, hrevisions]
      simp
    · rw [hrevisions, Revision.insertBranch_append hfront hr]
  | none =>
    have hnew := h.commit_ne hplace
    refine ⟨⟨(b.commit, s.revisions.length) :: s.places,
      s.revisions ++ [.labelled b.commit b.name]⟩, ?_, fun c i => ?_, ?_⟩
    · simp [put?, place, hplace, Revision.labelled]
    · have hnone : ¬ (s.revisions.map (·.commit))[i]? = some b.commit := fun hold => by
        rw [← h b.commit i, hplace] at hold
        cases hold
      rw [List.map_append, List.map_singleton, getElem?_concat_eq_some_iff, List.length_map,
        Revision.commit_labelled, List.lookup_cons]
      by_cases hc : c = b.commit
      · simp only [hc, beq_self_eq_true, Option.some.injEq, hnone, false_or, and_true]
      · have hbc : ¬ b.commit = c := fun hbc => hc hbc.symm
        simp [beq_false_of_ne hc, h c i, hbc]
    · rw [Revision.insertBranch_of_new hnew]

/-- From revisions that are in step, all branches find their revisions. -/
theorem InStep.exists_foldlM_put? (h : s.InStep) (bs : List Branch) :
    ∃ t, bs.foldlM put? s = some t ∧ t.InStep ∧
      t.revisions = bs.foldl (fun rs b => Revision.insertBranch b rs) s.revisions := by
  induction bs generalizing s with
  | nil => exact ⟨s, rfl, h, rfl⟩
  | cons b bs ih =>
    obtain ⟨t, hput, ht, hrevisions⟩ := h.exists_put? b
    obtain ⟨u, hrest, hu, hall⟩ := ih ht
    refine ⟨u, ?_, hu, ?_⟩
    · rw [List.foldlM_cons, hput]
      exact hrest
    · rw [hall, hrevisions, List.foldl_cons]

/-- The loop over the branches succeeds with their grouping. -/
theorem gather?_eq (bs : List Branch) : gather? bs = some (Revision.group bs) := by
  obtain ⟨t, hput, -, hrevisions⟩ := inStep_start.exists_foldlM_put? bs
  rw [gather?, hput, Option.map_some, hrevisions]
  rfl

end Gathering

/-- Gathering with the index always has an answer, which is the grouping.  The grouping is the
partition of the branches and there is no other one, and the branches of its revisions, put one behind
the other, are grouped in the same way again. -/
theorem Revision.group_partitions (bs : List Branch) :
    Gathering.gather? bs = some (group bs) ∧ (∀ rs, Partition bs rs ↔ rs = group bs) ∧
      group ((group bs).flatMap (·.branches)) = group bs := by
  have hpartition := partition_group bs
  refine ⟨Gathering.gather?_eq bs, fun rs => ⟨fun h => h.eq_group, ?_⟩, ?_⟩
  · rintro rfl
    exact hpartition
  · exact group_flatMap_branches hpartition.commits.nodup fun r hr =>
      ⟨isWellFormed_of_mem_group hr, hpartition.nonempty r hr⟩

end NextBuild
