import NextBuild.Proofs.Selection.Listing
import NextBuild.Proofs.StableSort
import NextBuild.Strategy.Comparator

/-!
# Sorting in place is all or nothing

A comparator that can read all times never keeps a failure, so the sort that it drives is a merge sort
by these times.  As the times are read before, a failure leaves the list as it was.  The sorted list is
determined by the entries, up to the order of those with one commit, which stay as they were.
-/

namespace NextBuild

variable {g : CommitGraph} {rs rs' sorted : List Revision}

/-! ## A sort that asks questions -/

section Sorting

variable {σ α : Type} {cmp : α → α → StateT σ Inquiry Ordering} {le : α → α → Bool} {s : σ}
  {xs ys : List α}

/-- The comparison leaves its state as it is, and tells whether the first entry may come first. -/
def Decides (g : CommitGraph) (cmp : α → α → StateT σ Inquiry Ordering) (s : σ) (le : α → α → Bool)
    (a b : α) : Prop :=
  ∃ order, ((cmp a b).run s).run g = .ok (order, s) ∧ order.isLE = le a b

/-- Merging with a comparison that decides is merging by its order. -/
theorem run_mergeBy (h : ∀ a ∈ xs, ∀ b ∈ ys, Decides g cmp s le a b) :
    ((mergeBy cmp xs ys).run s).run g = .ok (xs.merge ys le, s) := by
  fun_induction mergeBy cmp xs ys with
  | case1 ys => simp
  | case2 x xs => simp
  | case3 x xs y ys ihLeft ihRight =>
    obtain ⟨order, hrun, hle⟩ := h x List.mem_cons_self y List.mem_cons_self
    have hleft := ihLeft fun a ha => h a (List.mem_cons_of_mem x ha)
    have hright := ihRight fun a ha b hb => h a ha b (List.mem_cons_of_mem y hb)
    rw [StateT.run_bind, Inquiry.run_bind, hrun, ok_bind, List.cons_merge_cons, ← hle]
    dsimp only
    cases order.isLE with
    | true =>
      rw [if_pos rfl, if_pos rfl, StateT.run_bind, Inquiry.run_bind, hleft]
      rfl
    | false =>
      rw [if_neg Bool.false_ne_true, if_neg Bool.false_ne_true, StateT.run_bind, Inquiry.run_bind,
        hright]
      rfl

/-- A sort with a comparison that decides on all entries is a merge sort. -/
theorem run_sortBy (h : ∀ a ∈ xs, ∀ b ∈ xs, Decides g cmp s le a b) :
    ((sortBy cmp xs).run s).run g = .ok (xs.mergeSort le, s) := by
  fun_induction sortBy cmp xs with
  | case1 => simp
  | case2 a => simp
  | case3 a b xs half ihLeft ihRight =>
    have hhalf : ((a :: b :: xs).length + 1) / 2 = half := rfl
    have hleft := ihLeft fun c hc d hd => h c (List.mem_of_mem_take hc) d (List.mem_of_mem_take hd)
    have hright := ihRight fun c hc d hd => h c (List.mem_of_mem_drop hc) d (List.mem_of_mem_drop hd)
    rw [StateT.run_bind, Inquiry.run_bind, hleft, ok_bind, StateT.run_bind, Inquiry.run_bind, hright,
      ok_bind, List.mergeSort]
    simp only [List.MergeSort.Internal.splitInTwo_fst, List.MergeSort.Internal.splitInTwo_snd, hhalf]
    apply run_mergeBy
    intro c hc d hd
    rw [List.mem_mergeSort] at hc hd
    exact h c (List.mem_of_mem_take hc) d (List.mem_of_mem_drop hd)

end Sorting

/-! ## The sort of revisions -/

/-- What a graph tells of the time of a commit, where it can be read. -/
def timeIn (g : CommitGraph) (c : CommitId) : Int64 :=
  (g (.commitTime c)).toOption.getD 0

/-- A time that can be read is the time of its commit. -/
theorem timeIn_eq {c : CommitId} {t : Int64} (h : g (.commitTime c) = .ok t) : timeIn g c = t := by
  rw [timeIn, h]
  rfl

/-- The first failure to read a time is the one that reading all times ends with. -/
theorem run_unreadable? (g : CommitGraph) (rs : List Revision) :
    (unreadable? rs).run g =
      .ok (match rs.mapM fun r => g (.commitTime r.commit) with
        | .ok _ => none
        | .error f => some f) := by
  induction rs with
  | nil => rfl
  | cons r rs ih =>
    rw [unreadable?, Inquiry.run_bind, Inquiry.run_attempt, ok_bind, List.mapM_cons]
    cases g (.commitTime r.commit) with
    | error f => rfl
    | ok t =>
      dsimp only
      rw [ih, ok_bind]
      cases rs.mapM fun r => g (.commitTime r.commit) <;> rfl

/-- A walk that cannot be opened ends the sort of more than one revision. -/
theorem run_sortOldestFirst_of_closed {f : Failure} (hlong : ¬ rs.length < 2)
    (hwalk : g .openWalk = .error f) : (sortOldestFirst rs).run g = .error f := by
  rw [sortOldestFirst, if_neg hlong, Inquiry.run_bind, Inquiry.run_query, hwalk, error_bind]

/-- So does a time that cannot be read. -/
theorem run_sortOldestFirst_of_unread {f : Failure} (hlong : ¬ rs.length < 2)
    (hwalk : g .openWalk = .ok ()) (hread : (rs.mapM fun r => g (.commitTime r.commit)) = .error f) :
    (sortOldestFirst rs).run g = .error f := by
  have hentry (r : Revision) :
      (do return (← Inquiry.query (.commitTime r.commit), r) : Inquiry (Int64 × Revision)).run g =
        do return (← g (.commitTime r.commit), r) := by
    rw [Inquiry.run_bind, Inquiry.run_query]
    rfl
  have hpairs : (rs.mapM fun r : Revision => do
      return (← Inquiry.query (.commitTime r.commit), r)).run g = .error f := by
    rw [Inquiry.run_mapM, funext hentry, mapM_pair fun r : Revision => g (.commitTime r.commit), hread]
    rfl
  rw [sortOldestFirst, if_neg hlong, Inquiry.run_bind, Inquiry.run_query, hwalk, ok_bind,
    Inquiry.run_bind, hpairs, error_bind]

/-- Sorting in place keeps a list that cannot be sorted, and else leaves the sorted one. -/
theorem run_sortInPlace (g : CommitGraph) (rs : List Revision) :
    (sortInPlace rs).run g = .ok (match (sortOldestFirst rs).run g with
      | .ok sorted => (none, sorted)
      | .error f => (some f, rs)) := by
  by_cases hshort : rs.length < 2
  · rw [sortInPlace, if_pos hshort, sortOldestFirst, if_pos hshort]
    rfl
  rw [sortInPlace, if_neg hshort, Inquiry.run_bind, Inquiry.run_attempt, ok_bind]
  cases hwalk : g .openWalk with
  | error f =>
    rw [run_sortOldestFirst_of_closed hshort hwalk]
    rfl
  | ok _ =>
    dsimp only
    rw [Inquiry.run_bind, run_unreadable?, ok_bind]
    cases hread : rs.mapM fun r => g (.commitTime r.commit) with
    | error f =>
      rw [run_sortOldestFirst_of_unread hshort hwalk hread]
      rfl
    | ok times =>
      have htime (r : Revision) (hr : r ∈ rs) :
          g (.commitTime r.commit) = .ok (timeIn g r.commit) := by
        obtain ⟨t, ht⟩ := exists_value_of_mapM hread r hr
        rw [timeIn_eq ht, ht]
      have hdecides : ∀ a ∈ rs, ∀ b ∈ rs, Decides g comparator none
          (fun a b => isOlder (timeIn g a.commit, a) (timeIn g b.commit, b)) a b := by
        intro a ha b hb
        obtain ⟨order, hrun, hle⟩ := exists_compareTimes (htime a ha) (htime b hb)
        exact ⟨order, hrun, Bool.eq_iff_iff.2 hle⟩
      rw [run_sortOldestFirst hwalk htime]
      dsimp only
      rw [Inquiry.run_bind, run_sortBy hdecides]
      rfl

/-- The second list is the first one, sorted from old to new, where commits of the same time are in
the order of their ids, and revisions of the same commit are left in their order. -/
structure OldestFirst (g : CommitGraph) (rs sorted : List Revision) : Prop where
  perm : sorted.Perm rs
  ordered : sorted.Pairwise fun a b => ∃ s t,
    g (.commitTime a.commit) = .ok s ∧ g (.commitTime b.commit) = .ok t ∧
      (s < t ∨ s = t ∧ a.commit.text ≤ b.commit.text)
  stable : ∀ c, sorted.filter (fun r => r.commit = c) = rs.filter fun r => r.commit = c

/-- A list of at most one revision is sorted. -/
theorem OldestFirst.of_short (h : rs.length < 2) : OldestFirst g rs rs := by
  refine ⟨.refl rs, ?_, fun _ => rfl⟩
  match rs, h with
  | [], _ => exact .nil
  | [r], _ => exact List.pairwise_singleton _ r

/-- Where all times can be read, the merge sort by them puts the oldest revisions first. -/
theorem OldestFirst.of_times {time : CommitId → Int64}
    (htime : ∀ r ∈ rs, g (.commitTime r.commit) = .ok (time r.commit)) :
    OldestFirst g rs (oldestFirst time rs) := by
  constructor
  case perm => exact perm_oldestFirst time rs
  case ordered =>
    refine (pairwise_oldestFirst time rs).imp_of_mem ?_
    intro a b ha hb hab
    refine ⟨_, _, htime a ((perm_oldestFirst time rs).mem_iff.1 ha),
      htime b ((perm_oldestFirst time rs).mem_iff.1 hb), ?_⟩
    rw [Int64.lt_iff_toInt_lt, ← Int64.toInt_inj]
    exact isOlder_iff.1 hab
  case stable =>
    intro c
    apply filter_mergeSort
    · intro a b d
      exact isOlder_trans _ _ _
    · intro a b
      exact isOlder_total _ _
    · intro a b ha hb
      have hcommit : a.commit = b.commit := (of_decide_eq_true ha).trans (of_decide_eq_true hb).symm
      rw [isOlder_iff, hcommit]
      exact .inr ⟨rfl, String.le_refl _⟩

/-- All that sorting asks a graph about a list is answered. -/
def IsReadable (g : CommitGraph) (rs : List Revision) : Prop :=
  g .openWalk = .ok () ∧ ∀ r ∈ rs, ∃ t, g (.commitTime r.commit) = .ok t

/-- Every time of a readable list is read. -/
theorem IsReadable.time_eq (h : IsReadable g rs) :
    ∀ r ∈ rs, g (.commitTime r.commit) = .ok (timeIn g r.commit) := by
  intro r hr
  obtain ⟨t, ht⟩ := h.2 r hr
  rw [timeIn_eq ht, ht]

/-- A list of at most one revision is sorted without any question, and a longer one if all questions
are answered. -/
theorem exists_oldestFirst (h : rs.length < 2 ∨ IsReadable g rs) :
    ∃ sorted, (sortOldestFirst rs).run g = .ok sorted ∧ OldestFirst g rs sorted := by
  rcases h with hshort | hreadable
  · exact ⟨rs, by rw [sortOldestFirst, if_pos hshort, Inquiry.run_pure], .of_short hshort⟩
  · exact ⟨_, run_sortOldestFirst hreadable.1 hreadable.time_eq, .of_times hreadable.time_eq⟩

/-- No other list is sorted. -/
theorem exists_error_of_sortOldestFirst (h : ¬ (rs.length < 2 ∨ IsReadable g rs)) :
    ∃ f, (sortOldestFirst rs).run g = .error f := by
  obtain ⟨hlong, hunreadable⟩ := not_or.1 h
  cases hwalk : g .openWalk with
  | error f => exact ⟨f, run_sortOldestFirst_of_closed hlong hwalk⟩
  | ok _ =>
    cases hread : rs.mapM fun r => g (.commitTime r.commit) with
    | error f => exact ⟨f, run_sortOldestFirst_of_unread hlong hwalk hread⟩
    | ok times => exact absurd ⟨hwalk, exists_value_of_mapM hread⟩ hunreadable

/-- From any order of revisions of distinct commits the sort leads to the same list. -/
theorem run_sortOldestFirst_congr (h : rs.length < 2 ∨ IsReadable g rs)
    (hdistinct : (rs.map (·.commit)).Nodup) (hperm : rs'.Perm rs) :
    (sortOldestFirst rs').run g = (sortOldestFirst rs).run g := by
  rcases h with hshort | hreadable
  · match rs, hshort with
    | [], _ => rw [hperm.eq_nil]
    | [r], _ => rw [hperm.eq_singleton]
  · exact (run_sortOldestFirst_of_perm hperm.symm hdistinct hreadable.1 hreadable.1
      hreadable.time_eq hreadable.time_eq).symm

/-- What sorting in place answers, and how it leaves the list. -/
structure SortsInPlace (g : CommitGraph) (rs : List Revision) (failed : Option Failure)
    (left : List Revision) : Prop where
  succeeds_iff : failed = none ↔ rs.length < 2 ∨ IsReadable g rs
  oldestFirst : failed = none → OldestFirst g rs left
  /-- The order of revisions of distinct commits makes no difference. -/
  canonical : failed = none → (rs.map (·.commit)).Nodup →
    ∀ rs' : List Revision, rs'.Perm rs → (sortInPlace rs').run g = .ok (none, left)
  /-- A time that cannot be read is a failure, unless the revision is the only one. -/
  unread : 2 ≤ rs.length → (∃ r ∈ rs, ∃ f, g (.commitTime r.commit) = .error f) → failed ≠ none
  unchanged : failed ≠ none → left = rs
  /-- The sort that strategies use comes to the same. -/
  sortOldestFirst_eq : (sortOldestFirst rs).run g = failed.elim (.ok left) .error

/-- Sorting in place is all or nothing: whatever a graph answers, it either leaves the list sorted,
revisions of one commit in their order, which for distinct commits is the same list from any order;
or it fails, which it does if a time cannot be read, and leaves the list as it was. -/
theorem sortInPlace_all_or_nothing (g : CommitGraph) (rs : List Revision) :
    ∃ failed left, (sortInPlace rs).run g = .ok (failed, left) ∧ SortsInPlace g rs failed left := by
  have hunread (hlong : 2 ≤ rs.length)
      (h : ∃ r ∈ rs, ∃ f, g (.commitTime r.commit) = .error f) :
      ¬ (rs.length < 2 ∨ IsReadable g rs) := by
    obtain ⟨r, hr, f, hf⟩ := h
    rintro (hshort | hreadable)
    · omega
    · obtain ⟨t, ht⟩ := hreadable.2 r hr
      rw [hf] at ht
      cases ht
  by_cases hready : rs.length < 2 ∨ IsReadable g rs
  · obtain ⟨sorted, hrun, hsorted⟩ := exists_oldestFirst hready
    refine ⟨none, sorted, by rw [run_sortInPlace, hrun], ?_⟩
    constructor
    case succeeds_iff => simpa using hready
    case oldestFirst => exact fun _ => hsorted
    case canonical =>
      intro _ hdistinct rs' hperm
      rw [run_sortInPlace, run_sortOldestFirst_congr hready hdistinct hperm, hrun]
    case unread => exact fun hlong h => absurd hready (hunread hlong h)
    case unchanged => exact fun h => absurd rfl h
    case sortOldestFirst_eq => exact hrun
  · obtain ⟨f, hrun⟩ := exists_error_of_sortOldestFirst hready
    refine ⟨some f, rs, by rw [run_sortInPlace, hrun], ?_⟩
    constructor
    case succeeds_iff => simpa using hready
    case oldestFirst => exact fun h => nomatch h
    case canonical => exact fun h => nomatch h
    case unread => exact fun _ _ => Option.some_ne_none f
    case unchanged => exact fun _ => rfl
    case sortOldestFirst_eq => exact hrun

end NextBuild
