import NextBuild.Proofs.Graph.Results
import NextBuild.Strategy.Candidates

/-!
# Revisions in the order of time

Sorting puts revisions into the order of their committer times, and of their ids where the times are
the same.  On revisions of distinct commits this order is strict, so the sorted list is determined
by its entries.
-/

namespace NextBuild

/-- The first commit is older than the second, or as old and with the smaller id. -/
def Precedes (time : CommitId → Int64) (a b : CommitId) : Prop :=
  time a < time b ∨ time a = time b ∧ a.text < b.text

/-- Of two commits one precedes at most. -/
theorem Precedes.asymm {time : CommitId → Int64} {a b : CommitId} (h : Precedes time a b) :
    ¬ Precedes time b a := by
  intro h'
  simp only [Precedes, Int64.lt_iff_toInt_lt, ← Int64.toInt_inj] at h h'
  rcases h with h | ⟨h, hid⟩ <;> rcases h' with h' | ⟨h', hid'⟩
  · omega
  · omega
  · omega
  · exact String.lt_irrefl _ (String.lt_trans hid hid')

/-- The order of the sort, with times as integers. -/
theorem isOlder_iff {a b : Int64 × Revision} :
    isOlder a b = true ↔ a.1.toInt < b.1.toInt ∨
      a.1.toInt = b.1.toInt ∧ a.2.commit.text ≤ b.2.commit.text := by
  simp only [isOlder, Text.le, Bool.or_eq_true, Bool.and_eq_true, decide_eq_true_eq, beq_iff_eq,
    Int64.lt_iff_toInt_lt, Int64.toInt_inj, String.not_lt]

/-- The comparison of the program is transitive. -/
theorem isOlder_trans (a b c : Int64 × Revision) (hab : isOlder a b = true)
    (hbc : isOlder b c = true) : isOlder a c = true := by
  rw [isOlder_iff] at *
  rcases hab with hab | ⟨hab, hidab⟩ <;> rcases hbc with hbc | ⟨hbc, hidbc⟩
  · exact .inl (by omega)
  · exact .inl (by omega)
  · exact .inl (by omega)
  · exact .inr ⟨by omega, String.le_trans hidab hidbc⟩

/-- Any two revisions can be compared. -/
theorem isOlder_total (a b : Int64 × Revision) : (isOlder a b || isOlder b a) = true := by
  rw [Bool.or_eq_true, isOlder_iff, isOlder_iff]
  rcases Int.lt_trichotomy a.1.toInt b.1.toInt with h | h | h
  · exact .inl (.inl h)
  · exact (String.le_total a.2.commit.text b.2.commit.text).imp (fun hid => .inr ⟨h, hid⟩)
      fun hid => .inr ⟨h.symm, hid⟩
  · exact .inr (.inl h)

/-- Between distinct commits the order is strict. -/
theorem precedes_of_isOlder {time : CommitId → Int64} {a b : Revision} (hne : a.commit ≠ b.commit)
    (h : isOlder (time a.commit, a) (time b.commit, b) = true) :
    Precedes time a.commit b.commit := by
  rcases isOlder_iff.1 h with h | ⟨h, hid⟩
  · exact .inl (Int64.lt_iff_toInt_lt.2 h)
  · refine .inr ⟨Int64.toInt_inj.1 h, String.not_le.1 fun hba => hne ?_⟩
    have htext := String.le_antisymm hid hba
    cases ha : a.commit
    cases hb : b.commit
    simp_all

/-- A sort neither loses nor adds a revision. -/
theorem ensures_sortOldestFirst (rs : List Revision) :
    (sortOldestFirst rs).Ensures (·.Perm rs) := by
  rw [sortOldestFirst]
  split
  · exact Inquiry.ensures_pure (.refl rs)
  · apply Inquiry.ensures_bind
    intro _
    have hread : (rs.mapM fun r : Revision => do
        return (← Inquiry.query (.commitTime r.commit), r)).Ensures
        (List.Forall₂ (fun r (entry : Int64 × Revision) => r = entry.2) rs) := by
      apply Inquiry.ensures_mapM
      intro r
      exact Inquiry.ensures_bind fun time => Inquiry.ensures_pure rfl
    apply hread.bind
    intro timed htimed
    have hsame : rs = timed.map (·.2) := by
      rw [← List.forall₂_eq_eq_eq, List.forall₂_map_right_iff]
      exact htimed
    rw [hsame]
    exact Inquiry.ensures_pure ((List.mergeSort_perm timed isOlder).map (·.2))

/-- Sorting loses no revision and adds none. -/
theorem perm_of_run_sortOldestFirst {g : CommitGraph} {rs sorted : List Revision}
    (h : (sortOldestFirst rs).run g = .ok sorted) : sorted.Perm rs :=
  (ensures_sortOldestFirst rs).run h

/-- The revisions from old to new, by the times of their commits. -/
def oldestFirst (time : CommitId → Int64) (rs : List Revision) : List Revision :=
  rs.mergeSort fun a b => isOlder (time a.commit, a) (time b.commit, b)

/-- The sorted list holds the same revisions. -/
theorem perm_oldestFirst (time : CommitId → Int64) (rs : List Revision) :
    (oldestFirst time rs).Perm rs := List.mergeSort_perm rs _

/-- The sorted list goes from old to new. -/
theorem pairwise_oldestFirst (time : CommitId → Int64) (rs : List Revision) :
    (oldestFirst time rs).Pairwise fun a b =>
      isOlder (time a.commit, a) (time b.commit, b) = true := by
  apply List.pairwise_mergeSort
  · intro a b c
    exact isOlder_trans _ _ _
  · intro a b
    exact isOlder_total _ _

/-- Where all times can be read, the revisions are sorted by them. -/
theorem run_sortOldestFirst {g : CommitGraph} {time : CommitId → Int64} {rs : List Revision}
    (hwalk : g .openWalk = .ok ())
    (htime : ∀ r ∈ rs, g (.commitTime r.commit) = .ok (time r.commit)) :
    (sortOldestFirst rs).run g = .ok (oldestFirst time rs) := by
  by_cases hshort : rs.length < 2
  · rw [sortOldestFirst, if_pos hshort, Inquiry.run_pure]
    match rs, hshort with
    | [], _ => simp [oldestFirst]
    | [r], _ => simp [oldestFirst]
  · have hread : (rs.mapM fun r : Revision => do
        return (← Inquiry.query (.commitTime r.commit), r)).run g =
        .ok (rs.map fun r => (time r.commit, r)) := by
      rw [Inquiry.run_mapM]
      refine mapM_eq_ok fun r hr => ?_
      rw [Inquiry.run_bind, Inquiry.run_query, htime r hr, ok_bind, Inquiry.run_pure]
    have hsort : (rs.map fun r => (time r.commit, r)).mergeSort isOlder =
        (oldestFirst time rs).map fun r => (time r.commit, r) := by
      symm
      apply List.map_mergeSort
      intro a _ b _
      rfl
    rw [sortOldestFirst, if_neg hshort, Inquiry.run_bind, Inquiry.run_query, hwalk, ok_bind,
      Inquiry.run_bind, hread, ok_bind, Inquiry.run_pure, hsort, List.map_map]
    exact congrArg _ (List.map_id _)

/-- Where all times can be read, the revisions are sorted without loss, from old to new. -/
theorem exists_sortOldestFirst {g : CommitGraph} {time : CommitId → Int64} {rs : List Revision}
    (hwalk : g .openWalk = .ok ()) (htime : ∀ r ∈ rs, g (.commitTime r.commit) = .ok (time r.commit))
    (hdistinct : (rs.map (·.commit)).Nodup) :
    ∃ sorted, (sortOldestFirst rs).run g = .ok sorted ∧ sorted.Perm rs ∧
      sorted.Pairwise fun a b => Precedes time a.commit b.commit := by
  refine ⟨_, run_sortOldestFirst hwalk htime, perm_oldestFirst time rs, ?_⟩
  have hcommits : ((oldestFirst time rs).map (·.commit)).Nodup :=
    ((perm_oldestFirst time rs).map (·.commit)).nodup_iff.2 hdistinct
  refine ((pairwise_oldestFirst time rs).and (List.pairwise_map.1 hcommits)).imp ?_
  intro a b h
  exact precedes_of_isOlder h.2 h.1

/-- Ids are compared by their digits. -/
theorem isLE_compareIds {a b : Revision} :
    (compareIds a b).isLE = true ↔ a.commit.text ≤ b.commit.text := by
  show (compareOfLessAndEq a.commit.text b.commit.text).isLE = true ↔ _
  unfold compareOfLessAndEq
  split
  · next hlt => exact iff_of_true rfl (String.not_lt.1 fun h => String.lt_irrefl _ (String.lt_trans hlt h))
  · next hlt =>
    split
    · next heq => exact iff_of_true rfl (heq ▸ String.le_refl _)
    · next hne => exact iff_of_false (by decide) (String.not_le.2 (Table.lt_of_not_lt_of_ne hlt hne))

/-- Once both times can be read, comparing two revisions keeps no failure, and puts first what the
sort puts first. -/
theorem exists_compareTimes {g : CommitGraph} {a b : Revision} {left right : Int64}
    (ha : g (.commitTime a.commit) = .ok left) (hb : g (.commitTime b.commit) = .ok right) :
    ∃ o, (compareTimes none a b).run g = .ok (o, none) ∧
      (o.isLE = true ↔ isOlder (left, a) (right, b) = true) := by
  refine ⟨(compare left.toInt right.toInt).then (compareIds a b), ?_, ?_⟩
  · simp [compareTimes, Inquiry.run, Inquiry.attempt, ha, hb]
  · rw [isOlder_iff]
    rcases Int.lt_trichotomy left.toInt right.toInt with h | h | h
    · simp [Int.compare_eq_lt.2 h, h]
    · have := isLE_compareIds (a := a) (b := b)
      simpa [h] using this
    · have hgt := Int.compare_eq_gt.2 h
      simp [hgt]
      omega

end NextBuild
