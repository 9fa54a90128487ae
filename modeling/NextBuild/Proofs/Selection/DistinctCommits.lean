import NextBuild.Proofs.Selection.Questions
import NextBuild.Proofs.Selection.Tips
import NextBuild.Proofs.Selection.TimeOrder
import NextBuild.Proofs.StableSort

/-!
# Distinct commits

Grouping the listed branches gives one revision for each commit, and no stage that follows puts a
commit in twice: a choice keeps the commits, the tips are some of them, a sort changes their order,
and what is built again is a single revision.  So the place that is kept for a commit is never given
to another revision, and arranging by the places that are kept is sorting by the priorities.
-/

namespace NextBuild

variable {rs ss : List Revision}

/-- No commit occurs twice. -/
def DistinctCommits (rs : List Revision) : Prop :=
  (rs.map (·.commit)).Nodup

namespace DistinctCommits

/-- One revision at most has distinct commits. -/
theorem of_length_le_one (h : rs.length ≤ 1) : DistinctCommits rs := by
  match rs, h with
  | [], _ => exact List.nodup_nil
  | [r], _ => simp [DistinctCommits]

/-- A part of the list has distinct commits as well. -/
theorem sublist (h : DistinctCommits rs) (hss : ss.Sublist rs) : DistinctCommits ss :=
  (hss.map _).nodup h

/-- The order does not matter. -/
theorem perm (h : DistinctCommits rs) (hss : ss.Perm rs) : DistinctCommits ss :=
  (hss.map _).nodup_iff.2 h

end DistinctCommits

/-! ## Answers of base strategies -/

/-- A choice gives each listed commit once. -/
theorem Choice.distinctCommits_of_mapM_pick {ch : Choice} {env : Text.Environment} {bs : List Branch}
    {picked : List Revision} (h : (Revision.group bs).mapM (ch.pick env) = .ok picked) :
    DistinctCommits picked := by
  rw [mapM_pick (answers_of_mapM_pick h)] at h
  cases h
  simpa [DistinctCommits, revision, Function.comp_def] using nodup_commitsOf bs

/-- The stages that follow the tips start from distinct commits. -/
theorem Choice.ensures_tipsThen {ch : Choice} {req : Request}
    {rest : List Revision → Inquiry (List Revision)} {P : List Revision → Prop}
    (hrest : ∀ newest, DistinctCommits newest → (rest newest).Ensures P) :
    (ch.tipsThen req rest).Ensures P := by
  have hlisted : listedRevisions.Ensures fun listed => ∃ bs, listed = Revision.group bs :=
    Inquiry.ensures_bind fun bs => Inquiry.ensures_pure ⟨bs, rfl⟩
  apply hlisted.bind
  intro listed hgroup
  obtain ⟨bs, rfl⟩ := hgroup
  apply (Inquiry.ensures_ofExcept fun picked => distinctCommits_of_mapM_pick).bind
  intro picked hpicked
  apply (ensures_tips _).bind
  intro newest hnewest
  exact hrest newest (hpicked.sublist (hnewest.trans List.filter_sublist))

/-- An answer of one revision at most ensures distinct commits. -/
theorem ensures_distinctCommits_pure (h : rs.length ≤ 1) :
    (pure rs : Inquiry (List Revision)).Ensures DistinctCommits :=
  Inquiry.ensures_pure (.of_length_le_one h)

/-- The unbuilt tips are some of the tips, and what is built again is a single revision. -/
theorem Choice.ensures_distinctCommits_finish (ch : Choice) (req : Request) (ledger : Ledger)
    (h : DistinctCommits rs) : (ch.finish req ledger rs).Ensures DistinctCommits := by
  have hfresh : (dropBuilt ledger rs).1.Sublist rs := List.filter_sublist
  rcases ch.finish_cases req ledger rs with heq | heq
  · rw [heq, closing]
    split
    · next again _ =>
      rcases ch.repeated_cases req again with ⟨f, heq⟩ | ⟨r?, heq, -⟩
      · rw [heq]
        exact .fail f
      · rw [heq]
        apply ensures_distinctCommits_pure
        cases r? <;> simp
    · next hdrop =>
      rw [hdrop] at hfresh
      apply (ensures_sortOldestFirst _).mono
      intro sorted hperm
      exact (h.sublist hfresh).perm hperm
  · rw [heq]
    exact ensures_distinctCommits_pure (Nat.zero_le 1)

/-- One definite branch is one revision. -/
theorem DefaultStrategy.ensures_distinctCommits_selectSingle (s : DefaultStrategy) (req : Request)
    (ledger : Ledger) (name : String) :
    (s.selectSingle req ledger name).Ensures DistinctCommits := by
  have hunlessBuilt (built : Bool) (r : Revision) :
      (pure (if built then [] else [r]) : Inquiry (List Revision)).Ensures DistinctCommits := by
    apply ensures_distinctCommits_pure
    split <;> simp
  unfold selectSingle
  split
  · apply Inquiry.ensures_bind
    intro resolved
    cases resolved with
    | some c => exact ensures_distinctCommits_pure (Nat.le_refl 1)
    | none =>
      apply Inquiry.ensures_bind
      intro found
      split
      · exact ensures_distinctCommits_pure (Nat.zero_le 1)
      · exact hunlessBuilt _ _
  · apply Inquiry.ensures_bind
    intro found
    split
    · exact ensures_distinctCommits_pure (Nat.zero_le 1)
    · exact hunlessBuilt _ _

/-- No commit occurs twice in what a base strategy selects. -/
theorem BaseStrategy.ensures_distinctCommits (s : BaseStrategy) (req : Request) (ledger : Ledger) :
    (s.select req ledger).Ensures DistinctCommits := by
  rcases s.select_cases req ledger with ⟨ch, -, heq⟩ | ⟨d, name, -, -, heq⟩ | ⟨-, f, heq⟩
  · rw [heq]
    exact Choice.ensures_tipsThen fun newest => ch.ensures_distinctCommits_finish req ledger
  · rw [heq]
    exact d.ensures_distinctCommits_selectSingle req ledger name
  · rw [heq]
    exact .fail f

/-! ## Places that are kept -/

/-- Revisions of distinct commits are given their own places. -/
theorem DistinctCommits.placeRevisions_eq (priorities : List String) (h : DistinctCommits rs)
    {kept : List (CommitId × Nat)} (hkept : ∀ r ∈ rs, kept.lookup r.commit = none) :
    placeRevisions priorities kept rs = rs.map fun r => (priorityOf priorities r, r) := by
  induction rs generalizing kept with
  | nil => rfl
  | cons r rs ih =>
    obtain ⟨hr, hrs⟩ := List.nodup_cons.1 h
    have htail : ∀ s ∈ rs, ((r.commit, priorityOf priorities r) :: kept).lookup s.commit = none := by
      intro s hs
      have hne : (s.commit == r.commit) = false := by
        rw [beq_eq_false_iff_ne]
        exact fun heq => hr (List.mem_map.2 ⟨s, hs, heq⟩)
      rw [List.lookup_cons, hne]
      exact hkept s (List.mem_cons_of_mem r hs)
    rw [placeRevisions, hkept r List.mem_cons_self, List.map_cons]
    dsimp only
    rw [ih hrs htail]

/-- Revisions of distinct commits are sorted by the priorities. -/
theorem DistinctCommits.arrangeByPriority_eq (priorities : List String) (h : DistinctCommits rs) :
    arrangeByPriority priorities rs = sortByPriority priorities rs := by
  unfold arrangeByPriority sortByPriority
  split
  · next hempty =>
    have hnil : priorities = [] := List.isEmpty_iff.1 hempty
    symm
    apply List.mergeSort_of_pairwise
    apply List.pairwise_of_forall
    intro r s
    simp [hnil, priorityOf]
  · rw [h.placeRevisions_eq priorities fun r _ => rfl, map_snd_mergeSort]

end NextBuild
