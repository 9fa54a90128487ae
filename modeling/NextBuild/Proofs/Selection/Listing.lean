import Mathlib.Data.List.Nodup
import NextBuild.Proofs.BranchOrder
import NextBuild.Proofs.Selection.Eligibility
import NextBuild.Proofs.Selection.TimeOrder
import NextBuild.Proofs.Selection.Tips

/-!
# The order of a listing

Branches are listed in the order of their names.  Two of them may have the same name, one a tag and
the other one of a remote, and then their order is not settled; no selection depends on it.  The
names at a commit are in order in any case, and what a choice leaves of a commit depends on these
alone.  So only the commits change places, and those that are left are sorted in the end.

A choice that fails gives the failure of the first spec that cannot be matched with anything, which
is the same failure whatever name is met first.
-/

namespace NextBuild

variable {bs bs' : List Branch} {c : CommitId} {env : Text.Environment} {ch : Choice}
  {rs rs' : List Revision} {ledger : Ledger} {f f' : Failure}

/-- The same branches are listed twice, each time in the order of their names. -/
structure SameListing (bs bs' : List Branch) : Prop where
  perm : bs.Perm bs'
  sorted : bs.Pairwise fun a b => a.name ≤ b.name
  sorted' : bs'.Pairwise fun a b => a.name ≤ b.name

namespace SameListing

/-- The names at a commit are in the same order. -/
theorem namesAt_eq (h : SameListing bs bs') (c : CommitId) : namesAt bs c = namesAt bs' c := by
  have hnames {bs : List Branch} (hs : bs.Pairwise fun a b => a.name ≤ b.name) :
      ((bs.filter fun b => b.commit = c).map (·.name)).Pairwise (· ≤ ·) :=
    List.pairwise_map.2 (hs.filter _)
  have hperm := (h.perm.filter fun b => b.commit = c).map (·.name)
  rw [namesAt, namesAt]
  congr 1
  exact hperm.eq_of_pairwise (fun a b _ _ => String.le_antisymm) (hnames h.sorted) (hnames h.sorted')

/-- The commits are the same, up to their order. -/
theorem commitsOf_perm (h : SameListing bs bs') : (commitsOf bs).Perm (commitsOf bs') :=
  (List.perm_ext_iff_of_nodup (nodup_commitsOf bs) (nodup_commitsOf bs')).2 fun c => by
    simp only [mem_commitsOf, h.perm.mem_iff]

/-- What is eligible at a commit is the same. -/
theorem eligible_eq (h : SameListing bs bs') (ch : Choice) :
    ch.eligible env bs c = ch.eligible env bs' c := by
  cases ch <;> simp only [Choice.eligible, h.namesAt_eq]

/-- What a choice leaves of a commit is the same. -/
theorem revision_eq (h : SameListing bs bs') (ch : Choice) :
    ch.revision env bs = ch.revision env bs' :=
  funext fun c => congrArg (Revision.ofNames c) (h.eligible_eq ch)

/-- The same revisions are left, in some order. -/
theorem candidates_perm (h : SameListing bs bs') (ch : Choice) :
    ((ch.commits env bs).map (ch.revision env bs)).Perm
      ((ch.commits env bs').map (ch.revision env bs')) := by
  have hcommits : (ch.commits env bs).Perm (ch.commits env bs') := by
    simp only [Choice.commits, h.eligible_eq ch]
    exact h.commitsOf_perm.filter _
  rw [h.revision_eq ch]
  exact hcommits.map _

/-- Whether a choice answers is the same. -/
theorem answers_iff (h : SameListing bs bs') (ch : Choice) :
    ch.Answers env bs ↔ ch.Answers env bs' := by
  cases ch <;> simp only [Choice.Answers, h.perm.mem_iff]

end SameListing

/-! ## Failures of a choice -/

/-- Whatever the name is, it is the same spec that cannot be matched. -/
theorem BranchSpec.eq_of_anyMatch_eq_error {specs : List BranchSpec} {name other : String}
    (h : anyMatch specs env name = .error f) (h' : anyMatch specs env other = .error f') :
    f = f' :=
  (anyMatch_eq_error_iff.1 h).unique (anyMatch_eq_error_iff.1 h')

/-- The specs that a choice tries. -/
def Choice.specs : Choice → List BranchSpec
  | matching specs => specs
  | outside excluded => excluded

/-- A choice fails because a spec cannot be matched. -/
theorem Choice.exists_anyMatch_eq_error {r : Revision} (h : ch.pick env r = .error f) :
    ∃ name, BranchSpec.anyMatch ch.specs env name = .error f := by
  cases ch with
  | matching specs =>
    rcases bind_eq_error_iff.1 h with hnames | ⟨_, -, h⟩
    · rcases bind_eq_error_iff.1 hnames with hfail | ⟨_, -, h⟩
      · obtain ⟨b, -, hb⟩ := exists_error_of_filterM hfail
        exact ⟨b.name, hb⟩
      · cases h
    · split at h <;> cases h
  | outside excluded =>
    rcases bind_eq_error_iff.1 h with hfail | ⟨_, -, h⟩
    · obtain ⟨b, -, hb⟩ := exists_error_of_filterM hfail
      unfold InverseStrategy.isEligible at hb
      split at hb
      · cases hb
      · rcases bind_eq_error_iff.1 hb with hpointer | ⟨pointer, -, hb⟩
        · cases (BranchSpec.isMatch_head env b.name).symm.trans hpointer
        · split at hb
          · cases hb
          · rcases bind_eq_error_iff.1 hb with hexcluded | ⟨_, -, hb⟩
            · exact ⟨b.name, hexcluded⟩
            · cases hb
    · cases h

/-- A choice among the same branches is made in both orders, or fails in both alike. -/
theorem SameListing.exists_mapM_pick (h : SameListing bs bs') (ch : Choice)
    (env : Text.Environment) :
    ((Revision.group bs).mapM (ch.pick env) = .ok ((commitsOf bs).map (ch.revision env bs)) ∧
        (Revision.group bs').mapM (ch.pick env) = .ok ((commitsOf bs').map (ch.revision env bs'))) ∨
      ∃ f, (Revision.group bs).mapM (ch.pick env) = .error f ∧
        (Revision.group bs').mapM (ch.pick env) = .error f := by
  by_cases hanswers : ch.Answers env bs
  · exact .inl ⟨Choice.mapM_pick hanswers, Choice.mapM_pick ((h.answers_iff ch).1 hanswers)⟩
  · have hfails {bs : List Branch} (hnot : ¬ ch.Answers env bs) :
        ∃ f, (Revision.group bs).mapM (ch.pick env) = .error f := by
      cases hpicked : (Revision.group bs).mapM (ch.pick env) with
      | ok picked => exact absurd (Choice.answers_of_mapM_pick hpicked) hnot
      | error f => exact ⟨f, rfl⟩
    obtain ⟨f, hf⟩ := hfails hanswers
    obtain ⟨f', hf'⟩ := hfails fun hother => hanswers ((h.answers_iff ch).2 hother)
    obtain ⟨r, -, hr⟩ := exists_error_of_mapM hf
    obtain ⟨r', -, hr'⟩ := exists_error_of_mapM hf'
    obtain ⟨name, hname⟩ := Choice.exists_anyMatch_eq_error hr
    obtain ⟨name', hname'⟩ := Choice.exists_anyMatch_eq_error hr'
    rw [BranchSpec.eq_of_anyMatch_eq_error hname hname'] at hf
    exact .inr ⟨f', hf, hf'⟩

/-! ## The stages after a choice -/

/-- The maximal revisions of a list do not depend on its order. -/
theorem perm_maximalRevisions (ancestor : CommitId → CommitId → Prop) (h : rs.Perm rs') :
    (maximalRevisions ancestor rs).Perm (maximalRevisions ancestor rs') := by
  classical
  have hsame : ∀ r ∈ rs, decide (∀ s ∈ rs, ¬ Below ancestor r s) =
      decide (∀ s ∈ rs', ¬ Below ancestor r s) := fun r _ =>
    decide_eq_decide.2 (by simp only [h.mem_iff])
  unfold maximalRevisions
  rw [List.filter_congr hsame]
  exact h.filter _

/-- What is left unbuilt is the same in some order, and so is the revision to build again. -/
theorem dropBuilt_of_perm (ledger : Ledger) (h : rs.Perm rs')
    (hdistinct : (rs.map (·.commit)).Nodup) :
    (dropBuilt ledger rs).1.Perm (dropBuilt ledger rs').1 ∧
      (dropBuilt ledger rs).2 = (dropBuilt ledger rs').2 := by
  refine ⟨h.filter _, ?_⟩
  let built := rs.filter fun r => ledger.hasBuilt r.commit
  have hbuilt : (built.map (·.commit)).Nodup := (List.filter_sublist.map _).nodup hdistinct
  refine congrArg (fun again => ledger.lastRevision?.map again) (funext fun last => ?_)
  refine (h.filter _).foldl_eq' (fun r hr s hs again => ?_) last
  -- At most one of two revisions takes the place of the last one, as their commits differ.
  by_cases hrs : r.commit = s.commit
  · rw [List.inj_on_of_nodup_map hbuilt hr hs hrs]
  · by_cases har : again.commit = r.commit <;> by_cases has : again.commit = s.commit <;>
      simp_all [Revision.same]

/-- A revision, or the last one of a list that has its commit. -/
def takeOver (rs : List Revision) (last : Revision) : Revision :=
  rs.foldl (fun again r => if again.same r then r else again) last

/-- A last build is taken over from the revisions that have its commit, or kept as it was. -/
theorem takeOver_cases (rs : List Revision) (last : Revision) :
    (takeOver rs last ∈ rs ∧ (takeOver rs last).commit = last.commit) ∨
      (takeOver rs last = last ∧ ∀ r ∈ rs, r.commit ≠ last.commit) := by
  induction rs generalizing last with
  | nil => exact .inr ⟨rfl, by simp⟩
  | cons r rs ih =>
    by_cases hsame : last.commit = r.commit
    · have hstep : takeOver (r :: rs) last = takeOver rs r :=
        congrArg (takeOver rs) (if_pos (beq_iff_eq.2 hsame))
      rw [hstep, hsame]
      left
      rcases ih r with ⟨hmem, hcommit⟩ | ⟨heq, -⟩
      · exact ⟨List.mem_cons_of_mem r hmem, hcommit⟩
      · rw [heq]
        exact ⟨List.mem_cons_self, rfl⟩
    · have hstep : takeOver (r :: rs) last = takeOver rs last :=
        congrArg (takeOver rs) (if_neg fun h => hsame (beq_iff_eq.1 h))
      rw [hstep]
      rcases ih last with ⟨hmem, hcommit⟩ | ⟨heq, hnone⟩
      · exact .inl ⟨List.mem_cons_of_mem r hmem, hcommit⟩
      · exact .inr ⟨heq, List.forall_mem_cons.2 ⟨fun h => hsame h.symm, hnone⟩⟩

/-- Whichever it is, it has the commit of the last build. -/
theorem commit_takeOver (rs : List Revision) (last : Revision) :
    (takeOver rs last).commit = last.commit := by
  rcases takeOver_cases rs last with ⟨-, hcommit⟩ | ⟨heq, -⟩
  · exact hcommit
  · rw [heq]

/-- The revision to build again has the commit of the last build. -/
theorem exists_lastRevision?_of_dropBuilt {r : Revision} (h : (dropBuilt ledger rs).2 = some r) :
    ∃ last, ledger.lastRevision? = some last ∧ last.commit = r.commit := by
  obtain ⟨last, hlast, rfl⟩ := Option.map_eq_some_iff.1 h
  exact ⟨last, hlast, (commit_takeOver _ last).symm⟩

/-- Sorting leads to the same list from any order of the revisions. -/
theorem run_sortOldestFirst_of_perm {a a' : CommitGraph} {time : CommitId → Int64}
    (h : rs.Perm rs') (hdistinct : (rs.map (·.commit)).Nodup) (hwalk : a .openWalk = .ok ())
    (hwalk' : a' .openWalk = .ok ())
    (htime : ∀ r ∈ rs, a (.commitTime r.commit) = .ok (time r.commit))
    (htime' : ∀ r ∈ rs, a' (.commitTime r.commit) = .ok (time r.commit)) :
    (sortOldestFirst rs).run a = (sortOldestFirst rs').run a' := by
  have hdistinct' : (rs'.map (·.commit)).Nodup := (h.map _).nodup_iff.1 hdistinct
  obtain ⟨sorted, hrun, hperm, hincreasing⟩ := exists_sortOldestFirst hwalk htime hdistinct
  obtain ⟨sorted', hrun', hperm', hincreasing'⟩ := exists_sortOldestFirst hwalk'
    (fun r hr => htime' r (h.mem_iff.2 hr)) hdistinct'
  rw [hrun, hrun', ((hperm.trans h).trans hperm'.symm).eq_of_pairwise _ hincreasing hincreasing']
  exact fun r s _ _ hrs hsr => absurd hsr hrs.asymm

end NextBuild
