import NextBuild.Proofs.BranchSpec.Acceptance
import NextBuild.Proofs.Graph.Runs
import NextBuild.Proofs.Selection.Grouping
import NextBuild.Strategy.Basic

/-!
# Eligible names

A strategy that looks at all listed branches makes one of two choices at each commit: it takes the
names that specs match, or those that they do not match.  What is taken depends on the names at this
commit alone, and pointers to default branches are left out of it, by the first choice only beside
another name.  A choice fails only where a spec that is tried gives no answer.
-/

namespace NextBuild

/-- Some spec of the list matches the name. -/
def BranchSpec.isMatchedBy (specs : List BranchSpec) (env : Text.Environment) (name : String) : Bool :=
  specs.any fun spec => spec.isMatch env name = .ok true

/-- An answer about all specs tells whether one of them matches. -/
theorem BranchSpec.eq_isMatchedBy_of_anyMatch {specs : List BranchSpec} {env : Text.Environment}
    {name : String} {v : Bool} (h : anyMatch specs env name = .ok v) :
    v = isMatchedBy specs env name := by
  unfold anyMatch at h
  unfold isMatchedBy
  induction specs with
  | nil => exact (Except.ok.inj h).symm
  | cons spec specs ih =>
    rw [List.anyM] at h
    obtain ⟨found, hfound, h⟩ := bind_eq_ok_iff.1 h
    cases found with
    | true => simpa [hfound] using (Except.ok.inj h).symm
    | false => simpa [hfound] using ih h

/-- A way to choose among the names that point to a commit. -/
inductive Choice where
  /-- The names that some spec matches. -/
  | matching (specs : List BranchSpec)
  /-- The names that no spec matches. -/
  | outside (excluded : List BranchSpec)

namespace Choice

/-- The names at a commit that are eligible.  Pointers to default branches are not, unless one is
the only name that matches. -/
def eligible (env : Text.Environment) (bs : List Branch) (c : CommitId) : Choice → List String
  | matching specs =>
    let matched := (namesAt bs c).filter (BranchSpec.isMatchedBy specs env)
    if 1 < matched.length then matched.filter fun name => !(Branch.mk name c).isHeadPointer
    else matched
  | outside excluded => (namesAt bs c).filter fun name =>
    !(Branch.mk name c).isHeadPointer && !BranchSpec.isMatchedBy excluded env name

/-- Each branch on which the specs are tried gets an answer. -/
def Answers (env : Text.Environment) (bs : List Branch) : Choice → Prop
  | matching specs => ∀ b ∈ bs, ∃ v, BranchSpec.anyMatch specs env b.name = .ok v
  | outside excluded => ∀ b ∈ bs, b.isHeadPointer = false →
    ∃ v, BranchSpec.anyMatch excluded env b.name = .ok v

/-- What a strategy does to a listed revision to make this choice. -/
def pick (env : Text.Environment) : Choice → Revision → Except Failure Revision
  | matching specs => DefaultStrategy.eligible specs env
  | outside excluded => Revision.filterNames (InverseStrategy.isEligible ⟨excluded⟩ env)

variable {env : Text.Environment} {bs : List Branch} {c : CommitId}

/-- An eligible name is a name of the commit. -/
theorem mem_namesAt_of_mem_eligible {ch : Choice} {name : String}
    (h : name ∈ ch.eligible env bs c) : name ∈ namesAt bs c := by
  cases ch with
  | matching specs =>
    simp only [eligible] at h
    split at h
    · exact (List.mem_filter.1 (List.mem_filter.1 h).1).1
    · exact (List.mem_filter.1 h).1
  | outside excluded => exact (List.mem_filter.1 h).1

/-- A test that tells by the name filters a revision by its names. -/
theorem filterNames_ofNames {keep : Branch → Except Failure Bool} {p : String → Bool}
    {names : List String} (h : ∀ name ∈ names, keep ⟨name, c⟩ = .ok (p name)) :
    (Revision.ofNames c names).filterNames keep = .ok (.ofNames c (names.filter p)) := by
  let test : Branch → Bool := fun b => p b.name
  have hkeep : ∀ b ∈ (Revision.ofNames c names).branches, keep b = .ok (test b) := by
    intro b hb
    obtain ⟨name, hname, rfl⟩ := List.mem_map.1 hb
    exact h name hname
  rw [Revision.filterNames, filterM_eq_ok hkeep, ok_bind]
  simp only [Revision.ofNames, List.filter_map]
  rfl

/-- The test of the inverse strategy leaves out pointers to default branches and nothing else that
the specs leave. -/
theorem isEligible_eq_ok {excluded : List BranchSpec} {b : Branch}
    (h : b.isHeadPointer = false → ∃ v, BranchSpec.anyMatch excluded env b.name = .ok v) :
    InverseStrategy.isEligible ⟨excluded⟩ env b =
      .ok (!b.isHeadPointer && !BranchSpec.isMatchedBy excluded env b.name) := by
  unfold InverseStrategy.isEligible
  cases hhead : b.isHeadPointer with
  | true => rfl
  | false =>
    obtain ⟨v, hv⟩ := h hhead
    have hspec : BranchSpec.head.isMatch env b.name = .ok false := by
      rw [BranchSpec.isMatch_head]
      cases hm : (BranchSpec.wildcardPattern "*/HEAD").isMatch b.name with
      | true =>
        have hok := (BranchSpec.isMatch_head env b.name).trans (congrArg _ hm)
        rw [BranchSpec.isHeadPointer_of_head_isMatch hok] at hhead
        cases hhead
      | false => rfl
    rw [hspec]
    simp [hv, BranchSpec.eq_isMatchedBy_of_anyMatch hv]

/-- Making the choice at a commit leaves its eligible names. -/
theorem pick_ofNames {ch : Choice} (h : ch.Answers env bs) :
    ch.pick env (.ofNames c (namesAt bs c)) = .ok (.ofNames c (ch.eligible env bs c)) := by
  have hlisted : ∀ name ∈ namesAt bs c, (⟨name, c⟩ : Branch) ∈ bs := fun _ => mem_namesAt.1
  cases ch with
  | matching specs =>
    have hmatch : ∀ name ∈ namesAt bs c,
        BranchSpec.anyMatch specs env name = .ok (BranchSpec.isMatchedBy specs env name) := by
      intro name hname
      obtain ⟨v, hv⟩ := h _ (hlisted name hname)
      rw [hv, BranchSpec.eq_isMatchedBy_of_anyMatch hv]
    rw [pick, DefaultStrategy.eligible, filterNames_ofNames hmatch, ok_bind]
    simp only [Revision.ofNames, Revision.filter, List.length_map, List.filter_map, eligible]
    split <;> rfl
  | outside excluded =>
    refine filterNames_ofNames fun name hname => ?_
    exact isEligible_eq_ok (h _ (hlisted name hname))

/-- The revision of a commit with its eligible names. -/
def revision (env : Text.Environment) (bs : List Branch) (ch : Choice) (c : CommitId) : Revision :=
  .ofNames c (ch.eligible env bs c)

/-- The commits with an eligible name, in the order in which they are first seen. -/
def commits (env : Text.Environment) (bs : List Branch) (ch : Choice) : List CommitId :=
  (commitsOf bs).filter fun c => !(ch.eligible env bs c).isEmpty

/-- Only a listed commit can have an eligible name. -/
theorem mem_commits {ch : Choice} : c ∈ ch.commits env bs ↔ ch.eligible env bs c ≠ [] := by
  simp only [commits, List.mem_filter, Bool.not_eq_true', List.isEmpty_eq_false_iff,
    and_iff_right_iff_imp]
  intro hne
  obtain ⟨name, hname⟩ := List.exists_mem_of_ne_nil _ hne
  exact mem_commitsOf_iff_namesAt.2 ⟨name, mem_namesAt_of_mem_eligible hname⟩

/-- No commit occurs twice among those of a choice. -/
theorem nodup_commits (ch : Choice) : (ch.commits env bs).Nodup :=
  (nodup_commitsOf bs).filter _

/-- Making the choice at every listed commit leaves each one with its eligible names. -/
theorem mapM_pick {ch : Choice} (h : ch.Answers env bs) :
    (Revision.group bs).mapM (ch.pick env) = .ok ((commitsOf bs).map (ch.revision env bs)) := by
  rw [Revision.group_eq, List.mapM_map]
  exact mapM_eq_ok fun c _ => pick_ofNames h

/-- A choice that could be made at every listed commit has got an answer wherever it asks. -/
theorem answers_of_mapM_pick {ch : Choice} {picked : List Revision}
    (h : (Revision.group bs).mapM (ch.pick env) = .ok picked) : ch.Answers env bs := by
  have hpick : ∀ b ∈ bs, ∃ r, ch.pick env (.ofNames b.commit (namesAt bs b.commit)) = .ok r := by
    intro b hb
    rw [Revision.group_eq, List.mapM_map] at h
    exact exists_value_of_mapM h b.commit (mem_commitsOf.2 ⟨b, hb, rfl⟩)
  have hmem : ∀ b ∈ bs, b ∈ (Revision.ofNames b.commit (namesAt bs b.commit)).branches := fun b hb =>
    List.mem_map.2 ⟨b.name, mem_namesAt.2 hb, rfl⟩
  cases ch with
  | matching specs =>
    intro b hb
    obtain ⟨r, hr⟩ := hpick b hb
    obtain ⟨filtered, hfiltered, -⟩ := bind_eq_ok_iff.1 hr
    obtain ⟨branches, hbranches, -⟩ := bind_eq_ok_iff.1 hfiltered
    exact exists_answer_of_filterM hbranches b (hmem b hb)
  | outside excluded =>
    intro b hb hhead
    obtain ⟨r, hr⟩ := hpick b hb
    obtain ⟨branches, hbranches, -⟩ := bind_eq_ok_iff.1 hr
    obtain ⟨v, hv⟩ := exists_answer_of_filterM hbranches b (hmem b hb)
    -- The test asks the specs last, so an answer of the test needs one of theirs.
    rw [InverseStrategy.isEligible, hhead, if_neg Bool.false_ne_true] at hv
    obtain ⟨pointer, hpointer, hv⟩ := bind_eq_ok_iff.1 hv
    split at hv
    · next hp =>
      rw [hp] at hpointer
      rw [BranchSpec.isHeadPointer_of_head_isMatch hpointer] at hhead
      cases hhead
    · obtain ⟨matched, hmatched, -⟩ := bind_eq_ok_iff.1 hv
      exact ⟨matched, hmatched⟩

/-- The revisions that keep a branch are those of the commits with an eligible name. -/
theorem filter_hasBranches (ch : Choice) :
    ((commitsOf bs).map (ch.revision env bs)).filter (·.hasBranches) =
      (ch.commits env bs).map (ch.revision env bs) := by
  rw [List.filter_map]
  congr 2
  funext c
  simp [revision, Revision.ofNames, Revision.hasBranches]

end Choice

namespace BaseStrategy

/-- The choice that a strategy makes on a request.  There is none when one definite branch is asked
for, or a spec that cannot be read. -/
def choice? (req : Request) : BaseStrategy → Option Choice
  | .default s =>
    if (s.singleTarget? req).isSome then none
    else match (req.target.map Text.trim).filter (!·.isEmpty) with
      | some spec => (BranchSpec.ofText spec).toOption.map fun b => .matching [b]
      | none => some (.matching s.specs)
  | .inverse s => some (.outside s.excluded)

end BaseStrategy

end NextBuild
