import NextBuild.BranchOrder
import NextBuild.Proofs.Graph.Runs
import NextBuild.Proofs.StableSort

/-!
# Branches in the order of specs

The place of a branch is that of the first spec that matches its name, and specs behind it are not
tried.  Where the search comes to an end for each branch, the branches are sorted by their places,
and sorting them again changes nothing.

A spec with variables may be unreadable for some values, whatever the name is.  The search for a name
stops there unless a spec in front matches; then the sort fails, with the same fault for whichever
branch, and the revision has lost its branches.
-/

namespace NextBuild

namespace BranchSpec

variable {env : Text.Environment} {spec : BranchSpec} {specs : List BranchSpec} {name other : String}
  {f f' : Failure} {n : Nat}

/-! ## Specs that cannot be read -/

/-- With these values of its variables the spec cannot be read. -/
def IsUnreadable (env : Text.Environment) (f : Failure) (spec : BranchSpec) : Prop :=
  spec.matcher = .deferred ∧ pattern (Text.trim (Text.expand env spec.name)) = .error f

/-- The empty text can be read as a wildcard, although no match comes to that. -/
theorem exists_pattern_empty : ∃ p, pattern "" = .ok p := by
  have hread : (pattern "").toBool = true := by decide +kernel
  cases hp : pattern "" with
  | ok p => exact ⟨p, rfl⟩
  | error f =>
    rw [hp] at hread
    cases hread

/-- A match fails for no other reason, and so with one name as with any. -/
theorem isMatch_eq_error_iff : spec.isMatch env name = .error f ↔ spec.IsUnreadable env f := by
  unfold isMatch IsUnreadable
  cases spec.matcher with
  | never => simp
  | fixed p => simp
  | deferred =>
    dsimp only
    split
    · next hempty =>
      obtain ⟨p, hp⟩ := exists_pattern_empty
      rw [String.isEmpty_iff.1 hempty, hp]
      simp
    · cases pattern (Text.trim (Text.expand env spec.name)) <;> simp [Except.map]

/-- A spec cannot be read for one reason. -/
theorem IsUnreadable.unique (h : spec.IsUnreadable env f) (h' : spec.IsUnreadable env f') : f = f' :=
  Except.error.inj (h.2.symm.trans h'.2)

/-! ## The first match -/

/-- The place of the first spec that matches a name, behind all specs if there is none. -/
def firstMatch (specs : List BranchSpec) (env : Text.Environment) (name : String) : Nat :=
  specs.findIdx fun spec => spec.isMatch env name = .ok true

/-- The search for the first match of a name comes to a spec that cannot be read. -/
def StopsAt (specs : List BranchSpec) (env : Text.Environment) (name : String) (f : Failure) : Prop :=
  ∃ before spec after, specs = before ++ spec :: after ∧
    (∀ s ∈ before, s.isMatch env name = .ok false) ∧ spec.IsUnreadable env f

/-- Without specs a search does not stop. -/
theorem not_stopsAt_nil : ¬ StopsAt [] env name f := by
  rintro ⟨before, spec, after, hspecs, -⟩
  cases before <;> cases hspecs

/-- A search stops at its first spec, or behind it if that one does not match. -/
theorem stopsAt_cons_iff : StopsAt (spec :: specs) env name f ↔
    spec.IsUnreadable env f ∨ spec.isMatch env name = .ok false ∧ StopsAt specs env name f := by
  constructor
  · rintro ⟨before, last, after, hspecs, hbefore, hlast⟩
    cases before with
    | nil =>
      cases hspecs
      exact .inl hlast
    | cons s before =>
      cases hspecs
      rw [List.forall_mem_cons] at hbefore
      exact .inr ⟨hbefore.1, before, last, after, rfl, hbefore.2, hlast⟩
  · rintro (hspec | ⟨hspec, before, last, after, rfl, hbefore, hlast⟩)
    · exact ⟨[], spec, specs, rfl, by simp, hspec⟩
    · exact ⟨spec :: before, last, after, rfl, List.forall_mem_cons.2 ⟨hspec, hbefore⟩, hlast⟩

/-- Whatever the name is, the search stops at the same spec. -/
theorem StopsAt.unique (h : StopsAt specs env name f) (h' : StopsAt specs env other f') : f = f' := by
  induction specs with
  | nil => exact absurd h not_stopsAt_nil
  | cons spec specs ih =>
    rcases stopsAt_cons_iff.1 h with hspec | ⟨hspec, hrest⟩
    · rcases stopsAt_cons_iff.1 h' with hspec' | ⟨hspec', -⟩
      · exact hspec.unique hspec'
      · cases hspec'.symm.trans (isMatch_eq_error_iff.2 hspec)
    · rcases stopsAt_cons_iff.1 h' with hspec' | ⟨-, hrest'⟩
      · cases hspec.symm.trans (isMatch_eq_error_iff.2 hspec')
      · exact ih hrest hrest'

/-- A rank that can be told is the place of the first match, and the specs in front of it have been
tried. -/
theorem rank_eq_ok_iff : rank env name specs = .ok n ↔ n = firstMatch specs env name ∧
    ∀ spec ∈ specs.take (firstMatch specs env name), spec.isMatch env name = .ok false := by
  induction specs generalizing n with
  | nil =>
    rw [rank]
    simp [firstMatch, eq_comm]
  | cons spec specs ih =>
    rw [rank]
    cases hspec : spec.isMatch env name with
    | error f => simp [firstMatch, List.findIdx_cons, hspec]
    | ok matched =>
      cases matched with
      | true => simp [firstMatch, List.findIdx_cons, hspec, pure, Except.pure, eq_comm]
      | false =>
        have hplace : firstMatch (spec :: specs) env name = firstMatch specs env name + 1 := by
          simp [firstMatch, List.findIdx_cons, hspec]
        rw [ok_bind, if_neg Bool.false_ne_true, bind_eq_ok_iff, hplace, List.take_succ_cons,
          List.forall_mem_cons]
        constructor
        · rintro ⟨m, hm, hn⟩
          cases hn
          obtain ⟨hmatch, htried⟩ := ih.1 hm
          exact ⟨congrArg (· + 1) hmatch, hspec, htried⟩
        · rintro ⟨rfl, -, htried⟩
          exact ⟨_, ih.2 ⟨rfl, htried⟩, rfl⟩

/-- Otherwise the search has stopped. -/
theorem rank_eq_error_iff : rank env name specs = .error f ↔ StopsAt specs env name f := by
  induction specs with
  | nil =>
    rw [rank]
    simp [not_stopsAt_nil]
  | cons spec specs ih =>
    have hspec : spec.isMatch env name = .error f ↔ spec.IsUnreadable env f := isMatch_eq_error_iff
    rw [rank, stopsAt_cons_iff, ← hspec, bind_eq_error_iff]
    refine or_congr_right ⟨?_, ?_⟩
    · rintro ⟨matched, hspec, hrest⟩
      cases matched with
      | true => cases hrest
      | false =>
        rcases bind_eq_error_iff.1 hrest with hrank | ⟨m, -, hm⟩
        · exact ⟨hspec, ih.1 hrank⟩
        · cases hm
    · rintro ⟨hspec, hstops⟩
      refine ⟨false, hspec, ?_⟩
      rw [if_neg Bool.false_ne_true, ih.2 hstops, error_bind]

/-- Some spec matches when the rank is in front of the end. -/
theorem anyMatch_eq_map_rank (specs : List BranchSpec) (env : Text.Environment) (name : String) :
    anyMatch specs env name = (rank env name specs).map fun n => decide (n < specs.length) := by
  unfold anyMatch
  induction specs with
  | nil => rfl
  | cons spec specs ih =>
    rw [List.anyM, rank]
    cases spec.isMatch env name with
    | error f => rfl
    | ok matched =>
      cases matched with
      | true => simp [pure, Except.pure, Except.map]
      | false =>
        rw [ok_bind, ok_bind]
        dsimp only
        rw [ih]
        cases rank env name specs <;> simp [pure, Except.pure, bind, Except.bind, Except.map]

/-- So looking for any match stops where looking for the first one does. -/
theorem anyMatch_eq_error_iff : anyMatch specs env name = .error f ↔ StopsAt specs env name f := by
  rw [← rank_eq_error_iff, anyMatch_eq_map_rank]
  cases rank env name specs <;> simp [Except.map]

/-- The spec of an example: whatever the variable says. -/
def valueOfPattern : BranchSpec := ⟨"$PATTERN", .deferred, rfl⟩

end BranchSpec

namespace Revision

variable {r left sorted : Revision} {specs : List BranchSpec} {env : Text.Environment} {f : Failure}

/-! ## The sort -/

/-- The search comes to an end for each branch. -/
def IsRanked (r : Revision) (specs : List BranchSpec) (env : Text.Environment) : Prop :=
  ∀ b ∈ r.branches, ∀ f, ¬ BranchSpec.StopsAt specs env b.name f

/-- Each branch then has a rank, which is the place of its first match. -/
theorem IsRanked.rank_eq (h : r.IsRanked specs env) : ∀ b ∈ r.branches,
    BranchSpec.rank env b.name specs = .ok (BranchSpec.firstMatch specs env b.name) := by
  intro b hb
  cases hrank : BranchSpec.rank env b.name specs with
  | error f => exact absurd (BranchSpec.rank_eq_error_iff.1 hrank) (h b hb f)
  | ok n => rw [(BranchSpec.rank_eq_ok_iff.1 hrank).1]

/-- Branches that can be ranked are sorted by their first match. -/
theorem IsRanked.sortBranches_eq (h : r.IsRanked specs env) : r.sortBranches specs env =
    (none, ⟨r.commit, r.branches.mergeSort fun a b =>
      BranchSpec.firstMatch specs env a.name ≤ BranchSpec.firstMatch specs env b.name⟩) := by
  have hranked : r.rankedBranches specs env =
      .ok (r.branches.map fun b => (BranchSpec.firstMatch specs env b.name, b)) := by
    refine mapM_eq_ok fun b hb => ?_
    rw [h.rank_eq b hb]
    rfl
  rw [sortBranches, hranked]
  dsimp only
  rw [map_snd_mergeSort fun b : Branch => BranchSpec.firstMatch specs env b.name]

/-- The sort fails when the search for some branch stops, and then the branches are lost. -/
theorem sortBranches_eq_some_iff : r.sortBranches specs env = (some f, left) ↔
    left = ofCommit r.commit ∧ ∃ b ∈ r.branches, BranchSpec.StopsAt specs env b.name f := by
  by_cases h : r.IsRanked specs env
  · rw [h.sortBranches_eq]
    constructor
    · rintro ⟨⟩
    · rintro ⟨-, b, hb, hstops⟩
      exact absurd hstops (h b hb f)
  · have hsome : ∃ b ∈ r.branches, ∃ f, BranchSpec.StopsAt specs env b.name f := by
      simpa [IsRanked] using h
    obtain ⟨b, hb, first, hfirst⟩ := hsome
    have hranked : r.rankedBranches specs env = .error first := by
      cases hranked : r.rankedBranches specs env with
      | ok ranked =>
        obtain ⟨entry, hentry⟩ := exists_value_of_mapM hranked b hb
        rw [BranchSpec.rank_eq_error_iff.2 hfirst, error_bind] at hentry
        cases hentry
      | error g =>
        obtain ⟨c, -, hc⟩ := exists_error_of_mapM hranked
        rcases bind_eq_error_iff.1 hc with hrank | ⟨n, -, hn⟩
        · rw [(BranchSpec.rank_eq_error_iff.1 hrank).unique hfirst]
        · cases hn
    rw [sortBranches, hranked]
    constructor
    · rintro ⟨⟩
      exact ⟨rfl, b, hb, hfirst⟩
    · rintro ⟨rfl, c, -, hc⟩
      rw [hfirst.unique hc]

/-- Otherwise each branch has got its place. -/
theorem isRanked_of_sortBranches (h : r.sortBranches specs env = (none, sorted)) :
    r.IsRanked specs env := by
  intro b hb f hstops
  rw [sortBranches_eq_some_iff.2 ⟨rfl, b, hb, hstops⟩] at h
  cases h

/-- Branches that could be put into the order of specs are sorted by their first matches. -/
theorem sortedBy_sortBranches (h : r.sortBranches specs env = (none, sorted)) :
    sorted.commit = r.commit ∧
      SortedBy (fun b => BranchSpec.firstMatch specs env b.name) r.branches sorted.branches := by
  rw [(isRanked_of_sortBranches h).sortBranches_eq] at h
  cases h
  exact ⟨rfl, sortedBy_mergeSort _ r.branches⟩

/-- A sort that succeeds keeps the commit and all branches with theirs, and orders these by the first
specs that match, without any other change.  The specs in front of a first match have been tried and
do not match.  Sorting again finds all branches in their places. -/
theorem sortBranches_stable (h : r.sortBranches specs env = (none, sorted)) :
    sorted.commit = r.commit ∧
      SortedBy (fun b => BranchSpec.firstMatch specs env b.name) r.branches sorted.branches ∧
      (∀ b ∈ r.branches, ∀ spec ∈ specs.take (BranchSpec.firstMatch specs env b.name),
        spec.isMatch env b.name = .ok false) ∧
      sorted.sortBranches specs env = (none, sorted) := by
  obtain ⟨hcommit, hsorted⟩ := sortedBy_sortBranches h
  have hranked := isRanked_of_sortBranches h
  refine ⟨hcommit, hsorted, fun b hb => ?_, ?_⟩
  · exact (BranchSpec.rank_eq_ok_iff.1 (hranked.rank_eq b hb)).2
  · have hagain : sorted.IsRanked specs env := fun b hb => hranked b (hsorted.perm.mem_iff.1 hb)
    have hself : SortedBy (fun b => BranchSpec.firstMatch specs env b.name) sorted.branches
        sorted.branches := ⟨.refl _, hsorted.ordered, fun _ => rfl⟩
    rw [hagain.sortBranches_eq, sortedBy_iff.1 hself]

/-- The branch that the variable names goes to the front, and two branches that no spec matches keep
their order. -/
theorem sortBranches_masterFirst :
    let c : CommitId := ⟨"aaaaaaaaaaaaaaaaaaaaaaaaaaaaaaaaaaaaaaaa", by decide⟩
    let env := [("PATTERN", "master")]
    let r : Revision := ⟨c, [⟨"origin/side", c⟩, ⟨"origin/main", c⟩, ⟨"origin/master", c⟩]⟩
    let sorted : Revision := ⟨c, [⟨"origin/master", c⟩, ⟨"origin/side", c⟩, ⟨"origin/main", c⟩]⟩
    r.sortBranches [.valueOfPattern] env = (none, sorted) ∧ sorted.commit = r.commit ∧
      SortedBy (fun b => BranchSpec.firstMatch [.valueOfPattern] env b.name) r.branches
        sorted.branches ∧
      (∀ b ∈ r.branches, ∀ spec ∈
        [BranchSpec.valueOfPattern].take (BranchSpec.firstMatch [.valueOfPattern] env b.name),
        spec.isMatch env b.name = .ok false) ∧
      sorted.sortBranches [.valueOfPattern] env = (none, sorted) := by
  intro c env r sorted
  have hread : (BranchSpec.pattern (Text.trim (Text.expand env BranchSpec.valueOfPattern.name))).toBool =
      true := by decide +kernel
  have hranked : r.IsRanked [.valueOfPattern] env := by
    intro b _ f hstops
    rcases BranchSpec.stopsAt_cons_iff.1 hstops with hspec | ⟨-, hrest⟩
    · rw [hspec.2] at hread
      cases hread
    · exact BranchSpec.not_stopsAt_nil hrest
  have hside : BranchSpec.firstMatch [.valueOfPattern] env "origin/side" = 1 := by decide +kernel
  have hmain : BranchSpec.firstMatch [.valueOfPattern] env "origin/main" = 1 := by decide +kernel
  have hmaster : BranchSpec.firstMatch [.valueOfPattern] env "origin/master" = 0 := by decide +kernel
  have hrun : r.sortBranches [.valueOfPattern] env = (none, sorted) := by
    rw [hranked.sortBranches_eq]
    simp [r, sorted, List.mergeSort, hside, hmain, hmaster]
  exact ⟨hrun, sortBranches_stable hrun⟩

/-- A failure leaves the revision as it was only where there is none: the sort fails when the search
for some branch stops at a spec that cannot be read, and then the commit is left without any branch.
-/
theorem sortBranches_atomic_iff (r : Revision) (specs : List BranchSpec) (env : Text.Environment) :
    ((∀ f left, r.sortBranches specs env = (some f, left) → left = r) ↔ r.IsRanked specs env) ∧
      ∀ f left, r.sortBranches specs env = (some f, left) ↔
        left = ofCommit r.commit ∧ ∃ b ∈ r.branches, BranchSpec.StopsAt specs env b.name f := by
  refine ⟨⟨fun hatomic b hb f hstops => ?_, fun hranked f left h => ?_⟩,
    fun _ _ => sortBranches_eq_some_iff⟩
  · have hlost : ofCommit r.commit = r :=
      hatomic f _ (sortBranches_eq_some_iff.2 ⟨rfl, b, hb, hstops⟩)
    rw [← hlost] at hb
    exact absurd hb List.not_mem_nil
  · rw [hranked.sortBranches_eq] at h
    cases h

/-- A variable that says no expression costs the revision its branch. -/
theorem sortBranches_loses_branch :
    let c : CommitId := ⟨"aaaaaaaaaaaaaaaaaaaaaaaaaaaaaaaaaaaaaaaa", by decide⟩
    let r : Revision := ⟨c, [⟨"origin/master", c⟩]⟩
    ∃ f, r.sortBranches [.valueOfPattern] [("PATTERN", ":(")] = (some f, ofCommit c) ∧
      ofCommit c ≠ r := by
  intro c r
  have hexpanded : Text.trim (Text.expand [("PATTERN", ":(")] "$PATTERN") = ":(" := by decide +kernel
  cases hpattern : BranchSpec.pattern ":(" with
  | ok p =>
    have hrefused : (BranchSpec.pattern ":(").toBool = false := by decide +kernel
    rw [hpattern] at hrefused
    cases hrefused
  | error f =>
    have hunreadable : BranchSpec.valueOfPattern.IsUnreadable [("PATTERN", ":(")] f :=
      ⟨rfl, (congrArg _ hexpanded).trans hpattern⟩
    have hstops : BranchSpec.StopsAt [.valueOfPattern] [("PATTERN", ":(")] "origin/master" f :=
      BranchSpec.stopsAt_cons_iff.2 (.inl hunreadable)
    exact ⟨f, sortBranches_eq_some_iff.2 ⟨rfl, _, List.mem_cons_self, hstops⟩, by decide⟩

end Revision

end NextBuild
