import NextBuild.Proofs.Selection.Leads
import NextBuild.Proofs.Selection.Rebuilds

/-!
# Targets in one remote

A target such as `origin/master` means a branch of the remote `origin`, but it is a name in its own
right as well.  The remotes are gone through in their order.  A remote that the target speaks of has
one lead, its own branch.  Every other remote comes with the target as it stands, which is looked up
like any reference: a tag or a local branch of this name comes before the branch of the remote.  So
the first remote that has an own branch, or that the target does not speak of, decides.
-/

namespace NextBuild

variable {g : MemoryGraph} {s : DefaultStrategy} {req : Request} {name : String}

/-- A text in front of a separator is told from the text with the separator in it. -/
theorem Text.eq_of_append_separator {a a' b b' : String} (ha : '/' ∉ a.toList)
    (ha' : '/' ∉ a'.toList) (h : a ++ "/" ++ b = a' ++ "/" ++ b') : a = a' := by
  have hfront {x y : String} (hx : '/' ∉ x.toList) :
      (x ++ "/" ++ y).toList.takeWhile (· != '/') = x.toList := by
    rw [String.toList_append, String.toList_append, List.append_assoc,
      List.takeWhile_append_of_pos fun c hc => bne_iff_ne.2 (ne_of_mem_of_not_mem hc hx)]
    exact List.append_nil _
  rw [← String.toList_inj, ← hfront ha, h, hfront ha']

namespace DefaultStrategy

/-- No remote that is configured has a separator in its name. -/
theorem separator_notMem_of_ofTexts {branches remotes : List String}
    (h : ofTexts branches remotes = .ok s) : ∀ o ∈ s.remotes, '/' ∉ o.toList := by
  obtain ⟨hnone, h⟩ := guard_eq_ok_iff.1 h
  obtain ⟨specs, -, h⟩ := bind_eq_ok_iff.1 h
  cases h
  intro o ho hmem
  exact hnone (List.any_eq_true.2 ⟨o, ho, List.contains_iff_mem.2 hmem⟩)

/-- The target is asked for: by the request, or as the only spec that is configured. -/
def AsksFor (s : DefaultStrategy) (req : Request) (name : String) : Prop :=
  req.target = some name ∨ req.target = none ∧ ∃ only, s.specs = [only] ∧ only.name = name

/-- A target without blanks around it, variables or signs of a pattern is one definite branch. -/
theorem select_of_asksFor (h : s.AsksFor req name) (hpattern : isPattern name = false)
    (hvars : '$' ∉ name.toList) (htrim : Text.trim name = name) (hname : name ≠ "")
    (ledger : Ledger) : s.select req ledger = s.selectSingle req ledger name := by
  rcases h with htarget | ⟨hnone, only, honly, rfl⟩
  · exact select_of_target ledger htarget htrim hvars (by simp [hname, hpattern])
  · have hsingle : s.singleTarget? req = some only.name := by
      simp [singleTarget?, hnone, honly, htrim, Text.expand_eq_self hvars, hname, hpattern]
    rw [select, hsingle]

/-! ## A name in one remote -/

/-- The branch of a remote that a name speaks of. -/
def ownBranch? (name remote : String) : Option String :=
  (Text.afterLead? (remote ++ "/") name).or <|
    (Text.afterLead? ("remotes/" ++ remote ++ "/") name).or (Text.afterLead? "refs/heads/" name)

/-- A branch behind the name of its remote is found. -/
theorem ownBranch?_append (remote branch : String) :
    ownBranch? (remote ++ "/" ++ branch) remote = some branch := by
  rw [ownBranch?, Text.afterLead?_append]
  rfl

/-- A remote has its own branch as the only lead, or else the name itself and the branch called so. -/
theorem qualifiedLeads_eq (name remote : String) : qualifiedLeads name remote =
    match ownBranch? name remote with
    | some b => [⟨"refs/remotes/" ++ remote ++ "/" ++ b, remote ++ "/" ++ b⟩]
    | none => [⟨name, name⟩, ⟨"refs/remotes/" ++ remote ++ "/" ++ name, remote ++ "/" ++ name⟩] := by
  unfold qualifiedLeads ownBranch?
  cases hremote : Text.afterLead? (remote ++ "/") name with
  | some b =>
    have hstarts : Text.startsWith (remote ++ "/") name = true :=
      Bool.of_not_eq_false fun h => by
        simp [(Text.afterLead?_eq_none_iff _ _).2 h] at hremote
    rw [if_pos hstarts, ← Text.append_of_afterLead? hremote]
    simp only [Option.some_or, String.append_assoc]
  | none =>
    rw [if_neg (by simp [(Text.afterLead?_eq_none_iff _ _).1 hremote])]
    cases hremotes : Text.afterLead? ("remotes/" ++ remote ++ "/") name with
    | some b =>
      have hlead : "refs/" ++ ("remotes/" ++ remote ++ "/" ++ b) =
          "refs/remotes/" ++ remote ++ "/" ++ b := by
        simp only [← String.append_assoc]
        rfl
      simp only [← Text.append_of_afterLead? hremotes, hlead, Option.none_or, Option.some_or]
    | none => cases Text.afterLead? "refs/heads/" name <;> rfl

end DefaultStrategy

namespace MemoryGraph

open DefaultStrategy

/-- The commit that a text is resolved to: that of a reference, or else of an id. -/
def denoted? (g : MemoryGraph) (name : String) : Option CommitId :=
  (g.lookupRef? name).or (g.dag.abbreviated? name)

/-- Looking a name up gives the commit that it denotes, if there is one. -/
theorem run_resolve (hname : name ≠ "FETCH_HEAD") :
    (Inquiry.queryIfExists (.resolve name)).run g.answers = .ok (g.denoted? name) := by
  rw [Inquiry.run_queryIfExists, answers, resolve, if_neg hname, denoted?]
  cases g.lookupRef? name with
  | some d => rfl
  | none => cases g.dag.abbreviated? name <;> rfl

/-- So does the question of a lead that is no fetched head. -/
theorem run_query {l : Lead} (h : l.reference ≠ "FETCH_HEAD") :
    l.query.run g.answers = .ok (g.denoted? l.reference) := by
  rw [Lead.query, if_neg h]
  exact run_resolve h

/-- A name with a separator is no commit id, so it is looked up as a reference only. -/
theorem run_query_of_separator {l : Lead} (h : '/' ∈ l.reference.toList) :
    l.query.run g.answers = .ok (g.lookupRef? l.reference) := by
  have hfetch : l.reference ≠ "FETCH_HEAD" := by
    intro heq
    rw [heq] at h
    exact absurd h (by decide)
  have hid : g.dag.abbreviated? l.reference = none := by
    have hall : l.reference.toList.all Text.isHexDigit = false :=
      List.all_eq_false.2 ⟨'/', h, by decide⟩
    simp [Dag.abbreviated?, hall]
  rw [run_query hfetch, denoted?, hid, Option.or_none]

/-- A build for a name with a separator selects the first of its leads that is a reference. -/
theorem run_selectSingle_of_separator (hbuild : req.poll = false) (hname : '/' ∈ name.toList)
    (s : DefaultStrategy) (ledger : Ledger) :
    (s.selectSingle req ledger name).run g.answers =
      .ok ((s.leads name).findSome? (Lead.revision? g.lookupRef?)).toList := by
  refine run_selectSingle_of_build hbuild ?_ (fun l hl => run_query_of_separator ?_) ledger
  · have hall : name.toList.all (fun c => c.isDigit || ('a' ≤ c && c ≤ 'f')) = false :=
      List.all_eq_false.2 ⟨'/', hname, by decide⟩
    simp only [CommitId.looksLikeAbbreviation, hall, Bool.and_false]
  · rcases isNamedOrFull_of_mem_leads l hl with heq | hfull
    · rwa [heq]
    · exact (List.isPrefixOf_iff_prefix.1 hfull).subset (by decide)

/-- The remote decides what a name means: it has an own branch of the name, which exists, or it has
none and the name counts as it stands. -/
def decides (g : MemoryGraph) (name remote : String) : Bool :=
  match ownBranch? name remote with
  | some b => (g.lookupRef? ("refs/remotes/" ++ remote ++ "/" ++ b)).isSome
  | none => true

/-- The revision of a name in one remote. -/
def revisionIn? (g : MemoryGraph) (name remote : String) : Option Revision :=
  (qualifiedLeads name remote).findSome? (Lead.revision? g.lookupRef?)

/-- A name that tells its remote is looked up there alone. -/
theorem revisionIn?_of_own {b remote : String} (h : ownBranch? name remote = some b) :
    g.revisionIn? name remote =
      (g.lookupRef? ("refs/remotes/" ++ remote ++ "/" ++ b)).map
        fun c => .labelled c (remote ++ "/" ++ b) := by
  rw [revisionIn?, qualifiedLeads_eq, h]
  exact List.findSome?_singleton

/-- A name that tells no remote is taken as it is where it exists. -/
theorem revisionIn?_of_noOwn {c : CommitId} {remote : String} (h : ownBranch? name remote = none)
    (hc : g.lookupRef? name = some c) : g.revisionIn? name remote = some (.labelled c name) := by
  rw [revisionIn?, qualifiedLeads_eq, h]
  simp [Lead.revision?, hc]

/-- Where the name exists, a remote that decides has a revision for it. -/
theorem isSome_revisionIn? {c : CommitId} (hc : g.lookupRef? name = some c) (remote : String) :
    (g.revisionIn? name remote).isSome = g.decides name remote := by
  unfold decides
  cases hown : ownBranch? name remote with
  | some b => rw [revisionIn?_of_own hown, Option.isSome_map]
  | none => rw [revisionIn?_of_noOwn hown hc]; rfl

/-- The first remote that decides is the one whose revision is selected. -/
theorem findSome?_leads_of_decides {c : CommitId} {o : String} {rev : Revision}
    (hname : '/' ∈ name.toList) (hc : g.lookupRef? name = some c)
    (ho : s.remotes.find? (g.decides name) = some o) (hrev : g.revisionIn? name o = some rev) :
    (s.leads name).findSome? (Lead.revision? g.lookupRef?) = some rev := by
  obtain ⟨-, before, after, hremotes, hbefore⟩ := List.find?_eq_some_iff_append.1 ho
  have hskipped : ∀ remote ∈ before, g.revisionIn? name remote = none := by
    intro remote hremote
    have hundecided := hbefore remote hremote
    rw [← isSome_revisionIn? hc] at hundecided
    simpa using hundecided
  have hfirst : s.remotes.findSome? (g.revisionIn? name) = some rev :=
    List.findSome?_eq_some_iff.2 ⟨before, o, after, hremotes, hrev, hskipped⟩
  rw [findSome?_leads_of_separator s hname]
  exact congrArg (Option.or · _) hfirst

/-! ## A branch of one remote -/

section

variable {r n : String} {c : CommitId}

/-- A reference under its full name is looked up before anything else. -/
theorem lookupRef?_of_get? (h : g.refs.get? name = some c) : g.lookupRef? name = some c := by
  rw [lookupRef?, fullNames, List.findSome?_cons, h]

/-- The name of a remote branch is looked up as the branch, if as nothing else. -/
theorem exists_lookupRef?_of_remote (h : g.refs.get? ("refs/remotes/" ++ name) = some c) :
    ∃ d, g.lookupRef? name = some d := by
  refine Option.isSome_iff_exists.1 (List.findSome?_isSome_iff.2
    ⟨"refs/remotes/" ++ name, by simp [fullNames], ?_⟩)
  exact Option.isSome_of_eq_some h

/-- The remote of an existing branch decides what the name of the branch means. -/
theorem decides_of_branch (hbranch : g.refs.get? ("refs/remotes/" ++ r ++ "/" ++ n) = some c) :
    g.decides (r ++ "/" ++ n) r = true := by
  rw [decides, ownBranch?_append]
  exact Option.isSome_of_eq_some (lookupRef?_of_get? hbranch)

/-- The name of a branch of one remote means this branch in the remote itself, and in a remote that it
does not speak of if it is looked up so. -/
theorem revisionIn?_eq_branch_iff {d : CommitId} {o : String} (ho : '/' ∉ o.toList)
    (hr : '/' ∉ r.toList) (hbranch : g.refs.get? ("refs/remotes/" ++ r ++ "/" ++ n) = some c)
    (hd : g.lookupRef? (r ++ "/" ++ n) = some d) :
    g.revisionIn? (r ++ "/" ++ n) o = some (.labelled c (r ++ "/" ++ n)) ↔
      o = r ∨ ownBranch? (r ++ "/" ++ n) o = none ∧ g.lookupRef? (r ++ "/" ++ n) = some c := by
  have hown : ownBranch? (r ++ "/" ++ n) r = some n := ownBranch?_append r n
  cases howno : ownBranch? (r ++ "/" ++ n) o with
  | some b =>
    rw [revisionIn?_of_own howno]
    simp only [reduceCtorEq, false_and, or_false]
    constructor
    · intro h
      obtain ⟨e, -, hlabelled⟩ := Option.map_eq_some_iff.1 h
      exact Text.eq_of_append_separator ho hr (Revision.labelled_inj.1 hlabelled).2
    · rintro rfl
      cases hown.symm.trans howno
      rw [lookupRef?_of_get? hbranch, Option.map_some]
  | none =>
    have hne : o ≠ r := by
      rintro rfl
      cases hown.symm.trans howno
    rw [revisionIn?_of_noOwn howno hd]
    simp [hne, hd, Revision.labelled_inj]

end

/-- A build for a branch of a configured remote selects one revision.  It is the branch exactly when
the first remote that decides is this one, or one that the target does not speak of while the target
as it stands is looked up to the commit of the branch. -/
theorem select_remoteBranch_iff {branches remotes : List String} {r n : String} {c : CommitId}
    (hs : ofTexts branches remotes = .ok s) (hr : r ∈ s.remotes)
    (hbranch : g.refs.get? ("refs/remotes/" ++ r ++ "/" ++ n) = some c)
    (hasked : s.AsksFor req (r ++ "/" ++ n)) (hpattern : isPattern (r ++ "/" ++ n) = false)
    (hvars : '$' ∉ (r ++ "/" ++ n).toList) (htrim : Text.trim (r ++ "/" ++ n) = r ++ "/" ++ n)
    (hbuild : req.poll = false) (ledger : Ledger) :
    ∃ rev, (s.select req ledger).run g.answers = .ok [rev] ∧
      (rev = .labelled c (r ++ "/" ++ n) ↔
        ∃ o, s.remotes.find? (g.decides (r ++ "/" ++ n)) = some o ∧
          (o = r ∨ ownBranch? (r ++ "/" ++ n) o = none ∧
            g.lookupRef? (r ++ "/" ++ n) = some c)) := by
  have hname : '/' ∈ (r ++ "/" ++ n).toList := by simp
  have hnonempty : r ++ "/" ++ n ≠ "" := by
    intro h
    simp [h] at hname
  have hnoSeparator := separator_notMem_of_ofTexts hs
  obtain ⟨d, hd⟩ : ∃ d, g.lookupRef? (r ++ "/" ++ n) = some d :=
    exists_lookupRef?_of_remote (c := c) (by simpa only [String.append_assoc] using hbranch)
  obtain ⟨o, ho⟩ : ∃ o, s.remotes.find? (g.decides (r ++ "/" ++ n)) = some o :=
    Option.isSome_iff_exists.1 (List.find?_isSome.2 ⟨r, hr, decides_of_branch hbranch⟩)
  obtain ⟨rev, hrev⟩ : ∃ rev, g.revisionIn? (r ++ "/" ++ n) o = some rev :=
    Option.isSome_iff_exists.1 ((isSome_revisionIn? hd o).trans (List.find?_some ho))
  refine ⟨rev, ?_, ?_⟩
  · rw [select_of_asksFor hasked hpattern hvars htrim hnonempty,
      run_selectSingle_of_separator hbuild hname, findSome?_leads_of_decides hname hd ho hrev]
    rfl
  · have hmeant := revisionIn?_eq_branch_iff (hnoSeparator o (List.mem_of_find?_eq_some ho))
      (hnoSeparator r hr) hbranch hd
    rw [hrev, Option.some.injEq] at hmeant
    simpa only [ho, Option.some.injEq, exists_eq_left'] using hmeant

/-- The request for a build of one branch. -/
def buildOf (target : String) : Request := ⟨false, some target, [], ⟨2024, 1, 31⟩, 0⟩

/-- The strategy of an example, for all branches of two remotes. -/
theorem ofTexts_everything : ofTexts ["**"] ["upstream", "origin"] =
    .ok ⟨[.everything], ["upstream", "origin"]⟩ := by
  have hspecs : BranchSpec.ofTexts ["**"] = .ok [.everything] := by
    rw [BranchSpec.ofTexts, List.mapM_cons, BranchSpec.ofText_everything]
    rfl
  have hremotes : (["upstream", "origin"].map Text.trim).filter (!·.isEmpty) =
      ["upstream", "origin"] := by decide
  rw [ofTexts, hremotes, hspecs]
  rfl

/-- A remote in front takes the target as it stands, and so for the branch that it names. -/
theorem select_master_behind_upstream :
    let s : DefaultStrategy := ⟨[.everything], ["upstream", "origin"]⟩
    let g := tracking newerCommit
    ofTexts ["**"] ["upstream", "origin"] = .ok s ∧ "origin" ∈ s.remotes ∧
      g.refs.get? ("refs/remotes/" ++ "origin" ++ "/" ++ "master") = some newerCommit ∧
      s.AsksFor (buildOf "origin/master") ("origin" ++ "/" ++ "master") ∧
      isPattern ("origin" ++ "/" ++ "master") = false ∧
      '$' ∉ ("origin" ++ "/" ++ "master").toList ∧
      Text.trim ("origin" ++ "/" ++ "master") = "origin" ++ "/" ++ "master" ∧
      (buildOf "origin/master").poll = false ∧
      (s.select (buildOf "origin/master") .empty).run g.answers =
        .ok [.labelled newerCommit ("origin" ++ "/" ++ "master")] := by
  intro s g
  have hs : ofTexts ["**"] ["upstream", "origin"] = .ok s := ofTexts_everything
  have hr : "origin" ∈ s.remotes := by decide
  have hbranch : g.refs.get? ("refs/remotes/" ++ "origin" ++ "/" ++ "master") =
      some newerCommit := by decide
  have hasked : s.AsksFor (buildOf "origin/master") ("origin" ++ "/" ++ "master") := .inl rfl
  have hpattern : isPattern ("origin" ++ "/" ++ "master") = false := by decide
  have hvars : '$' ∉ ("origin" ++ "/" ++ "master").toList := by decide
  have htrim : Text.trim ("origin" ++ "/" ++ "master") = "origin" ++ "/" ++ "master" := by decide
  obtain ⟨rev, hrun, hiff⟩ :=
    select_remoteBranch_iff hs hr hbranch hasked hpattern hvars htrim rfl .empty
  have hrev : rev = .labelled newerCommit ("origin" ++ "/" ++ "master") :=
    hiff.2 ⟨"upstream", by decide, .inr ⟨by decide, by decide⟩⟩
  exact ⟨hs, hr, hbranch, hasked, hpattern, hvars, htrim, rfl, hrev ▸ hrun⟩

/-- With a tag of the same name the remote in front takes the target for the tag. -/
theorem select_tag_behind_upstream :
    let s : DefaultStrategy := ⟨[.everything], ["upstream", "origin"]⟩
    let g : MemoryGraph := { tracking newerCommit with
      refs := (tracking newerCommit).refs.insert "refs/tags/origin/master" olderCommit }
    ofTexts ["**"] ["upstream", "origin"] = .ok s ∧ "origin" ∈ s.remotes ∧
      g.refs.get? "refs/remotes/origin/master" = some newerCommit ∧
      s.AsksFor (buildOf "origin/master") "origin/master" ∧ isPattern "origin/master" = false ∧
      '$' ∉ "origin/master".toList ∧ Text.trim "origin/master" = "origin/master" ∧
      (buildOf "origin/master").poll = false ∧
      (s.select (buildOf "origin/master") .empty).run g.answers =
        .ok [.labelled olderCommit "origin/master"] ∧
      olderCommit ≠ newerCommit := by
  intro s g
  have hasked : s.AsksFor (buildOf "origin/master") "origin/master" := .inl rfl
  have hpattern : isPattern "origin/master" = false := by decide
  have hvars : '$' ∉ "origin/master".toList := by decide
  have htrim : Text.trim "origin/master" = "origin/master" := by decide
  have hfirst : (s.leads "origin/master").findSome? (Lead.revision? g.lookupRef?) =
      some (.labelled olderCommit "origin/master") := by decide
  have hrun : (s.select (buildOf "origin/master") .empty).run g.answers =
      .ok [.labelled olderCommit "origin/master"] := by
    rw [select_of_asksFor hasked hpattern hvars htrim (by decide),
      run_selectSingle_of_separator rfl (by decide), hfirst]
    rfl
  exact ⟨ofTexts_everything, by decide, by decide, hasked, hpattern, hvars, htrim, rfl, hrun, by decide⟩

end MemoryGraph

end NextBuild
