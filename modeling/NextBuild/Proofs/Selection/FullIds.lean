import NextBuild.Proofs.CommitId
import NextBuild.Proofs.Graph.Content
import NextBuild.Proofs.Graph.Replacement
import NextBuild.Proofs.Selection.RemoteTargets

/-!
# Full ids as targets

A build for the text of a full id asks the graph what the text denotes.  A graph in memory looks for
references first, and a full id is nothing but a long abbreviation to it.  So the id denotes its own
commit exactly when no reference under one of its full names points elsewhere and, if there is no such
reference at all, no longer id starts with it.
-/

namespace NextBuild

namespace CommitId

variable {c : CommitId}

/-- There are no blanks around an id. -/
theorem trim_text (c : CommitId) : Text.trim c.text = c.text := by
  rw [Text.trim, c.trimChars_text, String.ofList_toList]

/-- The letters of an id are small. -/
theorem lowerAscii_text (c : CommitId) : Text.lowerAscii c.text = c.text := by
  rw [Text.lowerAscii, c.map_toLower_text, String.ofList_toList]

/-- An id is not the name of the fetched head. -/
theorem text_ne_fetchHead (c : CommitId) : c.text ≠ "FETCH_HEAD" := fun h =>
  notMem_text (d := 'F') (by decide) c (h ▸ by decide)

end CommitId

namespace Dag

variable {g : Dag} {c d : CommitId}

/-- A list without repetitions that holds an entry has it as its only one when nothing else is there. -/
theorem only?_eq_some_iff {α : Type} {as : List α} {a b : α} (hnodup : as.Nodup) (ha : a ∈ as) :
    only? as = some b ↔ b = a ∧ ∀ d ∈ as, d = a := by
  match as with
  | [] => cases ha
  | [e] =>
    obtain rfl := List.mem_singleton.1 ha
    simp [only?, eq_comm]
  | e :: f :: es =>
    have hne : e ≠ f := fun h => (List.nodup_cons.1 hnodup).1 (h ▸ List.mem_cons_self)
    have hother : ¬ ∀ d ∈ e :: f :: es, d = a := fun h =>
      hne ((h e (by simp)).trans (h f (by simp)).symm)
    simp only [only?, reduceCtorEq, hother, and_false]

/-- The full id of a commit counts as an abbreviation: it means the commit unless another id starts
with it, and then it means nothing. -/
theorem abbreviated?_text_eq_some_iff (hg : g.ids.Nodup) (hc : g.Has c) :
    g.abbreviated? c.text = some d ↔
      d = c ∧ ∀ e, g.Has e → Text.startsWith c.text e.text = true → e = c := by
  have hlong : ¬ c.text.utf8ByteSize < 4 := by
    have hlength := c.forty_le_length
    rw [c.utf8ByteSize_text]
    omega
  have hmem : c ∈ g.ids.filter fun e => Text.startsWith c.text e.text :=
    List.mem_filter.2 ⟨mem_ids_iff.2 hc, List.isPrefixOf_iff_prefix.2 List.prefix_rfl⟩
  rw [abbreviated?_eq_only?, c.all_isHexDigit_text, c.lowerAscii_text, if_neg (by simp [hlong]),
    only?_eq_some_iff (hg.filter _) hmem]
  simp only [List.mem_filter, mem_ids_iff, and_imp]

end Dag

namespace DefaultStrategy

variable {s : DefaultStrategy} {name : String}

/-- A name without a separator ends the labels of all its leads. -/
theorem exists_label_of_mem_leads (hname : '/' ∉ name.toList) {l : Lead} (h : l ∈ s.leads name) :
    ∃ lead, l.label = lead ++ name := by
  have hself : ∃ lead, name = lead ++ name := ⟨"", by simp⟩
  have hseparator : Text.hasChar '/' name = false := by simpa [Text.hasChar] using hname
  unfold leads at h
  split at h
  · rw [List.mem_singleton.1 h]
    exact hself
  · rw [hseparator, if_neg Bool.false_ne_true] at h
    rcases List.mem_append.1 (mem_of_mem_distinctLeads h) with h | h
    · rcases List.mem_cons.1 h with rfl | h
      · exact ⟨"refs/tags/", rfl⟩
      · obtain ⟨remote, -, rfl⟩ := List.mem_map.1 h
        exact ⟨remote ++ "/", rfl⟩
    · rw [List.mem_singleton.1 h]
      exact hself

/-- The text of a full id is one definite target. -/
theorem select_fullId {req : Request} {c : CommitId} (s : DefaultStrategy)
    (htarget : req.target = some c.text) (ledger : Ledger) :
    s.select req ledger = s.selectSingle req ledger c.text := by
  refine select_of_target ledger htarget c.trim_text (CommitId.notMem_text (by decide) c) ?_
  have hempty : c.text.isEmpty = false := by
    rw [← Bool.not_eq_true, String.isEmpty_iff]
    intro h
    exact absurd (h ▸ c.wellFormed) (by decide)
  have hstar : Text.hasChar '*' c.text = false := by
    simpa [Text.hasChar] using CommitId.notMem_text (by decide) c
  have hcolon : Text.startsWith ":" c.text = false := by
    rw [← Bool.not_eq_true, Text.startsWith, List.isPrefixOf_iff_prefix]
    intro hlead
    exact CommitId.notMem_text (by decide) c (hlead.subset List.mem_cons_self)
  rw [hempty, isPattern, hstar, hcolon]
  rfl

end DefaultStrategy

namespace MemoryGraph

open DefaultStrategy

variable {g : MemoryGraph} {s : DefaultStrategy} {req : Request} {c d : CommitId} {name : String}

/-- A build for a text that may be an abbreviated id selects the commit that the text denotes, and if
there is none, the first of its leads that exists. -/
theorem run_selectSingle_of_abbreviation (hbuild : req.poll = false)
    (hname : CommitId.looksLikeAbbreviation name = true) (hfetch : name ≠ "FETCH_HEAD")
    (ledger : Ledger) :
    (s.selectSingle req ledger name).run g.answers = .ok (((g.denoted? name).map
      (Revision.labelled · detached)).or
        ((s.leads name).findSome? (Lead.revision? g.denoted?))).toList := by
  have hleads : ∀ l ∈ s.leads name, l.query.run g.answers = .ok (g.denoted? l.reference) := by
    intro l hl
    refine run_query fun heq => ?_
    rcases isNamedOrFull_of_mem_leads l hl with hnamed | hfull
    · exact hfetch (hnamed.symm.trans heq)
    · rw [heq] at hfull
      exact absurd hfull (by decide)
  simp only [selectSingle, hbuild, hname, Bool.not_false, Bool.and_self, if_true, Inquiry.run_bind,
    run_resolve hfetch, ok_bind]
  cases g.denoted? name with
  | some d => rfl
  | none =>
    simp only [Inquiry.run_bind, run_resolveLeads g.denoted? hleads, ok_bind, List.head?_filterMap,
      Bool.false_and]
    cases (s.leads name).findSome? (Lead.revision? g.denoted?) <;> rfl

/-- The text of a full id denotes the commit: a reference that is found under it points to the commit,
and where no reference is found, no other id starts with it. -/
structure TellsId (g : MemoryGraph) (c : CommitId) : Prop where
  reference : ∀ d, g.lookupRef? c.text = some d → d = c
  unique : g.lookupRef? c.text = none →
    ∀ d, g.dag.Has d → Text.startsWith c.text d.text = true → d = c

/-- A full id denotes its commit exactly if nothing else is told by it. -/
theorem denoted?_text_iff (hg : g.dag.ids.Nodup) (hc : g.dag.Has c) :
    g.denoted? c.text = some c ↔ g.TellsId c := by
  rw [denoted?]
  cases hfound : g.lookupRef? c.text with
  | some d =>
    rw [Option.some_or, Option.some.injEq]
    constructor
    · rintro rfl
      exact ⟨fun e he => (Option.some.inj (hfound.symm.trans he)).symm,
        fun hnone => by simp [hfound] at hnone⟩
    · exact fun h => h.reference d hfound
  | none =>
    rw [Option.none_or, Dag.abbreviated?_text_eq_some_iff hg hc]
    constructor
    · exact fun h => ⟨fun e he => by simp [hfound] at he, fun _ => h.2⟩
    · exact fun h => ⟨rfl, h.unique hfound⟩

/-- What is found under the leads of a full id is not labelled as a detached commit. -/
theorem findSome?_leads_ne_detached (found : String → Option CommitId) (c d : CommitId) :
    (s.leads c.text).findSome? (Lead.revision? found) ≠ some (.labelled d detached) := by
  intro h
  obtain ⟨l, hl, hrevision⟩ := List.exists_of_findSome?_eq_some h
  obtain ⟨e, -, hlabelled⟩ := Option.map_eq_some_iff.1 hrevision
  obtain ⟨lead, hlabel⟩ := exists_label_of_mem_leads (CommitId.notMem_text (by decide) c) hl
  have hlength := congrArg String.length
    (hlabel.symm.trans (Revision.labelled_inj.1 hlabelled).2)
  have hlong := c.forty_le_length
  rw [String.length_toList] at hlong
  rw [String.length_append, show detached.length = 8 from rfl] at hlength
  omega

/-- Whatever is called on a graph: a build for the full id of one of its objects succeeds, and it
selects just this commit, as a detached one, exactly when the text of the id denotes the commit. -/
theorem select_fullId_iff (localBranches : Bool) (calls : List Call)
    (hc : (afterAll { empty with localBranches } calls).dag.Has c) (hobject : c.isObjectId = true)
    (hbuild : req.poll = false) (htarget : req.target = some c.text) (s : DefaultStrategy)
    (ledger : Ledger) :
    let g := afterAll { empty with localBranches } calls
    ∃ rs, (s.select req ledger).run g.answers = .ok rs ∧
      (rs = [.labelled c detached] ↔ g.TellsId c) := by
  intro g
  have hnodup : g.dag.ids.Nodup :=
    (tidy_afterAll Dag.tidy_empty (fun e he => by cases he) calls).1.nodup
  have hrun := run_selectSingle_of_abbreviation (g := g) (s := s) hbuild
    (CommitId.looksLikeAbbreviation_text hobject) c.text_ne_fetchHead ledger
  rw [← s.select_fullId htarget ledger] at hrun
  refine ⟨_, hrun, ?_⟩
  rw [← denoted?_text_iff hnodup hc, Option.toList_eq_singleton_iff]
  cases g.denoted? c.text with
  | some d =>
    rw [Option.map_some, Option.some_or, Option.some.injEq, Revision.labelled_inj, Option.some.injEq]
    exact and_iff_left rfl
  | none =>
    rw [Option.map_none, Option.none_or]
    exact iff_of_false (findSome?_leads_ne_detached g.denoted? c c) (by simp)

/-! ## Ids that are shadowed -/

/-- An id of 64 digits that starts with the older commit of the example. -/
def longCommit : CommitId :=
  ⟨"aaaaaaaaaaaaaaaaaaaaaaaaaaaaaaaaaaaaaaaaaaaaaaaaaaaaaaaaaaaaaaaa", by decide⟩

/-- A local branch that is called like the id of its commit tells the id although a longer one starts
with it. -/
theorem select_fullId_named :
    let calls : List Call := [.addCommit olderCommit [] 100, .addCommit longCommit [olderCommit] 200,
      .setRef ("refs/heads/" ++ olderCommit.text) olderCommit]
    let g := afterAll { empty with localBranches := false } calls
    let s : DefaultStrategy := ⟨[.everything], ["origin"]⟩
    g.dag.Has olderCommit ∧ olderCommit.isObjectId = true ∧
      (buildOf olderCommit.text).poll = false ∧
      (buildOf olderCommit.text).target = some olderCommit.text ∧
      (s.select (buildOf olderCommit.text) .empty).run g.answers =
        .ok [.labelled olderCommit detached] := by
  intro calls g s
  have hc : g.dag.Has olderCommit := ⟨⟨olderCommit, [], 100, 0⟩, rfl⟩
  have hfound : g.lookupRef? olderCommit.text = some olderCommit := by decide
  have htells : g.TellsId olderCommit :=
    ⟨fun d hd => (Option.some.inj (hfound.symm.trans hd)).symm,
      fun hnone => by simp [hfound] at hnone⟩
  obtain ⟨rs, hrun, hiff⟩ :=
    select_fullId_iff false calls hc rfl (show (buildOf olderCommit.text).poll = false from rfl) rfl
      s .empty
  exact ⟨hc, rfl, rfl, rfl, hiff.2 htells ▸ hrun⟩

/-- A tag that is called like the id of another commit takes its place, and where a longer id starts
with the id of a commit, nothing is found to build. -/
theorem select_fullId_shadowed :
    let s : DefaultStrategy := ⟨[.everything], ["origin"]⟩
    let tagged := empty.afterAll [.addCommit olderCommit [] 100, .addCommit newerCommit [] 200,
      .setRef ("refs/tags/" ++ olderCommit.text) newerCommit]
    let extended := empty.afterAll [.addCommit olderCommit [] 100, .addCommit longCommit [] 200]
    tagged.dag.Has olderCommit ∧ extended.dag.Has olderCommit ∧ olderCommit.isObjectId = true ∧
      (buildOf olderCommit.text).target = some olderCommit.text ∧
      (s.select (buildOf olderCommit.text) .empty).run tagged.answers =
        .ok [.labelled newerCommit detached] ∧ newerCommit ≠ olderCommit ∧
      (s.select (buildOf olderCommit.text) .empty).run extended.answers = .ok [] := by
  intro s tagged extended
  have hbuild : (buildOf olderCommit.text).poll = false := rfl
  have hselected (g : MemoryGraph) := run_selectSingle_of_abbreviation (g := g) (s := s) hbuild
    (CommitId.looksLikeAbbreviation_text (c := olderCommit) rfl) olderCommit.text_ne_fetchHead .empty
  have htagged : tagged.denoted? olderCommit.text = some newerCommit := by decide
  have hextended : extended.denoted? olderCommit.text = none := by decide
  refine ⟨⟨_, rfl⟩, ⟨_, rfl⟩, rfl, rfl, ?_, by decide, ?_⟩
  · rw [s.select_fullId rfl, hselected, htagged]
    rfl
  · rw [s.select_fullId rfl, hselected, hextended]
    have hleads : (s.leads olderCommit.text).findSome? (Lead.revision? extended.denoted?) = none := by
      decide
    rw [hleads]
    rfl

end MemoryGraph

end NextBuild
