import Mathlib.Data.List.Induction
import NextBuild.Ledger

/-!
# What the ledger has built

Looking a commit up goes through the most recent build first and then compares numbers, but whether
anything is found depends on neither: a commit has been built when some build that is kept covers it.

Of the builds that name a branch only the last one recorded is kept for this name.  So a build is
forgotten when each of its names was recorded again, whatever became of its commit.  All look-ups of a
ledger that was recorded are answered from the list of its builds in this way.
-/

namespace NextBuild

/-- A build covers the commit that it built. -/
theorem Build.covers_revision (b : Build) : b.covers b.revision.commit = true := by
  simp [covers]

/-- A build covers the commit that was built and the one that was marked. -/
theorem Build.covers_iff {b : Build} {c : CommitId} :
    b.covers c = true ↔ b.revision.commit = c ∨ b.marked.commit = c := by
  simp [covers]

namespace Ledger

variable {l : Ledger} {b : Build} {bs : List Build} {c : CommitId}

/-- Among builds there is one of the greatest number, unless there is none at all. -/
theorem isSome_greatest? : (greatest? bs).isSome = true ↔ ∃ b, b ∈ bs := by
  cases bs with
  | nil => simp [greatest?]
  | cons b bs =>
    have hsome : (greatest? (b :: bs)).isSome = true := by
      rw [greatest?]
      split
      · split <;> rfl
      · rfl
    exact ⟨fun _ => ⟨b, List.mem_cons_self⟩, fun _ => hsome⟩

/-- No build has a greater number than the one with the greatest number. -/
theorem mem_and_le_of_greatest? (h : greatest? bs = some b) :
    b ∈ bs ∧ ∀ d ∈ bs, d.number ≤ b.number := by
  induction bs generalizing b with
  | nil => cases h
  | cons a bs ih =>
    rw [greatest?] at h
    cases hrest : greatest? bs with
    | none =>
      have hempty : bs = [] := by
        apply List.eq_nil_iff_forall_not_mem.2
        intro d hd
        simpa [hrest] using isSome_greatest?.2 ⟨d, hd⟩
      rw [hrest] at h
      cases h
      simp [hempty]
    | some d =>
      obtain ⟨hmem, hmax⟩ := ih hrest
      rw [hrest] at h
      by_cases hlt : d.number < a.number
      · obtain rfl : a = b := by simpa [hlt] using h
        refine ⟨List.mem_cons_self, List.forall_mem_cons.2 ⟨UInt64.le_refl _, fun e he => ?_⟩⟩
        exact UInt64.le_of_lt (UInt64.lt_of_le_of_lt (hmax e he) hlt)
      · obtain rfl : d = b := by simpa [hlt] using h
        exact ⟨List.mem_cons_of_mem _ hmem,
          List.forall_mem_cons.2 ⟨UInt64.not_lt.1 hlt, hmax⟩⟩

/-- A commit has been built when the most recent build or the last build of some branch covers it. -/
theorem hasBuilt_iff :
    l.hasBuilt c = true ↔
      (∃ b, l.last = some b ∧ b.covers c = true) ∨ ∃ b ∈ l.byBranch.values, b.covers c = true := by
  unfold hasBuilt buildOfCommit?
  cases hlast : l.last.filter (·.covers c) with
  | some b =>
    obtain ⟨hb, hcovers⟩ := Option.filter_eq_some_iff.1 hlast
    simp only [Option.isSome_some, true_iff]
    exact .inl ⟨b, hb, hcovers⟩
  | none =>
    have hnot : ¬ ∃ b, l.last = some b ∧ b.covers c = true := by
      intro h
      obtain ⟨b, hb, hcovers⟩ := h
      simp [hb, hcovers] at hlast
    simp only [isSome_greatest?, List.mem_filter, hnot, false_or]

/-- A commit was never built when no build that is kept covers it. -/
theorem hasBuilt_eq_false_iff :
    l.hasBuilt c = false ↔
      (∀ b, l.last = some b → b.covers c = false) ∧ ∀ b ∈ l.byBranch.values, b.covers c = false := by
  rw [← Bool.not_eq_true, hasBuilt_iff, not_or]
  simp only [not_exists, not_and, Bool.not_eq_true]

/-- The most recent build is looked up first. -/
theorem hasBuilt_of_last (hlast : l.last = some b) (hcovers : b.covers c = true) :
    l.hasBuilt c = true :=
  hasBuilt_iff.2 (.inl ⟨b, hlast, hcovers⟩)

/-- A ledger that recording builds, one after the other, leads to. -/
inductive Recorded : Ledger → Prop
  | empty : Recorded .empty
  | record {l : Ledger} (b : Build) : Recorded l → Recorded (l.record b)

/-- Before the first build nothing has been built. -/
theorem Recorded.hasBuilt_eq_false (h : Recorded l) (hlast : l.last = none) (c : CommitId) :
    l.hasBuilt c = false := by
  cases h with
  | empty => rfl
  | record b _ => cases hlast

/-- A commit has been built when the most recent build or the last build for some name covers it. -/
theorem hasBuilt_iff_buildOfBranch? :
    l.hasBuilt c = true ↔ (∃ b, l.last = some b ∧ b.covers c = true) ∨
      ∃ name b, l.buildOfBranch? name = some b ∧ b.covers c = true := by
  rw [hasBuilt_iff]
  refine or_congr_right ?_
  simp only [Table.mem_values_iff, buildOfBranch?]
  exact ⟨fun ⟨b, ⟨name, hname⟩, hc⟩ => ⟨name, b, hname, hc⟩,
    fun ⟨name, b, hname, hc⟩ => ⟨b, ⟨name, hname⟩, hc⟩⟩

/-- A commit is referenced when the last build for some name built it. -/
theorem isReferenced_iff : l.isReferenced c = true ↔
    ∃ name b, l.buildOfBranch? name = some b ∧ b.revision.commit = c := by
  simp only [isReferenced, List.any_eq_true, Table.mem_values_iff, beq_iff_eq, buildOfBranch?]
  constructor
  · rintro ⟨b, ⟨name, hb⟩, hc⟩
    exact ⟨name, b, hb, hc⟩
  · rintro ⟨name, b, hb, hc⟩
    exact ⟨b, ⟨name, hb⟩, hc⟩

/-- A build is the last one for the names of the revision that asked for it. -/
@[simp]
theorem buildOfBranch?_record (l : Ledger) (b : Build) (name : String) :
    (l.record b).buildOfBranch? name =
      if name ∈ b.marked.names then some b else l.buildOfBranch? name :=
  Table.get?_foldl_insert b.marked.names b l.byBranch name

/-! ## Many builds, one after the other -/

/-- The ledger after more builds. -/
def recordAll (l : Ledger) (bs : List Build) : Ledger := bs.foldl record l

/-- Recording no builds changes nothing. -/
@[simp]
theorem recordAll_nil (l : Ledger) : l.recordAll [] = l := rfl

/-- The last build is recorded after the others. -/
@[simp]
theorem recordAll_concat (l : Ledger) (bs : List Build) (b : Build) :
    l.recordAll (bs ++ [b]) = (l.recordAll bs).record b := by
  simp [recordAll]

/-- The most recent build is the last one recorded. -/
theorem last_recordAll (l : Ledger) (bs : List Build) :
    (l.recordAll bs).last = bs.getLast?.or l.last := by
  induction bs using List.reverseRecOn with
  | nil => simp
  | append_singleton bs b _ => simp [record]

/-- Of the builds that name a branch the last one recorded is kept for it. -/
theorem buildOfBranch?_recordAll (l : Ledger) (bs : List Build) (name : String) :
    (l.recordAll bs).buildOfBranch? name =
      (bs.reverse.find? fun b => name ∈ b.marked.names).or (l.buildOfBranch? name) := by
  induction bs using List.reverseRecOn with
  | nil => simp
  | append_singleton bs b ih =>
    rw [recordAll_concat, buildOfBranch?_record, ih, List.reverse_append, List.reverse_singleton,
      List.singleton_append, List.find?_cons]
    by_cases hname : name ∈ b.marked.names <;> simp [hname]

/-- The build is the last one recorded whose marked revision has the name. -/
def Latest (bs : List Build) (name : String) (b : Build) : Prop :=
  ∃ before after, bs = before ++ b :: after ∧ name ∈ b.marked.names ∧
    ∀ d ∈ after, name ∉ d.marked.names

/-- Searching from the end finds the last build that has the name. -/
theorem find?_reverse_eq_some_iff {name : String} :
    (bs.reverse.find? fun b => name ∈ b.marked.names) = some b ↔ Latest bs name b := by
  rw [List.find?_eq_some_iff_append]
  constructor
  · rintro ⟨hname, after, before, hsplit, hlater⟩
    refine ⟨before.reverse, after.reverse, ?_, of_decide_eq_true hname, fun d hd => ?_⟩
    · simpa using congrArg List.reverse hsplit
    · simpa using hlater d (List.mem_reverse.1 hd)
  · rintro ⟨before, after, rfl, hname, hlater⟩
    refine ⟨decide_eq_true hname, after.reverse, before.reverse, by simp, fun d hd => ?_⟩
    simpa using hlater d (List.mem_reverse.1 hd)

/-- A ledger that started empty keeps for a name the last build that has it. -/
theorem buildOfBranch?_recordAll_empty {name : String} :
    (empty.recordAll bs).buildOfBranch? name = some b ↔ Latest bs name b := by
  rw [buildOfBranch?_recordAll, ← find?_reverse_eq_some_iff]
  simp [buildOfBranch?, empty]

/-- A commit is referenced if it is the built one of a latest build. -/
theorem isReferenced_recordAll_iff : (empty.recordAll bs).isReferenced c = true ↔
    ∃ name b, Latest bs name b ∧ b.revision.commit = c := by
  simp only [isReferenced_iff, buildOfBranch?_recordAll_empty]

/-- A name that was recorded is kept with a build that has this name. -/
theorem exists_buildOfBranch?_recordAll (l : Ledger) {name : String} (hb : b ∈ bs)
    (hname : name ∈ b.marked.names) :
    ∃ d ∈ bs, name ∈ d.marked.names ∧ (l.recordAll bs).buildOfBranch? name = some d := by
  have hsome : (bs.reverse.find? fun b => decide (name ∈ b.marked.names)).isSome = true := by
    rw [List.find?_isSome]
    exact ⟨b, List.mem_reverse.2 hb, decide_eq_true hname⟩
  obtain ⟨d, hd⟩ := Option.isSome_iff_exists.1 hsome
  refine ⟨d, List.mem_reverse.1 (List.mem_of_find?_eq_some hd), ?_, ?_⟩
  · simpa using List.find?_some hd
  · rw [buildOfBranch?_recordAll, hd, Option.some_or]

/-- Every build that covers the commit has lost each of its names to later builds. -/
def Forgotten (bs : List Build) (c : CommitId) : Prop :=
  ∀ before b after, bs = before ++ b :: after → b.covers c = true →
    ∀ name ∈ b.marked.names, ∃ d ∈ after, name ∈ d.marked.names

/-- A build that has kept one of its names is found. -/
theorem hasBuilt_of_kept {before after : List Build} {name : String} (hcovers : b.covers c = true)
    (hname : name ∈ b.marked.names) (hkept : ∀ d ∈ after, name ∉ d.marked.names) :
    (l.recordAll (before ++ b :: after)).hasBuilt c = true := by
  have hfind : (before ++ b :: after).reverse.find? (fun b => decide (name ∈ b.marked.names)) =
      some b := find?_reverse_eq_some_iff.2 ⟨before, after, rfl, hname, hkept⟩
  refine hasBuilt_iff_buildOfBranch?.2 (.inr ⟨name, b, ?_, hcovers⟩)
  rw [buildOfBranch?_recordAll, hfind, Option.some_or]

/-- Whatever is found after builds with names is a build that has kept one of its names. -/
theorem exists_kept_of_hasBuilt (hnamed : ∀ b ∈ bs, b.marked.names ≠ [])
    (h : (empty.recordAll bs).hasBuilt c = true) :
    ∃ before b after, bs = before ++ b :: after ∧ b.covers c = true ∧
      ∃ name ∈ b.marked.names, ∀ d ∈ after, name ∉ d.marked.names := by
  rcases hasBuilt_iff_buildOfBranch?.1 h with ⟨b, hlast, hcovers⟩ | ⟨name, b, hkept, hcovers⟩
  · rw [last_recordAll] at hlast
    obtain ⟨before, rfl⟩ := List.getLast?_eq_some_iff.1 (by simpa [empty] using hlast)
    obtain ⟨name, hname⟩ := List.exists_mem_of_ne_nil _ (hnamed b (by simp))
    exact ⟨before, b, [], rfl, hcovers, name, hname, by simp⟩
  · obtain ⟨before, after, hsplit, hname, hlater⟩ := buildOfBranch?_recordAll_empty.1 hkept
    exact ⟨before, b, after, hsplit, hcovers, name, hname, hlater⟩

/-- After builds with names, nothing else, a commit counts as never built exactly when it is
forgotten. -/
theorem hasBuilt_recordAll_eq_false_iff (hnamed : ∀ b ∈ bs, b.marked.names ≠ []) :
    (empty.recordAll bs).hasBuilt c = false ↔ Forgotten bs c := by
  constructor
  · intro h before b after hsplit hcovers name hname
    by_contra hlost
    have hkept : ∀ d ∈ after, name ∉ d.marked.names := fun d hd hd' => hlost ⟨d, hd, hd'⟩
    rw [hsplit, hasBuilt_of_kept hcovers hname hkept] at h
    cases h
  · intro h
    by_contra hbuilt
    obtain ⟨before, b, after, hsplit, hcovers, name, hname, hkept⟩ :=
      exists_kept_of_hasBuilt hnamed (Bool.not_eq_false _ ▸ hbuilt)
    obtain ⟨d, hd, hlost⟩ := h before b after hsplit hcovers name hname
    exact hkept d hd hlost

/-- After builds with names a commit has been built when the latest build for some name covers it. -/
theorem hasBuilt_recordAll_iff (hnamed : ∀ b ∈ bs, b.marked.names ≠ []) :
    (empty.recordAll bs).hasBuilt c = true ↔
      ∃ name b, Latest bs name b ∧ (b.revision.commit = c ∨ b.marked.commit = c) := by
  simp only [← Build.covers_iff]
  constructor
  · intro h
    obtain ⟨before, b, after, hsplit, hcovers, name, hname, hkept⟩ := exists_kept_of_hasBuilt hnamed h
    exact ⟨name, b, ⟨before, after, hsplit, hname, hkept⟩, hcovers⟩
  · rintro ⟨name, b, ⟨before, after, rfl, hname, hkept⟩, hcovers⟩
    exact hasBuilt_of_kept hcovers hname hkept

/-- What is built is not all that counts as built: a commit whose builds that are still found are
merges for it is not referenced. -/
theorem isReferenced_eq_hasBuilt_iff (hnamed : ∀ b ∈ bs, b.marked.names ≠ []) :
    (empty.recordAll bs).isReferenced c = (empty.recordAll bs).hasBuilt c ↔
      ∀ name b, Latest bs name b → b.marked.commit = c →
        ∃ other d, Latest bs other d ∧ d.revision.commit = c := by
  rw [Bool.eq_iff_iff, isReferenced_recordAll_iff, hasBuilt_recordAll_iff hnamed]
  constructor
  · intro h name b hb hmarked
    exact h.2 ⟨name, b, hb, .inr hmarked⟩
  · intro h
    constructor
    · rintro ⟨name, b, hb, hbuilt⟩
      exact ⟨name, b, hb, .inl hbuilt⟩
    · rintro ⟨name, b, hb, hbuilt | hmarked⟩
      · exact ⟨name, b, hb, hbuilt⟩
      · exact h name b hb hmarked

/-! ## What a ledger tells of the builds it has seen -/

/-- The build can be found: it is the most recent one, or the latest one of some name. -/
def Kept (bs : List Build) (b : Build) : Prop :=
  bs.getLast? = some b ∨ ∃ name, Latest bs name b

/-- What a ledger tells of the builds that were recorded, merges or not and with any numbers. -/
structure Recalls (l : Ledger) (bs : List Build) : Prop where
  /-- The most recent build is the last one. -/
  last : l.last = bs.getLast?
  /-- The entries for names are the latest builds of these names, and no others. -/
  byBranch : ∀ name b, (name, b) ∈ l.byBranch.entries ↔ Latest bs name b
  /-- A commit has been built when a build that can be found built it or was asked for by it. -/
  hasBuilt : ∀ c, l.hasBuilt c = true ↔
    ∃ b, Kept bs b ∧ (b.revision.commit = c ∨ b.marked.commit = c)
  /-- Some build is found for exactly the commits that have been built. -/
  isSome : ∀ c, (l.buildOfCommit? c).isSome = l.hasBuilt c
  /-- The most recent build is preferred. -/
  ofLast : ∀ c b, bs.getLast? = some b → b.revision.commit = c ∨ b.marked.commit = c →
    l.buildOfCommit? c = some b
  /-- Else it is one of the latest builds of names that cover the commit, with the greatest number. -/
  ofBranch : ∀ c b,
    (∀ d, bs.getLast? = some d → ¬ (d.revision.commit = c ∨ d.marked.commit = c)) →
    l.buildOfCommit? c = some b →
    (∃ name, Latest bs name b) ∧ (b.revision.commit = c ∨ b.marked.commit = c) ∧
      ∀ name d, Latest bs name d → d.revision.commit = c ∨ d.marked.commit = c →
        d.number ≤ b.number

/-- A build for a name is an entry of the table. -/
theorem mem_entries_iff {name : String} :
    (name, b) ∈ l.byBranch.entries ↔ l.buildOfBranch? name = some b :=
  (Table.lookup_eq_some_iff l.byBranch.ascending).symm

/-- The most recent build is the answer for the commits that it covers. -/
theorem buildOfCommit?_of_last (hlast : l.last = some b) (hcovers : b.covers c = true) :
    l.buildOfCommit? c = some b := by
  have hfilter : l.last.filter (·.covers c) = some b := by simp [hlast, hcovers]
  rw [buildOfCommit?, hfilter]

/-- Where the most recent build does not cover the commit, the builds for names are searched. -/
theorem buildOfCommit?_of_not_last (hlast : ∀ b, l.last = some b → b.covers c = false) :
    l.buildOfCommit? c = greatest? (l.byBranch.values.filter (·.covers c)) := by
  have hnone : l.last.filter (·.covers c) = none := by
    cases hl : l.last with
    | none => rfl
    | some b => simp [hlast b hl]
  rw [buildOfCommit?, hnone]

/-- The builds for names that a search for a commit goes through. -/
theorem mem_filter_covers_iff :
    b ∈ l.byBranch.values.filter (·.covers c) ↔
      ∃ name, l.buildOfBranch? name = some b ∧ b.covers c = true := by
  rw [List.mem_filter, Table.mem_values_iff, exists_and_right]
  rfl

/-- After any builds the ledger tells which of them is the last one, which is the latest one for each
name, and which one covers a commit. -/
theorem recordAll_recalls (bs : List Build) : (empty.recordAll bs).Recalls bs := by
  have hlast : (empty.recordAll bs).last = bs.getLast? := by
    rw [last_recordAll]
    simp [empty]
  constructor
  case last => exact hlast
  case byBranch =>
    intro name b
    rw [mem_entries_iff, buildOfBranch?_recordAll_empty]
  case hasBuilt =>
    intro c
    simp only [hasBuilt_iff_buildOfBranch?, buildOfBranch?_recordAll_empty, hlast, Kept,
      Build.covers_iff]
    grind
  case isSome => exact fun _ => rfl
  case ofLast =>
    intro c b hb hcovers
    apply buildOfCommit?_of_last (hlast.trans hb)
    exact Build.covers_iff.2 hcovers
  case ofBranch =>
    intro c b hother hb
    have hother' : ∀ d, (empty.recordAll bs).last = some d → d.covers c = false := by
      intro d hd
      rw [← Bool.not_eq_true, Build.covers_iff]
      exact hother d (hlast.symm.trans hd)
    have hmem (d : Build) : d ∈ (empty.recordAll bs).byBranch.values.filter (·.covers c) ↔
        ∃ name, Latest bs name d ∧ (d.revision.commit = c ∨ d.marked.commit = c) := by
      simp only [mem_filter_covers_iff, buildOfBranch?_recordAll_empty, Build.covers_iff]
    rw [buildOfCommit?_of_not_last hother'] at hb
    obtain ⟨hbmem, hmax⟩ := mem_and_le_of_greatest? hb
    obtain ⟨name, hlatest, hcovers⟩ := (hmem b).1 hbmem
    refine ⟨⟨name, hlatest⟩, hcovers, ?_⟩
    intro name' d hd hdcovers
    exact hmax d ((hmem d).2 ⟨name', hd, hdcovers⟩)

end Ledger

end NextBuild
