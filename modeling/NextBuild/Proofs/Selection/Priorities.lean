import Mathlib.Data.List.DropRight
import NextBuild.Proofs.Selection.Bounds
import NextBuild.Proofs.StableSort

/-!
# The order of priorities

The priorities are what stands between the line feeds of the texts that list them, without blanks
around it.  A strategy with priorities answers with what the bounds leave, sorted by rank: the place of
the first line that one of the branches of a revision contains.  Revisions of the same rank stay in
their order.  It makes no difference that the rank is looked for only once for each commit, as no
commit occurs twice within the bounds, whatever the graph answers.
-/

namespace NextBuild

/-! ## Lines -/

/-- What stands between the line feeds of the texts, without the blanks at its ends; nothing is left of
a blank line. -/
def priorityLines (entries : List String) : List String :=
  (entries.flatMap fun entry =>
    (entry.toList.splitOn '\n').map fun l => Text.trim (String.ofList l)).filter (· ≠ "")

namespace Text

/-- A blank at the end is trimmed. -/
theorem trimChars_concat {c : Char} (hc : isBlank c = true) (cs : List Char) :
    trimChars (cs ++ [c]) = trimChars cs := by
  have htrimEnd (cs : List Char) : trimEndChars cs = cs.rdropWhile isBlank := rfl
  rw [trimChars, trimChars, List.dropWhile_append]
  split
  · next hempty =>
    rw [List.isEmpty_iff.1 hempty, List.dropWhile_cons_of_pos hc]
    rfl
  · rw [htrimEnd, htrimEnd, List.rdropWhile_concat_pos _ _ _ hc]

/-- A carriage return at the end of a line does not matter when the line is trimmed. -/
theorem trimChars_dropReturn (cs : List Char) : trimChars (dropReturn cs) = trimChars cs := by
  unfold dropReturn
  split
  · next r hr =>
    have hcs : cs = r.reverse ++ ['\r'] := by
      rw [← List.reverse_reverse cs, hr, List.reverse_cons]
    rw [hcs, trimChars_concat (by decide)]
  · rfl

/-- The lines that are not blank are what stands between the line feeds, for a use that takes no notice
of carriage returns at the end of a line.  The open line is followed by the rest of the text. -/
theorem filter_map_linesFrom {f : List Char → String} (hreturn : ∀ cs, f (dropReturn cs) = f cs)
    (hnil : f [] = "") {line : List Char} (hline : '\n' ∉ line) (cs : List Char) :
    ((linesFrom line cs).map f).filter (· ≠ "") =
      (((line.reverse ++ cs).splitOn '\n').map f).filter (· ≠ "") := by
  induction cs generalizing line with
  | nil =>
    rw [List.append_nil, List.splitOn_eq_singleton (mt List.mem_reverse.1 hline), linesFrom]
    cases line with
    | nil => simp [hnil]
    | cons c line => rfl
  | cons c cs ih =>
    by_cases hc : c = '\n'
    · subst hc
      rw [List.splitOn_append_cons_self_of_not_mem (mt List.mem_reverse.1 hline), linesFrom,
        List.map_cons, List.map_cons, hreturn, List.filter_cons, List.filter_cons,
        ih List.not_mem_nil]
      rfl
    · have hopen : '\n' ∉ c :: line := by
        rw [List.mem_cons, not_or]
        exact ⟨Ne.symm hc, hline⟩
      rw [linesFrom.eq_3 _ _ _ hc, ih hopen, List.reverse_cons, List.append_assoc,
        List.singleton_append]

end Text

/-- The priorities that are read are what stands between the line feeds, without blanks at the ends. -/
theorem readPriorities_eq (entries : List String) :
    readPriorities entries = priorityLines entries := by
  have htrim (cs : List Char) : Text.trim (String.ofList (Text.dropReturn cs)) =
      Text.trim (String.ofList cs) := by
    rw [Text.trim, Text.trim, String.toList_ofList, String.toList_ofList, Text.trimChars_dropReturn]
  have hlines (entry : String) : ((Text.lines entry).map Text.trim).filter (· ≠ "") =
      ((entry.toList.splitOn '\n').map fun l => Text.trim (String.ofList l)).filter (· ≠ "") := by
    rw [Text.lines, List.map_map]
    exact Text.filter_map_linesFrom htrim rfl List.not_mem_nil entry.toList
  have hblank : (fun s : String => !s.isEmpty) = fun s => decide (s ≠ "") := by
    funext s
    rw [Bool.eq_iff_iff, Bool.not_eq_true', decide_eq_true_iff, Ne, ← String.isEmpty_iff,
      Bool.not_eq_true]
  rw [readPriorities, priorityLines, hblank, List.map_flatMap, List.filter_flatMap,
    List.filter_flatMap]
  exact List.flatMap_congr fun entry _ => hlines entry

/-! ## Ranks -/

/-- A branch of the revision contains the text. -/
def Revision.Mentions (r : Revision) (line : String) : Prop :=
  ∃ name ∈ r.names, line.toList <:+: name.toList

/-- The place of the first line that the revision mentions, behind all lines if there is none. -/
structure IsRank (lines : List String) (r : Revision) (i : Nat) : Prop where
  mentions : (∃ line, lines[i]? = some line ∧ r.Mentions line) ∨ i = lines.length
  least : ∀ j < i, ∀ line, lines[j]? = some line → ¬ r.Mentions line

variable {lines : List String} {line : String} {r : Revision} {i j : Nat}

/-- A rank is not behind another one. -/
theorem IsRank.le (hi : IsRank lines r i) (hj : IsRank lines r j) : i ≤ j := by
  by_contra hlt
  rcases hj.mentions with ⟨line, hline, hmentions⟩ | hlast
  · exact hi.least j (Nat.not_le.1 hlt) line hline hmentions
  · rcases hi.mentions with ⟨line, hline, -⟩ | hlast'
    · have hbound := (List.getElem?_eq_some_iff.1 hline).1
      omega
    · omega

/-- A revision has one rank. -/
theorem IsRank.unique (hi : IsRank lines r i) (hj : IsRank lines r j) : i = j :=
  Nat.le_antisymm (hi.le hj) (hj.le hi)

/-- A revision that mentions the first line has the first rank. -/
theorem isRank_zero (h : r.Mentions line) : IsRank (line :: lines) r 0 :=
  ⟨.inl ⟨line, rfl, h⟩, fun j hj => absurd hj (Nat.not_lt_zero j)⟩

/-- A line that is not mentioned puts off the rank by one. -/
theorem IsRank.cons (h : IsRank lines r i) (hline : ¬ r.Mentions line) :
    IsRank (line :: lines) r (i + 1) := by
  refine ⟨h.mentions.imp id (congrArg (· + 1)), fun j hj other hother => ?_⟩
  cases j with
  | zero =>
    cases hother
    exact hline
  | succ j => exact h.least j (Nat.lt_of_succ_lt_succ hj) other hother

/-- The program looks for a mention. -/
theorem any_contains_iff : r.names.any (Text.contains line) = true ↔ r.Mentions line := by
  simp only [List.any_eq_true, Revision.Mentions, Text.contains, Text.occursIn_iff]

/-- Places are ranks. -/
theorem isRank_priorityOf (lines : List String) (r : Revision) :
    IsRank lines r (priorityOf lines r) := by
  unfold priorityOf
  induction lines with
  | nil => exact ⟨.inr rfl, fun j hj => absurd hj (Nat.not_lt_zero j)⟩
  | cons line lines ih =>
    rw [List.findIdx_cons]
    by_cases hline : r.Mentions line
    · rw [any_contains_iff.2 hline]
      exact isRank_zero hline
    · rw [Bool.eq_false_iff.2 fun h => hline (any_contains_iff.1 h)]
      exact ih.cons hline

namespace Strategy

variable {σ : Type} {answers : (q : Query) → StateM σ (Except Failure q.Answer)} {start : σ}
  {req : Request} {ledger : Ledger} {rs : List Revision}

/-- A strategy with priorities succeeds when the bounds do, also on a graph that keeps a state between
its answers.  It sorts the revisions within the bounds by rank among the lines of the texts that list
the priorities, and these revisions are of distinct commits, so that each is given its own rank as its
place. -/
theorem prioritized_eq_ok_iff (inner : BaseStrategy) (b : Bounds) (entries : List String) :
    ((((prioritized inner b (readPriorities entries)).select req ledger).runWith answers).run
        start).1 = .ok rs ↔
      ∃ within rank,
        ((((bounded inner b).select req ledger).runWith answers).run start).1 = .ok within ∧
        (∀ r, IsRank (priorityLines entries) r (rank r)) ∧ SortedBy rank within rs ∧
        (within.map (·.commit)).Nodup ∧
        placeRevisions (readPriorities entries) [] within = within.map fun r => (rank r, r) := by
  rw [readPriorities_eq]
  generalize priorityLines entries = lines
  rw [select_prioritized, Inquiry.runWith_bind_pure]
  constructor
  · intro h
    cases hwithin : ((((bounded inner b).select req ledger).runWith answers).run start).1 with
    | error f =>
      rw [hwithin] at h
      cases h
    | ok within =>
      rw [hwithin] at h
      cases h
      have hdistinct := (ensures_distinctCommits_bounded inner b req ledger).runWith hwithin
      exact ⟨within, priorityOf lines, rfl, isRank_priorityOf lines, sortedBy_mergeSort _ within,
        hdistinct, hdistinct.placeRevisions_eq lines fun _ _ => rfl⟩
  · intro h
    obtain ⟨within, rank, hwithin, hrank, hsorted, -, -⟩ := h
    have hplace : rank = priorityOf lines := funext fun r => (hrank r).unique (isRank_priorityOf lines r)
    subst hplace
    rw [hwithin]
    exact congrArg Except.ok (sortedBy_iff.1 hsorted)

end Strategy

end NextBuild
