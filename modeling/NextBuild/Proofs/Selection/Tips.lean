import NextBuild.Proofs.Graph.Results
import NextBuild.Strategy.Candidates

/-!
# The tips of a list of revisions

Removing the revisions that another one contains compares a revision only with those that are left,
and stops at the first one that contains it.  Nothing is missed by that: what a revision removes
lies below it, so if the revision itself is removed by another one, this one is above both.  The
revisions that stay are therefore the maximal ones of the whole list, in their order.

Ancestry is any partial order that the merge bases of the graph agree with.
-/

namespace NextBuild

/-- The merge base of the commits of two revisions is one of them exactly when it is an ancestor of
the other. -/
def BaseTells (g : CommitGraph) (ancestor : CommitId → CommitId → Prop) (r s : Revision) : Prop :=
  ∃ base, g (.mergeBase r.commit s.commit) = .ok base ∧
    (base = some r.commit ↔ ancestor r.commit s.commit) ∧
    (base = some s.commit ↔ ancestor s.commit r.commit)

/-- The commit of the first revision is an ancestor of the commit of the second, and another one. -/
def Below (ancestor : CommitId → CommitId → Prop) (r s : Revision) : Prop :=
  r.commit ≠ s.commit ∧ ancestor r.commit s.commit

/-- What comparing a revision with others comes to. -/
structure Compared (ancestor : CommitId → CommitId → Prop) (r : Revision) (ss : List Revision)
    (kept : Bool) (rest : List Revision) : Prop where
  /-- The others keep their order. -/
  sublist : rest.Sublist ss
  /-- A revision that goes is below one that stays. -/
  above : kept = false → ∃ t ∈ rest, Below ancestor r t
  /-- A revision that stays is below no other one. -/
  maximal : kept = true → ∀ s ∈ ss, ¬ Below ancestor r s
  /-- Below a revision that stays nothing is left. -/
  clear : kept = true → ∀ s ∈ rest, ¬ Below ancestor s r
  /-- Whoever looks at nothing below the revision misses nothing. -/
  filter_eq : ∀ p : Revision → Bool, (∀ s, Below ancestor s r → p s = false) →
    rest.filter p = ss.filter p

variable {g : CommitGraph} {ancestor : CommitId → CommitId → Prop} {r s : Revision}
  {rs ss rest : List Revision} {kept : Bool}

/-- Another revision that is not above the one compared is put in front, or dropped if below it. -/
theorem Compared.cons (h : Compared ancestor r ss kept rest) (hup : ¬ Below ancestor r s)
    (drop : Bool) (hdrop : drop = true ↔ Below ancestor s r) :
    Compared ancestor r (s :: ss) kept (if drop then rest else s :: rest) := by
  cases drop with
  | true =>
    have hbelow : Below ancestor s r := hdrop.1 rfl
    refine ⟨h.sublist.cons s, h.above, fun hk => ?_, h.clear, fun p hp => ?_⟩
    · simpa [hup] using h.maximal hk
    · rw [List.filter_cons_of_neg (by simp [hp s hbelow])]
      exact h.filter_eq p hp
  | false =>
    have hnot : ¬ Below ancestor s r := fun hb => Bool.false_ne_true (hdrop.2 hb)
    refine ⟨h.sublist.cons_cons s, fun hk => ?_, fun hk => ?_, fun hk => ?_, fun p hp => ?_⟩
    · obtain ⟨t, ht, hrt⟩ := h.above hk
      exact ⟨t, List.mem_cons_of_mem _ ht, hrt⟩
    · simpa [hup] using h.maximal hk
    · simpa [hnot] using h.clear hk
    · show (s :: rest).filter p = _
      simp only [List.filter_cons, h.filter_eq p hp]

/-- Comparing one revision with others never fails where all merge bases tell. -/
theorem exists_compareWith (htell : ∀ s ∈ ss, BaseTells g ancestor r s) :
    ∃ kept rest, (compareWith r ss).run g = .ok (kept, rest) ∧
      Compared ancestor r ss kept rest := by
  induction ss with
  | nil => exact ⟨true, [], rfl, ⟨.slnil, by simp, by simp, by simp, by simp⟩⟩
  | cons s ss ih =>
    obtain ⟨kept, rest, hrun, hcompared⟩ := ih fun t ht => htell t (List.mem_cons_of_mem _ ht)
    obtain ⟨base, hbase, hleft, hright⟩ := htell s List.mem_cons_self
    by_cases hcommit : r.commit = s.commit
    · refine ⟨kept, s :: rest, ?_, ?_⟩
      · rw [compareWith, if_pos hcommit, Inquiry.run_bind, hrun, ok_bind, Inquiry.run_pure]
      · have hup : ¬ Below ancestor r s := fun h => h.1 hcommit
        exact hcompared.cons hup false (by simp [Below, hcommit])
    · by_cases hup : base = some r.commit
      · refine ⟨false, s :: ss, ?_, ⟨.refl _, ?_, by simp, by simp, fun p _ => rfl⟩⟩
        · rw [compareWith, if_neg hcommit, Inquiry.run_bind, Inquiry.run_query, hbase, ok_bind,
            if_pos hup, Inquiry.run_pure]
        · intro _
          exact ⟨s, List.mem_cons_self, hcommit, hleft.1 hup⟩
      · refine ⟨kept, if decide (base = some s.commit) then rest else s :: rest, ?_, ?_⟩
        · rw [compareWith, if_neg hcommit, Inquiry.run_bind, Inquiry.run_query, hbase, ok_bind,
            if_neg hup, Inquiry.run_bind, hrun, ok_bind, Inquiry.run_pure]
          simp
        · refine hcompared.cons (fun h => hup (hleft.2 h.2)) _ ?_
          rw [decide_eq_true_iff, hright]
          exact ⟨fun h => ⟨fun hsr => hcommit hsr.symm, h⟩, fun h => h.2⟩

/-- What lies below a revision that lies below another one lies below this one too. -/
theorem Below.trans (htrans : ∀ a b c, ancestor a b → ancestor b c → ancestor a c)
    (hantisymm : ∀ a b, ancestor a b → ancestor b a → a = b) {t : Revision}
    (hrs : Below ancestor r s) (hst : Below ancestor s t) : Below ancestor r t := by
  refine ⟨fun hrt => hrs.1 ?_, htrans _ _ _ hrs.2 hst.2⟩
  exact hantisymm _ _ hrs.2 (hrt ▸ hst.2)

open Classical in
/-- The revisions of a list that lie below no other one of it. -/
noncomputable def maximalRevisions (ancestor : CommitId → CommitId → Prop) (rs : List Revision) :
    List Revision :=
  rs.filter fun r => ∀ s ∈ rs, ¬ Below ancestor r s

/-- A revision is maximal if it is not below another one of the list. -/
theorem mem_maximalRevisions :
    r ∈ maximalRevisions ancestor rs ↔ r ∈ rs ∧ ∀ s ∈ rs, ¬ Below ancestor r s := by
  simp [maximalRevisions]

open Classical in
/-- The maximal revisions are those of what one comparison leaves. -/
theorem Compared.maximalRevisions_eq (htrans : ∀ a b c, ancestor a b → ancestor b c → ancestor a c)
    (hantisymm : ∀ a b, ancestor a b → ancestor b a → a = b)
    (h : Compared ancestor r ss kept rest) :
    maximalRevisions ancestor (r :: ss) =
      if kept then r :: maximalRevisions ancestor rest else maximalRevisions ancestor rest := by
  let isMaximal : Revision → Bool := fun s => decide (∀ t ∈ r :: ss, ¬ Below ancestor s t)
  have hbelow : ∀ s, Below ancestor s r → isMaximal s = false := by
    intro s hs
    simp only [isMaximal, decide_eq_false_iff_not]
    exact fun hall => hall r List.mem_cons_self hs
  -- A revision that stays is maximal among those that stay exactly when it is so in the whole list.
  have hsame : ∀ s ∈ rest, isMaximal s = decide (∀ t ∈ rest, ¬ Below ancestor s t) := by
    intro s hs
    refine decide_eq_decide.2 ⟨fun hall t ht => hall t (List.mem_cons_of_mem _ (h.sublist.subset ht)),
      fun hall t ht hst => ?_⟩
    have hr : ¬ Below ancestor s r := by
      intro hsr
      cases kept with
      | true => exact h.clear rfl s hs hsr
      | false =>
        obtain ⟨u, hu, hru⟩ := h.above rfl
        exact hall u hu (hsr.trans htrans hantisymm hru)
    rcases List.mem_cons.1 ht with rfl | ht
    · exact hr hst
    · have hfound : t ∈ rest.filter (fun u => decide (¬ Below ancestor u r)) := by
        rw [h.filter_eq _ fun u hu => by simpa using hu]
        refine List.mem_filter.2 ⟨ht, ?_⟩
        rw [decide_eq_true_iff]
        exact fun htr => hr (hst.trans htrans hantisymm htr)
      exact hall t (List.mem_filter.1 hfound).1 hst
  have htail : ss.filter isMaximal = maximalRevisions ancestor rest := by
    rw [← h.filter_eq isMaximal hbelow]
    exact List.filter_congr hsame
  show (r :: ss).filter isMaximal = _
  cases kept with
  | true =>
    have hr : isMaximal r = true := by
      simp only [isMaximal, decide_eq_true_eq, List.mem_cons, forall_eq_or_imp]
      exact ⟨fun hrr => hrr.1 rfl, h.maximal rfl⟩
    rw [List.filter_cons_of_pos hr, htail]
    rfl
  | false =>
    have hr : ¬ isMaximal r = true := by
      obtain ⟨t, ht, hrt⟩ := h.above rfl
      simp only [isMaximal, decide_eq_true_eq]
      exact fun hall => hall t (List.mem_cons_of_mem _ (h.sublist.subset ht)) hrt
    rw [List.filter_cons_of_neg hr, htail]
    rfl

/-- Where the merge bases tell a partial order, the tips are the maximal revisions. -/
theorem run_tips (htrans : ∀ a b c, ancestor a b → ancestor b c → ancestor a c)
    (hantisymm : ∀ a b, ancestor a b → ancestor b a → a = b)
    (htell : ∀ r ∈ rs, ∀ s ∈ rs, BaseTells g ancestor r s) :
    (tips rs).run g = .ok (maximalRevisions ancestor rs) := by
  unfold tips
  generalize hrounds : rs.length = rounds
  have hle : rs.length ≤ rounds := Nat.le_of_eq hrounds
  clear hrounds
  induction rounds generalizing rs with
  | zero =>
    have hnil : rs = [] := List.length_eq_zero_iff.1 (Nat.le_zero.1 hle)
    subst hnil
    rfl
  | succ rounds ih =>
    cases rs with
    | nil => rfl
    | cons r ss =>
      have hfirst : ∀ s ∈ ss, BaseTells g ancestor r s := fun s hs =>
        htell r List.mem_cons_self s (List.mem_cons_of_mem _ hs)
      obtain ⟨kept, rest, hrun, hcompared⟩ := exists_compareWith hfirst
      have hmem : ∀ s ∈ rest, s ∈ r :: ss := fun s hs =>
        List.mem_cons_of_mem _ (hcompared.sublist.subset hs)
      have hlength : rest.length ≤ rounds := by
        have := hcompared.sublist.length_le
        simp only [List.length_cons] at hle
        omega
      have htips := ih (fun s hs t ht => htell s (hmem s hs) t (hmem t ht)) hlength
      rw [hcompared.maximalRevisions_eq htrans hantisymm]
      simp only [tipsWithin, Inquiry.run_bind, hrun, ok_bind, htips, Inquiry.run_pure]

/-- Comparing one revision with others leaves some of these in their order. -/
theorem ensures_compareWith (r : Revision) (ss : List Revision) :
    (compareWith r ss).Ensures fun compared => compared.2.Sublist ss := by
  induction ss with
  | nil => exact Inquiry.ensures_pure .slnil
  | cons s ss ih =>
    rw [compareWith]
    split
    · apply ih.bind
      intro compared hsublist
      exact Inquiry.ensures_pure (hsublist.cons_cons s)
    · apply Inquiry.ensures_bind
      intro base
      split
      · exact Inquiry.ensures_pure (.refl _)
      · apply ih.bind
        intro compared hsublist
        apply Inquiry.ensures_pure
        split
        · exact hsublist.cons s
        · exact hsublist.cons_cons s

/-- The tips are some of the revisions in their order, whatever the merge bases are. -/
theorem ensures_tips (rs : List Revision) : (tips rs).Ensures (·.Sublist rs) := by
  unfold tips
  generalize rs.length = rounds
  induction rounds generalizing rs with
  | zero => cases rs <;> exact Inquiry.ensures_pure (.refl _)
  | succ rounds ih =>
    cases rs with
    | nil => exact Inquiry.ensures_pure .slnil
    | cons r rs =>
      rw [tipsWithin]
      apply (ensures_compareWith r rs).bind
      intro compared hrest
      apply (ih compared.2).bind
      intro later hlater
      apply Inquiry.ensures_pure
      split
      · exact (hlater.trans hrest).cons_cons r
      · exact (hlater.trans hrest).cons r

/-- Tips keep the order of the list. -/
theorem sublist_of_tips {newest : List Revision} (h : (tips rs).run g = .ok newest) :
    newest.Sublist rs :=
  (ensures_tips rs).run h

end NextBuild
