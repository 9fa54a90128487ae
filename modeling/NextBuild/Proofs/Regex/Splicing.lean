import NextBuild.Proofs.Regex.Closing

/-!
# Expressions between anchors

A text that is put in a group between the signs for the begin and the end of a line is read as the
expression of the text in a group, if its parentheses are balanced and no comment is open at its end.
A text with a comment that is open there is an expression, but the group is not closed any more.  And
a text that has a fault keeps it, unless the fault is a parenthesis that closes no group: then the
first part of the text may fill the group, and the rest stands behind it.
-/

namespace NextBuild.Regex

namespace Reader

variable {n : Nat} {branches items : List Tree} {s : ReadState}

/-- How a text is read to its end, on its own, with a parenthesis behind it, and in a group that the
parenthesis closes. -/
inductive Closes : Except Fault (Tree × ReadState) → Except Fault (Tree × ReadState) →
    Except Fault (Tree × ReadState) → Prop
  /-- The parenthesis closes the group. -/
  | seen (t : Tree) {s : ReadState} (hs : s.rest = []) :
    Closes (.ok (t, s)) (.error .unopenedGroup) (.ok (t, { s with rest := ['$'] }))
  /-- The parenthesis belongs to a comment. -/
  | unseen (t : Tree) (s : ReadState) : Closes (.ok (t, s)) (.ok (t, s)) (.error .unclosedGroup)
  /-- The group is closed by the text. -/
  | unopened (o o' : Except Fault (Tree × ReadState)) : Closes (.error .unopenedGroup) o o'
  | failed (fault : Fault) (o : Except Fault (Tree × ReadState))
    {o' : Except Fault (Tree × ReadState)} (ho' : ∀ x, o' ≠ .ok x) : Closes (.error fault) o o'

/-- At the end of the text the parenthesis closes the group. -/
theorem closes_of_nil (hs : s.rest = []) : Closes ((choices n false branches items).run s)
    ((choices n false branches items).run s) ((choices n true branches items).run s) := by
  have hskipped : skipped s = s := skipped_eq (hs ▸ List.nil_suffix)
  cases n with
  | zero => exact .failed _ _ nofun
  | succ n =>
    rw [choices_run, choices_run, hskipped, hs]
    exact .unseen _ s

/-- What is skipped is the same with the parenthesis behind, unless a comment takes it. -/
theorem skipped_closed (s : ReadState) : skipped s.closed = (skipped s).closed ∨
    (skipped s).rest = [] ∧ skipped s.closed = skipped s := by
  have hagrees := (steady_skip (P := fun _ => True) (Q := fun _ _ => False)).agrees s trivial
  rw [skip_run_eq, skip_run_eq] at hagrees
  rcases hagrees.ok_cases with h | ⟨hs, h⟩
  · exact .inl (congrArg Prod.snd (Except.ok.inj h))
  · exact .inr ⟨hs, congrArg Prod.snd (Except.ok.inj h)⟩

/-- The rounds are the same in the three runs, as long as the text lasts. -/
theorem choices_closes : Closes ((choices n false branches items).run s)
    ((choices n false branches items).run s.closed)
    ((choices n true branches items).run s.closed) := by
  induction n generalizing s branches items with
  | zero => exact .failed _ _ nofun
  | succ n ih =>
    rw [choices_run, choices_run, choices_run]
    rcases skipped_closed s with hkept | ⟨hs, hswallowed⟩
    · rw [hkept]
      obtain ⟨_ | ⟨c, cs⟩, names, skipBlanks⟩ := skipped s
      · exact .seen _ rfl
      by_cases hclose : c = ')'
      · subst hclose
        exact .unopened _ _
      by_cases hbar : c = '|'
      · subst hbar
        exact ih
      dsimp only [ReadState.closed, List.cons_append]
      rw [if_neg hclose, if_neg hclose, if_neg hclose, if_neg hbar, if_neg hbar, if_neg hbar]
      have hitems : Agrees Behind
          ((nextItems (choices n true [] []) items c).run ⟨c :: cs, names, skipBlanks⟩)
          ((nextItems (choices n true [] []) items c).run
            ⟨c :: (cs ++ [')', '$']), names, skipBlanks⟩) :=
        (steady_nextItems steady_choices).agrees _ (List.cons_ne_nil c cs)
      rw [StateT.run_bind, StateT.run_bind, StateT.run_bind]
      generalize (nextItems (choices n true [] []) items c).run ⟨c :: cs, names, skipBlanks⟩ = o
        at hitems
      generalize (nextItems (choices n true [] []) items c).run
        ⟨c :: (cs ++ [')', '$']), names, skipBlanks⟩ = o' at hitems
      cases hitems with
      | kept items' s₁ => exact ih
      | swallowed items' hs₁ =>
        -- From here on both texts are at their end.
        exact closes_of_nil hs₁
      | failed fault ho =>
        apply Closes.failed
        intro x
        cases o' with
        | error fault' => exact nofun
        | ok y => exact choices_run_ne_ok (ho y.1 y.2 rfl)
    · rw [hswallowed, hs]
      exact .unseen _ _

end Reader

open Reader

namespace Tree

/-- An expression in a group, between the signs for the begin and the end of a line. -/
def anchored (t : Tree) : Tree :=
  .seq (.assertion .lineStart) (.seq (.group [] t) (.assertion .lineEnd))

/-- More rounds than characters read the same tree. -/
theorem ofText_eq {s : String} {n : Nat} (hn : s.toList.length < n) :
    Tree.ofText s = ((choices n false [] []).run ⟨s.toList, [], false⟩).map Prod.fst := by
  have hrounds : (choices (s.toList.length + 1) false [] []).run ⟨s.toList, [], false⟩ =
      (choices n false [] []).run ⟨s.toList, [], false⟩ := choices_run_eq (Nat.lt_succ_self _) hn
  rw [Tree.ofText, hrounds]
  cases (choices n false [] []).run ⟨s.toList, [], false⟩ <;> rfl

/-- The reader of the group does not start at the begin of the text, but as if it did. -/
theorem ofText_anchored_eq {b : String} {n : Nat} (hn : b.toList.length + 4 < n) :
    Tree.ofText ("^(?:" ++ b ++ ")$") =
      ((choices n true [] [] >>= fun t => modify (fun s => { s with skipBlanks := false }) >>=
        fun _ => choices n false [] [.group [] t, .assertion .lineStart]).run
          ⟨b.toList ++ [')', '$'], [], false⟩).map Prod.fst := by
  have htext : ("^(?:" ++ b ++ ")$").toList = '^' :: ("(?:".toList ++ (b.toList ++ [')', '$'])) := by
    simp
  have hlength : ("^(?:" ++ b ++ ")$").toList.length < n + 2 := by
    rw [htext]
    simp only [List.length_cons, List.length_append, List.length_nil]
    show 3 + (b.toList.length + 2) + 1 < n + 2
    omega
  have hsign : ('^', Tree.assertion .lineStart) ∈
      [('.', Tree.dot), ('^', .assertion .lineStart), ('$', .assertion .lineEnd)] := by simp
  rw [ofText_eq hlength, htext, choices_sign hsign, choices_open]

/-- Reading the text alone and reading it in the group, side by side. -/
theorem ofText_anchored (b : String) :
    (∃ t, Tree.ofText b = .ok t ∧ (Tree.ofText (b ++ ")$") = .error .unopenedGroup ∧
        Tree.ofText ("^(?:" ++ b ++ ")$") = .ok t.anchored ∨
      Tree.ofText (b ++ ")$") = .ok t ∧ ∃ fault, Tree.ofText ("^(?:" ++ b ++ ")$") = .error fault)) ∨
    ∃ fault, Tree.ofText b = .error fault ∧
      (fault = .unopenedGroup ∨ ∃ fault', Tree.ofText ("^(?:" ++ b ++ ")$") = .error fault') := by
  have hclosed : (b ++ ")$").toList = b.toList ++ [')', '$'] := by simp
  have hlength : (b ++ ")$").toList.length < b.toList.length + 5 := by
    rw [hclosed, List.length_append]
    show b.toList.length + 2 < _
    omega
  rw [ofText_anchored_eq (Nat.lt_succ_self _), ofText_eq hlength,
    ofText_eq (Nat.lt_add_of_pos_right (Nat.succ_pos 4)), hclosed, StateT.run_bind]
  have hruns : Closes ((choices (b.toList.length + 5) false [] []).run ⟨b.toList, [], false⟩)
      ((choices (b.toList.length + 5) false [] []).run ⟨b.toList ++ [')', '$'], [], false⟩)
      ((choices (b.toList.length + 5) true [] []).run ⟨b.toList ++ [')', '$'], [], false⟩) :=
    choices_closes
  generalize (choices (b.toList.length + 5) false [] []).run ⟨b.toList, [], false⟩ = o at hruns
  generalize (choices (b.toList.length + 5) false [] []).run
    ⟨b.toList ++ [')', '$'], [], false⟩ = o₁ at hruns
  generalize (choices (b.toList.length + 5) true [] []).run
    ⟨b.toList ++ [')', '$'], [], false⟩ = o₂ at hruns
  cases hruns with
  | @seen t s hs =>
    have hsign : ('$', Tree.assertion .lineEnd) ∈
        [('.', Tree.dot), ('^', .assertion .lineStart), ('$', .assertion .lineEnd)] := by simp
    refine .inl ⟨t, rfl, .inl ⟨rfl, ?_⟩⟩
    show ((choices (b.toList.length + 3 + 1 + 1) false []
      [.group [] t, .assertion .lineStart]).run ⟨['$'], s.names, false⟩).map Prod.fst = _
    rw [choices_sign hsign, choices_end]
    rfl
  | unseen t s => exact .inl ⟨t, rfl, .inr ⟨rfl, .unclosedGroup, rfl⟩⟩
  | unopened => exact .inr ⟨_, rfl, .inl rfl⟩
  | failed fault _ ho =>
    refine .inr ⟨fault, rfl, .inr ?_⟩
    cases o₂ with
    | error fault' => exact ⟨fault', rfl⟩
    | ok x => exact absurd rfl (ho x)

/-- The signs for both ends and their group nest two levels deeper. -/
theorem depth_anchored (t : Tree) : t.anchored.depth = t.depth + 2 := by
  show 1 + max 0 (0 + max (1 + t.depth) 0) = t.depth + 2
  omega

/-- The signs for both ends stand around the pattern. -/
theorem pattern_anchored (t : Tree) : t.anchored.pattern {} =
    (t.pattern {}).map fun x => (.seq (.look .textStart) (.seq x.1 (.look .textEnd)), {}) := by
  have hgroup : (Tree.group [] t).pattern {} = (t.pattern {}).map fun x => (x.1, {}) := by
    show (t.pattern {} >>= fun x => pure (x.1, ({} : Flags))) = _
    cases t.pattern {} <;> rfl
  show ((Tree.group [] t).pattern {} >>= fun x => (Tree.assertion .lineEnd).pattern x.2 >>= fun y =>
    pure (x.1.seq y.1, y.2)) >>= (fun z => pure ((Pattern.look .textStart).seq z.1, z.2)) = _
  rw [hgroup]
  cases t.pattern {} <;> rfl

end Tree

namespace Pattern

variable {s b : String} {t : Tree} {p : Pattern}

/-- A text is accepted if it reads as a tree that is neither too deep nor too big. -/
theorem ofText_eq_ok_iff : Pattern.ofText s = .ok p ↔ ∃ t f, Tree.ofText s = .ok t ∧
    t.depth ≤ depthLimit ∧ t.pattern {} = .ok (p, f) ∧ p.machineSize ≤ sizeLimit := by
  unfold Pattern.ofText
  cases Tree.ofText s with
  | error fault => exact ⟨nofun, nofun⟩
  | ok t =>
    dsimp only [bind, Except.bind]
    constructor
    · intro h
      split at h
      · cases h
      next hdepth =>
      split at h
      · cases h
      next x hp =>
      split at h
      · cases h
      next hsize =>
      cases h
      exact ⟨t, x.2, rfl, Nat.le_of_not_lt hdepth, hp, Nat.le_of_not_lt hsize⟩
    · rintro ⟨_, f, ⟨⟩, hdepth, hp, hsize⟩
      rw [if_neg (Nat.not_lt.2 hdepth), hp]
      exact if_neg (Nat.not_lt.2 hsize)

/-- With the signs for both ends a pattern matches a name as a whole. -/
theorem isMatch_anchored_iff {name : String} :
    (Pattern.seq (.look .textStart) (.seq p (.look .textEnd))).isMatch name = true ↔
      p.Leads name.toList 0 name.toList.length := by
  simp only [isMatch_iff, leads_seq_iff, leads_textStart_iff, leads_textEnd_iff]
  constructor
  · rintro ⟨_, _, _, ⟨rfl, rfl⟩, _, h, rfl, rfl⟩
    exact h
  · exact fun h => ⟨0, _, 0, ⟨rfl, rfl⟩, _, h, rfl, rfl⟩

/-- What an expression on its own says about the text between anchors. -/
theorem ofText_anchored_iff (ht : Tree.ofText b = .ok t) {q : Pattern} :
    Pattern.ofText ("^(?:" ++ b ++ ")$") = .ok q ↔
      Tree.ofText (b ++ ")$") = .error .unopenedGroup ∧ t.depth + 2 ≤ depthLimit ∧
      ∃ p f, t.pattern {} = .ok (p, f) ∧ p.machineSize + 64 ≤ sizeLimit ∧
        q = .seq (.look .textStart) (.seq p (.look .textEnd)) := by
  have hsize (p : Pattern) : (Pattern.seq (.look .textStart) (.seq p (.look .textEnd))).machineSize =
      p.machineSize + 64 := by
    simp only [machineSize]
    omega
  rw [ofText_eq_ok_iff]
  rcases Tree.ofText_anchored b with ⟨u, hu, hcases⟩ | ⟨fault, hfault, -⟩
  · cases ht.symm.trans hu
    rcases hcases with ⟨hseen, hread⟩ | ⟨hunseen, fault, hread⟩
    · rw [hread]
      constructor
      · rintro ⟨_, f, ⟨⟩, hdepth, hq, hle⟩
        rw [Tree.depth_anchored] at hdepth
        rw [Tree.pattern_anchored] at hq
        cases hp : t.pattern {} with
        | error fault => cases hp ▸ hq
        | ok x =>
          rw [hp] at hq
          cases hq
          exact ⟨hseen, hdepth, x.1, x.2, rfl, hsize x.1 ▸ hle, rfl⟩
      · rintro ⟨-, hdepth, p, f, hp, hle, rfl⟩
        have hq : t.anchored.pattern {} =
            .ok (.seq (.look .textStart) (.seq p (.look .textEnd)), {}) := by
          rw [Tree.pattern_anchored, hp]
          rfl
        exact ⟨_, _, rfl, t.depth_anchored ▸ hdepth, hq, (hsize p).symm ▸ hle⟩
    · rw [hread, hunseen]
      constructor
      · rintro ⟨_, _, ⟨⟩, -⟩
      · rintro ⟨⟨⟩, -⟩
  · cases ht.symm.trans hfault

/-- Between anchors no text is an expression whose own fault is not a parenthesis that closes no
group. -/
theorem ofText_of_anchored {q : Pattern} (h : Pattern.ofText ("^(?:" ++ b ++ ")$") = .ok q) :
    Tree.ofText b = .error .unopenedGroup ∨ ∃ p, Pattern.ofText b = .ok p := by
  rcases Tree.ofText_anchored b with ⟨t, ht, -⟩ | ⟨fault, hfault, rfl | ⟨fault', hread⟩⟩
  · obtain ⟨-, hdepth, p, f, hp, hsize, -⟩ := (ofText_anchored_iff ht).1 h
    exact .inr ⟨p, ofText_eq_ok_iff.2 ⟨t, f, ht, Nat.le_of_add_right_le hdepth, hp,
      Nat.le_of_add_right_le hsize⟩⟩
  · exact .inl hfault
  · obtain ⟨u, f, hu, -⟩ := ofText_eq_ok_iff.1 h
    cases hread.symm.trans hu

end Pattern

end NextBuild.Regex
