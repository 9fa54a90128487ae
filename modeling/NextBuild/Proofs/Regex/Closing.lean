import NextBuild.Proofs.Regex.Progress

/-!
# Readers before a closing parenthesis

A text that is put in parentheses is read with the closing one behind it.  Every reader does then
what it does on the text alone, with two exceptions: a comment that is open at the end of the text
also takes what is put behind, and a reader that the end of the text makes fail may take the
parenthesis and go on.  What the second one may leave is kept as a bound, so that no success is
missed.
-/

namespace NextBuild.Regex

/-- A state with a closing parenthesis behind the text, and the sign for the end of a line. -/
def ReadState.closed (s : ReadState) : ReadState :=
  { s with rest := s.rest ++ [')', '$'] }

namespace Reader

variable {α β : Type} {m m' : Reader α} {f : α → Reader β} {s : ReadState} {r q : List Char}
variable {P : ReadState → Prop} {Q Q' : α → ReadState → Prop} {p : Prop} {n : Nat} {fault : Fault}

/-- What a reader does on a text, and what it does with the parenthesis behind it.  `Q` says what a
success may be that the text alone does not have. -/
inductive Agrees (Q : α → ReadState → Prop) :
    Except Fault (α × ReadState) → Except Fault (α × ReadState) → Prop
  /-- What is put behind stays. -/
  | kept (a : α) (s : ReadState) : Agrees Q (.ok (a, s)) (.ok (a, s.closed))
  /-- What is put behind belongs to a comment. -/
  | swallowed (a : α) {s : ReadState} (hs : s.rest = []) : Agrees Q (.ok (a, s)) (.ok (a, s))
  | failed (fault : Fault) {o : Except Fault (α × ReadState)}
    (ho : ∀ a s, o = .ok (a, s) → Q a s) : Agrees Q (.error fault) o

/-- What a success may be beyond the text alone may be taken wider. -/
theorem Agrees.mono {o o' : Except Fault (α × ReadState)} (h : Agrees Q o o')
    (hQ : ∀ a s, Q a s → Q' a s) : Agrees Q' o o' := by
  cases h with
  | kept a s => exact .kept a s
  | swallowed a hs => exact .swallowed a hs
  | failed fault ho => exact .failed fault fun a s h => hQ a s (ho a s h)

/-- A success on the text alone is one with the parenthesis, which stays or is swallowed. -/
theorem Agrees.ok_cases {a : α} {o : Except Fault (α × ReadState)} (h : Agrees Q (.ok (a, s)) o) :
    o = .ok (a, s.closed) ∨ s.rest = [] ∧ o = .ok (a, s) := by
  cases h with
  | kept => exact .inl rfl
  | swallowed _ hs => exact .inr ⟨hs, rfl⟩

/-- The same check in front of both. -/
theorem Agrees.check [Decidable p] {k k' : Unit → Reader α} {s s' : ReadState}
    (h : Agrees Q ((k ()).run s) ((k' ()).run s')) :
    Agrees Q ((if p then throw fault >>= k else k ()).run s)
      ((if p then throw fault >>= k' else k' ()).run s') := by
  split
  · exact .failed fault nofun
  · exact h

/-- A bound for what a success leaves. -/
def Past (r : List Char) (_ : α) (s : ReadState) : Prop := s.rest <:+ r

/-- Some character is left. -/
def More (s : ReadState) : Prop := s.rest ≠ []

/-- The character comes next. -/
def Before (c : Char) (s : ReadState) : Prop := ∃ cs, s.rest = c :: cs

/-- From the states in `P`, the reader does the same with a closing parenthesis behind the text. -/
structure Steady (P : ReadState → Prop) (Q : α → ReadState → Prop) (m : Reader α) : Prop where
  leaves : ∀ r, Leaves r m r
  agrees : ∀ s, P s → Agrees Q (m.run s) (m.run s.closed)

namespace Steady

/-- The bound for further successes may be taken wider. -/
theorem mono (h : Steady P Q m) (hQ : ∀ a s, Q a s → Q' a s) : Steady P Q' m where
  leaves := h.leaves
  agrees s hs := (h.agrees s hs).mono hQ

/-- One reader after the other, where a success of the second one after one that only the first one
has is bounded on its own. -/
theorem bindTo {R : β → ReadState → Prop} (hm : Steady P Q m)
    (hf : ∀ a, Steady (fun _ => True) R (f a))
    (hR : ∀ a s b s', Q a s → (f a).run s = .ok (b, s') → R b s') : Steady P R (m >>= f) where
  leaves r := (hm.leaves r).bind fun a => (hf a).leaves r
  agrees s hs := by
    have hagrees := hm.agrees s hs
    rw [StateT.run_bind, StateT.run_bind]
    generalize m.run s = o at hagrees
    generalize m.run s.closed = o' at hagrees
    cases hagrees with
    | kept a s₁ => exact (hf a).agrees s₁ trivial
    | @swallowed a s₁ hrest =>
      show Agrees R ((f a).run s₁) ((f a).run s₁)
      cases hrun : (f a).run s₁ with
      | error fault => exact .failed fault nofun
      | ok x =>
        obtain ⟨b, s₂⟩ := x
        have hend := (hf a).leaves [] s₁ b s₂ (hrest ▸ List.suffix_rfl) hrun
        exact .swallowed b (List.suffix_nil.1 hend)
    | failed fault ho =>
      apply Agrees.failed fault
      intro b s₂ hrun
      cases o' with
      | error fault' => cases hrun
      | ok x => exact hR x.1 x.2 b s₂ (ho x.1 x.2 rfl) hrun

/-- Steady readers in a row are steady, with one bound for all. -/
theorem bind (hm : Steady P (Past r) m) (hf : ∀ a, Steady (fun _ => True) (Past r) (f a)) :
    Steady P (Past r) (m >>= f) :=
  hm.bindTo hf fun a s b s' hs hrun => (hf a).leaves r s b s' hs hrun

/-- A result without reading is the same. -/
theorem pure (a : α) : Steady P Q (Pure.pure a) where
  leaves _ := .pure a
  agrees s _ := .kept a s

/-- A fault is the same. -/
theorem throw (fault : Fault) : Steady P Q (MonadExcept.throw fault : Reader α) where
  leaves _ := .throw fault
  agrees _ _ := .failed fault nofun

/-- A computation that does not read is the same. -/
theorem liftM (x : Except Fault α) : Steady P Q (MonadLiftT.monadLift x : Reader α) where
  leaves r := .liftM x
  agrees s _ := by
    cases x with
    | error fault => exact .failed fault nofun
    | ok a => exact .kept a s

/-- Both branches of a choice that does not read are steady. -/
theorem ite [Decidable p] (h : Steady P Q m) (h' : Steady P Q m') :
    Steady P Q (if p then m else m') := by
  split
  · exact h
  · exact h'

/-- A check that does not read fails for both or for none. -/
theorem check [Decidable p] {k : Unit → Reader α} (h : Steady P Q (k ())) :
    Steady P Q (if p then MonadExcept.throw fault >>= k else k ()) where
  leaves r := .check (h.leaves r)
  agrees s hs := by
    split
    · exact .failed fault nofun
    · exact h.agrees s hs

/-- A character that comes next is some character. -/
theorem before {c : Char} (h : Steady More Q m) : Steady (Before c) Q m where
  leaves := h.leaves
  agrees s := by
    rintro ⟨cs, hs⟩
    apply h.agrees
    rw [More, hs]
    exact List.cons_ne_nil c cs

/-- A look at what comes next; at the end of the text, that is the parenthesis. -/
theorem look {R : β → ReadState → Prop} {f : Option Char → Reader β}
    (hf : ∀ c, Steady (Before c) R (f (some c))) (hnone : ∀ r, Leaves r (f none) r)
    (hend : ∀ s, s.rest = [] → Agrees R ((f none).run s) ((f (some ')')).run s.closed)) :
    Steady P R (peek? >>= f) where
  leaves r := by
    apply leaves_peek?.bind
    rintro (_ | c)
    · exact hnone r
    · exact (hf c).leaves r
  agrees s _ := by
    obtain ⟨_ | ⟨c, r⟩, names, skipBlanks⟩ := s
    · exact hend _ rfl
    · exact (hf c).agrees _ ⟨r, rfl⟩

/-- A look at a character; at the end of the text, what follows finds the parenthesis. -/
theorem peekTo {R : β → ReadState → Prop} {f : Char → Reader β}
    (hf : ∀ c, Steady (Before c) R (f c))
    (hend : ∀ s b s', s.rest = [')', '$'] → (f ')').run s = .ok (b, s') → R b s') :
    Steady P R (Reader.peek fault >>= f) where
  leaves r := leaves_peek.bind fun c => (hf c).leaves r
  agrees s _ := by
    obtain ⟨_ | ⟨c, r⟩, names, skipBlanks⟩ := s
    · exact .failed fault fun b s' h => hend _ b s' rfl h
    · exact (hf c).agrees _ ⟨r, rfl⟩

/-- A look at a character that has to be there; what follows only has to be bounded at the end. -/
theorem peek {f : Char → Reader β} (hf : ∀ c, Steady More (Past r) (f c))
    (hend : Leaves [')', '$'] (f ')') r) : Steady P (Past r) (Reader.peek fault >>= f) :=
  peekTo (fun c => (hf c).before) fun s b s' hs h => hend s b s' (hs ▸ List.suffix_rfl) h

/-- A look at the state, where the two continuations are compared. -/
theorem get {f : ReadState → Reader α} (hleaves : ∀ r, Leaves r (MonadState.get >>= f) r)
    (hf : ∀ s, P s → Agrees Q ((f s).run s) ((f s.closed).run s.closed)) :
    Steady P Q (MonadState.get >>= f) where
  leaves := hleaves
  agrees s hs := hf s hs

/-- A check of what is left that looks at the text alone. -/
theorem checkRest {g : List Char → Bool} {k : Unit → Reader α}
    (hg : ∀ cs, g (cs ++ [')', '$']) = g cs) (hk : Steady P Q (k ())) :
    Steady P Q (MonadState.get >>= fun s =>
      if g s.rest then MonadExcept.throw fault >>= k else k ()) := by
  apply get
  · exact fun r => .get fun s hs => .check fun s a s' hs => hk.leaves r s a s' hs
  · intro s hs
    rw [ReadState.closed, hg]
    exact .check (hk.agrees s hs)

/-- A check for another character than the parenthesis. -/
theorem nextIs {f : Bool → Reader α} {c : Char} (hc : ')' ≠ c) (htrue : Steady (Before c) Q (f true))
    (hfalse : Steady P Q (f false)) : Steady P Q (Reader.nextIs c >>= f) where
  leaves r := by
    apply leaves_nextIs.bind
    rintro (_ | _)
    · exact hfalse.leaves r
    · exact htrue.leaves r
  agrees s hs := by
    obtain ⟨_ | ⟨d, r⟩, names, skipBlanks⟩ := s
    · have hno : (some ')' == some c) = false := beq_false_of_ne fun h => hc (Option.some.inj h)
      show Agrees Q ((f false).run _) ((f (some ')' == some c)).run _)
      rw [hno]
      exact hfalse.agrees _ hs
    · show Agrees Q ((f (some d == some c)).run _) ((f (some d == some c)).run _)
      cases hd : some d == some c with
      | false => exact hfalse.agrees _ hs
      | true => exact htrue.agrees _ ⟨r, congrArg (· :: r) (Option.some.inj (eq_of_beq hd))⟩

end Steady

/-! ## Single characters -/

/-- Dropping stops in front of the parenthesis. -/
theorem dropWhile_append_closing {keep : Char → Bool} (hkeep : keep ')' = false) (cs : List Char) :
    (cs ++ [')', '$']).dropWhile keep = cs.dropWhile keep ++ [')', '$'] := by
  induction cs with
  | nil => rw [List.nil_append, List.dropWhile_cons_of_neg (by simp [hkeep]), List.dropWhile_nil]; rfl
  | cons c cs ih =>
    rw [List.cons_append, List.dropWhile_cons, List.dropWhile_cons, ih]
    split <;> rfl

/-- As many characters as the text has are dropped from the text. -/
theorem drop_append_closing {k : Nat} {cs : List Char} (h : k ≤ cs.length) :
    (cs ++ [')', '$']).drop k = cs.drop k ++ [')', '$'] :=
  List.drop_append_of_le_length h

/-- There is nothing to skip in an empty text. -/
theorem dropBlanks_nil (n : Nat) : dropBlanks n [] = [] := by
  cases n <;> rfl

/-- Taking stops in front of the parenthesis. -/
theorem takeWhile_append_closing (keep : Char → Bool) (hkeep : keep ')' = false)
    (cs : List Char) : (cs ++ [')', '$']).takeWhile keep = cs.takeWhile keep := by
  induction cs with
  | nil => exact List.takeWhile_cons_of_neg (by simp [hkeep])
  | cons c cs ih => rw [List.cons_append, List.takeWhile_cons, List.takeWhile_cons, ih]

/-- A comment at the end of the text goes on in what is put behind. -/
theorem dropBlanks_append_closing {n' : Nat} {cs : List Char} (hn : cs.length < n)
    (hn' : cs.length < n') : dropBlanks n' (cs ++ [')', '$']) = dropBlanks n cs ++ [')', '$'] ∨
      dropBlanks n cs = [] ∧ dropBlanks n' (cs ++ [')', '$']) = [] := by
  induction n generalizing n' cs with
  | zero => exact absurd hn (Nat.not_lt_zero _)
  | succ n ih =>
    obtain ⟨n', rfl⟩ := Nat.exists_eq_add_one_of_ne_zero (Nat.ne_zero_of_lt hn')
    rcases cs with _ | ⟨c, cs⟩
    · exact .inl rfl
    rw [List.length_cons] at hn hn'
    by_cases hcomment : c = '#'
    · subst hcomment
      have hdrop (m : Nat) (cs : List Char) : dropBlanks (m + 1) ('#' :: cs) =
          dropBlanks m ((cs.dropWhile (· != '\n')).drop 1) := rfl
      rw [List.cons_append, hdrop, hdrop]
      rw [List.dropWhile_append]
      have hlength := (List.dropWhile_suffix (l := cs) (· != '\n')).length_le
      rcases hline : cs.dropWhile (· != '\n') with _ | ⟨d, rest⟩
      · have hclosed : ([')', '$'].dropWhile (· != '\n')).drop 1 = [] := by decide
        exact .inr ⟨dropBlanks_nil n, (congrArg _ hclosed).trans (dropBlanks_nil n')⟩
      · rw [hline, List.length_cons] at hlength
        exact ih (by omega) (by omega)
    · have hdrop (m : Nat) (cs : List Char) : dropBlanks (m + 1) (c :: cs) =
          if Text.isBlank c then dropBlanks m cs else c :: cs := by
        conv => lhs; unfold dropBlanks
        split
        · next h => exact absurd (List.cons.inj h).1 hcomment
        · next h =>
          obtain ⟨rfl, rfl⟩ := List.cons.inj h
          rfl
        · next h => cases h
      rw [List.cons_append, hdrop, hdrop]
      split
      · exact ih (by omega) (by omega)
      · exact .inl rfl

/-- Blanks and comments are skipped alike, or a comment swallows what is put behind. -/
theorem steady_skip {Q : Unit → ReadState → Prop} : Steady P Q skip where
  leaves _ := leaves_skip
  agrees s _ := by
    obtain ⟨rest, names, skipBlanks⟩ := s
    cases skipBlanks with
    | false => exact .kept () _
    | true =>
      show Agrees _ (.ok ((), ⟨dropBlanks (rest.length + 1) rest, names, true⟩))
        (.ok ((), ⟨dropBlanks ((rest ++ [')', '$']).length + 1) (rest ++ [')', '$']), names, true⟩))
      have hfuel : rest.length < (rest ++ [')', '$']).length + 1 := by
        rw [List.length_append]
        omega
      rcases dropBlanks_append_closing (Nat.lt_succ_self _) hfuel with h | ⟨h, h'⟩
      · rw [h]
        exact .kept () ⟨_, names, true⟩
      · rw [h, h']
        exact .swallowed () rfl

/-- A character of the text is taken. -/
theorem steady_bump {Q : Unit → ReadState → Prop} : Steady More Q bump where
  leaves _ := leaves_bump.of_tail
  agrees s hs := by
    obtain ⟨_ | ⟨c, r⟩, names, skipBlanks⟩ := s
    · exact absurd rfl hs
    · exact .kept () ⟨r, names, skipBlanks⟩

/-- So it is with the blanks behind it. -/
theorem steady_bumpSkip {Q : Unit → ReadState → Prop} : Steady More Q bumpSkip :=
  (steady_bump (Q := fun _ _ => False)).bindTo (fun _ => steady_skip) nofun

/-- A lead without a parenthesis does not reach into what is put behind. -/
theorem isPrefixOf_append_closing {lead : List Char} (hlead : ')' ∉ lead) (cs : List Char) :
    lead.isPrefixOf (cs ++ [')', '$']) = lead.isPrefixOf cs := by
  induction lead generalizing cs with
  | nil => cases cs <;> rfl
  | cons d lead ih =>
    rw [List.mem_cons, not_or] at hlead
    obtain ⟨hd, hlead⟩ := hlead
    rcases cs with _ | ⟨c, cs⟩
    · rw [List.nil_append, List.isPrefixOf_cons_cons, beq_false_of_ne (Ne.symm hd), Bool.false_and]
      rfl
    · rw [List.cons_append, List.isPrefixOf_cons_cons, List.isPrefixOf_cons_cons, ih hlead]

/-- Such a lead is taken from both or from none. -/
theorem steady_takeIf {lead : List Char} (hlead : ')' ∉ lead) : Steady P (Past r) (takeIf lead) where
  leaves _ := leaves_takeIf
  agrees s _ := by
    obtain ⟨rest, names, skipBlanks⟩ := s
    show Agrees _ (StateT.run (if lead.isPrefixOf rest then _ else _) _)
      (StateT.run (if lead.isPrefixOf (rest ++ [')', '$']) then _ else _) _)
    rw [isPrefixOf_append_closing hlead]
    split
    · next h =>
      have hle := (List.isPrefixOf_iff_prefix.1 h).length_le
      show Agrees _ (.ok (true, ⟨rest.drop lead.length, names, skipBlanks⟩))
        (.ok (true, ⟨(rest ++ [')', '$']).drop lead.length, names, skipBlanks⟩))
      rw [drop_append_closing hle]
      exact .kept true ⟨_, names, skipBlanks⟩
    · exact .kept false _

/-- The mark of a name has no parenthesis. -/
theorem steady_takeNameMark : Steady P (Past r) takeNameMark :=
  (steady_takeIf (by decide)).bind fun _ => .ite (.pure _) (steady_takeIf (by decide))

/-- Characters other than the parenthesis are taken up to it. -/
theorem steady_takeSkipping {keep : Char → Bool} (hkeep : keep ')' = false) :
    Steady P (Past r) (takeSkipping keep n) := by
  induction n generalizing P with
  | zero => exact .pure []
  | succ n ih =>
    apply Steady.look
    · intro c
      exact (Steady.ite (steady_bumpSkip.bind fun _ => ih.bind fun _ => .pure _) (.pure [])).before
    · exact fun _ => .pure []
    · intro s _
      show Agrees _ _ (StateT.run (if keep ')' then _ else _) _)
      rw [hkeep]
      exact .kept [] s

/-- Two characters are put behind. -/
theorem length_rest_closed (s : ReadState) : s.closed.rest.length = s.rest.length + 2 :=
  List.length_append

/-- The rounds for the text with the parenthesis are enough for the text alone. -/
theorem length_lt_closed (s : ReadState) : s.rest.length < s.closed.rest.length + 1 := by
  rw [length_rest_closed]
  omega

/-- The rounds suffice for both texts, so the same characters are taken. -/
theorem steady_takeAll {keep : Char → Bool} (hkeep : keep ')' = false) :
    Steady P (Past r) (takeAll keep) where
  leaves _ := leaves_takeAll
  agrees s hs := by
    show Agrees _ ((takeSkipping keep (s.rest.length + 1)).run s)
      ((takeSkipping keep (s.closed.rest.length + 1)).run s.closed)
    rw [takeSkipping_run_eq (Nat.lt_succ_self _) (length_lt_closed s)]
    exact (steady_takeSkipping hkeep).agrees s hs

/-! ## Heads of groups -/

/-- Without a `>` there is no name, nor is there one with the parenthesis behind. -/
theorem groupName_run_eq_error
    (h : (s.rest.takeWhile (· != '>')).length = s.rest.length) :
    groupName.run s = .error .groupName := by
  have hget : (get : Reader ReadState).run s = .ok (s, s) := rfl
  rw [groupName, run_bind_ok hget]
  dsimp only
  split
  · rfl
  · rw [h, beq_self_eq_true, if_pos rfl]
    rfl

/-- The name of a group ends in the text or is missing. -/
theorem steady_groupName : Steady P (Past r) groupName := by
  apply Steady.get
  · exact fun _ => leaves_groupName
  intro s _
  by_cases hall : (s.rest.takeWhile (· != '>')).length = s.rest.length
  · show Agrees _ (groupName.run s) (groupName.run s.closed)
    have hclosed : (s.closed.rest.takeWhile (· != '>')).length = s.closed.rest.length := by
      rw [ReadState.closed, List.takeWhile_append, if_pos hall]
      rfl
    rw [groupName_run_eq_error hall, groupName_run_eq_error hclosed]
    exact .failed _ nofun
  have hname : s.closed.rest.takeWhile (· != '>') = s.rest.takeWhile (· != '>') := by
    rw [ReadState.closed, List.takeWhile_append, if_neg hall]
  have hlt := Nat.lt_of_le_of_ne (List.takeWhile_prefix (l := s.rest) (· != '>')).length_le hall
  dsimp only
  rw [hname]
  rcases hletters : s.rest.takeWhile (· != '>') with _ | ⟨c, cs⟩
  · exact .failed _ nofun
  rw [hletters] at hall hlt
  dsimp only
  rw [beq_false_of_ne (Ne.symm hall), beq_false_of_ne (a := s.closed.rest.length)
    (by rw [length_rest_closed]; omega)]
  apply Agrees.check
  apply Agrees.check
  apply Agrees.check
  show Agrees _ _ (.ok ((), ⟨(s.rest ++ [')', '$']).drop _, _, _⟩))
  rw [drop_append_closing (Nat.succ_le_of_lt hlt)]
  exact .kept () ⟨_, _, _⟩

/-- No look-around begins with a parenthesis that closes. -/
theorem startsLookAround_append_closing (cs : List Char) :
    startsLookAround (cs ++ [')', '$']) = startsLookAround cs := by
  unfold startsLookAround
  simp (disch := decide) only [List.any_cons, List.any_nil, isPrefixOf_append_closing]

/-- Flags at the end of the text are ended by the parenthesis. -/
theorem steady_flagsHead : Steady P (Past ['$']) flagsHead := by
  apply Steady.get
  · exact fun _ => leaves_flagsHead
  intro s _
  have hletters := takeWhile_append_closing (fun c => c != ':' && c != ')') (by decide) s.rest
  have hle := (List.takeWhile_prefix (l := s.rest) fun c => c != ':' && c != ')').length_le
  dsimp only [ReadState.closed]
  rw [hletters, drop_append_closing hle]
  cases flagChanges false false (s.rest.takeWhile fun c => c != ':' && c != ')') [] with
  | error fault => exact .failed _ nofun
  | ok changes =>
    have hchanges (s : ReadState) : (liftM (Except.ok changes : Except Fault _) :
        Reader FlagChanges).run s = .ok (changes, s) := rfl
    rw [run_bind_ok (hchanges _), run_bind_ok (hchanges _)]
    rcases s.rest.drop (s.rest.takeWhile fun c => c != ':' && c != ')').length with _ | ⟨close, cs⟩
    · -- The parenthesis ends the flags.
      have hflags : Leaves ['$'] (if (s.rest.takeWhile fun c => c != ':' && c != ')').isEmpty then
          (throw .nothingToRepeat : Reader Unit) >>= fun _ => pure (GroupHead.flags changes)
        else pure (GroupHead.flags changes)) ['$'] := .check (k := fun _ => pure _) (.pure _)
      exact .failed _ fun a s' h => hflags ⟨['$'], s.names, s.skipBlanks⟩ a s' List.suffix_rfl h
    · show Agrees _ (StateT.run (if (close == ')') = true then _ else _) _)
        (StateT.run (if (close == ')') = true then _ else _) _)
      split
      · exact .check (.kept _ ⟨cs, _, _⟩)
      · exact .kept _ ⟨cs, _, _⟩

/-- The head of a group that is open at the end of the text takes the parenthesis. -/
theorem steady_groupHead : Steady More (Past ['$']) groupHead := by
  rw [groupHead_eq]
  apply steady_bumpSkip.bind
  intro _
  apply Steady.checkRest startsLookAround_append_closing
  apply steady_takeNameMark.bind
  intro named
  apply Steady.ite
  · exact steady_groupName.bind fun _ => .pure _
  · exact (steady_takeIf (by decide)).bind fun _ => .ite steady_flagsHead (.pure _)

/-! ## Escapes -/

/-- The parenthesis is no digit. -/
theorem steady_hexDigits : Steady P (Past r) (hexDigits n) := by
  induction n generalizing P with
  | zero => exact .pure []
  | succ n ih =>
    apply Steady.peek
    · intro c
      exact .check (steady_bumpSkip.bind fun _ => ih.bind fun _ => .pure _)
    · exact .stop (by decide)

/-- The character with a number is found without reading. -/
theorem steady_charOfCode? {code : Nat} {f : Char → Char × Bool} :
    Steady P (Past r) (match charOfCode? code with
      | some c => pure (f c)
      | none => throw Fault.hexEscape : Reader (Char × Bool)) := by
  split
  · exact .pure _
  · exact .throw _

/-- A number without digits may take the parenthesis before it fails. -/
theorem steady_hexChar : Steady More (Past ['$']) (hexChar (n + 1)) := by
  apply steady_bumpSkip.bind
  intro _
  apply Steady.peek
  · intro c
    apply Steady.ite
    · apply steady_bumpSkip.bind
      intro _
      apply (steady_takeAll (by decide)).bind
      intro digits
      apply Steady.peek
      · intro c
        exact .check (steady_bumpSkip.bind fun _ => .check steady_charOfCode?)
      · exact .stop (by decide)
    · exact steady_hexDigits.bind fun _ => steady_charOfCode?
  · exact (leaves_hexDigits_succ fun _ => leaves_hexDigits).bind fun _ => leaves_charOfCode?

/-- There is nothing to take at the end of the text. -/
theorem takeSkipping_run_of_nil {keep : Char → Bool} (hs : s.rest = []) :
    (takeSkipping keep n).run s = .ok ([], s) := by
  obtain ⟨rest, names, skipBlanks⟩ := s
  cases hs
  cases n <;> rfl

/-- The name of a property in braces goes on in what is put behind, but no brace ends it there. -/
theorem takeSkipping_closed {n' : Nat} (hn : s.rest.length < n) (hn' : s.closed.rest.length < n') :
    ∃ name s₁, (takeSkipping (· != '}') n).run s = .ok (name, s₁) ∧
      (s₁.rest ≠ [] ∧ (takeSkipping (· != '}') n').run s.closed = .ok (name, s₁.closed) ∨
        s₁.rest = [] ∧ ∃ name' s₁', s₁'.rest = [] ∧
          (takeSkipping (· != '}') n').run s.closed = .ok (name', s₁')) := by
  induction n generalizing n' s with
  | zero => exact absurd hn (Nat.not_lt_zero _)
  | succ n ih =>
    obtain ⟨n', rfl⟩ := Nat.exists_eq_add_one_of_ne_zero (Nat.ne_zero_of_lt hn')
    rw [length_rest_closed] at hn'
    obtain ⟨_ | ⟨c, rest⟩, names, skipBlanks⟩ := s
    · obtain ⟨n', rfl⟩ : ∃ k, n' = k + 2 := ⟨n' - 2, by omega⟩
      refine ⟨[], _, rfl, .inr ⟨rfl, [')', '$'], ⟨[], names, skipBlanks⟩, rfl, ?_⟩⟩
      cases skipBlanks <;> rfl
    by_cases hc : c = '}'
    · subst hc
      exact ⟨[], _, rfl, .inl ⟨List.cons_ne_nil _ _, rfl⟩⟩
    -- One more character, with what is skipped behind it.
    have hround (m : Nat) (cs : List Char) :
        (takeSkipping (· != '}') (m + 1)).run ⟨c :: cs, names, skipBlanks⟩ =
          (bumpSkip >>= fun _ => takeSkipping (· != '}') m >>= fun name => pure (c :: name)).run
            ⟨c :: cs, names, skipBlanks⟩ := by
      show StateT.run (if (c != '}') = true then _ else _) _ = _
      rw [if_pos (bne_iff_ne.2 hc)]
    have hskip : bumpSkip.run ⟨c :: rest, names, skipBlanks⟩ =
        .ok ((), skipped ⟨rest, names, skipBlanks⟩) := rfl
    have hle := leaves_bumpSkip.length_lt rfl hskip
    have hagrees := (steady_bumpSkip (Q := fun _ _ => False)).agrees ⟨c :: rest, names, skipBlanks⟩
      (List.cons_ne_nil c rest)
    rw [hskip] at hagrees
    generalize skipped ⟨rest, names, skipBlanks⟩ = s₂ at hskip hle hagrees
    rw [List.length_cons] at hn hn' hle
    have htake {name : List Char} {s₁ : ReadState}
        (h : (takeSkipping (· != '}') n).run s₂ = .ok (name, s₁)) :
        (takeSkipping (· != '}') (n + 1)).run ⟨c :: rest, names, skipBlanks⟩ =
          .ok (c :: name, s₁) := by
      rw [hround, run_bind_ok hskip, run_bind_ok h]
      rfl
    have htake' {name : List Char} {s₁ s₂' : ReadState}
        (hskip' : bumpSkip.run ⟨c :: (rest ++ [')', '$']), names, skipBlanks⟩ = .ok ((), s₂'))
        (h : (takeSkipping (· != '}') n').run s₂' = .ok (name, s₁)) :
        (takeSkipping (· != '}') (n' + 1)).run ⟨c :: (rest ++ [')', '$']), names, skipBlanks⟩ =
          .ok (c :: name, s₁) := by
      rw [hround, run_bind_ok hskip', run_bind_ok h]
      rfl
    rcases hagrees.ok_cases with hkept | ⟨hend, hswallowed⟩
    · have hfuel : s₂.closed.rest.length < n' := by
        rw [length_rest_closed]
        omega
      obtain ⟨name, s₁, h, h'⟩ := ih (by omega) hfuel
      refine ⟨c :: name, s₁, htake h, ?_⟩
      rcases h' with ⟨hmore, h'⟩ | ⟨hnil, name', s₁', hnil', h'⟩
      · exact .inl ⟨hmore, htake' hkept h'⟩
      · exact .inr ⟨hnil, c :: name', s₁', hnil', htake' hkept h'⟩
    · exact ⟨[c], s₂, htake (takeSkipping_run_of_nil hend), .inr ⟨hend, [c], s₂, hend,
        htake' hswallowed (takeSkipping_run_of_nil hend)⟩⟩

/-- What follows the name of a property in braces. -/
theorem Steady.takeName {f : List Char → Char → Reader β}
    (hf : ∀ name c, Steady More (Past r) (f name c)) :
    Steady P (Past r) (takeAll (· != '}') >>= fun name => Reader.peek fault >>= f name) where
  leaves r := leaves_takeAll.bind fun name => leaves_peek.bind fun c => (hf name c).leaves r
  agrees s _ := by
    obtain ⟨name, s₁, hs₁, hclosed⟩ := takeSkipping_closed (Nat.lt_succ_self s.rest.length)
      (Nat.lt_succ_self s.closed.rest.length)
    have htake : (takeAll (· != '}')).run s = .ok (name, s₁) := hs₁
    rw [run_bind_ok htake]
    rcases hclosed with ⟨hmore, hs₁'⟩ | ⟨hend, name', s₁', hend', hs₁'⟩
    · have htake' : (takeAll (· != '}')).run s.closed = .ok (name, s₁.closed) := hs₁'
      rw [run_bind_ok htake']
      obtain ⟨_ | ⟨c, cs⟩, names, skipBlanks⟩ := s₁
      · exact absurd rfl hmore
      · exact (hf name c).agrees _ hmore
    · have htake' : (takeAll (· != '}')).run s.closed = .ok (name', s₁') := hs₁'
      rw [run_bind_ok htake']
      obtain ⟨rest, names, skipBlanks⟩ := s₁
      obtain ⟨rest', names', skipBlanks'⟩ := s₁'
      cases hend
      cases hend'
      exact .failed _ nofun

/-- A property of one letter may take the parenthesis for its name. -/
theorem steady_propertyClass {negated : Bool} :
    Steady More (Past ['$']) (propertyClass negated) := by
  apply steady_bumpSkip.bind
  intro _
  apply Steady.peek
  · intro c
    apply Steady.ite
    · apply steady_bumpSkip.bind
      intro _
      apply Steady.takeName
      intro name c
      apply steady_bump.bind
      intro _
      split
      all_goals
        split
        · exact .pure _
        · exact .throw _
    · apply Steady.check
      apply steady_bumpSkip.bind
      intro _
      split
      · exact .pure _
      · exact .throw _
  · show Leaves _ (if (')' == '{') = true then _ else _) _
    rw [if_neg (by decide)]
    apply Leaves.check
    apply leaves_bumpSkip.bind
    intro _
    split
    · exact .pure _
    · exact .throw _

/-- The parenthesis is no part of the name of a boundary. -/
theorem steady_boundaryName : Steady P (Past ['$']) boundaryName := by
  apply (steady_takeAll (by decide)).bind
  intro name
  apply Steady.peek
  · intro c
    apply Steady.check
    apply steady_bump.bind
    intro _
    split
    · exact .pure _
    · exact .pure _
    · exact .pure _
    · exact .pure _
    · exact .throw _
  · exact .stop (by decide)

/-- A brace is left with nothing but the closing parenthesis behind it. -/
def OpenBrace (s : ReadState) : Prop :=
  ∃ cs, s.rest = '{' :: cs ∧ (skipped { s with rest := cs }).rest = [')', '$']

/-- A brace at the end of the text is no word boundary, but with the parenthesis behind it begins a
repetition. -/
theorem steady_namedBoundary : Steady (Before '{')
    (fun a s => Past ['$'] a s ∨ a = .wordBoundary ∧ OpenBrace s) namedBoundary := by
  rw [namedBoundary_eq]
  apply Steady.get
  · exact fun _ => namedBoundary_eq ▸ leaves_namedBoundary
  rintro ⟨_, names, skipBlanks⟩ ⟨cs, ⟨⟩⟩
  have hskip : bumpSkip.run ⟨'{' :: cs, names, skipBlanks⟩ = .ok ((), skipped ⟨cs, names, skipBlanks⟩) :=
    rfl
  have hagrees := (steady_bumpSkip (Q := fun _ _ => False)).agrees ⟨'{' :: cs, names, skipBlanks⟩
    (List.cons_ne_nil _ cs)
  rw [hskip] at hagrees
  rw [run_bind_ok hskip]
  generalize skipped ⟨cs, names, skipBlanks⟩ = s₁ at hagrees
  obtain ⟨rest, names₁, skipBlanks₁⟩ := s₁
  rcases hagrees.ok_cases with hkept | ⟨hend, hswallowed⟩
  · rw [run_bind_ok hkept]
    rcases rest with _ | ⟨c, rest⟩
    · apply Agrees.failed
      rintro _ _ ⟨⟩
      have hclosed : skipped ⟨cs ++ [')', '$'], names, skipBlanks⟩ = ⟨[')', '$'], names₁, skipBlanks₁⟩ :=
        congrArg Prod.snd (Except.ok.inj hkept)
      exact .inr ⟨rfl, _, rfl, congrArg ReadState.rest hclosed⟩
    · show Agrees _ (StateT.run (if (!(c.isAlpha || c == '-')) = true then _ else _) _)
        (StateT.run (if (!(c.isAlpha || c == '-')) = true then _ else _) _)
      split
      · exact .kept _ ⟨'{' :: cs, names, skipBlanks⟩
      · exact ((steady_boundaryName (P := fun _ => True)).agrees _ trivial).mono fun _ _ => .inl
  · cases hend
    rw [run_bind_ok hswallowed]
    exact .failed _ nofun

/-- What an escape is that the text alone does not have: it takes the parenthesis, or it is a word
boundary before a brace. -/
def Escaped (i : Item) (s : ReadState) : Prop :=
  Past ['$'] i s ∨ i = .assertion .wordBoundary ∧ OpenBrace s

/-- A backslash at the end of the text escapes the parenthesis. -/
theorem steady_escapedLetter {c : Char} : Steady More Escaped (escapedLetter c) := by
  have hboundary : Steady (fun _ => True) Escaped (do
      if ← nextIs '{' then return .assertion (← namedBoundary)
      else return .assertion .wordBoundary) := by
    apply Steady.nextIs (by decide)
    · apply steady_namedBoundary.bindTo
      · exact fun a => .pure _
      · rintro a s _ _ (hpast | ⟨rfl, hopen⟩) ⟨⟩
        · exact .inl hpast
        · exact .inr ⟨rfl, hopen⟩
    · exact .pure _
  apply (steady_bump (Q := fun _ _ => False)).bindTo
  · intro _
    apply Steady.ite (.pure _)
    split
    all_goals first | exact .pure _ | exact .throw _ | exact hboundary
  · exact nofun

/-- An escape is the same, unless its backslash or its brace is at the end of the text. -/
theorem steady_escape : Steady More Escaped escape := by
  rw [escape_eq]
  apply (steady_bump (Q := fun _ _ => False)).bindTo
  · intro _
    apply Steady.peekTo
    · intro c
      apply Steady.before
      split
      · exact (steady_hexChar.bind fun _ => .pure _).mono fun _ _ => .inl
      · exact (steady_hexChar.bind fun _ => .pure _).mono fun _ _ => .inl
      · exact (steady_hexChar.bind fun _ => .pure _).mono fun _ _ => .inl
      · exact (steady_propertyClass.bind fun _ => .pure _).mono fun _ _ => .inl
      · exact (steady_propertyClass.bind fun _ => .pure _).mono fun _ _ => .inl
      · exact .check steady_escapedLetter
    · intro s i s' hs hrun
      exact .inl (leaves_escapedLetter s i s' (r := [')', '$']) (hs ▸ List.suffix_rfl) hrun)
  · exact nofun

/-! ## Classes -/

/-- An item of a class is the same, unless it is cut off by the end of the text. -/
theorem steady_classItem : Steady P
    (fun i s => Past [')', '$'] i s ∨ i = .assertion .wordBoundary) classItem := by
  apply Steady.peekTo
  · intro c
    apply Steady.before
    apply Steady.ite
    · apply steady_escape.mono
      rintro i s (hpast | ⟨hboundary, -⟩)
      · exact .inl (hpast.trans (List.suffix_cons ')' ['$']))
      · exact .inr hboundary
    · exact (steady_bump (Q := fun _ _ => False)).bindTo (fun _ => .pure _) nofun
  · intro s i s' hs hrun
    have hleaves : Leaves [')', '$'] (if ')' == '\\' then escape
        else bump >>= fun _ => pure (.literal ')' false)) [')', '$'] :=
      .ite leaves_escape.of_tail (leaves_bump.of_tail.bind fun _ => .pure _)
    exact .inl (hleaves s i s' (hs ▸ List.suffix_rfl) hrun)

/-- The character at the front, or the one behind the mark of a comment. -/
def frontOrComment : List Char → Option Char
  | '#' :: r => (r.dropWhile Text.isBlank).head?
  | r => r.head?

/-- At the end of the text, the parenthesis is the character in front. -/
theorem frontOrComment_append_closing (cs : List Char) :
    frontOrComment (cs ++ [')', '$']) = frontOrComment cs ∨
      frontOrComment cs = none ∧ frontOrComment (cs ++ [')', '$']) = some ')' := by
  rcases cs with _ | ⟨c, cs⟩
  · exact .inr ⟨rfl, rfl⟩
  by_cases hc : c = '#'
  · subst hc
    rw [List.cons_append, frontOrComment, frontOrComment, dropWhile_append_closing (by decide)]
    rcases cs.dropWhile Text.isBlank with _ | ⟨d, cs⟩
    · exact .inr ⟨rfl, rfl⟩
    · exact .inl rfl
  · have hfront (cs : List Char) : frontOrComment (c :: cs) = some c := by
      unfold frontOrComment
      split
      · next h => exact absurd (List.cons.inj h).1 hc
      · rfl
    exact .inl ((hfront _).trans (hfront cs).symm)

/-- A look behind the next character finds the same, or the parenthesis where there is none. -/
theorem peekSecond?_run_closed (c : Char) (cs : List Char) (names : List String) (b : Bool) :
    ∃ g : List Char → Option Char,
      (∀ cs, peekSecond?.run ⟨c :: cs, names, b⟩ = .ok (g cs, ⟨c :: cs, names, b⟩)) ∧
      (g (cs ++ [')', '$']) = g cs ∨ g cs = none ∧ g (cs ++ [')', '$']) = some ')') := by
  cases b with
  | false =>
    refine ⟨List.head?, fun _ => rfl, ?_⟩
    cases cs with
    | nil => exact .inr ⟨rfl, rfl⟩
    | cons d cs => exact .inl rfl
  | true =>
    refine ⟨fun cs => frontOrComment (cs.dropWhile Text.isBlank), fun cs => ?_, ?_⟩
    · show StateT.run (match cs.dropWhile Text.isBlank with
        | '#' :: r => pure (r.dropWhile Text.isBlank).head?
        | r => pure r.head? : Reader (Option Char)) _ = _
      unfold frontOrComment
      dsimp only
      split <;> rfl
    · dsimp only
      rw [dropWhile_append_closing (by decide)]
      exact frontOrComment_append_closing _

/-- A look behind the next character, by something that does not ask for a parenthesis. -/
theorem Steady.peekSecond {R : β → ReadState → Prop} {f : Option Char → Reader β}
    (hf : ∀ second, Steady More R (f second)) (hend : f none = f (some ')')) :
    Steady More R (peekSecond? >>= f) where
  leaves r := leaves_peekSecond?.bind fun second => (hf second).leaves r
  agrees s hs := by
    obtain ⟨_ | ⟨c, cs⟩, names, skipBlanks⟩ := s
    · exact absurd rfl hs
    obtain ⟨g, hrun, hg⟩ := peekSecond?_run_closed c cs names skipBlanks
    have hclosed : peekSecond?.run (ReadState.closed ⟨c :: cs, names, skipBlanks⟩) =
        .ok (g (cs ++ [')', '$']), ReadState.closed ⟨c :: cs, names, skipBlanks⟩) := hrun _
    rw [run_bind_ok (hrun cs), run_bind_ok hclosed]
    rcases hg with hg | ⟨hnone, hg⟩
    · rw [hg]
      exact (hf _).agrees _ hs
    · rw [hnone, hg, ← hend]
      exact (hf _).agrees _ hs

/-- The ends of a range are compared without reading. -/
theorem steady_rangeOf {low high : Item} : Steady P (Past r) (rangeOf low high) :=
  (Steady.liftM _).bind fun _ => (Steady.liftM _).bind fun _ => .check (.pure _)

/-- A range that is open at the end of the text ends in what is put behind. -/
theorem steady_rangeEnd {low : Item} {c : Char} :
    Steady More (Past [')', '$']) (rangeEnd low c) := by
  apply Steady.peekSecond
  · intro second
    apply Steady.ite
    · exact .liftM _
    apply steady_bumpSkip.bind
    intro _
    apply steady_classItem.bindTo fun _ => steady_rangeOf
    -- No range ends with a word boundary either.
    rintro high s t s' (hpast | rfl) hrun
    · exact leaves_rangeOf s t s' hpast hrun
    · cases low <;> cases hrun
  · rfl

/-- No range begins with a word boundary. -/
theorem leaves_rangeEnd_assertion {a : Assertion} {c : Char} :
    Leaves r (rangeEnd (.assertion a) c) q := by
  apply leaves_peekSecond?.bind
  intro second
  apply Leaves.ite
  · exact .throw _
  apply leaves_bumpSkip.bind
  intro _
  apply leaves_classItem.bind
  intro high
  exact nofun

/-- An item or a range is the same, or it ends in what is put behind. -/
theorem steady_classRange : Steady P (Past [')', '$']) classRange := by
  rw [classRange_eq]
  apply steady_classItem.bindTo
  · intro low
    apply steady_skip.bind
    intro _
    exact .peek (fun c => steady_rangeEnd) leaves_rangeEnd
  · rintro low s t s' (hpast | rfl) hrun
    · exact (leaves_skip.bind fun _ => leaves_peek.bind fun _ => leaves_rangeEnd) s t s' hpast hrun
    · exact (leaves_skip.bind fun _ => leaves_peek.bind fun _ => leaves_rangeEnd_assertion) s t s'
        List.suffix_rfl hrun

/-- Dashes are the same, up to the end of the text. -/
theorem steady_classDashes : Steady P (Past [')', '$']) (classDashes n) := by
  induction n generalizing P with
  | zero => exact .pure _
  | succ n ih =>
    apply Steady.nextIs (by decide)
    · apply Steady.before
      apply steady_bumpSkip.bind
      intro _
      exact .peek (fun _ => ih.bind fun _ => .pure _) (leaves_classDashes.bind fun _ => .pure _)
    · exact .pure _

/-- The front of a class is the same, up to the end of the text. -/
theorem steady_classFront {negated : Bool} : Steady P (Past [')', '$']) (classFront negated) := by
  apply Steady.get
  · exact fun _ => leaves_classFront
  intro s hs
  rw [run_bind_congr (classDashes_run_eq (Nat.lt_succ_self _) (length_lt_closed s)) fun _ _ _ => rfl]
  have hfront : Steady P (Past [')', '$']) (classDashes (s.closed.rest.length + 1) >>= fun dashes =>
      nextIs ']' >>= fun close => if dashes == .nothing && close then
          bumpSkip >>= fun _ => peek .unclosedClass >>= fun _ =>
            pure (negated, ClassTree.literal ']' false)
        else pure (negated, dashes)) := by
    apply steady_classDashes.bind
    intro dashes
    apply Steady.nextIs (by decide)
    · apply Steady.before
      apply Steady.ite
      · apply steady_bumpSkip.bind
        intro _
        exact .peek (fun _ => .pure _) (.pure _)
      · exact .pure _
    · rw [Bool.and_false]
      exact .pure _
  exact hfront.agrees s hs

/-- The head of a class is the same, up to the end of the text. -/
theorem steady_classHead : Steady More (Past [')', '$']) classHead := by
  rw [classHead_eq]
  apply steady_bumpSkip.bind
  intro _
  apply Steady.peek
  · intro c
    apply Steady.ite
    · apply steady_bumpSkip.bind
      intro _
      exact .peek (fun _ => steady_classFront) leaves_classFront
    · exact steady_classFront
  · apply Leaves.ite
    · exact leaves_bumpSkip.of_tail.bind fun _ => leaves_peek.bind fun _ => leaves_classFront
    · exact leaves_classFront

/-- The class that a name with its end writes, with what follows it. -/
def namedClass? (negated : Bool) (body : List Char) : Option (ClassTree × List Char) :=
  let name := body.takeWhile (· != ':')
  match body.drop name.length with
  | ':' :: ']' :: after =>
    (asciiClasses.lookup (String.ofList name)).map fun rs => (.ranges rs negated, after)
  | _ => none

/-- The name of a class ends in the text or not at all. -/
theorem namedClass?_append_closing {negated : Bool} (body : List Char) :
    namedClass? negated (body ++ [')', '$']) =
      (namedClass? negated body).map fun x => (x.1, x.2 ++ [')', '$']) := by
  unfold namedClass?
  by_cases hall : (body.takeWhile (· != ':')).length = body.length
  · -- Without a colon there is no end.
    have hclosed : (body ++ [')', '$']).takeWhile (· != ':') = body ++ [')', '$'] := by
      rw [List.takeWhile_append, if_pos hall]
      rfl
    dsimp only
    rw [hclosed, hall, List.drop_length, List.drop_length]
    rfl
  · have hname : (body ++ [')', '$']).takeWhile (· != ':') = body.takeWhile (· != ':') := by
      rw [List.takeWhile_append, if_neg hall]
    have hle := (List.takeWhile_prefix (l := body) (· != ':')).length_le
    dsimp only
    rw [hname, drop_append_closing hle]
    have hnone (cs : List Char) (h : ∀ after, cs ≠ ':' :: ']' :: after) : (match cs with
        | ':' :: ']' :: after => (asciiClasses.lookup (String.ofList
            (body.takeWhile (· != ':')))).map fun rs => (ClassTree.ranges rs negated, after)
        | _ => none) = none := by
      split
      · exact absurd rfl (h _)
      · rfl
    rcases body.drop (body.takeWhile (· != ':')).length with _ | ⟨c, _ | ⟨d, after⟩⟩
    · rfl
    · rw [hnone ([c] ++ [')', '$']) (by simp), hnone [c] (by simp)]
      rfl
    · by_cases hend : c = ':' ∧ d = ']'
      · obtain ⟨rfl, rfl⟩ := hend
        cases asciiClasses.lookup (String.ofList (body.takeWhile (· != ':'))) <;> rfl
      · rw [hnone (c :: d :: after ++ [')', '$']) (by simpa using hend),
          hnone (c :: d :: after) (by simpa using hend)]
        rfl

/-- A class that is named begins with a bracket and a colon. -/
theorem asciiClass?_eq_none {cs : List Char} (h : ¬ "[:".toList.isPrefixOf cs) :
    asciiClass? cs = none := by
  unfold asciiClass?
  split
  · exact absurd rfl h
  · rfl

/-- A class that is named is found in the text or not at all. -/
theorem asciiClass?_append_closing (cs : List Char) : asciiClass? (cs ++ [')', '$']) =
    (asciiClass? cs).map fun x => (x.1, x.2 ++ [')', '$']) := by
  have hbegin : "[:".toList.isPrefixOf (cs ++ [')', '$']) = "[:".toList.isPrefixOf cs :=
    isPrefixOf_append_closing (by decide) cs
  by_cases hlead : "[:".toList.isPrefixOf cs
  · obtain ⟨r, rfl⟩ := List.isPrefixOf_iff_prefix.1 hlead
    have hclass (r : List Char) : asciiClass? ("[:".toList ++ r) =
        namedClass? (r.head? == some '^') (if r.head? == some '^' then r.drop 1 else r) := rfl
    rw [List.append_assoc, hclass, hclass, ← namedClass?_append_closing]
    rcases r with _ | ⟨c, r⟩
    · rfl
    · rw [List.cons_append, List.head?_cons, List.head?_cons]
      split <;> rfl
  · rw [asciiClass?_eq_none hlead, asciiClass?_eq_none (hbegin ▸ hlead)]
    rfl

/-- The parenthesis doubles no operator. -/
theorem operator?_append_closing (c : Char) (cs : List Char) : operator? c (cs ++ [')', '$']) =
    (operator? c cs).map fun x => (x.1, x.2 ++ [')', '$']) := by
  unfold operator?
  cases cs with
  | nil => grind
  | cons d cs => grind

/-- A part of a class is the same, or it ends in what is put behind. -/
theorem steady_nextPart {inner : OpenClass → Reader ClassTree} {o : OpenClass} {c : Char}
    (hinner : ∀ o, Steady (fun _ => True) (Past [')', '$']) (inner o)) :
    Steady (Before c) (Past [')', '$']) (nextPart inner o c) := by
  apply Steady.get
  · exact fun _ => (leaves_nextPart fun o => (hinner o).leaves).of_tail
  rintro ⟨_, names, skipBlanks⟩ ⟨cs, ⟨⟩⟩
  split
  · dsimp only [ReadState.closed]
    rw [asciiClass?_append_closing]
    cases asciiClass? (c :: cs) with
    | some x => exact .kept _ ⟨x.2, names, skipBlanks⟩
    | none =>
      have hclass : Steady More (Past [')', '$']) (classHead >>= fun x =>
          inner ⟨none, x.2⟩ >>= fun t => pure (o.push (.bracketed x.1 t))) :=
        steady_classHead.bind fun _ => (hinner _).bind fun _ => .pure _
      exact hclass.agrees _ (List.cons_ne_nil c cs)
  · dsimp only [ReadState.closed, List.cons_append]
    have hbehind (cs : List Char) : (c :: cs).drop 1 = cs := rfl
    rw [hbehind, hbehind, operator?_append_closing]
    cases operator? c cs with
    | some x => exact .kept _ ⟨x.2, names, skipBlanks⟩
    | none =>
      have hrange : Steady More (Past [')', '$']) (classRange >>= fun t => pure (o.push t)) :=
        steady_classRange.bind fun _ => .pure _
      exact hrange.agrees _ (List.cons_ne_nil c cs)

/-- Nothing of what is put behind is skipped. -/
theorem skipped_eq (hs : s.rest <:+ [')', '$']) : skipped s = s := by
  have hrest : s.rest = [')', '$'] ∨ s.rest = ['$'] ∨ s.rest = [] := by
    simpa [List.suffix_cons_iff] using hs
  obtain ⟨rest, names, skipBlanks⟩ := s
  rcases hrest with h | h | h
  all_goals
    cases h
    cases skipBlanks <;> rfl

/-- What skipping does, as a function of the state. -/
theorem skip_run_eq : skip.run s = .ok ((), skipped s) := rfl

/-- A look that succeeds finds the next character and leaves the state. -/
theorem peek_run_eq_ok {c : Char} {s₁ : ReadState} (h : (peek fault).run s = .ok (c, s₁)) :
    s₁ = s ∧ Before c s := by
  obtain ⟨_ | ⟨d, r⟩, names, skipBlanks⟩ := s
  · cases h
  · cases h
    exact ⟨rfl, r, rfl⟩

/-- What is put behind closes no class. -/
theorem classItems_run_ne_ok {o : OpenClass} {t : ClassTree} {s s' : ReadState}
    (hs : s.rest <:+ [')', '$']) : (classItems n o).run s ≠ .ok (t, s') := by
  induction n generalizing s s' o with
  | zero => exact nofun
  | succ n ih =>
    rw [classItems_succ, run_bind_ok skip_run_eq, skipped_eq hs]
    intro hround
    obtain ⟨c, s₁, hpeek, hrun⟩ := exists_of_run_bind hround
    obtain ⟨rfl, cs, hcs⟩ := peek_run_eq_ok hpeek
    have hmem : c ∈ [')', '$'] := hs.subset (hcs ▸ List.mem_cons_self)
    have hclose : c ≠ ']' := by
      rintro rfl
      exact absurd hmem (by decide)
    rw [if_neg hclose] at hrun
    obtain ⟨o', s₂, hpart, hitems⟩ := exists_of_run_bind hrun
    have hleaves : Leaves [')', '$'] (nextPart (classItems n) o c) [')', '$'] :=
      (leaves_nextPart fun _ _ => leaves_classItems).of_tail
    exact ih (hleaves s₁ o' s₂ hs hpart) hitems

/-- A class that is open at the end of the text stays open, so the items are the same. -/
theorem steady_classItems {o : OpenClass} : Steady P (fun _ _ => False) (classItems n o) := by
  induction n generalizing P o with
  | zero => exact .throw _
  | succ n ih =>
    have hpart {c : Char} : Steady (Before c) (fun _ _ => False)
        (nextPart (classItems n) o c >>= classItems n) := by
      apply (steady_nextPart fun o => ih.mono nofun).bindTo
      · exact fun o => ih
      · exact fun o s t s' hpast hrun => classItems_run_ne_ok hpast hrun
    rw [classItems_succ]
    apply (steady_skip (Q := fun _ _ => False)).bindTo
    · intro _
      apply Steady.peekTo
      · intro c
        apply Steady.ite
        · exact ((steady_bump (Q := fun _ _ => False)).bindTo (fun _ => .pure _) nofun).before
        · exact hpart
      · intro s t s' hs hrun
        obtain ⟨o', s₁, hpart, hitems⟩ := exists_of_run_bind hrun
        have hleaves : Leaves [')', '$'] (nextPart (classItems n) o ')') [')', '$'] :=
          (leaves_nextPart fun _ _ => leaves_classItems).of_tail
        exact classItems_run_ne_ok (hleaves s o' s₁ (hs ▸ List.suffix_rfl) hpart) hitems
    · exact nofun

/-- The head of such a class may go further, but the class is not closed. -/
theorem steady_classInRounds : Steady More (fun _ _ => False) (classInRounds n) := by
  apply steady_classHead.bindTo
  · exact fun x => steady_classItems.bindTo (fun t => .pure _) nofun
  · intro x s t s' hpast hrun
    obtain ⟨t', s₁, hitems, -⟩ := exists_of_run_bind hrun
    exact classItems_run_ne_ok hpast hitems

/-- The rounds suffice for both texts, so the same class is read. -/
theorem steady_bracketedClass : Steady More (fun _ _ => False) bracketedClass := by
  rw [bracketedClass_eq]
  apply Steady.get
  · exact fun _ => bracketedClass_eq ▸ leaves_bracketedClass.of_tail
  intro s hs
  rw [classInRounds_run_eq (Nat.lt_succ_self _) (length_lt_closed s)]
  exact steady_classInRounds.agrees s hs

/-! ## Repetitions -/

/-- The parenthesis is not blank. -/
theorem steady_dropPlainBlanks : Steady P (Past r) dropPlainBlanks where
  leaves _ := leaves_dropPlainBlanks
  agrees s _ := by
    show Agrees _ (.ok ((), { s with rest := s.rest.dropWhile Text.isBlank }))
      (.ok ((), { s with rest := (s.rest ++ [')', '$']).dropWhile Text.isBlank }))
    rw [dropWhile_append_closing (by decide)]
    exact .kept () { s with rest := s.rest.dropWhile Text.isBlank }

/-- The parenthesis is no digit of a count. -/
theorem steady_count? : Steady P (Past r) count? := by
  apply steady_dropPlainBlanks.bind
  intro _
  apply (steady_takeAll (by decide)).bind
  intro digits
  apply steady_dropPlainBlanks.bind
  intro _
  apply steady_skip.bind
  intro _
  exact .ite (.pure _) (.ite (.pure _) (.throw _))

/-- What has to be there is checked without reading. -/
theorem steady_required {x : Option Nat} : Steady P (Past r) (required x) := by
  cases x with
  | none => exact .throw _
  | some _ => exact .pure _

/-- The parenthesis does not make a repetition lazy. -/
theorem steady_lazyMark : Steady P (Past r) lazyMark :=
  .nextIs (by decide) steady_bump.before (.pure _)

/-- The counts are closed in the text or not at all. -/
theorem steady_closeCounts {bounds : Nat × Option Nat} :
    Steady P (Past ['$']) (closeCounts bounds) := by
  apply Steady.peek
  · intro c
    apply Steady.check
    apply steady_bumpSkip.bind
    intro _
    apply steady_lazyMark.bind
    intro _
    dsimp only
    split
    · exact .check (.pure _)
    · exact .pure _
  · exact .stop (by decide)

/-- Behind the first count, the parenthesis is taken at most. -/
theorem steady_countsBehind {low : Option Nat} {c : Char} :
    Steady More (Past ['$']) (countsBehind low c) := by
  apply Steady.ite
  · apply steady_bumpSkip.bind
    intro _
    apply Steady.peek
    · intro c
      apply Steady.ite
      · exact steady_required.bind fun _ => steady_closeCounts
      · exact steady_required.bind fun _ => steady_count?.bind fun _ => steady_required.bind fun _ =>
          steady_closeCounts
    · exact leaves_boundsBehind
  · exact steady_required.bind fun _ => steady_closeCounts

/-- Counts that are open at the end of the text take the parenthesis at most. -/
theorem steady_counts : Steady More (Past ['$']) counts := by
  rw [counts_eq]
  apply steady_bumpSkip.bind
  intro _
  apply Steady.peek
  · intro _
    apply steady_count?.bind
    intro low
    exact .peek (fun _ => steady_countsBehind) leaves_countsBehind
  · exact leaves_count?.bind fun low => leaves_peek.bind fun _ => leaves_countsBehind

/-- Behind an open brace there is no count. -/
theorem counts_run_of_openBrace (hs : OpenBrace s) : counts.run s = .error .repetitionCount := by
  obtain ⟨rest, names, skipBlanks⟩ := s
  obtain ⟨cs, rfl, hrest⟩ := hs
  have hskip : bumpSkip.run ⟨'{' :: cs, names, skipBlanks⟩ = .ok ((), skipped ⟨cs, names, skipBlanks⟩) :=
    rfl
  rw [counts_eq, run_bind_ok hskip]
  dsimp only at hrest
  generalize skipped ⟨cs, names, skipBlanks⟩ = s₁ at hrest
  obtain ⟨_, names₁, skipBlanks₁⟩ := s₁
  cases hrest
  cases skipBlanks₁ <;> rfl

/-! ## Items -/

/-- What the items are that the text alone does not have. -/
def Behind (_ : List Tree) (s : ReadState) : Prop :=
  s.rest <:+ ['$'] ∨ OpenBrace s

/-- Turning the skipping of blanks on or off is the same. -/
theorem steady_modify {g : Bool → Bool} :
    Steady P (Past r) (modify fun s => { s with skipBlanks := g s.skipBlanks } : Reader Unit) where
  leaves _ := leaves_modify
  agrees s _ := .kept () { s with skipBlanks := g s.skipBlanks }

/-- An item is the same, or it ends in what is put behind, if groups are read alike. -/
theorem steady_nextItems {inner : Reader Tree} {items : List Tree} {c : Char}
    (hinner : Steady (fun _ => True) (Past ['$']) inner) :
    Steady More Behind (nextItems inner items c) := by
  have hpast {m : Reader (List Tree)} (h : Steady More (Past ['$']) m) : Steady More Behind m :=
    h.mono fun _ _ => .inl
  unfold nextItems
  split
  · apply hpast
    apply steady_groupHead.bind
    rintro (changes | changes)
    · exact (steady_modify (g := fun b => (changes.lookup .skipBlanks).getD b)).bind fun _ => .pure _
    have hgroup (outer : Bool) : Steady (fun _ => True) (Past ['$']) (do
        modify fun s => { s with skipBlanks := (changes.lookup .skipBlanks).getD outer }
        let t ← inner
        modify fun s => { s with skipBlanks := outer }
        return Tree.group changes t :: items) :=
      (steady_modify (g := fun _ => _)).bind fun _ => hinner.bind fun _ =>
        (steady_modify (g := fun _ => _)).bind fun _ => .pure _
    apply Steady.get
    · exact fun r => .get fun s hs => (hgroup s.skipBlanks).leaves r
    · exact fun s hs => (hgroup s.skipBlanks).agrees s hs
  · exact steady_bracketedClass.bindTo (fun _ => .pure _) nofun
  · exact hpast (steady_bump.bind fun _ => steady_lazyMark.bind fun _ => .liftM _)
  · exact hpast (steady_bump.bind fun _ => steady_lazyMark.bind fun _ => .liftM _)
  · exact hpast (steady_bump.bind fun _ => steady_lazyMark.bind fun _ => .liftM _)
  · exact hpast (steady_counts.bind fun _ => .liftM _)
  · apply steady_escape.bindTo
    · exact fun _ => .pure _
    · rintro i s _ _ (hpast | ⟨-, hopen⟩) ⟨⟩
      · exact .inl hpast
      · exact .inr hopen
  all_goals exact hpast (steady_bump.bind fun _ => .pure _)

/-- With what is put behind, no group is closed any more. -/
theorem choices_run_ne_ok {branches items : List Tree} {t : Tree} {s' : ReadState}
    (hs : s.rest <:+ ['$'] ∨ OpenBrace s) : (choices n true branches items).run s ≠ .ok (t, s') := by
  induction n generalizing s branches items with
  | zero => exact nofun
  | succ n ih =>
    rcases hs with hpast | hopen
    · have hskipped : skipped s = s := skipped_eq (hpast.trans (List.suffix_cons ')' ['$']))
      rw [choices_run, hskipped]
      rcases List.suffix_cons_iff.1 hpast with hrest | hrest
      · -- The sign for the end of a line is one more item, and then the text ends.
        rw [hrest]
        intro hrun
        obtain ⟨items', s₁, hitems, hrun⟩ := exists_of_run_bind hrun
        have hleaves := leaves_nextItems (fun _ => leaves_choices) s items' s₁ hpast hitems
        exact ih (.inl (hleaves.trans (List.suffix_cons '$' []))) hrun
      · rw [List.suffix_nil.1 hrest]
        exact nofun
    · -- The brace begins a repetition without a count.
      have hcounts := counts_run_of_openBrace hopen
      obtain ⟨rest, names, skipBlanks⟩ := s
      obtain ⟨cs, rfl, -⟩ := hopen
      have hskipped : skipped ⟨'{' :: cs, names, skipBlanks⟩ = ⟨'{' :: cs, names, skipBlanks⟩ := by
        cases skipBlanks <;> rfl
      rw [choices_run, hskipped]
      intro hrun
      obtain ⟨items', s₁, hitems, -⟩ := exists_of_run_bind hrun
      obtain ⟨bounds, s₂, hbounds, -⟩ := exists_of_run_bind hitems
      cases hcounts.symm.trans hbounds

/-- The choices of a group are the same, up to the parenthesis that closes it. -/
theorem steady_choices {branches items : List Tree} :
    Steady P (Past ['$']) (choices n true branches items) := by
  induction n generalizing P branches items with
  | zero => exact .throw _
  | succ n ih =>
    rw [choices_succ]
    apply steady_skip.bind
    intro _
    apply Steady.look
    · intro c
      apply Steady.before
      apply Steady.ite
      · exact .check (steady_bump.bind fun _ => .pure _)
      apply Steady.ite
      · exact steady_bump.bind fun _ => ih
      apply (steady_nextItems ih).bindTo
      · exact fun _ => ih
      · exact fun _ s t s' hs hrun => absurd hrun (choices_run_ne_ok hs)
    · exact fun _ => .throw _
    · intro s hs
      obtain ⟨_, names, skipBlanks⟩ := s
      cases hs
      exact .failed _ (by rintro _ _ ⟨⟩; exact List.suffix_rfl)

end Reader

end NextBuild.Regex
