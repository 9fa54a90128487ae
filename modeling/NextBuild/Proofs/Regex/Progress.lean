import NextBuild.Proofs.Regex.Reading

/-!
# Readers go forward

A reader that succeeds leaves an end of the text before it.  Bounds on what is left compose like the
readers do: each reader has one, and the bound of a loop is its invariant.  As every round of a loop
takes a character, a loop with more rounds than characters reads the same with any number of rounds.
-/

namespace NextBuild.Regex.Reader

variable {α β : Type} {m : Reader α} {f g : α → Reader β} {r q r' : List Char}
variable {s s' : ReadState} {a : α} {p : Prop} {n n' : Nat}

/-! ## Bounds -/

/-- From a state that holds an end of `r`, the reader leaves an end of `r'` if it succeeds. -/
def Leaves (r : List Char) (m : Reader α) (r' : List Char) : Prop :=
  ∀ s a s', s.rest <:+ r → m.run s = .ok (a, s') → s'.rest <:+ r'

/-- A success in two steps is a success of each. -/
theorem exists_of_run_bind {b : β} (h : (m >>= f).run s = .ok (b, s')) :
    ∃ a s₁, m.run s = .ok (a, s₁) ∧ (f a).run s₁ = .ok (b, s') := by
  rw [StateT.run_bind] at h
  cases hm : m.run s with
  | error fault =>
    rw [hm] at h
    cases h
  | ok x =>
    rw [hm] at h
    exact ⟨x.1, x.2, rfl, h⟩

namespace Leaves

/-- The bound of one reader is where the next one begins. -/
theorem bind (hm : Leaves r m q) (hf : ∀ a, Leaves q (f a) r') : Leaves r (m >>= f) r' := by
  intro s b s' hs h
  obtain ⟨a, s₁, hm', hf'⟩ := exists_of_run_bind h
  exact hf a s₁ b s' (hm s a s₁ hs hm') hf'

/-- A bound may be taken wider. -/
theorem mono (h : Leaves r m q) (hq : q <:+ r') : Leaves r m r' :=
  fun s a s' hs hrun => (h s a s' hs hrun).trans hq

/-- A reader that takes a character leaves an end of the text. -/
theorem of_tail (h : Leaves r m r.tail) : Leaves r m r :=
  h.mono (List.tail_suffix r)

/-- A result without reading takes nothing. -/
theorem pure (a : α) : Leaves r (pure a : Reader α) r := by
  rintro s _ _ hs ⟨⟩
  exact hs

/-- A fault leaves nothing to be bounded. -/
theorem throw (fault : Fault) : Leaves r (throw fault : Reader α) r' := nofun

/-- A computation that does not read takes nothing. -/
theorem liftM (x : Except Fault α) : Leaves r (liftM x : Reader α) r := by
  intro s a s' hs h
  cases x with
  | error fault => cases h
  | ok b =>
    cases h
    exact hs

/-- Both branches of a choice keep its bound. -/
theorem ite [Decidable p] {m' : Reader α} (h : Leaves r m r') (h' : Leaves r m' r') :
    Leaves r (if p then m else m') r' := by
  split
  · exact h
  · exact h'

/-- A check in front of a reader. -/
theorem check [Decidable p] {fault : Fault} {k : Unit → Reader α} (h : Leaves r (k ()) r') :
    Leaves r (if p then MonadExcept.throw fault >>= k else k ()) r' :=
  ite nofun h

/-- A check that fails. -/
theorem stop [Decidable p] {fault : Fault} {k : Unit → Reader α} (hp : p) :
    Leaves r (if p then MonadExcept.throw fault >>= k else k ()) r' := by
  rw [if_pos hp]
  exact nofun

/-- A reader that looks at the state is bounded if it is so for every state that may be there. -/
theorem get {f : ReadState → Reader β} (hf : ∀ s, s.rest <:+ r → Leaves r (f s) r') :
    Leaves r (MonadState.get >>= f) r' :=
  fun s b s' hs h => hf s hs s b s' hs h

/-- A state that is put in place leaves what it holds. -/
theorem set (hs : s.rest <:+ r') : Leaves r (MonadState.set s : Reader Unit) r' := by
  rintro _ _ _ _ ⟨⟩
  exact hs

end Leaves

/-! ## Single characters -/

/-- Blanks and comments are dropped from the front only. -/
theorem dropBlanks_suffix (n : Nat) (cs : List Char) : dropBlanks n cs <:+ cs := by
  induction n generalizing cs with
  | zero => exact List.suffix_rfl
  | succ n ih =>
    unfold dropBlanks
    split
    · next r =>
      have hcomment : (r.dropWhile (· != '\n')).drop 1 <:+ r :=
        (List.drop_suffix 1 _).trans (List.dropWhile_suffix _)
      exact (ih _).trans (hcomment.trans (List.suffix_cons '#' r))
    · next c r _ =>
      split
      · exact (ih r).trans (List.suffix_cons c r)
      · exact List.suffix_rfl
    · exact List.suffix_rfl

/-- Skipping takes only from the front. -/
theorem leaves_skip : Leaves r skip r := by
  rintro s _ _ hs ⟨⟩
  dsimp only
  split
  · exact (dropBlanks_suffix _ _).trans hs
  · exact hs

/-- Without their first characters, an end of a text is still an end of it. -/
theorem suffix_tail {cs : List Char} (h : cs <:+ r) : cs.tail <:+ r.tail := by
  rcases r with _ | ⟨c, r⟩
  · rw [List.suffix_nil.1 h]
  · rcases List.suffix_cons_iff.1 h with rfl | h
    · exact List.suffix_rfl
    · exact (List.tail_suffix cs).trans h

/-- A character is taken. -/
theorem leaves_bump : Leaves r bump r.tail := by
  rintro s _ _ hs ⟨⟩
  show s.rest.drop 1 <:+ r.tail
  rw [List.drop_one]
  exact suffix_tail hs

/-- A character is taken, and maybe the blanks behind it. -/
theorem leaves_bumpSkip : Leaves r bumpSkip r.tail :=
  leaves_bump.bind fun _ => leaves_skip

/-- The next character stays. -/
theorem leaves_peek? : Leaves r peek? r :=
  .get fun _ _ => .pure _

/-- A character that has to be there stays as well. -/
theorem leaves_peek {fault : Fault} : Leaves r (peek fault) r := by
  apply leaves_peek?.bind
  rintro (_ | c)
  · exact .throw fault
  · exact .pure c

/-- A comparison with the next character takes nothing. -/
theorem leaves_nextIs {c : Char} : Leaves r (nextIs c) r :=
  leaves_peek?.bind fun _ => .pure _

/-- A lead is taken as a whole or not at all. -/
theorem leaves_takeIf {lead : List Char} : Leaves r (takeIf lead) r :=
  .get fun _ hs => .ite ((Leaves.set ((List.drop_suffix _ _).trans hs)).bind fun _ => .pure _)
    (.pure _)

/-- The mark of a name is taken, or nothing. -/
theorem leaves_takeNameMark : Leaves r takeNameMark r :=
  leaves_takeIf.bind fun _ => .ite (.pure _) leaves_takeIf

/-- A look behind the next character takes nothing. -/
theorem leaves_peekSecond? : Leaves r peekSecond? r := by
  apply Leaves.get
  intro s hs
  apply Leaves.ite
  · split
    · exact .pure _
    · exact .pure _
  · exact .pure _

/-- However many rounds there are, characters are taken one after the other. -/
theorem leaves_takeSkipping {keep : Char → Bool} : Leaves r (takeSkipping keep n) r := by
  induction n with
  | zero => exact .pure _
  | succ n ih =>
    apply leaves_peek?.bind
    rintro (_ | c)
    · exact .pure _
    · exact .ite (leaves_bumpSkip.of_tail.bind fun _ => ih.bind fun _ => .pure _) (.pure _)

/-- The characters that are kept are taken from the front. -/
theorem leaves_takeAll {keep : Char → Bool} : Leaves r (takeAll keep) r :=
  .get fun _ _ => leaves_takeSkipping

/-! ## Heads of groups -/

/-- The name of a group is taken with the sign that ends it. -/
theorem leaves_groupName : Leaves r groupName r := by
  apply Leaves.get
  intro s hs
  dsimp only
  split
  · exact .throw _
  · exact .check <| .check <| .check <| .set <| (List.drop_suffix _ _).trans hs

/-- Take the flags of a group, with what ends them. -/
def flagsHead : Reader GroupHead := do
  let s ← get
  let letters := s.rest.takeWhile fun c => c != ':' && c != ')'
  let changes ← flagChanges false false letters []
  match s.rest.drop letters.length with
  | [] => throw .unclosedGroup
  | close :: r =>
    set { s with rest := r }
    if close == ')' then
      if letters.isEmpty then throw .nothingToRepeat
      return .flags changes
    else return .group changes

/-- The head of a group, with the part that reads its flags under a name of its own. -/
theorem groupHead_eq : groupHead = (do
    bumpSkip
    if startsLookAround (← get).rest then throw .lookAround
    if ← takeNameMark then
      groupName
      return .group []
    if ← takeIf "?".toList then flagsHead else return .group []) := rfl

/-- Flags are taken with the character that ends them. -/
theorem leaves_flagsHead : Leaves r flagsHead r := by
  apply Leaves.get
  intro s hs
  apply (Leaves.liftM _).bind
  intro changes
  split
  · exact .throw _
  · next close rest hdrop =>
    have hrest : close :: rest <:+ r := hdrop ▸ (List.drop_suffix _ _).trans hs
    apply (Leaves.set ((List.suffix_cons close rest).trans hrest)).bind
    intro _
    exact .ite (.check (.pure _)) (.pure _)

/-- The head of a group takes its parenthesis at least. -/
theorem leaves_groupHead : Leaves r groupHead r.tail := by
  rw [groupHead_eq]
  apply leaves_bumpSkip.bind
  intro _
  apply Leaves.get
  intro _ _
  apply Leaves.check
  apply leaves_takeNameMark.bind
  intro named
  apply Leaves.ite
  · exact leaves_groupName.bind fun _ => .pure _
  · exact leaves_takeIf.bind fun _ => .ite leaves_flagsHead (.pure _)

/-! ## Escapes -/

/-- The first digit of a number is taken. -/
theorem leaves_hexDigits_succ (ih : ∀ r, Leaves r (hexDigits n) r) :
    Leaves r (hexDigits (n + 1)) r.tail :=
  leaves_peek.bind fun _ => .check (leaves_bumpSkip.bind fun _ => (ih _).bind fun _ => .pure _)

/-- A number without digits takes nothing. -/
theorem leaves_hexDigits : Leaves r (hexDigits n) r := by
  induction n generalizing r with
  | zero => exact .pure _
  | succ n ih => exact (leaves_hexDigits_succ fun _ => ih).of_tail

/-- The character with a number is found without reading. -/
theorem leaves_charOfCode? {code : Nat} {f : Char → Char × Bool} :
    Leaves r (match charOfCode? code with
      | some c => pure (f c)
      | none => throw Fault.hexEscape : Reader (Char × Bool)) r := by
  split
  · exact .pure _
  · exact .throw _

/-- The number of a character takes the letter in front of it at least. -/
theorem leaves_hexChar : Leaves r (hexChar n) r.tail := by
  apply leaves_bumpSkip.bind
  intro _
  apply leaves_peek.bind
  intro _
  apply Leaves.ite
  · apply leaves_bumpSkip.of_tail.bind
    intro _
    apply leaves_takeAll.bind
    intro digits
    apply leaves_peek.bind
    intro _
    apply Leaves.check
    apply leaves_bumpSkip.of_tail.bind
    intro _
    exact .check leaves_charOfCode?
  · exact leaves_hexDigits.bind fun _ => leaves_charOfCode?

/-- A property takes the letter in front of it at least. -/
theorem leaves_propertyClass {negated : Bool} : Leaves r (propertyClass negated) r.tail := by
  apply leaves_bumpSkip.bind
  intro _
  apply leaves_peek.bind
  intro first
  apply Leaves.ite
  · apply leaves_bumpSkip.of_tail.bind
    intro _
    apply leaves_takeAll.bind
    intro name
    apply leaves_peek.bind
    intro _
    apply leaves_bump.of_tail.bind
    intro _
    split
    all_goals
      split
      · exact .pure _
      · exact .throw _
  · apply Leaves.check
    apply leaves_bumpSkip.of_tail.bind
    intro _
    split
    · exact .pure _
    · exact .throw _

/-- Take the name of a kind of word boundary, with the brace behind it. -/
def boundaryName : Reader Assertion := do
  let name ← takeAll fun c => c.isAlpha || c == '-'
  if (← peek .wordBoundary) != '}' then throw .wordBoundary
  bump
  match String.ofList name with
  | "start" => return .wordStart
  | "end" => return .wordEnd
  | "start-half" => return .wordStartHalf
  | "end-half" => return .wordEndHalf
  | _ => throw .wordBoundary

/-- A boundary in braces, with the part that reads its name under a name of its own. -/
theorem namedBoundary_eq : namedBoundary = (do
    let before ← get
    bumpSkip
    let first ← peek .wordBoundary
    if !(first.isAlpha || first == '-') then
      set before
      return .wordBoundary
    else boundaryName) := rfl

/-- The name of a boundary is taken with its brace. -/
theorem leaves_boundaryName : Leaves r boundaryName r := by
  apply leaves_takeAll.bind
  intro _
  apply leaves_peek.bind
  intro _
  apply Leaves.check
  apply leaves_bump.of_tail.bind
  intro _
  split
  · exact .pure _
  · exact .pure _
  · exact .pure _
  · exact .pure _
  · exact .throw _

/-- Braces with anything else in front go back to where they were. -/
theorem leaves_namedBoundary : Leaves r namedBoundary r := by
  rw [namedBoundary_eq]
  apply Leaves.get
  intro before hbefore
  apply leaves_bumpSkip.of_tail.bind
  intro _
  apply leaves_peek.bind
  intro _
  exact .ite ((Leaves.set hbefore).bind fun _ => .pure _) leaves_boundaryName

/-- Take what the letter `c` behind a backslash writes. -/
def escapedLetter (c : Char) : Reader Item := do
  bump
  if standsForItself c then return .literal c false
  match c with
  | 'd' => return .shorthand .digit false
  | 's' => return .shorthand .space false
  | 'w' => return .shorthand .word false
  | 'D' => return .shorthand .digit true
  | 'S' => return .shorthand .space true
  | 'W' => return .shorthand .word true
  | 'a' => return .literal '\x07' false
  | 'f' => return .literal '\x0c' false
  | 't' => return .literal '\t' false
  | 'n' => return .literal '\n' false
  | 'r' => return .literal '\r' false
  | 'v' => return .literal '\x0b' false
  | 'A' => return .assertion .textStart
  | 'z' => return .assertion .textEnd
  | 'b' => if ← nextIs '{' then return .assertion (← namedBoundary)
           else return .assertion .wordBoundary
  | 'B' => return .assertion .notWordBoundary
  | '<' => return .assertion .wordStart
  | '>' => return .assertion .wordEnd
  | _ => throw .unknownEscape

/-- An escape, with the part for a single letter under a name of its own. -/
theorem escape_eq : escape = (do
    bump
    let c ← peek .unexpectedEnd
    match c with
    | 'x' => let (c, byte) ← hexChar 2; return .literal c byte
    | 'u' => let (c, _) ← hexChar 4; return .literal c false
    | 'U' => let (c, _) ← hexChar 8; return .literal c false
    | 'p' => let (p, n) ← propertyClass false; return .property p n
    | 'P' => let (p, n) ← propertyClass true; return .property p n
    | _ =>
      if c.isDigit then throw .backReference
      escapedLetter c) := rfl

/-- The letter of an escape is taken. -/
theorem leaves_escapedLetter {c : Char} : Leaves r (escapedLetter c) r.tail := by
  apply leaves_bump.bind
  intro _
  apply Leaves.ite (.pure _)
  split
  all_goals first | exact .pure _ | exact .throw _ | skip
  exact leaves_nextIs.bind fun _ => .ite (leaves_namedBoundary.bind fun _ => .pure _) (.pure _)

/-- An escape takes its backslash at least. -/
theorem leaves_escape : Leaves r escape r.tail := by
  rw [escape_eq]
  apply leaves_bump.bind
  intro _
  apply leaves_peek.bind
  intro c
  split
  · exact leaves_hexChar.of_tail.bind fun _ => .pure _
  · exact leaves_hexChar.of_tail.bind fun _ => .pure _
  · exact leaves_hexChar.of_tail.bind fun _ => .pure _
  · exact leaves_propertyClass.of_tail.bind fun _ => .pure _
  · exact leaves_propertyClass.of_tail.bind fun _ => .pure _
  · exact .check leaves_escapedLetter.of_tail

/-! ## Classes -/

/-- What follows a named class is an end of what the bracket opens. -/
theorem suffix_of_asciiClass? {cs after : List Char} {t : ClassTree}
    (h : asciiClass? cs = some (t, after)) : after <:+ cs.tail := by
  unfold asciiClass? at h
  split at h
  · next r =>
    dsimp only at h
    split at h
    · next hdrop =>
      obtain ⟨rs, -, hrs⟩ := Option.map_eq_some_iff.1 h
      cases hrs
      have hbody : (if r.head? == some '^' then r.drop 1 else r) <:+ ':' :: r := by
        split
        · exact (List.drop_suffix 1 r).trans (List.suffix_cons ':' r)
        · exact List.suffix_cons ':' r
      have hclose : ':' :: ']' :: after <:+ ':' :: r := hdrop ▸ (List.drop_suffix _ _).trans hbody
      exact ((List.suffix_cons ']' after).trans (List.suffix_cons ':' _)).trans hclose
    · cases h
  · cases h

/-- An item of a class takes a character at least. -/
theorem leaves_classItem : Leaves r classItem r.tail :=
  leaves_peek.bind fun _ => .ite leaves_escape (leaves_bump.bind fun _ => .pure _)

/-- The range from one item to another one. -/
def rangeOf (low high : Item) : Reader ClassTree := do
  let (l, lowByte) ← low.char
  let (h, highByte) ← high.char
  if h < l then throw .invalidRange
  return .range l lowByte h highByte

/-- Take what makes a range of the item `low`, if it is one; `c` is the next character. -/
def rangeEnd (low : Item) (c : Char) : Reader ClassTree := do
  let second ← peekSecond?
  if c != '-' || second == some ']' || second == some '-' then low.classTree
  else
    bumpSkip
    rangeOf low (← classItem)

/-- An item or a range, with what follows its first item under a name of its own. -/
theorem classRange_eq : classRange = (do
    let low ← classItem
    skip
    rangeEnd low (← peek .unclosedClass)) := rfl

/-- The ends of a range are compared without reading. -/
theorem leaves_rangeOf {low high : Item} : Leaves r (rangeOf low high) r :=
  (Leaves.liftM _).bind fun _ => (Leaves.liftM _).bind fun _ => .check (.pure _)

/-- An item that no range follows stays alone. -/
theorem leaves_rangeEnd {low : Item} {c : Char} : Leaves r (rangeEnd low c) r := by
  apply leaves_peekSecond?.bind
  intro second
  apply Leaves.ite
  · exact .liftM _
  apply leaves_bumpSkip.of_tail.bind
  intro _
  exact leaves_classItem.of_tail.bind fun _ => leaves_rangeOf

/-- An item or a range takes a character at least. -/
theorem leaves_classRange : Leaves r classRange r.tail := by
  rw [classRange_eq]
  apply leaves_classItem.bind
  intro low
  apply leaves_skip.bind
  intro _
  exact leaves_peek.bind fun _ => leaves_rangeEnd

/-- Dashes are taken from the front. -/
theorem leaves_classDashes : Leaves r (classDashes n) r := by
  induction n with
  | zero => exact .pure _
  | succ n ih =>
    apply leaves_nextIs.bind
    intro _
    apply Leaves.ite
    · exact leaves_bumpSkip.of_tail.bind fun _ => leaves_peek.bind fun _ => ih.bind fun _ => .pure _
    · exact .pure _

/-- Take the characters that stand for themselves in front of a class only. -/
def classFront (negated : Bool) : Reader (Bool × ClassTree) := do
  let dashes ← classDashes ((← get).rest.length + 1)
  if dashes == .nothing && (← nextIs ']') then
    bumpSkip
    let _ ← peek .unclosedClass
    return (negated, .literal ']' false)
  return (negated, dashes)

/-- The head of a class, by whether it is negated. -/
theorem classHead_eq : classHead = (do
    bumpSkip
    if (← peek .unclosedClass) == '^' then
      bumpSkip
      let _ ← peek .unclosedClass
      classFront true
    else classFront false) := by
  apply congrArg (bumpSkip >>= ·)
  funext _
  apply congrArg (peek .unclosedClass >>= ·)
  funext c
  cases c == '^' <;> rfl

/-- The front of a class may be empty. -/
theorem leaves_classFront {negated : Bool} : Leaves r (classFront negated) r := by
  apply Leaves.get
  intro _ _
  apply leaves_classDashes.bind
  intro _
  apply leaves_nextIs.bind
  intro _
  apply Leaves.ite
  · exact leaves_bumpSkip.of_tail.bind fun _ => leaves_peek.bind fun _ => .pure _
  · exact .pure _

/-- The head of a class takes its bracket at least. -/
theorem leaves_classHead : Leaves r classHead r.tail := by
  rw [classHead_eq]
  apply leaves_bumpSkip.bind
  intro _
  apply leaves_peek.bind
  intro _
  apply Leaves.ite
  · exact leaves_bumpSkip.of_tail.bind fun _ => leaves_peek.bind fun _ => leaves_classFront
  · exact leaves_classFront

/-- The operator that a character of a class writes if it is doubled, with what follows it. -/
def operator? : Char → List Char → Option (SetOperator × List Char)
  | '&', '&' :: r => some (.inter, r)
  | '-', '-' :: r => some (.diff, r)
  | '~', '~' :: r => some (.symmDiff, r)
  | _, _ => none

/-- Take one more item or operator of a class; `c` is the next character, and `inner` reads the items
of a class inside. -/
def nextPart (inner : OpenClass → Reader ClassTree) (o : OpenClass) (c : Char) :
    Reader OpenClass := do
  let s ← get
  if c = '[' then
    match asciiClass? s.rest with
    | some (a, after) =>
      set { s with rest := after }
      return o.push a
    | none =>
      let (negated, items) ← classHead
      return o.push (.bracketed negated (← inner ⟨none, items⟩))
  else
    match operator? c (s.rest.drop 1) with
    | some (op, r) =>
      set { s with rest := r }
      return o.apply op
    | none => return o.push (← classRange)

/-- One round: the bracket that closes the class, or one more part. -/
theorem classItems_succ {o : OpenClass} : classItems (n + 1) o = (do
    skip
    let c ← peek .unclosedClass
    if c = ']' then
      bump
      return o.operand
    else classItems n (← nextPart (classItems n) o c)) := by
  rw [classItems]
  apply congrArg (skip >>= ·)
  funext _
  apply congrArg (peek .unclosedClass >>= ·)
  funext c
  by_cases hclose : c = ']'
  · subst hclose
    rfl
  rw [if_neg hclose, nextPart, bind_assoc]
  apply congrArg (get >>= ·)
  funext s
  -- The rounds ask for the character and the one behind it at once, the parts one by one.
  split
  · rw [if_pos rfl]
    cases asciiClass? s.rest <;> simp only [bind_assoc, pure_bind]
  · exact absurd rfl hclose
  · next hcs =>
    rw [if_neg (by decide), hcs]
    rfl
  · next hcs =>
    rw [if_neg (by decide), hcs]
    rfl
  · next hcs =>
    rw [if_neg (by decide), hcs]
    rfl
  · next c _ _ hclass hclose hinter hdiff hsymmDiff =>
    have hnone : operator? c (s.rest.drop 1) = none := by
      unfold operator?
      split
      · exact (hinter _ rfl ‹_›).elim
      · exact (hdiff _ rfl ‹_›).elim
      · exact (hsymmDiff _ rfl ‹_›).elim
      · rfl
    rw [if_neg hclass, hnone]
    simp only [bind_assoc, pure_bind]

/-- What follows an operator is an end of what the doubled character begins. -/
theorem suffix_of_operator? {c : Char} {cs after : List Char} {op : SetOperator}
    (h : operator? c cs = some (op, after)) : after <:+ cs := by
  unfold operator? at h
  split at h
  · cases h
    exact List.suffix_cons '&' after
  · cases h
    exact List.suffix_cons '-' after
  · cases h
    exact List.suffix_cons '~' after
  · cases h

/-- A part of a class takes a character at least, if the classes inside it go forward. -/
theorem leaves_nextPart {inner : OpenClass → Reader ClassTree} {o : OpenClass} {c : Char}
    (hinner : ∀ o r, Leaves r (inner o) r) : Leaves r (nextPart inner o c) r.tail := by
  apply Leaves.get
  intro s hs
  have htail : s.rest.drop 1 <:+ r.tail := by
    rw [List.drop_one]
    exact suffix_tail hs
  apply Leaves.ite
  · split
    · next hclass =>
      exact (Leaves.set ((suffix_of_asciiClass? hclass).trans (suffix_tail hs))).bind fun _ => .pure _
    · exact leaves_classHead.bind fun _ => (hinner _ _).bind fun _ => .pure _
  · split
    · next hop => exact (Leaves.set ((suffix_of_operator? hop).trans htail)).bind fun _ => .pure _
    · exact leaves_classRange.bind fun _ => .pure _

/-- However many rounds there are, the items of a class go forward. -/
theorem leaves_classItems {o : OpenClass} : Leaves r (classItems n o) r := by
  induction n generalizing o r with
  | zero => exact .throw _
  | succ n ih =>
    rw [classItems_succ]
    apply leaves_skip.bind
    intro _
    apply leaves_peek.bind
    intro c
    apply Leaves.ite
    · exact leaves_bump.of_tail.bind fun _ => .pure _
    · exact (leaves_nextPart fun _ _ => ih).of_tail.bind fun _ => ih

/-- Take a bracketed class in a number of rounds. -/
def classInRounds (n : Nat) : Reader Tree := do
  let (negated, items) ← classHead
  return .bracketed negated (← classItems n ⟨none, items⟩)

/-- A class is read in as many rounds as there are characters. -/
theorem bracketedClass_eq :
    bracketedClass = (do classInRounds ((← get).rest.length + 1)) := rfl

/-- A class takes its bracket at least, in any number of rounds. -/
theorem leaves_classInRounds : Leaves r (classInRounds n) r.tail :=
  leaves_classHead.bind fun _ => leaves_classItems.bind fun _ => .pure _

/-- A class takes its bracket at least. -/
theorem leaves_bracketedClass : Leaves r bracketedClass r.tail :=
  .get fun _ _ => leaves_classInRounds

/-! ## Repetitions -/

/-- Blanks are dropped from the front. -/
theorem leaves_dropPlainBlanks : Leaves r dropPlainBlanks r := by
  rintro s _ _ hs ⟨⟩
  exact (List.dropWhile_suffix _).trans hs

/-- A count may be missing. -/
theorem leaves_count? : Leaves r count? r := by
  apply leaves_dropPlainBlanks.bind
  intro _
  apply leaves_takeAll.bind
  intro digits
  apply leaves_dropPlainBlanks.bind
  intro _
  apply leaves_skip.bind
  intro _
  exact .ite (.pure _) (.ite (.pure _) (.throw _))

/-- What has to be there is checked without reading. -/
theorem leaves_required {x : Option Nat} : Leaves r (required x) r := by
  cases x with
  | none => exact .throw _
  | some _ => exact .pure _

/-- The mark of a lazy repetition may be missing. -/
theorem leaves_lazyMark : Leaves r lazyMark r :=
  leaves_nextIs.bind fun _ => .ite leaves_bump.of_tail (.pure _)

/-- Take what closes the counts of a repetition. -/
def closeCounts (bounds : Nat × Option Nat) : Reader (Nat × Option Nat) := do
  if (← peek .repetitionCount) != '}' then throw .repetitionCount
  bumpSkip
  lazyMark
  match bounds.2 with
  | some high => if high < bounds.1 then throw .repetitionCount
  | none => pure ()
  return bounds

/-- Take what stands behind the first count, where `c` is the next character. -/
def countsBehind (low : Option Nat) (c : Char) : Reader (Nat × Option Nat) := do
  if c == ',' then
    bumpSkip
    if (← peek .repetitionCount) == '}' then closeCounts (← required low, none)
    else
      let low ← required low
      let high ← required (← count?)
      closeCounts (low, some high)
  else
    let low ← required low
    closeCounts (low, some low)

/-- The counts of a repetition, in the order in which they are read. -/
theorem counts_eq : counts = (do
    bumpSkip
    let _ ← peek .repetitionCount
    let low ← count?
    countsBehind low (← peek .repetitionCount)) := rfl

/-- The end of the counts takes its brace at least. -/
theorem leaves_closeCounts {bounds : Nat × Option Nat} :
    Leaves r (closeCounts bounds) r.tail := by
  apply leaves_peek.bind
  intro _
  apply Leaves.check
  apply leaves_bumpSkip.bind
  intro _
  apply leaves_lazyMark.bind
  intro _
  dsimp only
  split
  · exact .check (.pure _)
  · exact .pure _

/-- Behind a comma, the brace is taken at least. -/
theorem leaves_boundsBehind {low : Option Nat} {c : Char} :
    Leaves r (if c == '}' then required low >>= fun low => closeCounts (low, none)
      else required low >>= fun low => count? >>= fun high => required high >>= fun high =>
        closeCounts (low, some high)) r.tail :=
  .ite (leaves_required.bind fun _ => leaves_closeCounts)
    (leaves_required.bind fun _ => leaves_count?.bind fun _ => leaves_required.bind fun _ =>
      leaves_closeCounts)

/-- Behind the first count, the brace is taken at least. -/
theorem leaves_countsBehind {low : Option Nat} {c : Char} :
    Leaves r (countsBehind low c) r.tail := by
  apply Leaves.ite
  · exact leaves_bumpSkip.of_tail.bind fun _ => leaves_peek.bind fun _ => leaves_boundsBehind
  · exact leaves_required.bind fun _ => leaves_closeCounts

/-- The counts of a repetition take a character at least. -/
theorem leaves_counts : Leaves r counts r.tail := by
  rw [counts_eq]
  apply leaves_bumpSkip.of_tail.bind
  intro _
  apply leaves_peek.bind
  intro _
  exact leaves_count?.bind fun low => leaves_peek.bind fun _ => leaves_countsBehind

/-! ## Items -/

/-- Take one more item, or the mark that repeats the last one; `c` is the next character, and `inner`
reads what stands in a group. -/
def nextItems (inner : Reader Tree) (items : List Tree) (c : Char) : Reader (List Tree) := do
  match c with
  | '(' => match ← groupHead with
    | .flags changes =>
      modify fun s => { s with skipBlanks := (changes.lookup .skipBlanks).getD s.skipBlanks }
      return .flags changes :: items
    | .group changes =>
      let outer := (← get).skipBlanks
      modify fun s => { s with skipBlanks := (changes.lookup .skipBlanks).getD outer }
      let t ← inner
      modify fun s => { s with skipBlanks := outer }
      return .group changes t :: items
  | '[' => return (← bracketedClass) :: items
  | '*' => bump; lazyMark; repeatLast 0 none items
  | '+' => bump; lazyMark; repeatLast 1 none items
  | '?' => bump; lazyMark; repeatLast 0 (some 1) items
  | '{' => let (low, high) ← counts; repeatLast low high items
  | '\\' => return (← escape).tree :: items
  | '.' => bump; return .dot :: items
  | '^' => bump; return .assertion .lineStart :: items
  | '$' => bump; return .assertion .lineEnd :: items
  | _ => bump; return .literal c false :: items

/-- One round of the choices: their end, the next choice, or one more item. -/
theorem choices_succ {inGroup : Bool} {branches items : List Tree} :
    choices (n + 1) inGroup branches items = (do
      skip
      match ← peek? with
      | none =>
        if inGroup then throw .unclosedGroup
        return Tree.ofBranches (branches ++ [Tree.ofList items.reverse])
      | some c =>
        if c = ')' then
          if !inGroup then throw .unopenedGroup
          bump
          return Tree.ofBranches (branches ++ [Tree.ofList items.reverse])
        else if c = '|' then
          bump
          choices n inGroup (branches ++ [Tree.ofList items.reverse]) []
        else choices n inGroup branches (← nextItems (choices n true [] []) items c)) := by
  rw [choices]
  apply congrArg (skip >>= ·)
  funext _
  apply congrArg (peek? >>= ·)
  funext c
  rcases c with _ | c
  · rfl
  by_cases hclose : c = ')'
  · subst hclose
    rfl
  by_cases hbar : c = '|'
  · subst hbar
    rfl
  dsimp only
  rw [if_neg hclose, if_neg hbar]
  unfold nextItems
  split
  · exact absurd rfl hclose
  · exact absurd rfl hbar
  · simp only [bind_assoc]
    apply congrArg (groupHead >>= ·)
    funext head
    cases head <;> simp only [bind_assoc, pure_bind]
  all_goals simp only [bind_assoc, pure_bind]

/-- Turning the skipping of blanks on or off takes nothing. -/
theorem leaves_modify {b : ReadState → Bool} :
    Leaves r (modify fun s => { s with skipBlanks := b s } : Reader Unit) r := by
  rintro s _ _ hs ⟨⟩
  exact hs

/-- An item takes a character at least, if what stands in groups goes forward. -/
theorem leaves_nextItems {inner : Reader Tree} {items : List Tree} {c : Char}
    (hinner : ∀ r, Leaves r inner r) : Leaves r (nextItems inner items c) r.tail := by
  unfold nextItems
  split
  · apply leaves_groupHead.bind
    rintro (changes | changes)
    · exact leaves_modify.bind fun _ => .pure _
    apply Leaves.get
    intro _ _
    exact leaves_modify.bind fun _ => (hinner _).bind fun _ => leaves_modify.bind fun _ => .pure _
  · exact leaves_bracketedClass.bind fun _ => .pure _
  · exact leaves_bump.bind fun _ => leaves_lazyMark.bind fun _ => .liftM _
  · exact leaves_bump.bind fun _ => leaves_lazyMark.bind fun _ => .liftM _
  · exact leaves_bump.bind fun _ => leaves_lazyMark.bind fun _ => .liftM _
  · exact leaves_counts.bind fun _ => .liftM _
  · exact leaves_escape.bind fun _ => .pure _
  all_goals exact leaves_bump.bind fun _ => .pure _

/-- However many rounds there are, the choices go forward. -/
theorem leaves_choices {inGroup : Bool} {branches items : List Tree} :
    Leaves r (choices n inGroup branches items) r := by
  induction n generalizing r inGroup branches items with
  | zero => exact .throw _
  | succ n ih =>
    rw [choices_succ]
    apply leaves_skip.bind
    intro _
    apply leaves_peek?.bind
    rintro (_ | c)
    · exact .ite (.throw _) (.pure _)
    apply Leaves.ite
    · exact .check (leaves_bump.of_tail.bind fun _ => .pure _)
    apply Leaves.ite
    · exact leaves_bump.of_tail.bind fun _ => ih
    · exact (leaves_nextItems fun _ => ih).of_tail.bind fun _ => ih

/-- The state behind the blanks and comments that are skipped. -/
def skipped (s : ReadState) : ReadState :=
  if s.skipBlanks then { s with rest := dropBlanks (s.rest.length + 1) s.rest } else s

/-- One round, by what comes next. -/
theorem choices_run {inGroup : Bool} {branches items : List Tree} :
    (choices (n + 1) inGroup branches items).run s =
      match (skipped s).rest with
      | [] => if inGroup then .error .unclosedGroup
          else .ok (Tree.ofBranches (branches ++ [Tree.ofList items.reverse]), skipped s)
      | c :: r => if c = ')' then
            if inGroup then .ok (Tree.ofBranches (branches ++ [Tree.ofList items.reverse]),
              { skipped s with rest := r })
            else .error .unopenedGroup
          else if c = '|' then
            (choices n inGroup (branches ++ [Tree.ofList items.reverse]) []).run
              { skipped s with rest := r }
          else (nextItems (choices n true [] []) items c >>= choices n inGroup branches).run
            (skipped s) := by
  have hskip : skip.run s = .ok ((), skipped s) := rfl
  rw [choices_succ, run_bind_ok hskip]
  generalize skipped s = s₁
  obtain ⟨rest, names, skipBlanks⟩ := s₁
  rcases rest with _ | ⟨c, r⟩
  · have hpeek : peek?.run ⟨[], names, skipBlanks⟩ = .ok (none, ⟨[], names, skipBlanks⟩) := rfl
    rw [run_bind_ok hpeek]
    cases inGroup <;> rfl
  have hpeek : peek?.run ⟨c :: r, names, skipBlanks⟩ = .ok (some c, ⟨c :: r, names, skipBlanks⟩) := rfl
  rw [run_bind_ok hpeek]
  dsimp only
  split
  · cases inGroup <;> rfl
  split
  · rfl
  · rfl

/-! ## Rounds -/

/-- Readers that begin alike do the same if they go on alike from wherever the first step ends. -/
theorem run_bind_congr {m' : Reader α} (hm : m.run s = m'.run s)
    (h : ∀ a s', m.run s = .ok (a, s') → (f a).run s' = (g a).run s') :
    (m >>= f).run s = (m' >>= g).run s := by
  rw [StateT.run_bind, StateT.run_bind, ← hm]
  cases hm : m.run s with
  | error fault => rfl
  | ok x => exact h x.1 x.2 hm

/-- A reader that goes forward does not make the text longer. -/
theorem Leaves.length_le (h : Leaves s.rest m s.rest) (hrun : m.run s = .ok (a, s')) :
    s'.rest.length ≤ s.rest.length :=
  (h s a s' List.suffix_rfl hrun).length_le

/-- A reader that takes a character makes the text shorter. -/
theorem Leaves.length_lt {c : Char} (h : Leaves s.rest m s.rest.tail) (hs : s.rest = c :: r)
    (hrun : m.run s = .ok (a, s')) : s'.rest.length < s.rest.length := by
  have hle := (h s a s' List.suffix_rfl hrun).length_le
  rw [hs] at hle ⊢
  exact Nat.lt_succ_of_le hle

/-- At an end of the text `peek` stops, and before a character it goes on with it. -/
theorem run_peek_bind_congr {fault : Fault} {f g : Char → Reader β}
    (h : ∀ c r, s.rest = c :: r → (f c).run s = (g c).run s) :
    (peek fault >>= f).run s = (peek fault >>= g).run s := by
  obtain ⟨_ | ⟨c, r⟩, names, skipBlanks⟩ := s
  · rfl
  · exact h c r rfl

/-- More rounds than characters take the same characters. -/
theorem takeSkipping_run_eq {keep : Char → Bool} (hn : s.rest.length < n)
    (hn' : s.rest.length < n') : (takeSkipping keep n).run s = (takeSkipping keep n').run s := by
  induction n generalizing n' s with
  | zero => exact absurd hn (Nat.not_lt_zero _)
  | succ n ih =>
    obtain ⟨n', rfl⟩ := Nat.exists_eq_add_one_of_ne_zero (Nat.ne_zero_of_lt hn')
    obtain ⟨_ | ⟨c, r⟩, names, skipBlanks⟩ := s
    · rfl
    show StateT.run (if keep c then _ else _) _ = StateT.run (if keep c then _ else _) _
    split
    · apply run_bind_congr rfl
      intro _ s' hrun
      have hlt := leaves_bumpSkip.length_lt rfl hrun
      have hfuel : s'.rest.length < n' := by omega
      rw [StateT.run_bind, StateT.run_bind, ih (by omega) hfuel]
    · rfl

/-- More rounds than characters take the same dashes. -/
theorem classDashes_run_eq (hn : s.rest.length < n) (hn' : s.rest.length < n') :
    (classDashes n).run s = (classDashes n').run s := by
  induction n generalizing n' s with
  | zero => exact absurd hn (Nat.not_lt_zero _)
  | succ n ih =>
    obtain ⟨n', rfl⟩ := Nat.exists_eq_add_one_of_ne_zero (Nat.ne_zero_of_lt hn')
    obtain ⟨_ | ⟨c, r⟩, names, skipBlanks⟩ := s
    · rfl
    show StateT.run (if some c == some '-' then _ else _) _ =
      StateT.run (if some c == some '-' then _ else _) _
    split
    · apply run_bind_congr rfl
      intro _ s' hrun
      have hlt := leaves_bumpSkip.length_lt rfl hrun
      apply run_peek_bind_congr
      intro _ _ _
      have hfuel : s'.rest.length < n' := by omega
      rw [StateT.run_bind, StateT.run_bind, ih (by omega) hfuel]
    · rfl

/-- A part of a class depends on the reader for classes inside only on what is shorter. -/
theorem nextPart_run_congr {inner inner' : OpenClass → Reader ClassTree} {o : OpenClass} {c : Char}
    (hs : s.rest = c :: r) (h : ∀ o s', s'.rest.length < s.rest.length →
      (inner o).run s' = (inner' o).run s') :
    (nextPart inner o c).run s = (nextPart inner' o c).run s := by
  apply run_bind_congr rfl
  rintro _ _ ⟨⟩
  split
  · split
    · rfl
    · apply run_bind_congr rfl
      intro _ s' hrun
      exact run_bind_congr (h _ s' (leaves_classHead.length_lt hs hrun)) fun _ _ _ => rfl
  · rfl

/-- More rounds than characters read the same items of a class. -/
theorem classItems_run_eq {o : OpenClass} (hn : s.rest.length < n) (hn' : s.rest.length < n') :
    (classItems n o).run s = (classItems n' o).run s := by
  induction n generalizing n' s o with
  | zero => exact absurd hn (Nat.not_lt_zero _)
  | succ n ih =>
    obtain ⟨n', rfl⟩ := Nat.exists_eq_add_one_of_ne_zero (Nat.ne_zero_of_lt hn')
    rw [classItems_succ, classItems_succ]
    apply run_bind_congr rfl
    intro _ s₁ hskip
    have hle := leaves_skip.length_le hskip
    apply run_peek_bind_congr
    intro c r hs₁
    split
    · rfl
    apply run_bind_congr
    · exact nextPart_run_congr hs₁ fun _ _ _ => ih (by omega) (by omega)
    · intro _ s₂ hpart
      have hlt := (leaves_nextPart fun _ _ => leaves_classItems).length_lt hs₁ hpart
      exact ih (by omega) (by omega)

/-- More rounds than characters read the same class. -/
theorem classInRounds_run_eq (hn : s.rest.length < n) (hn' : s.rest.length < n') :
    (classInRounds n).run s = (classInRounds n').run s := by
  apply run_bind_congr rfl
  intro _ s' hhead
  have hle := leaves_classHead.of_tail.length_le hhead
  exact run_bind_congr (classItems_run_eq (by omega) (by omega)) fun _ _ _ => rfl

/-- An item depends on the reader for groups only on what is shorter. -/
theorem nextItems_run_congr {inner inner' : Reader Tree} {items : List Tree} {c : Char}
    (hs : s.rest = c :: r)
    (h : ∀ s', s'.rest.length < s.rest.length → inner.run s' = inner'.run s') :
    (nextItems inner items c).run s = (nextItems inner' items c).run s := by
  unfold nextItems
  split
  · apply run_bind_congr rfl
    rintro (changes | changes) s' hhead
    · rfl
    · have hlt := leaves_groupHead.length_lt hs hhead
      apply run_bind_congr rfl
      rintro _ _ ⟨⟩
      apply run_bind_congr rfl
      rintro _ _ ⟨⟩
      exact run_bind_congr (h _ hlt) fun _ _ _ => rfl
  all_goals rfl

/-- Whatever the number of rounds, the choices are read the same if it suffices. -/
theorem choices_run_eq {inGroup : Bool} {branches items : List Tree} (hn : s.rest.length < n)
    (hn' : s.rest.length < n') :
    (choices n inGroup branches items).run s = (choices n' inGroup branches items).run s := by
  induction n generalizing n' s inGroup branches items with
  | zero => exact absurd hn (Nat.not_lt_zero _)
  | succ n ih =>
    obtain ⟨n', rfl⟩ := Nat.exists_eq_add_one_of_ne_zero (Nat.ne_zero_of_lt hn')
    have hle : (skipped s).rest.length ≤ s.rest.length := leaves_skip.length_le rfl
    rw [choices_run, choices_run]
    generalize skipped s = s₁ at hle
    split
    · rfl
    next c r hs₁ =>
    have hr : r.length < n ∧ r.length < n' := by
      rw [hs₁, List.length_cons] at hle
      omega
    split
    · rfl
    split
    · exact ih hr.1 hr.2
    apply run_bind_congr
    · -- What stands in a group is shorter than the text, so its rounds suffice as well.
      exact nextItems_run_congr hs₁ fun _ _ => ih (by omega) (by omega)
    · intro _ s₂ hitems
      have hlt := (leaves_nextItems fun _ => leaves_choices).length_lt hs₁ hitems
      exact ih (by omega) (by omega)

end NextBuild.Regex.Reader
