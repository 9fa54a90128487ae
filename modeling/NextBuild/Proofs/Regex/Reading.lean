import Mathlib.Tactic.FinCases
import NextBuild.Proofs.Regex.Spelling
import NextBuild.Regex.Meaning

/-!
# Reading expressions that are put together

An expression that is put together from texts is read as the items of these texts, one after the
other.  A text is read the same way wherever it stands, as long as no mark follows that would repeat
its last item, so what the reader does is said for each text alone, and a sequence of texts needs no
look at the state of the reader.  The same holds for what the items mean.
-/

namespace NextBuild.Regex

namespace Reader

variable {α β : Type} {fuel : Nat} {inGroup : Bool} {branches items : List Tree} {t : Tree}
variable {cs rest : List Char} {names : List String} {c : Char}

/-! ## Single rounds -/

/-- After a success, a reader goes on with the result where the first step has stopped. -/
theorem run_bind_ok {m : Reader α} {f : α → Reader β} {s s' : ReadState} {a : α}
    (h : m.run s = .ok (a, s')) : (m >>= f).run s = (f a).run s' := by
  rw [StateT.run_bind, h]
  rfl

/-- Nothing is skipped where blanks count. -/
theorem skip_run : skip.run ⟨cs, names, false⟩ = .ok ((), ⟨cs, names, false⟩) := rfl

/-- The next character stays where it is. -/
theorem peek?_run :
    peek?.run ⟨c :: cs, names, false⟩ = .ok (some c, ⟨c :: cs, names, false⟩) := rfl

/-- Without a question mark there is no mark to take. -/
theorem lazyMark_run (hnext : cs.head? ≠ some '?') :
    lazyMark.run ⟨cs, names, false⟩ = .ok ((), ⟨cs, names, false⟩) := by
  show (if cs.head? == some '?' then bump else pure ()).run _ = _
  rw [beq_false_of_ne hnext]
  rfl

/-- A character without a meaning of its own stands for itself. -/
theorem choices_plain (hc : isMeta c = false) :
    (choices (fuel + 1) inGroup branches items).run ⟨c :: cs, names, false⟩ =
      (choices fuel inGroup branches (.literal c false :: items)).run ⟨cs, names, false⟩ := by
  have hne : ∀ d, isMeta d = true → c ≠ d := by
    rintro d hd rfl
    exact Bool.false_ne_true (hc.symm.trans hd)
  rw [choices, run_bind_ok skip_run, run_bind_ok peek?_run]
  dsimp only
  split
  all_goals first | rfl | exact absurd rfl (hne _ rfl)

/-- A character with a meaning stands for itself behind a backslash. -/
theorem escape_run (hc : isMeta c = true) :
    escape.run ⟨'\\' :: c :: cs, names, false⟩ = .ok (.literal c false, ⟨cs, names, false⟩) := by
  rw [isMeta, List.contains_iff_mem] at hc
  fin_cases hc <;> rfl

/-- Every other one does so behind a backslash. -/
theorem choices_escaped (hc : isMeta c = true) :
    (choices (fuel + 1) inGroup branches items).run ⟨'\\' :: c :: cs, names, false⟩ =
      (choices fuel inGroup branches (.literal c false :: items)).run ⟨cs, names, false⟩ := by
  rw [choices, run_bind_ok skip_run, run_bind_ok peek?_run]
  exact run_bind_ok (escape_run hc)

/-- The signs that are items of their own. -/
theorem choices_sign
    (hc : (c, t) ∈ [('.', Tree.dot), ('^', .assertion .lineStart), ('$', .assertion .lineEnd)]) :
    (choices (fuel + 1) inGroup branches items).run ⟨c :: cs, names, false⟩ =
      (choices fuel inGroup branches (t :: items)).run ⟨cs, names, false⟩ := by
  fin_cases hc
  all_goals
    rw [choices]
    rfl

/-- The class of all characters but the slash is one item. -/
theorem choices_notSlash :
    (choices (fuel + 1) inGroup branches items).run ⟨"[^/]".toList ++ cs, names, false⟩ =
      (choices fuel inGroup branches (.bracketed true (.literal '/' false) :: items)).run
        ⟨cs, names, false⟩ := by
  rw [choices]
  rfl

/-- What follows a mark: the last item is repeated. -/
theorem repeatLast_run (low : Nat) (high : Option Nat) (ht : t.isRepeatable = true)
    (hnext : cs.head? ≠ some '?') :
    (lazyMark >>= fun _ => liftM (repeatLast low high (t :: items)) >>=
      choices fuel inGroup branches).run ⟨cs, names, false⟩ =
      (choices fuel inGroup branches (.repeated t low high :: items)).run ⟨cs, names, false⟩ := by
  rw [run_bind_ok (lazyMark_run hnext), repeatLast, if_pos ht]
  rfl

/-- The marks that repeat the item before them. -/
theorem choices_mark {low : Nat} {high : Option Nat}
    (hc : (c, low, high) ∈ [('*', 0, none), ('+', 1, none), ('?', 0, some 1)])
    (ht : t.isRepeatable = true) (hnext : cs.head? ≠ some '?') :
    (choices (fuel + 1) inGroup branches (t :: items)).run ⟨c :: cs, names, false⟩ =
      (choices fuel inGroup branches (.repeated t low high :: items)).run ⟨cs, names, false⟩ := by
  fin_cases hc
  all_goals
    rw [choices]
    exact repeatLast_run _ _ ht hnext

/-- A bar ends a choice and begins the next one. -/
theorem choices_bar :
    (choices (fuel + 1) inGroup branches items).run ⟨'|' :: cs, names, false⟩ =
      (choices fuel inGroup (branches ++ [Tree.ofList items.reverse]) []).run
        ⟨cs, names, false⟩ := by
  rw [choices]
  rfl

/-- A parenthesis ends the choices of a group. -/
theorem choices_close :
    (choices (fuel + 1) true branches items).run ⟨')' :: cs, names, false⟩ =
      .ok (Tree.ofBranches (branches ++ [Tree.ofList items.reverse]), ⟨cs, names, false⟩) := by
  rw [choices]
  rfl

/-- The end of the text ends the choices outside of groups. -/
theorem choices_end :
    (choices (fuel + 1) false branches items).run ⟨[], names, false⟩ =
      .ok (Tree.ofBranches (branches ++ [Tree.ofList items.reverse]), ⟨[], names, false⟩) := by
  rw [choices]
  rfl

/-- After its begin, a group is read up to its end; whether blanks are skipped is forgotten there. -/
theorem choices_open :
    (choices (fuel + 1) inGroup branches items).run ⟨"(?:".toList ++ cs, names, false⟩ =
      (choices fuel true [] [] >>= fun t => modify (fun s => { s with skipBlanks := false }) >>=
        fun _ => choices fuel inGroup branches (.group [] t :: items)).run ⟨cs, names, false⟩ := by
  rw [choices]
  rfl

/-- A group is read as what stands in it. -/
theorem choices_group {names' : List String} {b : Bool}
    (h : (choices fuel true [] []).run ⟨cs, names, false⟩ = .ok (t, ⟨rest, names', b⟩)) :
    (choices (fuel + 1) inGroup branches items).run ⟨"(?:".toList ++ cs, names, false⟩ =
      (choices fuel inGroup branches (.group [] t :: items)).run ⟨rest, names', false⟩ := by
  rw [choices_open, run_bind_ok h]
  rfl

end Reader

open Reader

/-! ## Texts -/

/-- The text is read as the items, wherever it stands, if what follows does not begin with the mark
that makes a repetition lazy; nor does the text begin with it. -/
structure Reads (cs : List Char) (ts : List Tree) : Prop where
  front : cs.head? ≠ some '?'
  run : ∀ fuel inGroup branches items names rest, rest.head? ≠ some '?' →
    (cs ++ rest).length < fuel → ∃ fuel', rest.length < fuel' ∧
      (choices fuel inGroup branches items).run ⟨cs ++ rest, names, false⟩ =
        (choices fuel' inGroup branches (ts.reverse ++ items)).run ⟨rest, names, false⟩

namespace Reads

variable {cs ds : List Char} {ts us : List Tree} {t : Tree} {c : Char}

/-- An empty text reads as no item. -/
theorem nil : Reads [] [] where
  front := nofun
  run _ _ _ _ _ _ _ hfuel := ⟨_, hfuel, rfl⟩

/-- Two texts in a row read as the items of both. -/
theorem append (h : Reads cs ts) (h' : Reads ds us) : Reads (cs ++ ds) (ts ++ us) where
  front := by
    cases cs with
    | nil => exact h'.front
    | cons c cs => exact h.front
  run := by
    intro fuel inGroup branches items names rest hrest hfuel
    have hnext : (ds ++ rest).head? ≠ some '?' := by
      cases ds with
      | nil => exact hrest
      | cons d ds => exact h'.front
    rw [List.append_assoc] at hfuel ⊢
    obtain ⟨fuel₁, hfuel₁, hrun₁⟩ := h.run _ _ _ _ _ _ hnext hfuel
    obtain ⟨fuel₂, hfuel₂, hrun₂⟩ := h'.run _ _ _ _ _ _ hrest hfuel₁
    refine ⟨fuel₂, hfuel₂, ?_⟩
    rw [hrun₁, hrun₂, List.reverse_append, List.append_assoc]

/-- A text that takes one round. -/
theorem of_round (hfront : cs.head? ≠ some '?') (hne : cs ≠ [])
    (h : ∀ {fuel inGroup branches items names rest}, rest.head? ≠ some '?' →
      (choices (fuel + 1) inGroup branches items).run ⟨cs ++ rest, names, false⟩ =
        (choices fuel inGroup branches (t :: items)).run ⟨rest, names, false⟩) :
    Reads cs [t] where
  front := hfront
  run := by
    intro fuel inGroup branches items names rest hrest hfuel
    have hpos := List.length_pos_of_ne_nil hne
    rw [List.length_append] at hfuel
    obtain ⟨fuel, rfl⟩ := Nat.exists_eq_add_one_of_ne_zero (Nat.ne_zero_of_lt hfuel)
    exact ⟨fuel, by omega, h hrest⟩

/-- A character without a meaning reads as itself. -/
theorem plain (hc : isMeta c = false) : Reads [c] [.literal c false] :=
  of_round (by rintro ⟨⟩; exact absurd hc (by decide)) (List.cons_ne_nil c [])
    fun _ => choices_plain hc

/-- A character with a meaning reads as itself behind a backslash. -/
theorem escaped (hc : isMeta c = true) : Reads ['\\', c] [.literal c false] :=
  of_round (by simp) (List.cons_ne_nil _ _) fun _ => choices_escaped hc

/-- The dot and the signs for the ends of a line read as what they mean. -/
theorem sign
    (hc : (c, t) ∈ [('.', Tree.dot), ('^', .assertion .lineStart), ('$', .assertion .lineEnd)]) :
    Reads [c] [t] := by
  refine of_round ?_ (List.cons_ne_nil c []) fun _ => choices_sign hc
  fin_cases hc <;> decide

/-- The class of all characters but the slash reads as a class. -/
theorem notSlash : Reads "[^/]".toList [.bracketed true (.literal '/' false)] :=
  of_round (by decide) (by decide) fun _ => choices_notSlash

/-- A text without special characters. -/
theorem literal (hcs : ∀ c ∈ cs, isMeta c = false) :
    Reads cs (cs.map fun c => .literal c false) := by
  induction cs with
  | nil => exact nil
  | cons c cs ih =>
    obtain ⟨hc, hrest⟩ := List.forall_mem_cons.1 hcs
    exact (plain hc).append (ih hrest)

/-- A mark behind a text repeats its item. -/
theorem repeated {low : Nat} {high : Option Nat} (h : Reads cs [t]) (hne : cs ≠ [])
    (hc : (c, low, high) ∈ [('*', 0, none), ('+', 1, none)]) (ht : t.isRepeatable = true) :
    Reads (cs ++ [c]) [.repeated t low high] where
  front := by
    cases cs with
    | nil => exact absurd rfl hne
    | cons c cs => exact h.front
  run := by
    intro fuel inGroup branches items names rest hrest hfuel
    have hmark : ([c] ++ rest).head? ≠ some '?' := by
      fin_cases hc <;> simp
    rw [List.append_assoc] at hfuel ⊢
    obtain ⟨fuel', hfuel', hrun⟩ := h.run _ _ _ _ _ _ hmark hfuel
    obtain ⟨fuel', rfl⟩ := Nat.exists_eq_add_one_of_ne_zero (Nat.ne_zero_of_lt hfuel')
    refine ⟨fuel', by simpa using hfuel', hrun.trans (choices_mark ?_ ht hrest)⟩
    fin_cases hc <;> simp

/-- The expression that a text writes. -/
theorem ofText (h : Reads cs ts) : Tree.ofText (String.ofList cs) = .ok (Tree.ofList ts) := by
  obtain ⟨fuel, hpos, hrun⟩ := h.run (cs.length + 1) false [] [] [] [] nofun (by simp)
  obtain ⟨fuel, rfl⟩ := Nat.exists_eq_add_one_of_ne_zero (Nat.ne_zero_of_lt hpos)
  rw [choices_end, List.append_nil, List.append_nil, List.reverse_reverse] at hrun
  rw [Tree.ofText, String.toList_ofList, hrun]
  rfl

end Reads

/-- The text is read as choices with bars between them. -/
inductive ReadsChoices : List Char → List Tree → Prop
  | last {cs : List Char} {ts : List Tree} : Reads cs ts → ReadsChoices cs [Tree.ofList ts]
  | bar {cs ds : List Char} {ts us : List Tree} : Reads cs ts → ReadsChoices ds us →
      ReadsChoices (cs ++ '|' :: ds) (Tree.ofList ts :: us)

namespace ReadsChoices

variable {cs : List Char} {ts : List Tree}

/-- The choices of a group are read up to the parenthesis that closes it. -/
theorem run (h : ReadsChoices cs ts) (fuel branches names rest)
    (hfuel : (cs ++ ')' :: rest).length < fuel) :
    (choices fuel true branches []).run ⟨cs ++ ')' :: rest, names, false⟩ =
      .ok (Tree.ofBranches (branches ++ ts), ⟨rest, names, false⟩) := by
  induction h generalizing fuel branches with
  | last hcs =>
    obtain ⟨fuel, hpos, hrun⟩ := hcs.run _ _ _ _ _ _ (by simp) hfuel
    obtain ⟨fuel, rfl⟩ := Nat.exists_eq_add_one_of_ne_zero (Nat.ne_zero_of_lt hpos)
    rw [hrun, choices_close, List.append_nil, List.reverse_reverse]
  | @bar cs ds ts us hcs _ ih =>
    rw [List.append_assoc] at hfuel ⊢
    obtain ⟨fuel, hpos, hrun⟩ := hcs.run _ _ _ _ _ _ (by simp) hfuel
    obtain ⟨fuel, rfl⟩ := Nat.exists_eq_add_one_of_ne_zero (Nat.ne_zero_of_lt hpos)
    have hrest : (ds ++ ')' :: rest).length < fuel := Nat.lt_of_succ_lt_succ hpos
    rw [hrun, List.append_nil, List.cons_append, choices_bar, List.reverse_reverse,
      ih _ _ hrest,
      List.append_assoc]
    rfl

/-- A group that may be left out. -/
theorem optionalGroup (h : ReadsChoices cs ts) :
    Reads ("(?:".toList ++ (cs ++ ")?".toList))
      [.repeated (.group [] (Tree.ofBranches ts)) 0 (some 1)] where
  front := by simp
  run := by
    intro fuel inGroup branches items names rest hrest hfuel
    have htext : "(?:".toList ++ (cs ++ ")?".toList) ++ rest =
        "(?:".toList ++ (cs ++ ')' :: '?' :: rest) := by simp
    rw [htext] at hfuel ⊢
    have hlength : (cs ++ ')' :: '?' :: rest).length + 3 < fuel := by
      rw [List.length_append] at hfuel
      exact Nat.add_comm _ 3 ▸ hfuel
    obtain ⟨fuel, rfl⟩ : ∃ n, fuel = n + 2 := ⟨fuel - 2, by omega⟩
    have hbody := h.run (fuel + 1) [] names ('?' :: rest) (by omega)
    refine ⟨fuel, ?_, ?_⟩
    · simp only [List.length_append, List.length_cons] at hlength
      omega
    · have hmark : ('?', 0, some 1) ∈ [('*', 0, none), ('+', 1, none), ('?', 0, some 1)] := by simp
      rw [choices_group hbody, choices_mark hmark rfl hrest]
      rfl

end ReadsChoices

/-! ## Nesting -/

namespace Tree

variable {t : Tree} {ts : List Tree} {d : Nat} {inSeq inAlt : Bool}

/-- An open sequence or choice saves one level at most. -/
theorem depthIn_le_depth (t : Tree) : t.depthIn inSeq inAlt ≤ t.depth ∧
    t.depth ≤ t.depthIn inSeq inAlt + 1 := by
  cases t with
  | seq a b =>
    simp only [depth, depthIn]
    grind
  | alt a b =>
    simp only [depth, depthIn]
    grind
  | _ => exact ⟨Nat.le_refl _, Nat.le_succ _⟩

/-- A sequence takes one level, however many expressions there are. -/
theorem depth_ofList_le (h : ∀ t ∈ ts, t.depth ≤ d) : (ofList ts).depth ≤ d + 1 := by
  have hopen : (ofList ts).depthIn true false ≤ d := by
    induction ts with
    | nil => exact Nat.zero_le d
    | cons t ts ih =>
      obtain ⟨ht, hts⟩ := List.forall_mem_cons.1 h
      have hfirst : t.depthIn true false ≤ d := (depthIn_le_depth t).1.trans ht
      cases ts with
      | nil => exact hfirst
      | cons u us =>
        show 0 + max (t.depthIn true false) ((ofList (u :: us)).depthIn true false) ≤ d
        have hrest := ih hts
        omega
  exact (depthIn_le_depth _).2.trans (Nat.succ_le_succ hopen)

/-- So does a choice. -/
theorem depth_ofBranches_le (h : ∀ t ∈ ts, t.depth ≤ d) : (ofBranches ts).depth ≤ d + 1 := by
  have hopen : (ofBranches ts).depthIn false true ≤ d := by
    induction ts with
    | nil => exact Nat.zero_le d
    | cons t ts ih =>
      obtain ⟨ht, hts⟩ := List.forall_mem_cons.1 h
      have hfirst : t.depthIn false true ≤ d := (depthIn_le_depth t).1.trans ht
      cases ts with
      | nil => exact hfirst
      | cons u us =>
        show 0 + max (t.depthIn false true) ((ofBranches (u :: us)).depthIn false true) ≤ d
        have hrest := ih hts
        omega
  exact (depthIn_le_depth _).2.trans (Nat.succ_le_succ hopen)

end Tree

/-! ## Meanings -/

/-- The expression leaves the flags as they are at the begin, and its pattern under them takes the room
that `p` takes and leads over the same parts of texts. -/
def Tree.Means (t : Tree) (p : Pattern) : Prop :=
  ∃ q, t.pattern {} = .ok (q, {}) ∧ q.machineSize = p.machineSize ∧
    ∀ text i j, q.Leads text i j ↔ p.Leads text i j

namespace Tree.Means

open Pattern

variable {t : Tree} {ts : List Tree} {p q : Pattern} {ps : List Pattern}

/-- A character that stands for itself. -/
theorem literal (c : Char) : (Tree.literal c false).Means (.char c) :=
  ⟨_, rfl, rfl, fun _ _ _ => Iff.rfl⟩

/-- Without flags a line begins where the text does. -/
theorem lineStart : (Tree.assertion .lineStart).Means (.look .textStart) :=
  ⟨_, rfl, rfl, fun _ _ _ => Iff.rfl⟩

/-- Without flags a line ends where the text does. -/
theorem lineEnd : (Tree.assertion .lineEnd).Means (.look .textEnd) :=
  ⟨_, rfl, rfl, fun _ _ _ => Iff.rfl⟩

/-- A star behind a class that is not empty. -/
theorem star {s : CharSet} (h : t.pattern {} = .ok (.chars s, {})) (hs : s ≠ .nothing) :
    (Tree.repeated t 0 none).Means (.star (.chars s)) := by
  refine ⟨Pattern.repeated (.chars s) 0 none, ?_, ?_, fun _ _ _ => leads_times_zero_seq_iff⟩
  · rw [Tree.pattern, h]
    exact if_neg fun hzero => hs (eq_of_beq hzero)
  · simp only [Pattern.repeated, machineSize, Nat.zero_mul, Nat.zero_add]

/-- A plus behind such a class. -/
theorem plus {s : CharSet} (h : t.pattern {} = .ok (.chars s, {})) (hs : s ≠ .nothing) :
    (Tree.repeated t 1 none).Means (.seq (.chars s) (.star (.chars s))) := by
  refine ⟨Pattern.repeated (.chars s) 1 none, ?_, ?_, fun _ _ _ => ?_⟩
  · rw [Tree.pattern, h]
    exact if_neg fun hzero => hs (eq_of_beq hzero)
  · simp only [Pattern.repeated, machineSize, Nat.one_mul]
  · simp only [Pattern.repeated, leads_seq_iff, leads_times_one_iff]

/-- A group means what stands in it. -/
theorem group (h : t.Means p) : (Tree.group [] t).Means p := by
  obtain ⟨q, hq, hqp⟩ := h
  refine ⟨q, ?_, hqp⟩
  show (Tree.pattern {} t >>= fun r => pure (r.1, ({} : Flags))) = _
  rw [hq]
  rfl

/-- An expression that may be left out, even one that takes no character. -/
theorem optional (h : t.Means p) : (Tree.repeated t 0 (some 1)).Means (.optional p) := by
  obtain ⟨q, hq, hsize, hqp⟩ := h
  refine ⟨Pattern.repeated q 0 (some 1), ?_, ?_, fun text i j => ?_⟩
  · rw [Tree.pattern, hq]
    exact ite_self _
  · simp only [Pattern.repeated, Pattern.optional, machineSize, hsize, Nat.zero_mul, Nat.zero_add]
  · have hone : Pattern.upTo q (1 - 0) = q.optional := rfl
    rw [Pattern.repeated, leads_times_zero_seq_iff, hone, leads_optional_iff, leads_optional_iff,
      leads_alt_iff, leads_alt_iff, hqp]

/-- Two expressions one after the other. -/
theorem seq {u : Tree} (ht : t.Means p) (hu : u.Means q) : (Tree.seq t u).Means (.seq p q) := by
  obtain ⟨p', hp', hpsize, hpp⟩ := ht
  obtain ⟨q', hq', hqsize, hqq⟩ := hu
  refine ⟨.seq p' q', ?_, ?_, fun text i j => by simp only [leads_seq_iff, hpp, hqq]⟩
  · rw [Tree.pattern, hp']
    show (Tree.pattern {} u >>= fun r => pure (Pattern.seq p' r.1, r.2)) = _
    rw [hq']
    rfl
  · simp only [machineSize, hpsize, hqsize]

/-- One of two expressions. -/
theorem alt {u : Tree} (ht : t.Means p) (hu : u.Means q) : (Tree.alt t u).Means (.alt p q) := by
  obtain ⟨p', hp', hpsize, hpp⟩ := ht
  obtain ⟨q', hq', hqsize, hqq⟩ := hu
  refine ⟨.alt p' q', ?_, ?_, fun text i j => by simp only [leads_alt_iff, hpp, hqq]⟩
  · rw [Tree.pattern, hp']
    show (Tree.pattern {} u >>= fun r => pure (Pattern.alt p' r.1, r.2)) = _
    rw [hq']
    rfl
  · simp only [machineSize, hpsize, hqsize]

/-- A sequence of expressions means the sequence of what they mean. -/
theorem ofList (h : List.Forall₂ Tree.Means ts ps) : (Tree.ofList ts).Means (seqs ps) := by
  induction h with
  | nil => exact ⟨.empty, rfl, rfl, fun _ _ _ => Iff.rfl⟩
  | cons ht hts ih =>
    cases hts with
    | nil => exact ht
    | cons => exact ht.seq ih

/-- So does a choice of expressions. -/
theorem ofBranches (h : List.Forall₂ Tree.Means ts ps) : (Tree.ofBranches ts).Means (alts ps) := by
  induction h with
  | nil => exact ⟨.empty, rfl, rfl, fun _ _ _ => Iff.rfl⟩
  | cons ht hts ih =>
    cases hts with
    | nil => exact ht
    | cons => exact ht.alt ih

end Tree.Means

/-- The text is read as items that mean the patterns, none of which is nested deeper than `d`. -/
def Writes (d : Nat) (cs : List Char) (ps : List Pattern) : Prop :=
  ∃ ts, Reads cs ts ∧ (∀ t ∈ ts, t.depth ≤ d) ∧ List.Forall₂ Tree.Means ts ps

namespace Writes

open Pattern

variable {d d' : Nat} {cs ds : List Char} {ps qs : List Pattern} {p : Pattern} {t : Tree} {c : Char}

/-- A text that is one item. -/
theorem of_item (h : Reads cs [t]) (hd : t.depth ≤ d) (ht : t.Means p) : Writes d cs [p] :=
  ⟨[t], h, List.forall_mem_singleton.2 hd, .cons ht .nil⟩

/-- A bound on the nesting may be raised. -/
theorem mono (h : Writes d cs ps) (hd : d ≤ d') : Writes d' cs ps := by
  obtain ⟨ts, hts, hdepth, hmeans⟩ := h
  exact ⟨ts, hts, fun t ht => (hdepth t ht).trans hd, hmeans⟩

/-- The same text in another spelling. -/
theorem of_eq (h : Writes d cs ps) (hcs : ds = cs) : Writes d ds ps :=
  hcs ▸ h

/-- Texts are put together with what they write. -/
theorem append (h : Writes d cs ps) (h' : Writes d ds qs) : Writes d (cs ++ ds) (ps ++ qs) := by
  obtain ⟨ts, hts, hdepth, hmeans⟩ := h
  obtain ⟨us, hus, hdepth', hmeans'⟩ := h'
  exact ⟨ts ++ us, hts.append hus, List.forall_mem_append.2 ⟨hdepth, hdepth'⟩,
    List.rel_append hmeans hmeans'⟩

/-- Characters without a meaning of their own stand for themselves. -/
theorem literal (hcs : ∀ c ∈ cs, isMeta c = false) : Writes d cs (cs.map char) := by
  refine ⟨_, Reads.literal hcs, List.forall_mem_map.2 fun _ _ => Nat.zero_le d, ?_⟩
  rw [List.forall₂_map_left_iff, List.forall₂_map_right_iff]
  exact List.forall₂_same.2 fun c _ => Tree.Means.literal c

/-- The other characters do so behind a backslash. -/
theorem escaped (hc : isMeta c = true) : Writes d ['\\', c] [char c] :=
  of_item (Reads.escaped hc) (Nat.zero_le d) (Tree.Means.literal c)

/-- The empty text writes nothing. -/
theorem nil : Writes d [] [] := ⟨[], .nil, fun _ ht => absurd ht List.not_mem_nil, .nil⟩

/-- The sign for the begin of a line. -/
theorem lineStart : Writes d ['^'] [.look .textStart] :=
  of_item (t := .assertion .lineStart) (Reads.sign (by simp)) (Nat.zero_le d) .lineStart

/-- The sign for the end of a line. -/
theorem lineEnd : Writes d ['$'] [.look .textEnd] :=
  of_item (t := .assertion .lineEnd) (Reads.sign (by simp)) (Nat.zero_le d) .lineEnd

/-- A dot with a star stands for any text without a line feed. -/
theorem dots : Writes 2 ".*".toList [.star (.chars (.compl (.single '\n')))] := by
  have hdot : Reads ['.'] [.dot] := .sign (by simp)
  have hstar : ('*', 0, none) ∈ [('*', 0, none), ('+', 1, (none : Option Nat))] := by simp
  exact of_item (hdot.repeated (List.cons_ne_nil _ _) hstar rfl) (by decide) (.star rfl (by decide))

/-- A class with a star stands for any text without a `/`. -/
theorem notSlashes : Writes 2 "[^/]*".toList [.star (.chars (.compl (.single '/')))] := by
  have hstar : ('*', 0, none) ∈ [('*', 0, none), ('+', 1, (none : Option Nat))] := by simp
  exact of_item (Reads.notSlash.repeated (by decide) hstar rfl) (by decide) (.star rfl (by decide))

/-- With a plus it stands for such texts that are not empty. -/
theorem notSlashRun : Writes 2 "[^/]+".toList
    [.seq (.chars (.compl (.single '/'))) (.star (.chars (.compl (.single '/'))))] := by
  have hplus : ('+', 1, none) ∈ [('*', 0, none), ('+', 1, (none : Option Nat))] := by simp
  exact of_item (Reads.notSlash.repeated (by decide) hplus rfl) (by decide) (.plus rfl (by decide))

/-- What a text writes is the pattern of the expression that it is read as. -/
theorem ofText (h : Writes d cs ps) : ∃ t q, Tree.ofText (String.ofList cs) = .ok t ∧
    t.depth ≤ d + 1 ∧ t.pattern {} = .ok (q, {}) ∧ q.machineSize = (seqs ps).machineSize ∧
    ∀ text i j, q.Leads text i j ↔ (seqs ps).Leads text i j := by
  obtain ⟨ts, hts, hdepth, hmeans⟩ := h
  obtain ⟨q, hq, hsize, hqp⟩ := Tree.Means.ofList hmeans
  exact ⟨_, q, hts.ofText, Tree.depth_ofList_le hdepth, hq, hsize, hqp⟩

/-- Texts that write the choices of a group that may be left out. -/
inductive Choices (d : Nat) : List Char → List Pattern → Prop
  | last {cs : List Char} {ps : List Pattern} : Writes d cs ps → Choices d cs [seqs ps]
  | bar {cs ds : List Char} {ps qs : List Pattern} : Writes d cs ps → Choices d ds qs →
      Choices d (cs ++ '|' :: ds) (seqs ps :: qs)

/-- Such texts are read as choices. -/
theorem Choices.exists_reads (h : Choices d cs ps) :
    ∃ ts, ReadsChoices cs ts ∧ (∀ t ∈ ts, t.depth ≤ d + 1) ∧ List.Forall₂ Tree.Means ts ps := by
  induction h with
  | last h =>
    obtain ⟨ts, hts, hdepth, hmeans⟩ := h
    exact ⟨_, .last hts, List.forall_mem_singleton.2 (Tree.depth_ofList_le hdepth),
      .cons (Tree.Means.ofList hmeans) .nil⟩
  | bar h _ ih =>
    obtain ⟨ts, hts, hdepth, hmeans⟩ := h
    obtain ⟨us, hus, hdepth', hmeans'⟩ := ih
    exact ⟨_, .bar hts hus, List.forall_mem_cons.2 ⟨Tree.depth_ofList_le hdepth, hdepth'⟩,
      .cons (Tree.Means.ofList hmeans) hmeans'⟩

/-- The group adds a level each for the repetition, the parentheses, the bars and the sequences. -/
theorem Choices.optionalGroup (h : Choices d cs ps) :
    Writes (d + 4) ("(?:".toList ++ (cs ++ ")?".toList)) [.optional (alts ps)] := by
  obtain ⟨ts, hts, hdepth, hmeans⟩ := h.exists_reads
  refine of_item hts.optionalGroup ?_ (Tree.Means.ofBranches hmeans).group.optional
  have hbranches := Tree.depth_ofBranches_le hdepth
  show 1 + (1 + (Tree.ofBranches ts).depth) ≤ d + 4
  omega

end Writes

/-! ## Limits -/

/-- An expression that is not nested too deeply has a pattern, unless the machine for it is too big. -/
theorem Pattern.ofText_eq_ite {s : String} {t : Tree} {p : Pattern} {f : Flags}
    (ht : Tree.ofText s = .ok t) (hdepth : t.depth ≤ depthLimit) (hp : t.pattern {} = .ok (p, f)) :
    Pattern.ofText s = if sizeLimit < p.machineSize then .error .tooBig else .ok p := by
  have hshallow : ¬ depthLimit < t.depth := Nat.not_lt.2 hdepth
  rw [Pattern.ofText, ht]
  dsimp only [bind, Except.bind]
  rw [if_neg hshallow, hp]
  by_cases hsize : sizeLimit < p.machineSize
  · rw [if_pos hsize]
    exact if_pos hsize
  · rw [if_neg hsize]
    exact if_neg hsize

end NextBuild.Regex
