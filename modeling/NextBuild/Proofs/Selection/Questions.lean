import NextBuild.Proofs.Graph.Questions
import NextBuild.Proofs.Selection.Eligibility

/-!
# The questions of a selection

Listing branches asks for the references, keeping the tips for merge bases, the order for times, a
definite branch for its leads, one after the other, and bounds for times and ancestors.  Nothing else
is asked, and every fault in answer to one of these questions ends the selection.
-/

namespace NextBuild

open Inquiry (Asks asks_pure asks_query asks_queryIfExists asks_ofExcept)

variable {P : Query → Prop}

/-! ## Common parts -/

/-- Listing the branches asks for the references. -/
theorem asks_listedRevisions (hlist : P .references) : Asks P listedRevisions :=
  (asks_query hlist).bind fun bs => asks_pure (Revision.group bs)

/-- Comparing a revision with others asks for merge bases. -/
theorem asks_compareWith (hbase : ∀ a b, P (.mergeBase a b)) (r : Revision) (ss : List Revision) :
    Asks P (compareWith r ss) := by
  induction ss with
  | nil => exact asks_pure (true, [])
  | cons s ss ih =>
    rw [compareWith]
    split
    · exact ih.bind fun _ => asks_pure _
    · refine (asks_query (hbase _ _)).bind fun base => ?_
      split
      · exact asks_pure _
      · exact ih.bind fun _ => asks_pure _

/-- Keeping the tips asks for merge bases. -/
theorem asks_tips (hbase : ∀ a b, P (.mergeBase a b)) (rs : List Revision) : Asks P (tips rs) := by
  unfold tips
  generalize rs.length = rounds
  induction rounds generalizing rs with
  | zero => cases rs <;> exact asks_pure _
  | succ rounds ih =>
    cases rs with
    | nil => exact asks_pure []
    | cons r rs =>
      exact (asks_compareWith hbase r rs).bind fun compared =>
        (ih compared.2).bind fun _ => asks_pure _

/-- Sorting opens a walk and asks for times. -/
theorem asks_sortOldestFirst (hwalk : P .openWalk) (htime : ∀ c, P (.commitTime c))
    (rs : List Revision) : Asks P (sortOldestFirst rs) := by
  rw [sortOldestFirst]
  split
  · exact asks_pure rs
  · have hread (r : Revision) : Asks P (do return (← Inquiry.query (.commitTime r.commit), r) :
        Inquiry (Int64 × Revision)) :=
      (asks_query (htime r.commit)).bind fun time => asks_pure (time, r)
    exact (asks_query hwalk).bind fun _ => (Asks.mapM hread rs).bind fun _ => asks_pure _

/-! ## All listed branches -/

/-- The listing of the branches, a choice among them and the tips of what it leaves, with the stages
that follow. -/
def Choice.tipsThen (ch : Choice) (req : Request)
    (rest : List Revision → Inquiry (List Revision)) : Inquiry (List Revision) := do
  let listed ← listedRevisions
  let picked ← Inquiry.ofExcept (listed.mapM (ch.pick req.env))
  let newest ← NextBuild.tips (picked.filter (·.hasBranches))
  rest newest

/-- Up to the tips, a choice asks for the references and for merge bases. -/
theorem Choice.asks_tipsThen {ch : Choice} {req : Request}
    {rest : List Revision → Inquiry (List Revision)} (hlist : P .references)
    (hbase : ∀ a b, P (.mergeBase a b)) (hrest : ∀ newest, Asks P (rest newest)) :
    Asks P (ch.tipsThen req rest) :=
  (asks_listedRevisions hlist).bind fun _ => (asks_ofExcept _).bind fun _ =>
    (asks_tips hbase _).bind hrest

/-- Where the branches can be listed, a selection is a choice among their commits, its tips and what
follows them. -/
theorem Choice.run_tipsThen {g : CommitGraph} {bs : List Branch} {req : Request}
    (hlist : g .references = .ok bs) (ch : Choice)
    (rest : List Revision → Inquiry (List Revision)) :
    (ch.tipsThen req rest).run g =
      ((Revision.group bs).mapM (ch.pick req.env) >>= fun picked =>
        (NextBuild.tips (picked.filter (·.hasBranches))).run g >>= fun newest =>
          (rest newest).run g) := by
  rw [tipsThen, Inquiry.run_bind, listedRevisions, Inquiry.run_bind, Inquiry.run_query, hlist,
    ok_bind, Inquiry.run_pure, ok_bind, Inquiry.run_bind, Inquiry.run_ofExcept]
  simp only [Inquiry.run_bind]

/-- The unbuilt tips from old to new, or what is built again if there are none. -/
def closing (ledger : Ledger) (repeated : Option Revision → Inquiry (List Revision))
    (newest : List Revision) : Inquiry (List Revision) :=
  match dropBuilt ledger newest with
  | ([], again) => repeated again
  | (fresh, _) => sortOldestFirst fresh

/-- A build that finds nothing unbuilt repeats the last one, its branches sorted by the specs. -/
def DefaultStrategy.repeated (req : Request) (specs : List BranchSpec) (again : Option Revision) :
    Inquiry (List Revision) :=
  if req.poll then pure []
  else match again with
    | none => pure []
    | some r => match r.sortBranches specs req.env with
      | (none, r) => pure [r]
      | (some f, _) => .fail f

/-- What is built again for a choice.  Names that no spec matches stay as they are. -/
def Choice.repeated (req : Request) : Choice → Option Revision → Inquiry (List Revision)
  | matching specs, again => DefaultStrategy.repeated req specs again
  | outside _, again => pure (if req.poll then [] else again.toList)

/-- A poll repeats nothing. -/
theorem Choice.repeated_of_poll (ch : Choice) {req : Request} (hpoll : req.poll = true)
    (again : Option Revision) : ch.repeated req again = pure [] := by
  cases ch <;> simp [repeated, DefaultStrategy.repeated, hpoll]

/-- What is built again fails, or is one revision at most.  It has the commit of the one that it is
for, and is asked for by a build. -/
theorem Choice.repeated_cases (ch : Choice) (req : Request) (again : Option Revision) :
    (∃ f, ch.repeated req again = .fail f) ∨
      ∃ r? : Option Revision, ch.repeated req again = pure r?.toList ∧
        ∀ r, r? = some r → req.poll = false ∧ ∃ s, again = some s ∧ s.commit = r.commit := by
  cases hpoll : req.poll with
  | true => exact .inr ⟨none, ch.repeated_of_poll hpoll again, nofun⟩
  | false =>
    cases again with
    | none =>
      right
      refine ⟨none, ?_, nofun⟩
      cases ch <;> simp [repeated, DefaultStrategy.repeated]
    | some s =>
      cases ch with
      | outside excluded => exact .inr ⟨some s, by simp [repeated, hpoll], by simp⟩
      | matching specs =>
        have hcommit := s.commit_sortBranches specs req.env
        simp only [repeated, DefaultStrategy.repeated, hpoll, Bool.false_eq_true, if_false]
        rcases hsort : s.sortBranches specs req.env with ⟨_ | f, sorted⟩
        · rw [hsort] at hcommit
          exact .inr ⟨some sorted, rfl, by simpa using hcommit.symm⟩
        · exact .inl ⟨f, rfl⟩

/-- The stages that follow the tips of a choice.  Names that no spec matches are built again only if
there is a tip. -/
def Choice.finish (ch : Choice) (req : Request) (ledger : Ledger) (newest : List Revision) :
    Inquiry (List Revision) :=
  match ch with
  | matching _ => closing ledger (ch.repeated req) newest
  | outside _ => if newest.isEmpty then pure [] else closing ledger (ch.repeated req) newest

/-- What follows the tips closes the selection, or there is nothing to close. -/
theorem Choice.finish_cases (ch : Choice) (req : Request) (ledger : Ledger)
    (newest : List Revision) :
    ch.finish req ledger newest = closing ledger (ch.repeated req) newest ∨
      ch.finish req ledger newest = pure [] := by
  cases ch with
  | matching specs => exact .inl rfl
  | outside excluded =>
    unfold finish
    dsimp only
    split
    · exact .inr rfl
    · exact .inl rfl

/-- A selection by specs is the choice of the branches that match. -/
theorem DefaultStrategy.selectMatching_eq (req : Request) (ledger : Ledger)
    (specs : List BranchSpec) : selectMatching req ledger specs =
      (Choice.matching specs).tipsThen req ((Choice.matching specs).finish req ledger) := rfl

/-- A selection of what is left over is the choice of the branches that match none. -/
theorem InverseStrategy.select_eq (s : InverseStrategy) (req : Request) (ledger : Ledger) :
    s.select req ledger =
      (Choice.outside s.excluded).tipsThen req ((Choice.outside s.excluded).finish req ledger) := by
  unfold select Choice.tipsThen
  congr 1
  funext listed
  congr 1
  funext left
  congr 1
  funext newest
  cases newest <;> rfl

/-- A strategy that selects by itself makes a choice and goes through the stages with it, resolves
one definite branch, or fails at a spec that cannot be read. -/
theorem BaseStrategy.select_cases (s : BaseStrategy) (req : Request) (ledger : Ledger) :
    (∃ ch, s.choice? req = some ch ∧
        s.select req ledger = ch.tipsThen req (ch.finish req ledger)) ∨
      (∃ d name, s = .default d ∧ d.singleTarget? req = some name ∧
        s.select req ledger = d.selectSingle req ledger name) ∨
      (s.choice? req = none ∧ ∃ f, s.select req ledger = .fail f) := by
  cases s with
  | inverse s => exact .inl ⟨_, rfl, s.select_eq req ledger⟩
  | default s =>
    rw [select, DefaultStrategy.select, choice?]
    cases hsingle : s.singleTarget? req with
    | some name => exact .inr (.inl ⟨s, name, rfl, hsingle, rfl⟩)
    | none =>
      cases (req.target.map Text.trim).filter (!·.isEmpty) with
      | none => exact .inl ⟨_, rfl, DefaultStrategy.selectMatching_eq req ledger s.specs⟩
      | some spec =>
        cases hread : BranchSpec.ofText spec with
        | ok b =>
          refine .inl ⟨.matching [b], by simp [hread, Except.toOption], ?_⟩
          dsimp only
          rw [hread]
          exact DefaultStrategy.selectMatching_eq req ledger [b]
        | error f =>
          refine .inr (.inr ⟨by simp [hread, Except.toOption], f, ?_⟩)
          dsimp only
          rw [hread]
          rfl

/-- A strategy that makes a choice goes through the stages with it. -/
theorem BaseStrategy.select_eq_tipsThen {s : BaseStrategy} {ch : Choice} {req : Request}
    (hchoice : s.choice? req = some ch) (ledger : Ledger) :
    s.select req ledger = ch.tipsThen req (ch.finish req ledger) := by
  rcases s.select_cases req ledger with ⟨ch', hchoice', heq⟩ | ⟨d, name, rfl, hsingle, -⟩ | ⟨hnone, -⟩
  · rw [hchoice] at hchoice'
    cases hchoice'
    exact heq
  · simp [choice?, hsingle] at hchoice
  · rw [hnone] at hchoice
    cases hchoice

/-- The stages that follow the tips ask for nothing but times. -/
def AsksTimes (rest : List Revision → Inquiry (List Revision)) : Prop :=
  ∀ P : Query → Prop, P .openWalk → (∀ c, P (.commitTime c)) → ∀ newest, Asks P (rest newest)

/-- Closing a selection asks for nothing but times. -/
theorem Choice.asksTimes_finish (ch : Choice) (req : Request) (ledger : Ledger) :
    AsksTimes (ch.finish req ledger) := by
  intro P hwalk htime newest
  rcases ch.finish_cases req ledger newest with heq | heq
  · rw [heq, closing]
    split
    · next again _ =>
      rcases ch.repeated_cases req again with ⟨f, heq⟩ | ⟨r?, heq, -⟩
      · rw [heq]
        exact .fail f
      · rw [heq]
        exact asks_pure _
    · exact asks_sortOldestFirst hwalk htime _
  · rw [heq]
    exact asks_pure []

/-! ## One definite branch -/

namespace DefaultStrategy

/-- A request for a name without blanks around it, variables or signs of a pattern asks for one
definite branch. -/
theorem singleTarget?_of_target {s : DefaultStrategy} {req : Request} {name : String}
    (htarget : req.target = some name) (htrim : Text.trim name = name) (hvars : '$' ∉ name.toList)
    (hname : (!name.isEmpty && !isPattern name) = true) : s.singleTarget? req = some name := by
  simp only [singleTarget?, htarget, Option.map_some, htrim, Text.expand_eq_self hvars,
    Option.filter_some, hname, if_true]

/-- The definite branch that such a request asks for is selected alone. -/
theorem select_of_target {s : DefaultStrategy} {req : Request} {name : String} (ledger : Ledger)
    (htarget : req.target = some name) (htrim : Text.trim name = name) (hvars : '$' ∉ name.toList)
    (hname : (!name.isEmpty && !isPattern name) = true) :
    s.select req ledger = s.selectSingle req ledger name := by
  rw [select, singleTarget?_of_target htarget htrim hvars hname]

/-- Only leads that were given are left when repeated ones are taken out. -/
theorem mem_of_mem_distinctLeads {l : Lead} {ls : List Lead} (h : l ∈ distinctLeads ls) :
    l ∈ ls := by
  let keep : List Lead → Lead → List Lead :=
    fun seen l => if seen.any (·.reference == l.reference) then seen else l :: seen
  -- The leads that are kept come in front of those to come, so any of them may be there already.
  have hkept (seen : List Lead) : l ∈ ls.foldl keep seen → l ∈ seen ∨ l ∈ ls := by
    clear h
    induction ls generalizing seen with
    | nil => exact .inl
    | cons m ls ih =>
      intro h
      rw [List.foldl_cons] at h
      rcases ih _ h with hseen | hl
      · unfold keep at hseen
        split at hseen
        · exact .inl hseen
        · rcases List.mem_cons.1 hseen with rfl | hseen
          · exact .inr List.mem_cons_self
          · exact .inl hseen
      · exact .inr (List.mem_cons_of_mem _ hl)
  exact (hkept [] (List.mem_reverse.1 h)).resolve_left List.not_mem_nil

/-- The reference of a lead is the name itself or a full name. -/
def Lead.IsNamedOrFull (name : String) (l : Lead) : Prop :=
  l.reference = name ∨ Text.startsWith "refs/" l.reference = true

/-- The full name of a remote branch begins with that of all references. -/
theorem startsWith_refs_remote (remote name : String) :
    Text.startsWith "refs/" ("refs/remotes/" ++ remote ++ "/" ++ name) = true :=
  Text.startsWith_append name <| Text.startsWith_append "/" <|
    Text.startsWith_append remote (by decide)

/-- A name with a slash is tried as it is or as a full name. -/
theorem isNamedOrFull_of_mem_qualifiedLeads {name remote : String} :
    ∀ l ∈ qualifiedLeads name remote, l.IsNamedOrFull name := by
  unfold qualifiedLeads
  split
  · simpa using .inr (Text.startsWith_append name (by decide))
  · split
    · simpa using .inr (Text.startsWith_append name (by decide))
    · split
      · next rest _ => simpa using .inr (startsWith_refs_remote remote rest)
      · simpa using ⟨.inl rfl, .inr (startsWith_refs_remote remote name)⟩

/-- Whatever a name may mean is asked for under this name or under a full name. -/
theorem isNamedOrFull_of_mem_leads {s : DefaultStrategy} {name : String} :
    ∀ l ∈ s.leads name, l.IsNamedOrFull name := by
  unfold leads
  split
  · simpa using .inl rfl
  · intro l hl
    rcases List.mem_append.1 (mem_of_mem_distinctLeads hl) with hl | hl
    · split at hl
      · obtain ⟨remote, -, hl⟩ := List.mem_flatMap.1 hl
        exact isNamedOrFull_of_mem_qualifiedLeads l hl
      · rcases List.mem_cons.1 hl with rfl | hl
        · exact .inr (Text.startsWith_append name (by decide))
        · obtain ⟨remote, -, rfl⟩ := List.mem_map.1 hl
          exact .inr (startsWith_refs_remote remote name)
    · exact .inl (by rw [List.mem_singleton.1 hl])

/-- The question for a reference. -/
def Lead.question (l : Lead) : Query :=
  if l.reference = "FETCH_HEAD" then .fetchHead else .resolve l.reference

/-- The leads are asked for one after the other. -/
theorem asks_resolveLeads {ls : List Lead} (h : ∀ l ∈ ls, P l.question) :
    Asks P (resolveLeads ls) := by
  induction ls with
  | nil => exact asks_pure []
  | cons l ls ih =>
    have hlead : Asks P l.query := by
      have hl := h l List.mem_cons_self
      unfold Lead.question at hl
      unfold Lead.query
      split at hl
      · next hfetch => rw [if_pos hfetch]; exact asks_queryIfExists hl
      · next hfetch => rw [if_neg hfetch]; exact asks_queryIfExists hl
    have hrest := ih fun m hm => h m (List.mem_cons_of_mem _ hm)
    exact hlead.bind fun _ => hrest.bind fun _ => asks_pure _

/-- A definite branch asks for its name, where that may be an id, and for its leads. -/
theorem asks_selectSingle {s : DefaultStrategy} {name : String} (hname : P (.resolve name))
    (hleads : ∀ l ∈ s.leads name, P l.question) (req : Request) (ledger : Ledger) :
    Asks P (s.selectSingle req ledger name) := by
  unfold selectSingle
  split
  · refine (asks_queryIfExists hname).bind fun found => ?_
    cases found with
    | none =>
      refine (asks_resolveLeads hleads).bind fun found => ?_
      split <;> exact asks_pure _
    | some c => exact asks_pure _
  · refine (asks_resolveLeads hleads).bind fun found => ?_
    split <;> exact asks_pure _

end DefaultStrategy

/-! ## Bounds -/

namespace Bounds

/-- A bound asks for the time of a commit, and for whether the ancestor is merged into it. -/
theorem asks_admits (htime : ∀ c, P (.commitTime c)) (hmerged : ∀ a c, P (.isMergedInto a c))
    (cutoff : Option Int) (ancestor : Option CommitId) (r : Revision) :
    Asks P (admits cutoff ancestor r) := by
  have hancestor : Asks P (admits none ancestor r) := by
    cases ancestor with
    | none => exact asks_pure true
    | some a => exact asks_query (hmerged a r.commit)
  cases cutoff with
  | none => exact hancestor
  | some limit =>
    refine (asks_query (htime r.commit)).bind fun time => ?_
    split
    · exact asks_pure false
    · exact hancestor

/-- Bounds open a walk and ask for times and ancestors. -/
theorem asks_filter (hwalk : P .openWalk) (htime : ∀ c, P (.commitTime c))
    (hmerged : ∀ a c, P (.isMergedInto a c)) (b : Bounds) (req : Request)
    (candidates : List Revision) : Asks P (b.filter req candidates) := by
  unfold filter
  split
  · exact asks_pure candidates
  · refine (asks_ofExcept _).bind fun cutoff => (asks_query hwalk).bind fun _ => ?_
    have hfilter (ancestor : Option CommitId) :=
      Asks.filterM (asks_admits htime hmerged cutoff ancestor) candidates
    cases b.ancestor with
    | none => exact hfilter none
    | some a => exact (asks_query (htime a)).bind fun _ => hfilter (some a)

end Bounds

end NextBuild
