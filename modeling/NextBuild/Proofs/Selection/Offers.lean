import Mathlib.Data.List.Nodup
import Mathlib.Data.List.Perm.Subperm
import NextBuild.Proofs.Selection.FreshPolls

/-!
# What polls offer

A poll that succeeds offers revisions of distinct commits that were never built, each under a name
of its own.  Over the listed branches the names are those that are listed for the commit, so they
belong to it alone where no name is listed twice.  A poll for one definite branch offers the commit
of the first of its leads that exists, which does not depend on the ledger.  Bounds and priorities
offer less, or in another order.
-/

namespace NextBuild

/-- The revisions can be built next: their commits are distinct ones of a list and were never built,
and they have names that belong to them. -/
structure Offers (own : CommitId → String → Prop) (cs : List CommitId) (ledger : Ledger)
    (rs : List Revision) : Prop where
  nodup : (rs.map (·.commit)).Nodup
  mem : ∀ r ∈ rs, r.commit ∈ cs
  named : ∀ r ∈ rs, r.names ≠ []
  owned : ∀ r ∈ rs, ∀ name ∈ r.names, own r.commit name
  fresh : ∀ r ∈ rs, ledger.hasBuilt r.commit = false

namespace Offers

variable {own : CommitId → String → Prop} {cs : List CommitId} {ledger : Ledger}
  {rs ss : List Revision}

/-- Less is offered in the same way, and in any order. -/
theorem of_subperm (h : Offers own cs ledger rs) (hs : ss.Subperm rs) : Offers own cs ledger ss where
  nodup := by
    obtain ⟨part, hperm, hsublist⟩ := hs
    exact (hperm.map Revision.commit).nodup_iff.1 ((hsublist.map Revision.commit).nodup h.nodup)
  mem r hr := h.mem r (hs.subset hr)
  named r hr := h.named r (hs.subset hr)
  owned r hr := h.owned r (hs.subset hr)
  fresh r hr := h.fresh r (hs.subset hr)

end Offers

variable {g : CommitGraph} {req : Request} {ledger : Ledger} {rs : List Revision}
  {bs : List Branch}

/-- What a poll finds are revisions of listed commits with their eligible names. -/
theorem Choice.exists_sublist_of_poll {ch : Choice} (hlist : g .references = .ok bs)
    (h : (ch.poll req ledger).run g = .ok rs) :
    ch.Answers req.env bs ∧ ∃ found,
      found.Sublist ((ch.commits req.env bs).map (ch.revision req.env bs)) ∧ rs.Perm found := by
  rw [poll, Inquiry.run_bind] at h
  obtain ⟨listed, hlisted, h⟩ := bind_eq_ok_iff.1 h
  rw [listedRevisions, Inquiry.run_bind, Inquiry.run_query, hlist] at hlisted
  cases hlisted
  rw [Inquiry.run_bind, Inquiry.run_ofExcept] at h
  obtain ⟨picked, hpicked, h⟩ := bind_eq_ok_iff.1 h
  have hanswers := answers_of_mapM_pick hpicked
  rw [mapM_pick hanswers] at hpicked
  cases hpicked
  rw [Inquiry.run_bind, filter_hasBranches] at h
  obtain ⟨newest, hnewest, h⟩ := bind_eq_ok_iff.1 h
  exact ⟨hanswers, _, List.filter_sublist.trans (sublist_of_tips hnewest),
    perm_of_run_sortOldestFirst h⟩

/-- A poll over the listed branches offers listed commits under names that are listed for them. -/
theorem Choice.offers_of_poll {ch : Choice} (hlist : g .references = .ok bs)
    (h : (ch.poll req ledger).run g = .ok rs) :
    Offers (fun c name => (⟨name, c⟩ : Branch) ∈ bs) (commitsOf bs) ledger rs := by
  obtain ⟨-, found, hsublist, hperm⟩ := exists_sublist_of_poll hlist h
  have hrevision : ∀ r ∈ rs, ∃ c ∈ ch.commits req.env bs, ch.revision req.env bs c = r := fun r hr =>
    List.mem_map.1 (hsublist.subset (hperm.mem_iff.1 hr))
  have hnames (c : CommitId) : (ch.revision req.env bs c).names = ch.eligible req.env bs c :=
    Revision.names_ofNames c _
  refine ⟨?_, fun r hr => ?_, fun r hr => ?_, fun r hr name hname => ?_, ch.ensures_poll.run h⟩
  · have hcommits : ((ch.commits req.env bs).map (ch.revision req.env bs)).map (·.commit) =
        ch.commits req.env bs := by
      simp [revision, Function.comp_def]
    have hdistinct : (found.map (·.commit)).Nodup := by
      refine (hsublist.map Revision.commit).nodup ?_
      rw [hcommits]
      exact nodup_commits ch
    exact (hperm.map Revision.commit).nodup_iff.2 hdistinct
  · obtain ⟨c, hc, rfl⟩ := hrevision r hr
    exact (List.mem_filter.1 hc).1
  · obtain ⟨c, hc, rfl⟩ := hrevision r hr
    rw [hnames]
    exact mem_commits.1 hc
  · obtain ⟨c, -, rfl⟩ := hrevision r hr
    rw [hnames] at hname
    exact mem_namesAt.1 (mem_namesAt_of_mem_eligible hname)

/-- Each lead that exists is offered under its label. -/
theorem DefaultStrategy.names_ne_nil_of_resolveLeads {ls : List Lead}
    (h : (resolveLeads ls).run g = .ok rs) : ∀ r ∈ rs, r.names ≠ [] := by
  induction ls generalizing rs with
  | nil =>
    cases h
    simp
  | cons l ls ih =>
    rw [resolveLeads, Inquiry.run_bind] at h
    obtain ⟨found, -, h⟩ := bind_eq_ok_iff.1 h
    rw [Inquiry.run_bind] at h
    obtain ⟨rest, hrest, h⟩ := bind_eq_ok_iff.1 h
    cases h
    cases found with
    | none => exact ih hrest
    | some c =>
      have hlabel : (Revision.labelled c l.label).names = [l.label] := rfl
      simpa [hlabel] using ih hrest

/-- A poll for one definite branch offers the commit of its first lead, or nothing. -/
theorem DefaultStrategy.exists_offers_selectSingle (s : DefaultStrategy) (name : String)
    (hpoll : req.poll = true) :
    ∃ cs : List CommitId, cs.length ≤ 1 ∧ ∀ ledger rs,
      (s.selectSingle req ledger name).run g = .ok rs → Offers (fun c _ => c ∈ cs) cs ledger rs := by
  cases hfound : (resolveLeads (s.leads name)).run g with
  | error f =>
    refine ⟨[], by simp, fun ledger rs h => ?_⟩
    rw [s.run_selectSingle name ledger hpoll, hfound] at h
    cases h
  | ok found =>
    let first := found.head?.toList
    have hone : first.length ≤ 1 ∧ (first.map (·.commit)).Nodup := by
      cases hhead : found.head? <;> simp [first, hhead]
    refine ⟨first.map (·.commit), by simpa using hone.1, fun ledger rs h => ?_⟩
    rw [s.run_selectSingle name ledger hpoll, hfound, ok_bind] at h
    cases h
    have hmem : ∀ r ∈ first.filter fun r => !ledger.hasBuilt r.commit,
        r.commit ∈ first.map (·.commit) := fun r hr => List.mem_map_of_mem (List.mem_filter.1 hr).1
    refine ⟨(List.filter_sublist.map _).nodup hone.2, hmem, fun r hr => ?_,
      fun r hr _ _ => hmem r hr, fun r hr => ?_⟩
    · have hhead : r ∈ found.head? := Option.mem_toList.1 (List.mem_filter.1 hr).1
      exact names_ne_nil_of_resolveLeads hfound r (List.mem_of_mem_head? hhead)
    · simpa using (List.mem_filter.1 hr).2

/-- The strategy is asked for one definite branch. -/
def BaseStrategy.resolvesOne (req : Request) : BaseStrategy → Bool
  | .default s => (s.singleTarget? req).isSome
  | .inverse _ => false

/-- A poll that succeeds without asking for one definite branch has made a choice. -/
theorem BaseStrategy.exists_choice_of_poll {s : BaseStrategy} (hone : s.resolvesOne req = false)
    (h : (s.select req ledger).run g = .ok rs) : ∃ ch, s.choice? req = some ch := by
  rcases s.select_cases req ledger with ⟨ch, hchoice, -⟩ | ⟨d, name, rfl, hsingle, -⟩ | ⟨-, f, heq⟩
  · exact ⟨ch, hchoice⟩
  · simp [resolvesOne, hsingle] at hone
  · rw [heq] at h
    cases h

/-- The number of commits that a job may have to build of the listed branches: one if it is for one
definite branch. -/
def BaseStrategy.offerBound (req : Request) (bs : List Branch) (s : BaseStrategy) : Nat :=
  if s.resolvesOne req then 1 else (commitsOf bs).length

/-- The polls of a base strategy on one graph, over whatever ledgers, offer commits out of one list,
under names that belong to one commit each. -/
theorem BaseStrategy.exists_offers (s : BaseStrategy) (hpoll : req.poll = true)
    (hlist : g .references = .ok bs) (hnames : (bs.map (·.name)).Nodup) :
    ∃ (own : CommitId → String → Prop) (cs : List CommitId),
      (∀ c d name, own c name → own d name → c = d) ∧ cs.length ≤ s.offerBound req bs ∧
        ∀ ledger rs, (s.select req ledger).run g = .ok rs → Offers own cs ledger rs := by
  cases hone : s.resolvesOne req with
  | false =>
    refine ⟨fun c name => ⟨name, c⟩ ∈ bs, commitsOf bs, fun c d name hc hd => ?_, ?_,
      fun ledger rs h => ?_⟩
    · exact congrArg Branch.commit (List.inj_on_of_nodup_map hnames hc hd rfl)
    · simp [offerBound, hone]
    · obtain ⟨ch, hchoice⟩ := exists_choice_of_poll hone h
      rw [run_select_eq_poll g hpoll hchoice] at h
      exact Choice.offers_of_poll hlist h
  | true =>
    cases s with
    | inverse s => cases hone
    | default s =>
      obtain ⟨name, hname⟩ := Option.isSome_iff_exists.1 hone
      obtain ⟨cs, hlength, hoffers⟩ := s.exists_offers_selectSingle (g := g) name hpoll
      refine ⟨fun c _ => c ∈ cs, cs, fun c d _ hc hd => ?_, ?_, fun ledger rs h => ?_⟩
      · match cs, hlength with
        | [e], _ => rw [List.mem_singleton.1 hc, List.mem_singleton.1 hd]
      · simpa [offerBound, hone] using hlength
      · rw [select, DefaultStrategy.select, hname] at h
        exact hoffers ledger rs h

namespace Strategy

/-- The base strategy of a strategy; the queue has none. -/
def inner? : Strategy → Option BaseStrategy
  | base s | bounded s _ | prioritized s _ _ => some s
  | queue _ => none

/-- What a strategy selects is, in some order, a part of what its base strategy selects. -/
theorem exists_subperm_of_select {s : Strategy} {inner : BaseStrategy} (hinner : s.inner? = some inner)
    (h : (s.select req ledger).run g = .ok rs) :
    ∃ candidates, (inner.select req ledger).run g = .ok candidates ∧ rs.Subperm candidates := by
  cases s with
  | base s =>
    cases hinner
    exact ⟨rs, h, .refl rs⟩
  | bounded s b =>
    cases hinner
    rw [select, Inquiry.run_bind] at h
    obtain ⟨candidates, hcandidates, h⟩ := bind_eq_ok_iff.1 h
    exact ⟨candidates, hcandidates, (Bounds.sublist_of_filter h).subperm⟩
  | prioritized s b priorities =>
    cases hinner
    rw [select_prioritized, Inquiry.run_bind] at h
    obtain ⟨within, hwithin, h⟩ := bind_eq_ok_iff.1 h
    cases h
    rw [select, Inquiry.run_bind] at hwithin
    obtain ⟨candidates, hcandidates, hwithin⟩ := bind_eq_ok_iff.1 hwithin
    refine ⟨candidates, hcandidates, ?_⟩
    exact (List.mergeSort_perm within _).subperm.trans (Bounds.sublist_of_filter hwithin).subperm
  | queue s => cases hinner

end Strategy

end NextBuild
