import NextBuild.Proofs.Selection.Questions

/-!
# The leads of a name

All leads of a name are asked for, and the first one that exists decides the revision.  Leads to one
reference exist together, so that the later ones are left out makes no difference.
-/

namespace NextBuild.DefaultStrategy

variable {g : CommitGraph} {found : String → Option CommitId} {req : Request} {name : String}

/-- The revision that a lead stands for, if its reference is found. -/
def Lead.revision? (found : String → Option CommitId) (l : Lead) : Option Revision :=
  (found l.reference).map fun c => .labelled c l.label

/-- A lead has no revision if its reference is not found. -/
theorem Lead.revision?_eq_none_iff {l : Lead} :
    l.revision? found = none ↔ found l.reference = none :=
  Option.map_eq_none_iff

/-- Where every question for a lead is answered, the leads that exist are resolved. -/
theorem run_resolveLeads (found : String → Option CommitId) {ls : List Lead}
    (h : ∀ l ∈ ls, l.query.run g = .ok (found l.reference)) :
    (resolveLeads ls).run g = .ok (ls.filterMap (Lead.revision? found)) := by
  induction ls with
  | nil => rfl
  | cons l ls ih =>
    rw [resolveLeads, Inquiry.run_bind, h l List.mem_cons_self, ok_bind, Inquiry.run_bind,
      ih fun m hm => h m (List.mem_cons_of_mem _ hm), ok_bind, List.filterMap_cons, Lead.revision?]
    cases found l.reference <;> rfl

/-- What is kept so far stands, reversed, in front of the leads to come. -/
theorem findSome?_keep (ls seen : List Lead) :
    (ls.foldl (fun seen l => if seen.any (·.reference == l.reference) then seen else l :: seen)
      seen).reverse.findSome? (Lead.revision? found) =
      (seen.reverse ++ ls).findSome? (Lead.revision? found) := by
  induction ls generalizing seen with
  | nil => rw [List.foldl_nil, List.append_nil]
  | cons l ls ih =>
    rw [List.foldl_cons, ih]
    split
    · next hrepeated =>
      obtain ⟨m, hm, hsame⟩ := List.any_eq_true.1 hrepeated
      rw [List.findSome?_append, List.findSome?_append, List.findSome?_cons]
      cases hseen : seen.reverse.findSome? (Lead.revision? found) with
      | some r => rfl
      | none =>
        -- The lead that came before does not exist, and so neither does this one.
        have hmissing := List.findSome?_eq_none_iff.1 hseen m (List.mem_reverse.2 hm)
        rw [Lead.revision?_eq_none_iff, eq_of_beq hsame] at hmissing
        rw [Lead.revision?_eq_none_iff.2 hmissing]
    · rw [List.reverse_cons, List.append_assoc]
      rfl

/-- The first lead that exists is the same with and without the repeated ones. -/
theorem findSome?_distinctLeads (ls : List Lead) :
    (distinctLeads ls).findSome? (Lead.revision? found) =
      ls.findSome? (Lead.revision? found) :=
  findSome?_keep ls []

/-- A build for a name that is no abbreviated id selects the first lead that exists, if any. -/
theorem run_selectSingle_of_build {s : DefaultStrategy} (hbuild : req.poll = false)
    (hname : CommitId.looksLikeAbbreviation name = false)
    (h : ∀ l ∈ s.leads name, l.query.run g = .ok (found l.reference)) (ledger : Ledger) :
    (s.selectSingle req ledger name).run g =
      .ok ((s.leads name).findSome? (Lead.revision? found)).toList := by
  simp only [selectSingle, hbuild, hname, Bool.and_false, Bool.false_eq_true, if_false,
    Inquiry.run_bind, run_resolveLeads found h, ok_bind, List.head?_filterMap, Bool.false_and]
  cases (s.leads name).findSome? (Lead.revision? found) <;> rfl

/-- A name with a separator is looked for in one remote after the other, and then as it stands. -/
theorem findSome?_leads_of_separator (s : DefaultStrategy) (hname : '/' ∈ name.toList) :
    (s.leads name).findSome? (Lead.revision? found) =
      (s.remotes.findSome? fun o => (qualifiedLeads name o).findSome? (Lead.revision? found)).or
        (Lead.revision? found ⟨name, name⟩) := by
  have hfetch : name ≠ "FETCH_HEAD" := by
    rintro rfl
    exact absurd hname (by decide)
  have hseparator : Text.hasChar '/' name = true := List.contains_iff_mem.2 hname
  have hremotes : (s.remotes.flatMap (qualifiedLeads name)).findSome? (Lead.revision? found) =
      s.remotes.findSome? fun o => (qualifiedLeads name o).findSome? (Lead.revision? found) := by
    simp only [← List.head?_filterMap, List.filterMap_flatMap, List.head?_flatMap]
  rw [leads, if_neg hfetch, if_pos hseparator, findSome?_distinctLeads, List.findSome?_append,
    hremotes, List.findSome?_singleton]

end NextBuild.DefaultStrategy
