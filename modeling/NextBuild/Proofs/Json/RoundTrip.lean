import NextBuild.Proofs.Json.Messages
import NextBuild.Store

/-!
# What is written comes back

A ledger is read from its JSON form as it was, on one line and over several lines, and so is what
goes over the line between two sides of a graph.
-/

namespace NextBuild

open Json (Composed)

namespace BuildResult

/-- The message of a result is a text. -/
theorem composed_json (depth : Nat) (r : BuildResult) : Composed depth r.json := .text depth r.name

/-- A result is found in its message. -/
@[simp]
theorem ofJson?_json (r : BuildResult) : ofJson? r.json = some r := by
  simp [ofJson?, json, ofName?_name]

end BuildResult

/-- A member that may be missing is composed if its value is. -/
theorem Json.composed_of_mem_memberIfSome {α : Type} {depth : Nat} {f : α → Json}
    (h : ∀ a, Composed depth (f a)) (name : String) (a? : Option α) :
    ∀ m ∈ memberIfSome name f a?, Composed depth m.2 := by
  cases a? <;> simp [memberIfSome, h]

namespace Build

/-- The message of a build holds those of its revisions. -/
theorem composed_json (depth : Nat) (b : Build) : Composed (depth + 4) b.json := by
  have hrevision (r : Revision) : Composed (depth + 3) r.json := r.composed_json depth
  have hcause := Json.composed_of_mem_memberIfSome hrevision "marked" b.cause
  refine .record ?_
  simp only [List.cons_append, List.forall_mem_cons, List.forall_mem_append]
  exact ⟨hrevision _, hcause, .uint64 _ _, BuildResult.composed_json _ _, by simp⟩

/-- A build is found in its record, with the revision that asked for a merge if there is one. -/
@[simp]
theorem ofJson?_json (b : Build) : ofJson? b.json = some b := by
  obtain ⟨revision, cause, number, result⟩ := b
  cases cause with
  | none => simp [ofJson?, json, Json.memberIfSome, Json.fields?_record, List.lookup_cons]
  | some r =>
    have hcause : r.json.optional? Revision.ofJson? = some (some r) :=
      Json.optional?_ofOption (fun _ => rfl) Revision.ofJson?_json (some r)
    simp [ofJson?, json, Json.memberIfSome, Json.fields?_record, List.lookup_cons, hcause]

end Build

namespace Ledger

/-- The message of a ledger nests as deep as its builds. -/
theorem composed_json (l : Ledger) : Composed 6 l.json := by
  have hbuilds : ∀ m ∈ l.byBranch.entries.map (fun e => (e.1, e.2.json)), Composed 4 m.2 := by
    simp only [List.mem_map, forall_exists_index, and_imp, forall_apply_eq_imp_iff₂]
    exact fun e _ => e.2.composed_json 0
  have hlast := Json.composed_of_mem_memberIfSome (Build.composed_json 1) "last_build" l.last
  refine .record ?_
  simp only [List.forall_mem_cons]
  exact ⟨.record hbuilds, hlast⟩

/-- A ledger is found in its record. -/
theorem ofJson?_json (l : Ledger) : ofJson? l.json = some l := by
  obtain ⟨byBranch, last⟩ := l
  have hbuilds : (byBranch.entries.map fun e => (e.1, e.2.json)).mapM
      (fun m => (Build.ofJson? m.2).map (m.1, ·)) = some byBranch.entries := by
    induction byBranch.entries with
    | nil => rfl
    | cons e es ih => simp [ih]
  cases last with
  | none =>
    simp [ofJson?, json, Json.memberIfSome, Json.fields?_record, List.lookup_cons, hbuilds,
      Table.ofList_entries]
  | some b =>
    have hlast : b.json.optional? Build.ofJson? = some (some b) :=
      Json.optional?_ofOption (fun _ => rfl) Build.ofJson?_json (some b)
    simp [ofJson?, json, Json.memberIfSome, Json.fields?_record, List.lookup_cons, hbuilds, hlast,
      Table.ofList_entries]

/-- A ledger is read from its text over several lines. -/
theorem read_pretty_json (l : Ledger) : (Json.read? l.json.pretty).bind ofJson? = some l := by
  rw [l.composed_json.read?_pretty, Option.bind_some, l.ofJson?_json]

/-- A ledger is read from the text of its file. -/
theorem ofText_text (l : Ledger) : ofText l.text = .ok l := by
  have hblank : Text.allBlank l.text = false := by
    have hbrace : '{' ∈ l.text.toList := by
      simp [text, Json.pretty, json, Json.record, Json.prettyChars]
    exact List.all_eq_false.2 ⟨'{', hbrace, by decide⟩
  rw [ofText, hblank, if_neg Bool.false_ne_true, text, l.read_pretty_json]

end Ledger

/-- Questions, responses and ledgers come back as they were written, and a message is one line. -/
theorem read_of_written :
    (∀ q : Query, Query.ofText? q.text = some q ∧ '\n' ∉ q.text.toList) ∧
    (∀ r : Response, Response.ofText? r.text = some r ∧ '\n' ∉ r.text.toList) ∧
    ∀ l : Ledger,
      (Json.read? l.json.compact).bind Ledger.ofJson? = some l ∧
      (Json.read? l.json.pretty).bind Ledger.ofJson? = some l := by
  refine ⟨fun q => ⟨q.ofText?_text, ?_⟩, fun r => ⟨r.ofText?_text, ?_⟩,
    fun l => ⟨?_, l.read_pretty_json⟩⟩
  · exact q.composed_json.newline_notMem_compact
  · exact r.composed_json.newline_notMem_compact
  · rw [l.composed_json.read?_compact, Option.bind_some, l.ofJson?_json]

end NextBuild
