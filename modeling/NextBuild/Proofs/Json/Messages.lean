import NextBuild.Graph.Message
import NextBuild.Proofs.CommitId
import NextBuild.Proofs.Json.Layout
import NextBuild.Proofs.Json.Records

/-!
# Messages come back

Every question about a graph and every response is read from its line as it was.  The line is
compact JSON, so there is no line feed in it, whatever texts the message holds.
-/

namespace NextBuild

open Json (Composed)

namespace CommitId

/-- An id is found in its message. -/
@[simp]
theorem ofJson?_json (c : CommitId) : ofJson? c.json = some c := by
  simp [ofJson?, json, ofText?_text]

/-- The message of an id is a text. -/
theorem composed_json (depth : Nat) (c : CommitId) : Composed depth c.json := .text depth c.text

end CommitId

namespace Branch

/-- The message of a branch is a record of texts. -/
theorem composed_json (depth : Nat) (b : Branch) : Composed (depth + 1) b.json :=
  .record (by simp [Composed.text, CommitId.composed_json])

/-- A branch is found in its message. -/
@[simp]
theorem ofJson?_json (b : Branch) : ofJson? b.json = some b := by
  simp [ofJson?, json, Json.fields?_record, List.lookup_cons]

end Branch

namespace Revision

/-- The message of a revision holds those of its branches. -/
theorem composed_json (depth : Nat) (r : Revision) : Composed (depth + 3) r.json := by
  have hbranches := Composed.array_map (Branch.composed_json depth) r.branches
  exact .record (by simp [CommitId.composed_json, hbranches])

/-- A revision is found in its message. -/
@[simp]
theorem ofJson?_json (r : Revision) : ofJson? r.json = some r := by
  have hbranches : (Json.array (r.branches.map Branch.json)).list? Branch.ofJson? = some r.branches :=
    Json.list?_array fun b _ => b.ofJson?_json
  simp [ofJson?, json, Json.fields?_record, List.lookup_cons, hbranches]

end Revision

namespace LogEntry

/-- The message of an entry of a log is a record of plain values. -/
theorem composed_json (depth : Nat) (e : LogEntry) : Composed (depth + 1) e.json :=
  .record (by simp [Composed.int64, CommitId.composed_json])

/-- An entry of a log is found in its message. -/
@[simp]
theorem ofJson?_json (e : LogEntry) : ofJson? e.json = some e := by
  simp [ofJson?, json, Json.fields?_record, List.lookup_cons]

end LogEntry

/-! ## Questions -/

namespace Query

/-- The message of a question is a record of plain values. -/
theorem composed_json (q : Query) : Composed 1 q.json := by
  cases q with
  | log reference =>
    cases reference <;> exact .record (by simp [Composed.text, Composed.null, Json.ofOption])
  | _ => exact .record (by simp [Composed.text, CommitId.composed_json])

/-- The commit of a question is found under its name. -/
@[simp]
theorem oneCommit?_record (c : CommitId) : oneCommit? (.record [("commit", c.json)]) = some c := by
  simp [oneCommit?, Json.fields?_record, List.lookup_cons]

/-- Two commits are found under their names, if these differ. -/
theorem twoCommits?_record {first second : String} (h : first ≠ second) (a b : CommitId) :
    twoCommits? first second (.record [(first, a.json), (second, b.json)]) = some (a, b) := by
  have hbeq : (second == first) = false := beq_false_of_ne h.symm
  simp [twoCommits?, Json.fields?_record, List.lookup_cons, h, hbeq]

/-- A question is found in its message. -/
theorem ofJson?_json (q : Query) : ofJson? q.json = some q := by
  have hv := q.composed_json
  cases q with
  | log reference =>
    have hfield : (Json.ofOption Json.ofText reference).optional? Json.text? = some reference :=
      Json.optional?_ofOption (fun _ => rfl) Json.text?_ofText _
    simp [ofJson?, json, Json.tagged?_record hv (by decide), Json.fields?_record, List.lookup_cons,
      Json.optionalField?, hfield]
  | mergeBase a b =>
    simp [ofJson?, json, Json.tagged?_record hv (by decide), twoCommits?_record]
  | isMergedInto a c =>
    simp [ofJson?, json, Json.tagged?_record hv (by decide), twoCommits?_record]
  | resolve name =>
    simp [ofJson?, json, Json.tagged?_record hv (by decide), Json.fields?_record, List.lookup_cons]
  | references | fetchHead | openWalk =>
    simp [ofJson?, json, Json.tagged?_record hv (by decide)]
  | timestamp c | commitTime c => simp [ofJson?, json, Json.tagged?_record hv (by decide)]

/-- A question is read from its line. -/
theorem ofText?_text (q : Query) : ofText? q.text = some q := by
  simp [ofText?, text, q.composed_json.read?_compact, ofJson?_json]

end Query

/-! ## Responses -/

/-- A class of failures is found by its name. -/
theorem FailureClass.ofName?_name (c : FailureClass) : ofName? c.name = some c := by
  cases c <;> decide

namespace Response

/-- The message of a response nests as deep as the branches that it may list. -/
theorem composed_json (r : Response) : Composed 3 r.json := by
  cases r with
  | references bs =>
    have hbranches := Composed.array_map (Branch.composed_json 0) bs
    exact .record (by simpa [Composed.text] using hbranches)
  | log es =>
    have hentries := Composed.array_map (LogEntry.composed_json 0) es
    exact .record (by simpa [Composed.text] using hentries)
  | mergeBase c =>
    cases c <;>
      exact .record (by simp [Composed.text, Composed.null, CommitId.composed_json, Json.ofOption])
  | _ =>
    exact .record (by simp [Composed.text, Composed.bool, Composed.int64, CommitId.composed_json])

/-- What a response holds is found under its name. -/
theorem oneField?_record {α : Type} {f : Json → Option α} {v : Json} {a : α} (name : String)
    (h : f v = some a) : oneField? name f (.record [(name, v)]) = some a := by
  simp [oneField?, Json.fields?_record, List.lookup_cons, h]

/-- A response is found in its message. -/
theorem ofJson?_json (r : Response) : ofJson? r.json = some r := by
  have hv := r.composed_json
  cases r with
  | references bs =>
    have hfield : (Json.array (bs.map Branch.json)).list? Branch.ofJson? = some bs :=
      Json.list?_array fun b _ => b.ofJson?_json
    simp [ofJson?, json, Json.tagged?_record hv (by decide), oneField?_record _ hfield]
  | log es =>
    have hfield : (Json.array (es.map LogEntry.json)).list? LogEntry.ofJson? = some es :=
      Json.list?_array fun e _ => e.ofJson?_json
    simp [ofJson?, json, Json.tagged?_record hv (by decide), oneField?_record _ hfield]
  | mergeBase c =>
    have hfield : (Json.ofOption CommitId.json c).optional? CommitId.ofJson? = some c :=
      Json.optional?_ofOption (fun _ => rfl) CommitId.ofJson?_json _
    simp [ofJson?, json, Json.tagged?_record hv (by decide), Json.fields?_record, List.lookup_cons,
      Json.optionalField?, hfield]
  | failed c message =>
    simp [ofJson?, json, Json.tagged?_record hv (by decide), Json.fields?_record, List.lookup_cons,
      FailureClass.ofName?_name]
  | commit c =>
    simp [ofJson?, json, Json.tagged?_record hv (by decide), oneField?_record _ c.ofJson?_json]
  | timestamp time =>
    simp [ofJson?, json, Json.tagged?_record hv (by decide),
      oneField?_record _ (Json.int64?_ofInt time)]
  | merged b =>
    have hfield : (Json.bool b).bool? = some b := rfl
    simp [ofJson?, json, Json.tagged?_record hv (by decide), oneField?_record _ hfield]
  | opened => simp [ofJson?, json, Json.tagged?_record hv (by decide)]

/-- A response is read from its line. -/
theorem ofText?_text (r : Response) : ofText? r.text = some r := by
  simp [ofText?, text, r.composed_json.read?_compact, ofJson?_json]

end Response

end NextBuild
