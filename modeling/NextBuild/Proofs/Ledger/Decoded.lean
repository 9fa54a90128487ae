import NextBuild.Proofs.Json.RoundTrip
import NextBuild.Proofs.Revision
import NextBuild.Proofs.Store.Transactions

/-!
# Revisions that are read from texts

Reading a revision does not look at whether its branches have different names and point to its
commit, so what is read is well formed exactly when the value that was written says so.  A build
holds the values of one revision or two, and a ledger those of its builds: of several builds under
one name only the last is kept, and a revision of another one may be anything.  The texts that are
written for well-formed revisions are read as such.
-/

namespace NextBuild

/-! ## The last value under each name -/

namespace Table

variable {α : Type} {es : List (String × α)} {v : α}

/-- The values of a list of entries, of several under one name the last. -/
def lastValues : List (String × α) → List α
  | [] => []
  | e :: es => if e.1 ∈ es.map (·.1) then lastValues es else e.2 :: lastValues es

/-- A single entry is found under its name alone. -/
theorem lookup_singleton (k name : String) (v : α) :
    [(name, v)].lookup k = if k = name then some v else none := by
  rw [List.lookup_cons, List.lookup_nil]
  by_cases hk : k = name
  · simp [hk]
  · simp [hk, beq_false_of_ne hk]

/-- A table keeps the entry of a name that comes last in a list. -/
theorem get?_ofList (es : List (String × α)) (k : String) :
    (ofList es).get? k = es.reverse.lookup k := by
  have hfold (t : Table α) : (es.foldl (fun t e => t.insert e.1 e.2) t).get? k =
      (es.reverse.lookup k).or (t.get? k) := by
    induction es generalizing t with
    | nil => rfl
    | cons e es ih =>
      obtain ⟨name, value⟩ := e
      rw [List.foldl_cons, ih, get?_insert, List.reverse_cons, List.lookup_append, Option.or_assoc,
        lookup_singleton]
      split <;> rfl
  rw [ofList, hfold, get?_empty, Option.or_none]

/-- A table holds the last value under each name. -/
theorem mem_values_ofList_iff : v ∈ (ofList es).values ↔ v ∈ lastValues es := by
  simp only [mem_values_iff, get?_ofList]
  induction es with
  | nil => simp [lastValues]
  | cons e es ih =>
    obtain ⟨name, value⟩ := e
    have hnone (k : String) : es.reverse.lookup k = none ↔ k ∉ es.map (·.1) := by
      rw [List.lookup_eq_none_iff]
      simp only [List.mem_reverse, bne_iff_ne, List.mem_map, not_exists, not_and]
      exact forall₂_congr fun _ _ => ne_comm
    have hlookup (k : String) : ((name, value) :: es).reverse.lookup k = some v ↔
        es.reverse.lookup k = some v ∨ (k ∉ es.map (·.1) ∧ k = name ∧ value = v) := by
      rw [List.reverse_cons, List.lookup_append, Option.or_eq_some_iff, hnone, lookup_singleton]
      by_cases hk : k = name <;> simp [hk]
    simp only [hlookup, exists_or, ih, lastValues]
    by_cases hname : name ∈ es.map (·.1)
    · rw [if_pos hname, or_iff_left]
      rintro ⟨k, hk, rfl, -⟩
      exact hk hname
    · rw [if_neg hname, List.mem_cons, or_comm]
      refine or_congr_left ⟨fun ⟨k, _, _, hv⟩ => hv.symm, fun hv => ⟨name, hname, rfl, hv.symm⟩⟩

end Table

/-! ## Values and what is read from them -/

namespace Json

variable {α β : Type} {f : Json → Option α} {g : Json → Option β} {vs ws : List Json} {as bs : List α}

/-- The values are read one by one, and nothing else is. -/
structure Reads (f : Json → Option α) (vs : List Json) (as : List α) : Prop where
  read : ∀ v ∈ vs, ∃ a ∈ as, f v = some a
  stated : ∀ a ∈ as, ∃ v ∈ vs, f v = some a

/-- Nothing reads as nothing. -/
theorem Reads.nil : Reads f [] [] := ⟨by simp, by simp⟩

/-- Two lists in a row read as what each of them reads as. -/
theorem Reads.append (h : Reads f vs as) (h' : Reads f ws bs) : Reads f (vs ++ ws) (as ++ bs) := by
  constructor
  · intro v hv
    rcases List.mem_append.1 hv with hv | hv
    · obtain ⟨a, ha, hread⟩ := h.read v hv
      exact ⟨a, List.mem_append_left _ ha, hread⟩
    · obtain ⟨a, ha, hread⟩ := h'.read v hv
      exact ⟨a, List.mem_append_right _ ha, hread⟩
  · intro a ha
    rcases List.mem_append.1 ha with ha | ha
    · obtain ⟨v, hv, hread⟩ := h.stated a ha
      exact ⟨v, List.mem_append_left _ hv, hread⟩
    · obtain ⟨v, hv, hread⟩ := h'.stated a ha
      exact ⟨v, List.mem_append_right _ hv, hread⟩

/-- One value reads as what it decodes to. -/
theorem Reads.singleton {v : Json} {a : α} (h : f v = some a) : Reads f [v] [a] :=
  ⟨by simpa using h, by simpa using h⟩

/-- Values that decode one by one read as the list of what they decode to. -/
theorem Reads.of_forall₂ (h : List.Forall₂ (fun v a => f v = some a) vs as) : Reads f vs as := by
  induction h with
  | nil => exact .nil
  | cons hread _ ih => exact (Reads.singleton hread).append ih

/-- What holds of all values that are read is what all the written ones say. -/
theorem Reads.forall_iff {P : α → Prop} {Q : Json → Prop} (h : Reads f vs as)
    (hPQ : ∀ v a, f v = some a → (P a ↔ Q v)) : (∀ a ∈ as, P a) ↔ ∀ v ∈ vs, Q v := by
  constructor
  · intro hall v hv
    obtain ⟨a, ha, hread⟩ := h.read v hv
    exact (hPQ v a hread).1 (hall a ha)
  · intro hall a ha
    obtain ⟨v, hv, hread⟩ := h.stated a ha
    exact (hPQ v a hread).2 (hall v hv)

/-- A decoding that succeeds on a list succeeds on each of its entries. -/
theorem forall₂_of_mapM {γ δ : Type} {h : γ → Option δ} {xs : List γ} {ys : List δ}
    (hmap : xs.mapM h = some ys) : List.Forall₂ (fun x y => h x = some y) xs ys := by
  induction xs generalizing ys with
  | nil =>
    obtain rfl : [] = ys := Option.some.inj hmap
    exact .nil
  | cons x xs ih =>
    rw [List.mapM_cons] at hmap
    obtain ⟨y, hy, hmap⟩ := Option.bind_eq_some_iff.1 hmap
    obtain ⟨ys', hys, hmap⟩ := Option.bind_eq_some_iff.1 hmap
    cases hmap
    exact .cons hy (ih hys)

/-- The last values of members are read one by one. -/
theorem reads_lastValues {ms : List (String × Json)} {es : List (String × α)}
    (h : List.Forall₂ (fun m e => m.1 = e.1 ∧ f m.2 = some e.2) ms es) :
    Reads f (Table.lastValues ms) (Table.lastValues es) := by
  have hkeys : ms.map (·.1) = es.map (·.1) := by
    induction h with
    | nil => rfl
    | cons hme _ ih => rw [List.map_cons, List.map_cons, hme.1, ih]
  induction h with
  | nil => exact .nil
  | cons hme hrest ih =>
    obtain ⟨-, hkeys⟩ := List.cons_eq_cons.1 hkeys
    have hkey : _ = _ := hme.1
    rw [Table.lastValues, Table.lastValues, hkeys, hkey]
    split
    · exact ih hkeys
    · exact (Reads.singleton hme.2).append (ih hkeys)

/-! ## What a value says of revisions -/

/-- The name that is written for a branch. -/
def branchName? (v : Json) : Option String :=
  match v.fields? ["name", "commit"] with
  | some [some name, _] => name.text?
  | _ => none

/-- The commit that is written for a branch. -/
def branchCommit? (v : Json) : Option CommitId :=
  match v.fields? ["name", "commit"] with
  | some [_, some commit] => CommitId.ofJson? commit
  | _ => none

/-- The branches that are written for a revision have different names, and the commits that are
written for them are the one that is written for the revision. -/
def SaysOneCommit (v : Json) : Prop :=
  ∀ commit branches items, v.fields? ["commit", "branches"] = some [some commit, some branches] →
    branches.items? = some items →
    (items.map branchName?).Nodup ∧ ∀ item ∈ items, branchCommit? item = CommitId.ofJson? commit

end Json

/-- A branch is read from its two fields. -/
theorem Branch.fields_of_ofJson? {v : Json} {b : Branch} (h : Branch.ofJson? v = some b) :
    v.branchName? = some b.name ∧ v.branchCommit? = some b.commit := by
  obtain ⟨fields, hfields, h⟩ := Option.bind_eq_some_iff.1 h
  split at h
  · next name commit =>
    obtain ⟨n, hname, h⟩ := Option.bind_eq_some_iff.1 h
    obtain ⟨c, hcommit, h⟩ := Option.bind_eq_some_iff.1 h
    cases h
    simp only [Json.branchName?, Json.branchCommit?, hfields]
    exact ⟨hname, hcommit⟩
  · cases h

/-- A revision that is read is well formed exactly when its value says so. -/
theorem Revision.isWellFormed_iff_says {v : Json} {r : Revision} (h : Revision.ofJson? v = some r) :
    r.IsWellFormed ↔ v.SaysOneCommit := by
  obtain ⟨fields, hfields, h⟩ := Option.bind_eq_some_iff.1 h
  split at h
  · next commit branches =>
    cases branches with
    | none =>
      obtain ⟨branches, hnone, h⟩ := Option.bind_eq_some_iff.1 h
      cases hnone
      obtain ⟨c, -, h⟩ := Option.bind_eq_some_iff.1 h
      cases h
      refine iff_of_true (isWellFormed_ofCommit c) fun commit' branches' items hsame => ?_
      rw [hfields] at hsame
      cases hsame
    | some value =>
      obtain ⟨branches, hlist, h⟩ := Option.bind_eq_some_iff.1 h
      obtain ⟨c, hcommit, h⟩ := Option.bind_eq_some_iff.1 h
      cases h
      obtain ⟨items, hitems, hmap⟩ := Option.bind_eq_some_iff.1 hlist
      have hread := Json.forall₂_of_mapM hmap
      have hnames : items.map Json.branchName? = branches.map (some ·.name) := by
        rw [← List.forall₂_eq_eq_eq, List.forall₂_map_left_iff, List.forall₂_map_right_iff]
        exact hread.imp fun _ _ h => (Branch.fields_of_ofJson? h).1
      have hdistinct : (items.map Json.branchName?).Nodup ↔ (branches.map (·.name)).Nodup := by
        have hsome : branches.map (some ·.name) = (branches.map (·.name)).map some := by simp
        rw [hnames, hsome, List.nodup_map_iff fun _ _ => Option.some.inj]
      have hcommits : (∀ item ∈ items, item.branchCommit? = CommitId.ofJson? commit) ↔
          ∀ b ∈ branches, b.commit = c := by
        refine ((Json.Reads.of_forall₂ hread).forall_iff fun v b h => ?_).symm
        rw [(Branch.fields_of_ofJson? h).2, hcommit, Option.some.injEq]
      constructor
      · intro hwell commit' value' items' hsame hitems'
        rw [hfields] at hsame
        cases hsame
        rw [hitems] at hitems'
        cases hitems'
        exact ⟨hdistinct.2 hwell.names, hcommits.2 hwell.commit⟩
      · intro hsays
        obtain ⟨hnodup, hsame⟩ := hsays commit value items hfields hitems
        exact ⟨hdistinct.1 hnodup, hcommits.1 hsame⟩
  · cases h

/-! ## Builds and ledgers -/

/-- The values of a member that may be left out or null: none if it is. -/
def Json.presentValues (v? : Option Json) : List Json :=
  (v?.filter fun v => !v.isNull).toList

/-- What is read of a member that may be left out or null. -/
def Json.present? {α : Type} (f : Json → Option α) : Option Json → Option (Option α)
  | some v => v.optional? f
  | none => some none

/-- A field that may be missing, with what is done with it. -/
theorem Json.present?_bind {α β : Type} {f : Json → Option α} (v? : Option Json)
    (k : Option α → Option β) : (match v? with
      | some v => v.optional? f >>= k
      | none => some none >>= k) = (present? f v?).bind k := by
  cases v? <;> rfl

/-- A field that is there reads as what it decodes to. -/
theorem Json.reads_presentValues {α : Type} {f : Json → Option α} {v? : Option Json}
    {a? : Option α} (h : present? f v? = some a?) : Reads f (presentValues v?) a?.toList := by
  cases v? with
  | none =>
    cases h
    exact .nil
  | some v =>
    simp only [present?, optional?] at h
    rw [presentValues, Option.filter_some]
    split at h
    · next hnull =>
      cases h
      rw [if_neg (by simp [hnull])]
      exact .nil
    · next hvalue =>
      obtain ⟨a, hread, rfl⟩ := Option.map_eq_some_iff.1 h
      rw [if_pos (by simp [hvalue])]
      exact .singleton hread

namespace Build

variable {v : Json} {b : Build}

/-- The revisions of a build. -/
def revisions (b : Build) : List Revision :=
  b.revision :: b.cause.toList

/-- The values of the revisions that are written for a build. -/
def revisionValues (v : Json) : List Json :=
  match v.fields? ["revision", "marked", "build_number", "result"] with
  | some [revision, cause, _, _] => revision.toList ++ Json.presentValues cause
  | _ => []

/-- The revisions of a build are read from the values that its message holds for them. -/
theorem reads_revisions (h : ofJson? v = some b) :
    Json.Reads Revision.ofJson? (revisionValues v) b.revisions := by
  obtain ⟨fields, hfields, h⟩ := Option.bind_eq_some_iff.1 h
  split at h
  · next revision cause number result =>
    obtain ⟨cause', hcause, h⟩ := Option.bind_eq_some_iff.1 ((Json.present?_bind cause _).symm.trans h)
    obtain ⟨r, hrevision, h⟩ := Option.bind_eq_some_iff.1 h
    obtain ⟨n, -, h⟩ := Option.bind_eq_some_iff.1 h
    obtain ⟨result', -, h⟩ := Option.bind_eq_some_iff.1 h
    cases h
    have hvalues : revisionValues v = [revision] ++ Json.presentValues cause := by
      rw [revisionValues, hfields]
      rfl
    rw [hvalues]
    exact (Json.Reads.singleton hrevision).append (Json.reads_presentValues hcause)
  · cases h

end Build

namespace Ledger

variable {v : Json} {l : Ledger}

/-- The builds that are kept. -/
def kept (l : Ledger) : List Build :=
  l.byBranch.values ++ l.last.toList

/-- The revisions of the builds that are kept. -/
def revisions (l : Ledger) : List Revision :=
  l.kept.flatMap Build.revisions

/-- The values of the builds that are written for a ledger, of several for one name the last. -/
def buildValues (v : Json) : List Json :=
  match v.fields? ["builds_by_branch", "last_build"] with
  | some [builds, last] =>
    Table.lastValues ((builds.bind Json.members?).getD []) ++ Json.presentValues last
  | _ => []

/-- The values of the revisions that are written for a ledger. -/
def revisionValues (v : Json) : List Json :=
  (buildValues v).flatMap Build.revisionValues

/-- The builds for branches as they are written. -/
def members? : Option Json → Option (List (String × Build))
  | some bs => do (← bs.members?).mapM fun m => (Build.ofJson? m.2).map (m.1, ·)
  | none => some []

/-- The members of a field that may be missing, with what is done with them. -/
theorem members?_bind {β : Type} (builds : Option Json) (k : List (String × Build) → Option β) :
    (match builds with
      | some bs => bs.members? >>= fun ms =>
        (ms.mapM fun m => (Build.ofJson? m.2).map (m.1, ·)) >>= k
      | none => some [] >>= k) = (members? builds).bind k := by
  cases builds with
  | none => rfl
  | some bs => exact (Option.bind_assoc _ _ _).symm

/-- The members of an object read as the builds under their names, the last one of each. -/
theorem reads_members {builds : Option Json} {es : List (String × Build)}
    (h : members? builds = some es) :
    Json.Reads Build.ofJson? (Table.lastValues ((builds.bind Json.members?).getD []))
      (Table.ofList es).values := by
  have hlast : Json.Reads Build.ofJson?
      (Table.lastValues ((builds.bind Json.members?).getD [])) (Table.lastValues es) := by
    cases builds with
    | none =>
      cases h
      exact .nil
    | some bs =>
      obtain ⟨ms, hms, h⟩ := Option.bind_eq_some_iff.1 h
      rw [Option.bind_some, hms]
      refine Json.reads_lastValues ((Json.forall₂_of_mapM h).imp fun m e hme => ?_)
      obtain ⟨b, hb, rfl⟩ := Option.map_eq_some_iff.1 hme
      exact ⟨rfl, hb⟩
  exact ⟨fun v hv => by simpa only [Table.mem_values_ofList_iff] using hlast.read v hv,
    fun b hb => hlast.stated b (Table.mem_values_ofList_iff.1 hb)⟩

/-- The builds of a ledger are read from the values that its text holds for them. -/
theorem reads_kept (h : ofJson? v = some l) : Json.Reads Build.ofJson? (buildValues v) l.kept := by
  obtain ⟨fields, hfields, h⟩ := Option.bind_eq_some_iff.1 h
  split at h
  · next builds last =>
    obtain ⟨es, hbuilds, h⟩ := Option.bind_eq_some_iff.1 ((members?_bind builds _).symm.trans h)
    obtain ⟨last', hlast, h⟩ := Option.bind_eq_some_iff.1 ((Json.present?_bind last _).symm.trans h)
    cases h
    have hvalues : buildValues v =
        Table.lastValues ((builds.bind Json.members?).getD []) ++ Json.presentValues last := by
      rw [buildValues, hfields]
    rw [hvalues]
    exact (reads_members hbuilds).append (Json.reads_presentValues hlast)
  · cases h

end Ledger

/-- Reading the text of a revision, a build or a ledger checks nothing: its revisions are all well
formed exactly when the values that are written for them say so. -/
theorem decoded_isWellFormed_iff {text : String} {v : Json} (hread : Json.read? text = some v) :
    (∀ r, (Json.read? text).bind Revision.ofJson? = some r →
      (r.IsWellFormed ↔ v.SaysOneCommit)) ∧
    (∀ b, (Json.read? text).bind Build.ofJson? = some b →
      ((∀ r ∈ b.revisions, r.IsWellFormed) ↔ ∀ w ∈ Build.revisionValues v, w.SaysOneCommit)) ∧
    ∀ l, (Json.read? text).bind Ledger.ofJson? = some l →
      ((∀ r ∈ l.revisions, r.IsWellFormed) ↔ ∀ w ∈ Ledger.revisionValues v, w.SaysOneCommit) := by
  have hbuild (v : Json) (b : Build) (h : Build.ofJson? v = some b) :
      (∀ r ∈ b.revisions, r.IsWellFormed) ↔ ∀ w ∈ Build.revisionValues v, w.SaysOneCommit :=
    (Build.reads_revisions h).forall_iff fun _ _ => Revision.isWellFormed_iff_says
  simp only [hread, Option.bind_some]
  refine ⟨fun r => Revision.isWellFormed_iff_says, hbuild v, fun l h => ?_⟩
  rw [Ledger.revisions, Ledger.revisionValues, List.forall_mem_flatMap, List.forall_mem_flatMap]
  exact (Ledger.reads_kept h).forall_iff hbuild

/-- Any revision is read from its text. -/
theorem Revision.read_compact_json (r : Revision) :
    (Json.read? r.json.compact).bind Revision.ofJson? = some r := by
  rw [(r.composed_json 0).read?_compact, Option.bind_some, Revision.ofJson?_json]

/-- A build is written twice under the name of one branch, the first time with a branch that points to
another commit: only the second one is kept. -/
theorem decoded_isWellFormed_overwritten :
    let a : CommitId := ⟨"aaaaaaaaaaaaaaaaaaaaaaaaaaaaaaaaaaaaaaaa", by decide⟩
    let b : CommitId := ⟨"bbbbbbbbbbbbbbbbbbbbbbbbbbbbbbbbbbbbbbbb", by decide⟩
    let first : Build := ⟨⟨a, [⟨"origin/master", b⟩]⟩, none, 1, .success⟩
    let second : Build := ⟨⟨b, [⟨"origin/master", b⟩]⟩, none, 2, .success⟩
    let v : Json := .record [("builds_by_branch",
      .record [("origin/master", first.json), ("origin/master", second.json)])]
    let l : Ledger := ⟨.ofList [("origin/master", second)], none⟩
    Json.read? v.compact = some v ∧ (Json.read? v.compact).bind Ledger.ofJson? = some l ∧
      ¬ first.revision.IsWellFormed ∧ (∀ r ∈ l.revisions, r.IsWellFormed) ∧
      ∀ w ∈ Ledger.revisionValues v, w.SaysOneCommit := by
  intro a b first second v l
  have hcomposed : Json.Composed 6 v :=
    .record (by simp [Json.Composed.record, Build.composed_json 0])
  have hread := hcomposed.read?_compact
  have hl : (Json.read? v.compact).bind Ledger.ofJson? = some l := by
    rw [hread]
    decide +kernel
  have hwell : ∀ r ∈ l.revisions, r.IsWellFormed := by decide
  exact ⟨hread, hl, by decide, hwell, ((decoded_isWellFormed_iff hread).2.2 l hl).1 hwell⟩

/-- A branch that points to another commit is read as it is, and so is a name that is written twice;
a build and a ledger are read with such revisions as well. -/
theorem decoded_not_isWellFormed :
    let text := "\x7b\"commit\": \"aaaaaaaaaaaaaaaaaaaaaaaaaaaaaaaaaaaaaaaa\", " ++
      "\"branches\": [\x7b\"name\": \"origin/master\", " ++
        "\"commit\": \"bbbbbbbbbbbbbbbbbbbbbbbbbbbbbbbbbbbbbbbb\"\x7d]\x7d"
    let a : CommitId := ⟨"aaaaaaaaaaaaaaaaaaaaaaaaaaaaaaaaaaaaaaaa", by decide⟩
    let b : CommitId := ⟨"bbbbbbbbbbbbbbbbbbbbbbbbbbbbbbbbbbbbbbbb", by decide⟩
    let other : Revision := ⟨a, [⟨"origin/master", b⟩]⟩
    let twice : Revision := ⟨a, [⟨"origin/master", a⟩, ⟨"origin/master", a⟩]⟩
    let build : Build := ⟨other, none, 1, .success⟩
    let ledger : Ledger := .record .empty build
    ((Json.read? text).bind Revision.ofJson? = some other ∧ ¬ other.IsWellFormed) ∧
      ((Json.read? twice.json.compact).bind Revision.ofJson? = some twice ∧ ¬ twice.IsWellFormed) ∧
      ((Json.read? build.json.compact).bind Build.ofJson? = some build ∧
        ¬ ∀ r ∈ build.revisions, r.IsWellFormed) ∧
      (Json.read? ledger.json.pretty).bind Ledger.ofJson? = some ledger ∧
        ¬ ∀ r ∈ ledger.revisions, r.IsWellFormed := by
  intro text a b other twice build ledger
  refine ⟨⟨by decide +kernel, by decide⟩, ⟨twice.read_compact_json, by decide⟩, ⟨?_, by decide⟩,
    ledger.read_pretty_json, by decide⟩
  rw [(build.composed_json 0).read?_compact, Option.bind_some, build.ofJson?_json]

/-! ## What is written for well-formed revisions -/

namespace Ledger

variable {l : Ledger} {b : Build}

/-- All revisions that are kept are well formed. -/
def IsWellFormed (l : Ledger) : Prop := ∀ r ∈ l.revisions, r.IsWellFormed

/-- A ledger without builds has nothing that could be wrong. -/
theorem isWellFormed_empty : empty.IsWellFormed := fun _ h => by cases h

/-- What is kept after a record is the new build or was kept before. -/
theorem mem_kept_record {d : Build} (h : d ∈ (l.record b).kept) : d = b ∨ d ∈ l.kept := by
  rcases List.mem_append.1 h with h | h
  · obtain ⟨k, hk⟩ := Table.mem_values_iff.1 h
    rw [record, Table.get?_foldl_insert] at hk
    split at hk
    · exact .inl (Option.some.inj hk).symm
    · exact .inr (List.mem_append_left _ (Table.mem_values_iff.2 ⟨k, hk⟩))
  · exact .inl (List.mem_singleton.1 h)

/-- Recording a build of well-formed revisions keeps a ledger well formed. -/
theorem IsWellFormed.record (h : l.IsWellFormed) (hb : ∀ r ∈ b.revisions, r.IsWellFormed) :
    (l.record b).IsWellFormed := by
  intro r hr
  obtain ⟨d, hd, hmem⟩ := List.mem_flatMap.1 hr
  rcases mem_kept_record hd with rfl | hd
  · exact hb r hmem
  · exact h r (List.mem_flatMap.2 ⟨d, hd, hmem⟩)

end Ledger

/-- As long as the changes of a store leave ledgers well formed, so are all that are loaded, although
every one of them was read from a text. -/
theorem Store.Run.isWellFormed_of_load {s : Store} {log : Log} {fs : Files} {job : String} {l : Ledger}
    (h : Run s log fs) (hlog : ∀ c ∈ log, ∀ l : Ledger, l.IsWellFormed → (c.2 l).IsWellFormed)
    (hload : Files.outcome (s.load job) fs = .ok l) : l.IsWellFormed := by
  have hledger : (ledgerOf log job).IsWellFormed := by
    unfold ledgerOf
    have hchanges : ∀ c ∈ log.filter fun c => key c.1 == key job, ∀ l : Ledger,
        l.IsWellFormed → (c.2 l).IsWellFormed := fun c hc => hlog c (List.mem_filter.1 hc).1
    generalize log.filter (fun c => key c.1 == key job) = changes at hchanges
    -- the changes of the key are made one after the other
    suffices hfold : ∀ l : Ledger, l.IsWellFormed →
        (changes.foldl (fun l c => c.2 l) l).IsWellFormed from hfold _ Ledger.isWellFormed_empty
    induction changes with
    | nil => exact fun l hl => hl
    | cons c cs ih =>
      obtain ⟨hc, hcs⟩ := List.forall_mem_cons.1 hchanges
      exact fun l hl => ih hcs _ (hc l hl)
  rw [h.represents.outcome_load] at hload
  split at hload
  · cases hload
  · cases hload
    exact hledger

end NextBuild
