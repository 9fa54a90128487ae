/-!
# Tables sorted by name

A finite map from names to values, kept as its list of entries in strictly ascending order of the
names.  The order is part of the type, so a table is determined by what it answers, and listing a
table never depends on the order of its insertions.
-/

namespace NextBuild

namespace Table

/-- Put an entry at its place in an ascending list, in place of an entry of the same name. -/
def insertEntry {α : Type} (k : String) (v : α) : List (String × α) → List (String × α)
  | [] => [(k, v)]
  | e :: r =>
    if k < e.1 then (k, v) :: e :: r
    else if k = e.1 then (k, v) :: r
    else e :: insertEntry k v r

/-- After an insertion there are the new entry and those from before. -/
theorem mem_insertEntry {α : Type} {k : String} {v : α} {es : List (String × α)} {e : String × α}
    (h : e ∈ insertEntry k v es) : e = (k, v) ∨ e ∈ es := by
  induction es with
  | nil => simpa [insertEntry] using h
  | cons d r ih =>
    unfold insertEntry at h
    split at h
    · simpa using h
    · split at h
      · rcases List.mem_cons.1 h with h | h
        · exact .inl h
        · exact .inr (List.mem_cons_of_mem _ h)
      · rcases List.mem_cons.1 h with h | h
        · exact .inr (h ▸ List.mem_cons_self)
        · exact (ih h).imp_right (List.mem_cons_of_mem _)

/-- Names that differ are in one order or in the other. -/
theorem lt_of_not_lt_of_ne {a b : String} (h : ¬ a < b) (hne : ¬ a = b) : b < a := by
  have hle : b ≤ a := String.not_lt.1 h
  rcases String.le_total a b with h' | h'
  · exact absurd (String.le_antisymm h' hle) hne
  · exact String.not_le.1 fun hab => hne (String.le_antisymm hab hle)

/-- An insertion keeps the order of the names. -/
theorem pairwise_insertEntry {α : Type} (k : String) (v : α) {es : List (String × α)}
    (h : es.Pairwise (fun a b => a.1 < b.1)) :
    (insertEntry k v es).Pairwise (fun a b => a.1 < b.1) := by
  induction es with
  | nil => simp [insertEntry]
  | cons e r ih =>
    obtain ⟨he, hr⟩ := List.pairwise_cons.1 h
    unfold insertEntry
    split
    · next hk =>
      refine List.pairwise_cons.2 ⟨fun b hb => ?_, h⟩
      rcases List.mem_cons.1 hb with rfl | hb
      · exact hk
      · exact String.lt_trans hk (he b hb)
    · next hk =>
      split
      · next hek =>
        exact List.pairwise_cons.2 ⟨fun b hb => by rw [hek]; exact he b hb, hr⟩
      · next hek =>
        refine List.pairwise_cons.2 ⟨fun b hb => ?_, ih hr⟩
        rcases mem_insertEntry hb with rfl | hb
        · exact lt_of_not_lt_of_ne hk hek
        · exact he b hb

end Table

/-- A finite map from names to values, listed in ascending order of the names. -/
structure Table (α : Type) where
  /-- The entries in order. -/
  entries : List (String × α)
  /-- The names ascend. -/
  ascending : entries.Pairwise (fun a b => a.1 < b.1)
deriving DecidableEq

namespace Table

variable {α : Type}

/-- The table without entries. -/
def empty : Table α := ⟨[], .nil⟩

instance : Inhabited (Table α) := ⟨empty⟩

/-- The value of a name. -/
def get? (t : Table α) (k : String) : Option α :=
  t.entries.lookup k

/-- The table with the value `v` for the name `k`. -/
def insert (t : Table α) (k : String) (v : α) : Table α :=
  ⟨insertEntry k v t.entries, pairwise_insertEntry k v t.ascending⟩

/-- The table without the name `k`. -/
def erase (t : Table α) (k : String) : Table α :=
  ⟨t.entries.filter (fun e => e.1 != k), t.ascending.filter _⟩

/-- The table of a list of entries; the last entry of a name counts. -/
def ofList (es : List (String × α)) : Table α :=
  es.foldl (fun t e => t.insert e.1 e.2) empty

/-- The names in order. -/
def keys (t : Table α) : List String :=
  t.entries.map (·.1)

/-- The values in the order of their names. -/
def values (t : Table α) : List α :=
  t.entries.map (·.2)

/-- The table has no entries. -/
def isEmpty (t : Table α) : Bool :=
  t.entries.isEmpty

/-- Nothing is found in an empty table. -/
@[simp]
theorem get?_empty (k : String) : (empty : Table α).get? k = none := rfl

/-- After an insertion the new value is found under its name, and the others as before. -/
theorem lookup_insertEntry (k : String) (v : α) (es : List (String × α)) (k' : String) :
    (insertEntry k v es).lookup k' = if k' = k then some v else es.lookup k' := by
  induction es with
  | nil => grind [insertEntry]
  | cons e r ih =>
    unfold insertEntry
    grind

/-- An insertion answers its own name with its value and every other name as before. -/
@[simp]
theorem get?_insert (t : Table α) (k : String) (v : α) (k' : String) :
    (t.insert k v).get? k' = if k' = k then some v else t.get? k' :=
  lookup_insertEntry k v t.entries k'

/-- Among ascending names a look-up finds exactly the entries. -/
theorem lookup_eq_some_iff {es : List (String × α)} (h : es.Pairwise (fun a b => a.1 < b.1))
    {k : String} {v : α} : es.lookup k = some v ↔ (k, v) ∈ es := by
  induction es with
  | nil => simp
  | cons e r ih =>
    obtain ⟨he, hr⟩ := List.pairwise_cons.1 h
    obtain ⟨k', v'⟩ := e
    rw [List.lookup_cons, List.mem_cons, Prod.mk.injEq]
    by_cases hk : k = k'
    · have hrest : (k', v) ∉ r := fun hmem => String.lt_irrefl k' (he _ hmem)
      simp [hk, hrest, eq_comm]
    · have hbeq : (k == k') = false := beq_false_of_ne hk
      simp [hbeq, hk, ih hr]

/-- The names are those that the table has an answer for. -/
theorem mem_keys_iff {t : Table α} {k : String} : k ∈ t.keys ↔ (t.get? k).isSome = true := by
  simp only [Option.isSome_iff_exists, get?, lookup_eq_some_iff t.ascending, keys, List.mem_map]
  constructor
  · rintro ⟨e, he, rfl⟩
    exact ⟨e.2, he⟩
  · rintro ⟨v, hv⟩
    exact ⟨_, hv, rfl⟩

/-- No name stands in a table twice. -/
theorem nodup_keys (t : Table α) : t.keys.Nodup := by
  refine List.pairwise_map.2 (t.ascending.imp ?_)
  intro a b hab heq
  rw [heq] at hab
  exact String.lt_irrefl b.1 hab

/-- Tables with the same entries are equal. -/
theorem eq_of_entries_eq {t u : Table α} (h : t.entries = u.entries) : t = u := by
  cases t
  cases u
  simpa using h

/-- A table is determined by what it answers. -/
theorem ext_get? {t u : Table α} (h : ∀ k, t.get? k = u.get? k) : t = u := by
  have hmem (e : String × α) : e ∈ t.entries ↔ e ∈ u.entries := by
    rw [← lookup_eq_some_iff t.ascending, ← lookup_eq_some_iff u.ascending]
    exact iff_of_eq (congrArg (· = some e.2) (h e.1))
  have hnodup (t : Table α) : t.entries.Nodup := by
    refine List.Pairwise.imp ?_ t.ascending
    intro a b hab heq
    rw [heq] at hab
    exact String.lt_irrefl b.1 hab
  have hperm : t.entries.Perm u.entries :=
    (List.perm_ext_iff_of_nodup (hnodup t) (hnodup u)).2 hmem
  refine eq_of_entries_eq (hperm.eq_of_pairwise (fun a b _ _ hab hba => ?_) t.ascending u.ascending)
  exact absurd (String.lt_trans hab hba) (String.lt_irrefl a.1)

/-- The values of a table are what it answers. -/
theorem mem_values_iff {t : Table α} {v : α} : v ∈ t.values ↔ ∃ k, t.get? k = some v := by
  simp only [values, get?, lookup_eq_some_iff t.ascending, List.mem_map]
  constructor
  · intro h
    obtain ⟨e, he, rfl⟩ := h
    exact ⟨e.1, he⟩
  · intro h
    obtain ⟨k, hk⟩ := h
    exact ⟨_, hk, rfl⟩

/-- A value that is put under several names is the answer for each of these. -/
theorem get?_foldl_insert (names : List String) (v : α) (t : Table α) (k : String) :
    (names.foldl (fun t name => t.insert name v) t).get? k =
      if k ∈ names then some v else t.get? k := by
  induction names generalizing t with
  | nil => simp
  | cons name names ih =>
    rw [List.foldl_cons, ih, get?_insert]
    by_cases hmem : k ∈ names <;> by_cases hk : k = name <;> simp [hmem, hk]

/-- An entry behind all names comes at the end. -/
theorem insertEntry_of_forall_lt {k : String} {v : α} {es : List (String × α)}
    (h : ∀ e ∈ es, e.1 < k) : insertEntry k v es = es ++ [(k, v)] := by
  induction es with
  | nil => rfl
  | cons e r ih =>
    have he : e.1 < k := h e List.mem_cons_self
    have hlt : ¬ k < e.1 := fun hk => String.lt_irrefl k (String.lt_trans hk he)
    have hne : k ≠ e.1 := fun hk => String.lt_irrefl k (hk.symm ▸ he)
    rw [insertEntry, if_neg hlt, if_neg hne, ih fun d hd => h d (List.mem_cons_of_mem _ hd)]
    rfl

/-- Entries in ascending order come one behind the other. -/
theorem entries_foldl_insert {es : List (String × α)} {t : Table α}
    (h : (t.entries ++ es).Pairwise (fun a b => a.1 < b.1)) :
    (es.foldl (fun t e => t.insert e.1 e.2) t).entries = t.entries ++ es := by
  induction es generalizing t with
  | nil => simp
  | cons e r ih =>
    have hinsert : (t.insert e.1 e.2).entries = t.entries ++ [e] :=
      insertEntry_of_forall_lt fun d hd =>
        (List.pairwise_append.1 h).2.2 d hd e List.mem_cons_self
    have hrest := ih (t := t.insert e.1 e.2) (by rw [hinsert]; simpa using h)
    rw [List.foldl_cons, hrest, hinsert, List.append_assoc]
    rfl

/-- A table is the table of its entries. -/
theorem ofList_entries (t : Table α) : ofList t.entries = t :=
  eq_of_entries_eq (entries_foldl_insert (t := empty) t.ascending)

end Table

end NextBuild
