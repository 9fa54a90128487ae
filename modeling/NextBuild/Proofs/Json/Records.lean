import Mathlib.Data.List.Nodup
import NextBuild.Json.Ledger
import NextBuild.Json.Tagged
import NextBuild.Proofs.Json.Reading

/-!
# Looking into what was composed

What is put into a value is found in it again: a text in a string, an integer of 64 bits in a
number, the items of a list in an array, and the fields in a record, whose names are never there
twice.  A composed value of few levels is readable as a whole, so the tag of a record is found
besides its other fields.
-/

namespace NextBuild.Json

/-! ## Scalars -/

/-- A text is read as it was written. -/
@[simp]
theorem text?_ofText (s : String) : (ofText s).text? = some s := Quoted.decode?_encode s

/-- A choice is read as it was written. -/
@[simp]
theorem choice?_ofText (s : String) : (ofText s).choice? = some s := Quoted.decode?_encode s

/-- A choice without fields is read as it was written. -/
@[simp]
theorem emptyChoice?_ofText (s : String) : (ofText s).emptyChoice? = some s :=
  Quoted.decode?_encode s

/-- A signed number of 64 bits is read as it was written. -/
@[simp]
theorem int64?_ofInt (n : Int64) : (ofInt n.toInt).int64? = some n := by
  have hmin : Int64.minValue.toInt ≤ n.toInt := Int64.minValue_le_toInt n
  have hmax : n.toInt ≤ Int64.maxValue.toInt := Int64.toInt_le n
  simp only [int64?, int?, ofInt, Number.int?_ofInt, Option.bind_eq_bind, Option.bind_some, hmin,
    hmax, decide_true, Bool.and_self, if_true, Int64.ofInt_toInt]

/-- An unsigned number of 64 bits is read as it was written. -/
@[simp]
theorem uint64?_ofInt (n : UInt64) : (ofInt n.toNat).uint64? = some n := by
  have hint : (ofInt n.toNat).int? = some (n.toNat : Int) := Number.int?_ofInt n.toNat
  have hsize : (n.toNat : Int) < UInt64.size := Int.ofNat_lt.2 n.toNat_lt_size
  have hrange : (decide (0 ≤ (n.toNat : Int)) && decide ((n.toNat : Int) < UInt64.size)) = true :=
    Bool.and_eq_true_iff.2 ⟨decide_eq_true (Int.natCast_nonneg _), decide_eq_true hsize⟩
  rw [uint64?, hint, Option.bind_eq_bind, Option.bind_some, if_pos hrange, Int.toNat_natCast,
    UInt64.ofNat_toNat]

/-- A signed number is a plain value. -/
theorem Composed.int64 (depth : Nat) (n : Int64) : Composed depth (ofInt n.toInt) := by
  have hmin : -2 ^ 63 ≤ n.toInt := Int64.minValue_le_toInt n
  have hmax : n.toInt < 2 ^ 63 := Int64.toInt_lt n
  have hsize : UInt64.size = 2 ^ 64 := rfl
  exact .integer depth (by omega)

/-- A number without a sign is a plain value. -/
theorem Composed.uint64 (depth : Nat) (n : UInt64) : Composed depth (ofInt n.toNat) :=
  .integer depth n.toNat_lt_size

/-! ## Lists and records -/

/-- The items of a list are composed into an array. -/
theorem Composed.array_map {α : Type} {depth : Nat} {f : α → Json}
    (h : ∀ a, Composed depth (f a)) (as : List α) : Composed (depth + 1) (.array (as.map f)) := by
  refine .array fun v hv => ?_
  obtain ⟨a, -, rfl⟩ := List.mem_map.1 hv
  exact h a

section Fields

variable {α : Type} {f : α → Json} {g : Json → Option α} {ms : List (String × Json)}

/-- The items of a list are found in their array. -/
theorem list?_array {as : List α} (h : ∀ a ∈ as, g (f a) = some a) :
    (array (as.map f)).list? g = some as := by
  simp only [list?, items?, Option.bind_eq_bind, Option.bind_some]
  induction as with
  | nil => rfl
  | cons a as ih =>
    have has := ih fun b hb => h b (List.mem_cons_of_mem _ hb)
    rw [List.map_cons, List.mapM_cons, h a List.mem_cons_self, has]
    rfl

/-- A value that is there is found, unless it is written as nothing. -/
theorem optional?_ofOption (hnull : ∀ a, (f a).isNull = false) (h : ∀ a, g (f a) = some a)
    (a? : Option α) : (ofOption f a?).optional? g = some a? := by
  cases a? with
  | none => rfl
  | some a => simp [ofOption, optional?, hnull, h]

/-- The members of a record are found with their names. -/
@[simp]
theorem members?_record (ms : List (String × Json)) : (record ms).members? = some ms := by
  simp only [record, members?, List.mapM_map]
  induction ms with
  | nil => rfl
  | cons m ms ih =>
    rw [List.mapM_cons, ih]
    simp [Quoted.decode?_encode]

/-- Names that are there at most once are no obstacle. -/
theorem hasUnique_of_nodup (h : (ms.map (·.1)).Nodup) (names : List String) :
    hasUnique names ms = true := by
  simp only [hasUnique, List.all_eq_true, decide_eq_true_eq]
  intro name _
  have hcount := List.nodup_iff_count_le_one.1 h name
  rw [List.count_eq_length_filter, List.filter_map, List.length_map] at hcount
  exact hcount

/-- The fields of a record are found under their names. -/
theorem fields?_record (h : (ms.map (·.1)).Nodup) (names : List String) :
    (record ms).fields? names = some (names.map fun n => ms.lookup n) := by
  have hmembers := members?_record ms
  unfold fields?
  split
  · next heq => cases heq
  · simp [hmembers, hasUnique_of_nodup h]

/-- A record may be read without looking at its fields. -/
@[simp]
theorem noFields?_record (ms : List (String × Json)) : (record ms).noFields? = some () := rfl

end Fields

/-! ## Tags -/

section Tags

variable {depth : Nat} {v : Json}

/-- Items nest as deep as the deepest of them. -/
theorem depthOfItems_le {vs : List Json} (h : ∀ v ∈ vs, v.depth ≤ depth) :
    depthOfItems vs ≤ depth := by
  induction vs with
  | nil => exact Nat.zero_le _
  | cons v vs ih =>
    exact Nat.max_le.2 ⟨h v List.mem_cons_self, ih fun w hw => h w (List.mem_cons_of_mem _ hw)⟩

/-- Members nest as deep as the deepest of them. -/
theorem depthOfMembers_le {ms : List (List Char × Json)} (h : ∀ m ∈ ms, m.2.depth ≤ depth) :
    depthOfMembers ms ≤ depth := by
  induction ms with
  | nil => exact Nat.zero_le _
  | cons m ms ih =>
    exact Nat.max_le.2 ⟨h m List.mem_cons_self, ih fun n hn => h n (List.mem_cons_of_mem _ hn)⟩

/-- A composed value has no more levels than it says. -/
theorem Composed.depth_le (hv : Composed depth v) : v.depth ≤ depth := by
  induction hv with
  | null | bool | integer | text => exact Nat.zero_le _
  | array _ ih =>
    have := depthOfItems_le ih
    rw [Json.depth]
    omega
  | @record depth ms _ ih =>
    have : depthOfMembers (ms.map fun m => (Quoted.encode m.1, m.2)) ≤ depth := by
      refine depthOfMembers_le fun m hm => ?_
      obtain ⟨n, hn, rfl⟩ := List.mem_map.1 hm
      exact ih n hn
    rw [Json.record, Json.depth]
    omega

/-- Items can be read if each of them can. -/
theorem areItemsReadable_of_forall {vs : List Json} (h : ∀ v ∈ vs, v.isReadable = true) :
    areItemsReadable vs = true := by
  induction vs with
  | nil => rfl
  | cons v vs ih =>
    rw [areItemsReadable, h v List.mem_cons_self, ih fun w hw => h w (List.mem_cons_of_mem _ hw)]
    rfl

/-- Members can be read if each of their values can. -/
theorem areMembersReadable_of_forall {ms : List (String × Json)}
    (h : ∀ m ∈ ms, m.2.isReadable = true) :
    areMembersReadable (ms.map fun m => (Quoted.encode m.1, m.2)) = true := by
  induction ms with
  | nil => rfl
  | cons m ms ih =>
    rw [List.map_cons, areMembersReadable, h m List.mem_cons_self,
      ih fun n hn => h n (List.mem_cons_of_mem _ hn), Quoted.decode?_encode]
    rfl

/-- Every text and every number of a composed value can be read. -/
theorem Composed.isReadable (hv : Composed depth v) : v.isReadable = true := by
  induction hv with
  | null | bool => rfl
  | @integer _ n hn =>
    have hdigits : (Nat.toDigits 10 n.natAbs).length ≤ 20 :=
      (Nat.length_toDigits_le_iff (by omega) (by omega)).2 (Nat.lt_trans hn (by decide))
    simp [ofInt, Json.isReadable, Number.overflows_ofInt (Nat.le_trans hdigits (by omega))]
  | text _ s => simp [ofText, Json.isReadable, Quoted.decode?_encode]
  | array _ ih => simpa [Json.isReadable] using areItemsReadable_of_forall ih
  | record _ ih => simpa [Json.record, Json.isReadable] using areMembersReadable_of_forall ih

/-- A composed value of few levels can be read as a whole. -/
theorem Composed.isPlain (hv : Composed depth v) (h : depth ≤ depthLimit) : v.isPlain = true := by
  simp [Json.isPlain, Nat.le_trans hv.depth_le h, hv.isReadable]

/-- The tag of a record is found besides the other fields. -/
theorem tagged?_record {tag text : String} {ms : List (String × Json)}
    (hv : Composed depth (record ((tag, ofText text) :: ms))) (hdepth : depth ≤ depthLimit)
    (htag : ∀ m ∈ ms, m.1 ≠ tag) :
    (record ((tag, ofText text) :: ms)).tagged? tag = some (text, record ms) := by
  have hmembers := members?_record ((tag, ofText text) :: ms)
  have hothers : ms.filter (fun m => m.1 == tag) = [] := by simpa using htag
  have hrest : (ms.map fun m => (Quoted.encode m.1, m.2)).filter
      (fun m => Quoted.decode? m.1 != some tag) = ms.map fun m => (Quoted.encode m.1, m.2) := by
    rw [List.filter_map]
    congr 1
    simpa [Quoted.decode?_encode] using htag
  unfold tagged?
  rw [hv.isPlain hdepth]
  simp only [record, List.map_cons] at hmembers ⊢
  simp [hmembers, hothers, hrest, Quoted.decode?_encode]

end Tags

end NextBuild.Json
