import Mathlib.Data.List.Basic

/-!
# Stable sorts

A list is sorted by a key when it has the same entries in the order of their keys, and entries of the
same key in the order in which they were.  The second part says that for each key the entries with
it form the same list before and after, and with the first part this determines the whole list.
-/

namespace NextBuild

variable {α : Type} {key : α → Nat} {xs ys zs : List α}

/-- The entries with a key, in their order. -/
def withKey (key : α → Nat) (k : Nat) (xs : List α) : List α :=
  xs.filter fun a => key a = k

/-- The entries with a key are those of the list that have it. -/
theorem mem_withKey {k : Nat} {a : α} : a ∈ withKey key k xs ↔ a ∈ xs ∧ key a = k := by
  simp [withKey]

/-- A first entry with the key is kept. -/
theorem withKey_cons_of_eq {k : Nat} {a : α} (h : key a = k) :
    withKey key k (a :: xs) = a :: withKey key k xs := by
  simp [withKey, h]

/-- A first entry with another key is left out. -/
theorem withKey_cons_of_ne {k : Nat} {a : α} (h : key a ≠ k) :
    withKey key k (a :: xs) = withKey key k xs := by
  simp [withKey, h]

/-- The second list is the first one, sorted by the key without any other change of order. -/
structure SortedBy (key : α → Nat) (xs ys : List α) : Prop where
  /-- No entry is lost or added. -/
  perm : ys.Perm xs
  /-- The entries are in the order of their keys. -/
  ordered : ys.Pairwise fun a b => key a ≤ key b
  /-- Entries with the same key keep their order. -/
  stable : ∀ k, withKey key k ys = withKey key k xs

/-- Entries of which each may stand in front of each are kept in their order by a merge sort. -/
theorem filter_mergeSort {le : α → α → Bool}
    (htrans : ∀ a b c, le a b = true → le b c = true → le a c = true)
    (htotal : ∀ a b, (le a b || le b a) = true) {p : α → Bool}
    (hp : ∀ a b, p a = true → p b = true → le a b = true) (xs : List α) :
    (xs.mergeSort le).filter p = xs.filter p := by
  -- These entries are in order as they stand, so the sort keeps them as they stand.
  have hordered : (xs.filter p).Pairwise fun a b => le a b = true :=
    List.pairwise_filter.2 (List.pairwise_of_forall fun a b ha hb => hp a b ha hb)
  have hkept := List.sublist_mergeSort htrans htotal hordered List.filter_sublist
  have hfiltered := hkept.filter p
  simp only [List.filter_filter, Bool.and_self] at hfiltered
  exact (hfiltered.eq_of_length ((List.mergeSort_perm xs le).filter p).length_eq.symm).symm

/-- A merge sort is stable. -/
theorem sortedBy_mergeSort (key : α → Nat) (xs : List α) :
    SortedBy key xs (xs.mergeSort fun a b => key a ≤ key b) := by
  have htrans (a b c : α) (hab : decide (key a ≤ key b) = true)
      (hbc : decide (key b ≤ key c) = true) : decide (key a ≤ key c) = true := by
    rw [decide_eq_true_iff] at *
    omega
  have htotal (a b : α) : (decide (key a ≤ key b) || decide (key b ≤ key a)) = true := by
    rw [Bool.or_eq_true, decide_eq_true_iff, decide_eq_true_iff]
    omega
  refine ⟨List.mergeSort_perm xs _, ?_, fun k => filter_mergeSort htrans htotal ?_ xs⟩
  · exact (List.pairwise_mergeSort htrans htotal xs).imp of_decide_eq_true
  · intro a b ha hb
    rw [decide_eq_true_iff] at *
    omega

/-- Lists with the same entries for each key have the same entries. -/
theorem mem_of_withKey_eq {a : α} (h : ∀ k, withKey key k ys = withKey key k zs) (ha : a ∈ ys) :
    a ∈ zs := by
  have hkey : a ∈ withKey key (key a) ys := mem_withKey.2 ⟨ha, rfl⟩
  rw [h] at hkey
  exact (mem_withKey.1 hkey).1

/-- Lists in the order of their keys are the same if the entries with each key are. -/
theorem eq_of_withKey_eq (hys : ys.Pairwise fun a b => key a ≤ key b)
    (hzs : zs.Pairwise fun a b => key a ≤ key b)
    (h : ∀ k, withKey key k ys = withKey key k zs) : ys = zs := by
  induction ys generalizing zs with
  | nil =>
    cases zs with
    | nil => rfl
    | cons z zs => simpa [withKey] using h (key z)
  | cons y ys ih =>
    cases zs with
    | nil => simpa [withKey] using h (key y)
    | cons z zs =>
      rw [List.pairwise_cons] at hys hzs
      have hyz : key y ≤ key z := by
        rcases List.mem_cons.1 (mem_of_withKey_eq (fun k => (h k).symm) List.mem_cons_self) with rfl | hz
        · exact Nat.le_refl _
        · exact hys.1 z hz
      have hzy : key z ≤ key y := by
        rcases List.mem_cons.1 (mem_of_withKey_eq h List.mem_cons_self) with rfl | hy
        · exact Nat.le_refl _
        · exact hzs.1 y hy
      have hkey : key z = key y := Nat.le_antisymm hzy hyz
      have hheads := h (key y)
      rw [withKey_cons_of_eq rfl, withKey_cons_of_eq hkey, List.cons.injEq] at hheads
      have htails (k : Nat) : withKey key k ys = withKey key k zs := by
        by_cases hk : key y = k
        · subst hk
          exact hheads.2
        · rw [← withKey_cons_of_ne hk, h k, withKey_cons_of_ne (hkey ▸ hk)]
      rw [hheads.1, ih hys.2 hzs.2 htails]

/-- Only one list is sorted by the key. -/
theorem SortedBy.unique (hys : SortedBy key xs ys) (hzs : SortedBy key xs zs) : ys = zs :=
  eq_of_withKey_eq hys.ordered hzs.ordered fun k => (hys.stable k).trans (hzs.stable k).symm

/-- The merge sort is the only stable sort. -/
theorem sortedBy_iff : SortedBy key xs ys ↔ xs.mergeSort (fun a b => key a ≤ key b) = ys := by
  constructor
  · intro h
    exact (sortedBy_mergeSort key xs).unique h
  · intro h
    subst h
    exact sortedBy_mergeSort key xs

/-- Sorting pairs of a key and an entry sorts the entries by the key. -/
theorem map_snd_mergeSort (key : α → Nat) (xs : List α) :
    ((xs.map fun a => (key a, a)).mergeSort fun a b => a.1 ≤ b.1).map (·.2) =
      xs.mergeSort fun a b => key a ≤ key b := by
  have hsorted : (xs.map fun a => (key a, a)).mergeSort (fun a b => a.1 ≤ b.1) =
      (xs.mergeSort fun a b => key a ≤ key b).map fun a => (key a, a) := by
    symm
    apply List.map_mergeSort
    intro a _ b _
    rfl
  rw [hsorted, List.map_map]
  exact List.map_id _

end NextBuild
