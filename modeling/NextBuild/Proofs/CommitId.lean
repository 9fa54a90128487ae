import NextBuild.CommitId

/-!
# The digits of commit ids

The text of an id consists of small hexadecimal digits only.  What the readers do to a text before
they look at it, trimming it and making its letters small, leaves the text of an id as it is.
-/

namespace NextBuild.CommitId

variable {c : CommitId} {d : Char}

/-- The characters of an id are sixteen digits. -/
theorem mem_digits (h : d ∈ c.text.toList) : d ∈ "0123456789abcdef".toList := by
  have hwell := c.wellFormed
  simp only [isCommitText, Bool.and_eq_true, List.all_eq_true] at hwell
  have hrange : (48 ≤ d.toNat ∧ d.toNat ≤ 57) ∨ 97 ≤ d.toNat ∧ d.toNat ≤ 102 := by
    simpa [Char.isDigit, Char.le_def, UInt32.le_iff_toNat_le] using hwell.2 d h
  have hall : ∀ n < 103, (48 ≤ n ∧ n ≤ 57) ∨ 97 ≤ n ∧ n ≤ 102 →
      Char.ofNat n ∈ "0123456789abcdef".toList := by decide
  rw [← Char.ofNat_toNat d]
  exact hall d.toNat (by omega) hrange

/-- No other character occurs in an id. -/
theorem notMem_text (h : d ∉ "0123456789abcdef".toList) (c : CommitId) : d ∉ c.text.toList :=
  fun hd => h (mem_digits hd)

/-- What holds of the sixteen digits holds of the characters of an id. -/
theorem forall_mem_text (p : Char → Bool) (h : "0123456789abcdef".toList.all p = true)
    (c : CommitId) : ∀ d ∈ c.text.toList, p d = true :=
  fun d hd => List.all_eq_true.1 h d (mem_digits hd)

/-- An id has forty digits at least. -/
theorem forty_le_length (c : CommitId) : 40 ≤ c.text.toList.length := by
  have hwell := c.wellFormed
  simp only [isCommitText, Bool.and_eq_true, Bool.or_eq_true, beq_iff_eq] at hwell
  omega

/-- There are no blanks around an id. -/
theorem trimChars_text (c : CommitId) : Text.trimChars c.text.toList = c.text.toList := by
  have hdigits := forall_mem_text (!Text.isBlank ·) (by decide) c
  exact Text.trimChars_eq_self fun d hd => by simpa using hdigits d hd

/-- The letters of an id are small. -/
theorem map_toLower_text (c : CommitId) : c.text.toList.map Char.toLower = c.text.toList := by
  have hdigits := forall_mem_text (fun d => d.toLower == d) (by decide) c
  exact (List.map_congr_left fun d hd => eq_of_beq (hdigits d hd)).trans (List.map_id _)

/-- All characters of an id are digits. -/
theorem all_isHexDigit_text (c : CommitId) : c.text.toList.all Text.isHexDigit = true :=
  List.all_eq_true.2 (forall_mem_text Text.isHexDigit (by decide) c)

/-- Every digit is one byte. -/
theorem utf8ByteSize_text (c : CommitId) : c.text.utf8ByteSize = c.text.toList.length := by
  have hdigits := forall_mem_text (fun d => d.utf8Size == 1) (by decide) c
  have hsize (cs : List Char) (h : ∀ d ∈ cs, d.utf8Size = 1) :
      (String.ofList cs).utf8ByteSize = cs.length := by
    induction cs with
    | nil => rfl
    | cons d cs ih =>
      obtain ⟨hd, hcs⟩ := List.forall_mem_cons.1 h
      rw [String.ofList_cons, String.utf8ByteSize_append, String.utf8ByteSize_singleton, hd, ih hcs,
        List.length_cons, Nat.add_comm]
  simpa using hsize c.text.toList fun d hd => eq_of_beq (hdigits d hd)

/-- A commit id is read from its own text. -/
theorem ofText?_text (c : CommitId) : ofText? c.text = some c := by
  simp [ofText?, trimChars_text, map_toLower_text, c.wellFormed]

/-- The full id of an object is taken for an abbreviated id. -/
theorem looksLikeAbbreviation_text (h : c.isObjectId = true) :
    looksLikeAbbreviation c.text = true := by
  have hlength : c.text.toList.length = 40 := eq_of_beq h
  have hwell := c.wellFormed
  rw [isCommitText, Bool.and_eq_true] at hwell
  rw [looksLikeAbbreviation, utf8ByteSize_text, hlength, hwell.2]
  rfl

end NextBuild.CommitId
