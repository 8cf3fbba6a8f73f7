import Mathlib.Data.List.DropRight

/-! # Text

    What `trim` of a string strips, and what it leaves; what a string is split into. -/

namespace Text

/-- What `trim` strips. -/
def isWhitespace (c : Char) : Bool :=
  c.toNat ∈ [0x9, 0xa, 0xb, 0xc, 0xd, 0x20, 0xa0, 0x1680, 0x2000, 0x2001, 0x2002, 0x2003, 0x2004,
    0x2005, 0x2006, 0x2007, 0x2008, 0x2009, 0x200a, 0x2028, 0x2029, 0x202f, 0x205f, 0x3000, 0xfeff]

def trim (value : List Char) : List Char :=
  ((value.dropWhile isWhitespace).reverse.dropWhile isWhitespace).reverse

theorem trim_eq (value : List Char) :
    trim value = (value.dropWhile isWhitespace).rdropWhile isWhitespace := rfl

@[simp] theorem trim_nil : trim [] = [] := rfl

theorem rdropWhile_append_rtakeWhile (p : Char → Bool) (l : List Char) :
    l.rdropWhile p ++ l.rtakeWhile p = l := by
  unfold List.rdropWhile List.rtakeWhile
  rw [← List.reverse_append, List.takeWhile_append_dropWhile, List.reverse_reverse]

/-- Only whitespace goes, and only at the two ends. -/
theorem exists_trim (value : List Char) : ∃ lead trail, value = lead ++ trim value ++ trail ∧
    (∀ c ∈ lead, isWhitespace c = true) ∧ ∀ c ∈ trail, isWhitespace c = true := by
  refine ⟨value.takeWhile isWhitespace, value.dropWhile isWhitespace |>.rtakeWhile isWhitespace,
    ?_, fun c hc => List.mem_takeWhile_imp hc, fun c hc => List.mem_rtakeWhile_imp hc⟩
  rw [trim_eq, List.append_assoc]
  rw [rdropWhile_append_rtakeWhile, List.takeWhile_append_dropWhile]

/-- What is left neither begins nor ends with whitespace. -/
theorem trim_trim (value : List Char) : trim (trim value) = trim value := by
  have hstart : (trim value).dropWhile isWhitespace = trim value := by
    rw [List.dropWhile_eq_self_iff]
    intro hpos hws
    have hfront : trim value <+: value.dropWhile isWhitespace := List.rdropWhile_prefix _ _
    have hne : value.dropWhile isWhitespace ≠ [] := by
      intro hnil
      rw [hnil, List.prefix_nil] at hfront
      simp [hfront] at hpos
    have hhead : (trim value)[0] = (value.dropWhile isWhitespace).head hne := by
      rw [List.head_eq_getElem]
      exact hfront.getElem hpos
    rw [hhead] at hws
    exact absurd hws (by simpa using List.head_dropWhile_not isWhitespace hne)
  rw [trim_eq, hstart]
  exact List.rdropWhile_idempotent _ _

/-- The parts a text is split into do not hold what it is split at. -/
theorem not_mem_of_mem_splitOn {c : Char} {text part : List Char} (h : part ∈ text.splitOn c) :
    c ∉ part := by
  induction text generalizing part with
  | nil =>
    rw [List.splitOn_nil, List.mem_singleton] at h
    rw [h]
    exact List.not_mem_nil
  | cons d text ih =>
    rw [List.splitOn_cons_eq_if_modifyHead] at h
    by_cases hd : (d == c) = true
    · rw [if_pos hd] at h
      rcases List.mem_cons.mp h with rfl | h
      · exact List.not_mem_nil
      · exact ih h
    · rw [if_neg hd] at h
      obtain ⟨head, tail, hsplit⟩ := List.exists_cons_of_ne_nil (List.splitOn_ne_nil c text)
      rw [hsplit] at h ih
      rcases List.mem_cons.mp h with rfl | h
      · intro hmem
        rcases List.mem_cons.mp hmem with rfl | hmem
        · simp at hd
        · exact ih List.mem_cons_self hmem
      · exact ih (List.mem_cons_of_mem _ h)

end Text
