import Mathlib.Data.List.DropRight

/-! # Blanks at the ends of a text, as Python strips them -/

namespace Hill90.Python

def isSpace (c : Char) : Bool :=
  (0x9 ≤ c.toNat && c.toNat ≤ 0xD) || (0x1C ≤ c.toNat && c.toNat ≤ 0x20) ||
    (0x2000 ≤ c.toNat && c.toNat ≤ 0x200A) ||
      c.toNat ∈ [0x85, 0xA0, 0x1680, 0x2028, 0x2029, 0x202F, 0x205F, 0x3000]

def lstrip (text : List Char) : List Char := text.dropWhile isSpace

def rstrip (text : List Char) : List Char := text.rdropWhile isSpace

def strip (text : List Char) : List Char := rstrip (lstrip text)

variable {text : List Char}

/-- What `lstrip` takes off and what it leaves. -/
theorem exists_lstrip (text : List Char) :
    ∃ blank, text = blank ++ lstrip text ∧ ∀ c ∈ blank, isSpace c = true :=
  ⟨text.takeWhile isSpace, List.takeWhile_append_dropWhile.symm,
    fun _ hc => List.mem_takeWhile_imp hc⟩

/-- What `rstrip` leaves and what it takes off. -/
theorem exists_rstrip (text : List Char) :
    ∃ blank, text = rstrip text ++ blank ∧ ∀ c ∈ blank, isSpace c = true :=
  ⟨text.rtakeWhile isSpace, List.rdropWhile_append_rtakeWhile.symm,
    fun _ hc => List.mem_rtakeWhile_imp hc⟩

theorem all_lstrip (text : List Char) : (lstrip text).all isSpace = text.all isSpace := by
  obtain ⟨blank, htext, hblank⟩ := exists_lstrip text
  conv_rhs => rw [htext, List.all_append, List.all_eq_true.mpr hblank, Bool.true_and]

theorem all_rstrip (text : List Char) : (rstrip text).all isSpace = text.all isSpace := by
  obtain ⟨blank, htext, hblank⟩ := exists_rstrip text
  conv_rhs => rw [htext, List.all_append, List.all_eq_true.mpr hblank, Bool.and_true]

theorem mem_strip {c : Char} (h : c ∈ text) (hc : isSpace c = false) : c ∈ strip text := by
  obtain ⟨before, hbefore, hblank⟩ := exists_lstrip text
  obtain ⟨after, hafter, hblank'⟩ := exists_rstrip (lstrip text)
  rw [hbefore, hafter, List.mem_append, List.mem_append] at h
  obtain h | h | h := h
  · rw [hblank c h] at hc
    cases hc
  · exact h
  · rw [hblank' c h] at hc
    cases hc

end Hill90.Python
