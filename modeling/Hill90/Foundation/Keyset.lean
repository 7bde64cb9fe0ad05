import Mathlib.Data.List.Sort

/-! # Reading rows page by page

Rows have distinct keys in a linear order.  A page holds the first rows above a cursor, in the
order of their keys; the key of its last row is the next cursor.
-/

namespace Hill90.Keyset

variable {α κ : Type} [LinearOrder κ] (key : α → κ)

def ordered (rows : List α) : List α := rows.insertionSort fun a b => key a ≤ key b

def page (cursor : κ) (n : ℕ) (rows : List α) : List α :=
  (ordered key (rows.filter fun r => cursor < key r)).take n

/-- The cursor once the page is read. -/
def advance (cursor : κ) (rows : List α) : κ := (rows.getLast?.map key).getD cursor

def Distinct (rows : List α) : Prop := rows.Pairwise fun a b => key a ≠ key b

variable {key}

theorem mem_ordered {rows : List α} {r : α} : r ∈ ordered key rows ↔ r ∈ rows :=
  (List.perm_insertionSort _ rows).mem_iff

theorem ordered_sorted {rows : List α} (h : Distinct key rows) :
    (ordered key rows).Pairwise fun a b => key a < key b := by
  have hle : (ordered key rows).Pairwise fun a b => key a ≤ key b :=
    List.pairwise_insertionSort _ rows
  have hne : (ordered key rows).Pairwise fun a b => key a ≠ key b :=
    ((List.perm_insertionSort _ rows).pairwise_iff fun h => h.symm).mpr h
  exact hle.imp₂ (fun _ _ hle hne => lt_of_le_of_ne hle hne) hne

omit [LinearOrder κ] in
theorem Distinct.filter {rows : List α} (h : Distinct key rows) (p : α → Bool) :
    Distinct key (rows.filter p) := List.Pairwise.filter p h

variable {cursor : κ} {n : ℕ} {rows : List α}

theorem of_mem_page {r : α} (h : r ∈ page key cursor n rows) : r ∈ rows ∧ cursor < key r := by
  have hfilter := mem_ordered.mp (List.mem_of_mem_take h)
  simpa using List.mem_filter.mp hfilter

theorem page_sorted (h : Distinct key rows) :
    (page key cursor n rows).Pairwise fun a b => key a < key b :=
  (ordered_sorted (h.filter _)).sublist (List.take_sublist _ _)

/-- A row above the cursor that the page does not hold comes after the page. -/
theorem lt_of_not_mem_page (h : Distinct key rows) {r : α} (hr : r ∈ rows) (hc : cursor < key r)
    (hpage : r ∉ page key cursor n rows) : ∀ p ∈ page key cursor n rows, key p < key r := by
  intro p hp
  have hsorted := ordered_sorted (h.filter fun r => cursor < key r)
  rw [← List.take_append_drop n (ordered key _), List.pairwise_append] at hsorted
  have hmem : r ∈ ordered key (rows.filter fun r => cursor < key r) :=
    mem_ordered.mpr (List.mem_filter.mpr ⟨hr, by simpa using hc⟩)
  rw [← List.take_append_drop n (ordered key _), List.mem_append] at hmem
  exact hsorted.2.2 p hp r (hmem.resolve_left hpage)

theorem not_lt_of_page_nil (hn : 0 < n) (hpage : page key cursor n rows = []) {r : α}
    (hr : r ∈ rows) : ¬cursor < key r := by
  intro hc
  have hmem : r ∈ ordered key (rows.filter fun r => cursor < key r) :=
    mem_ordered.mpr (List.mem_filter.mpr ⟨hr, by simpa using hc⟩)
  rcases List.take_eq_nil_iff.mp hpage with hzero | hnil
  · omega
  · rw [hnil] at hmem
    cases hmem

theorem le_advance {l : List α} (h : l.Pairwise fun a b => key a < key b) {r : α} (hr : r ∈ l) :
    key r ≤ advance key cursor l := by
  cases hlast : l.getLast? with
  | none =>
    rw [List.getLast?_eq_none_iff.mp hlast] at hr
    cases hr
  | some last =>
    obtain ⟨init, rfl⟩ := List.getLast?_eq_some_iff.mp hlast
    rw [advance, hlast, Option.map_some, Option.getD_some]
    rcases List.mem_append.mp hr with hr | hr
    · exact ((List.pairwise_append.mp h).2.2 r hr last (by simp)).le
    · rw [List.mem_singleton.mp hr]

/-- After a page the rows above the cursor are those that were above it before and that the page
does not hold. -/
theorem advance_lt_iff (h : Distinct key rows) {r : α} (hr : r ∈ rows) :
    advance key cursor (page key cursor n rows) < key r ↔
      cursor < key r ∧ r ∉ page key cursor n rows := by
  cases hlast : (page key cursor n rows).getLast? with
  | none =>
    have hnil := List.getLast?_eq_none_iff.mp hlast
    simp [advance, hnil]
  | some last =>
    have hmem := List.mem_of_getLast? hlast
    have hadvance : advance key cursor (page key cursor n rows) = key last := by
      simp [advance, hlast]
    constructor
    · intro hlt
      refine ⟨?_, fun hpage => ?_⟩
      · rw [hadvance] at hlt
        exact (of_mem_page hmem).2.trans hlt
      · exact absurd (le_advance (page_sorted h) hpage) (not_le.mpr hlt)
    · rintro ⟨hc, hpage⟩
      rw [hadvance]
      exact lt_of_not_mem_page h hr hc hpage last hmem

end Hill90.Keyset
