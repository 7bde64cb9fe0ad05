import Mathlib.Data.List.Basic

/-! # Sorting with a comparison that may fail

`sort` takes the elements in their order and inserts each behind those it is not below.  The
comparison is asked about the new element and one already placed; where it fails, the sort does.
-/

namespace Hill90.Sorting

variable {α ε : Type} (compare : α → α → Except ε Ordering)

def place (x : α) : List α → Except ε (List α)
  | [] => .ok [x]
  | y :: ys =>
    match compare x y with
    | .error e => .error e
    | .ok .lt => .ok (x :: y :: ys)
    | .ok _ => (place x ys).map (y :: ·)

def sortInto (sorted : List α) : List α → Except ε (List α)
  | [] => .ok sorted
  | x :: xs =>
    match place compare x sorted with
    | .error e => .error e
    | .ok sorted' => sortInto sorted' xs

def sort (l : List α) : Except ε (List α) := sortInto compare [] l

/-- `le` is an order that the comparison decides for every two elements it may be asked about. -/
structure Decides (Comparable le : α → α → Prop) : Prop where
  symm : ∀ x y, Comparable x y → Comparable y x
  trans : ∀ x y z, le x y → le y z → le x z
  decides : ∀ x y, Comparable x y →
    (compare x y = .ok .lt ∧ le x y) ∨ (∃ o, o ≠ .lt ∧ compare x y = .ok o ∧ le y x)

variable {compare}

theorem place_perm {x : α} {l out : List α} (h : place compare x l = .ok out) :
    out.Perm (x :: l) := by
  induction l generalizing out with
  | nil => cases h; exact List.Perm.refl _
  | cons y ys ih =>
    unfold place at h
    split at h
    · cases h
    · cases h; exact List.Perm.refl _
    · cases hrest : place compare x ys with
      | error e => rw [hrest] at h; cases h
      | ok rest =>
        rw [hrest] at h
        cases h
        exact ((ih hrest).cons y).trans (List.Perm.swap _ _ _)

theorem sortInto_perm {l sorted out : List α} (h : sortInto compare sorted l = .ok out) :
    out.Perm (sorted ++ l) := by
  induction l generalizing sorted with
  | nil => cases h; simp
  | cons x xs ih =>
    unfold sortInto at h
    split at h
    · cases h
    · rename_i sorted' hplace
      have hout : out.Perm (sorted' ++ xs) := ih h
      have hsorted : sorted'.Perm (x :: sorted) := place_perm hplace
      exact hout.trans ((hsorted.append_right xs).trans List.perm_middle.symm)

/-- What a sort gives back are the elements it was given. -/
theorem sort_perm {l out : List α} (h : sort compare l = .ok out) : out.Perm l := by
  simpa using sortInto_perm h

section Decides

variable {Comparable le : α → α → Prop} (hcompare : Decides compare Comparable le)

include hcompare

theorem place_sorted {x : α} {l : List α} (hx : ∀ y ∈ l, Comparable x y) (hl : l.Pairwise le) :
    ∃ out, place compare x l = .ok out ∧ out.Pairwise le := by
  induction l with
  | nil => exact ⟨[x], rfl, by simp⟩
  | cons y ys ih =>
    obtain ⟨hy, hys⟩ := List.pairwise_cons.mp hl
    rcases hcompare.decides x y (hx y List.mem_cons_self) with ⟨hlt, hle⟩ | ⟨o, ho, hge, hle⟩
    · refine ⟨x :: y :: ys, by simp [place, hlt], List.pairwise_cons.mpr ⟨?_, hl⟩⟩
      intro z hz
      rcases List.mem_cons.mp hz with rfl | hz
      · exact hle
      · exact hcompare.trans _ _ _ hle (hy z hz)
    · obtain ⟨rest, hrest, hsorted⟩ := ih (fun z hz => hx z (List.mem_cons_of_mem _ hz)) hys
      refine ⟨y :: rest, ?_, List.pairwise_cons.mpr ⟨?_, hsorted⟩⟩
      · cases o with
        | lt => exact absurd rfl ho
        | eq => simp [place, hge, hrest, Except.map]
        | gt => simp [place, hge, hrest, Except.map]
      · intro z hz
        rcases List.mem_cons.mp ((place_perm hrest).mem_iff.mp hz) with rfl | hz
        · exact hle
        · exact hy z hz

theorem sortInto_sorted {l sorted : List α} (hsorted : sorted.Pairwise le)
    (hl : l.Pairwise Comparable) (hcross : ∀ x ∈ l, ∀ y ∈ sorted, Comparable x y) :
    ∃ out, sortInto compare sorted l = .ok out ∧ out.Pairwise le := by
  induction l generalizing sorted with
  | nil => exact ⟨sorted, rfl, hsorted⟩
  | cons x xs ih =>
    obtain ⟨hx, hxs⟩ := List.pairwise_cons.mp hl
    obtain ⟨sorted', hplace, hsorted'⟩ :=
      place_sorted hcompare (hcross x List.mem_cons_self) hsorted
    obtain ⟨out, hout, hle⟩ := ih hsorted' hxs (by
      intro z hz y hy
      rcases List.mem_cons.mp ((place_perm hplace).mem_iff.mp hy) with rfl | hy
      · exact hcompare.symm _ _ (hx z hz)
      · exact hcross z (List.mem_cons_of_mem _ hz) y hy)
    exact ⟨out, by simp [sortInto, hplace, hout], hle⟩

/-- Where every two of the elements can be compared, the sort succeeds and its result is sorted. -/
theorem sort_sorted {l : List α} (hl : l.Pairwise Comparable) :
    ∃ out, sort compare l = .ok out ∧ out.Pairwise le :=
  sortInto_sorted hcompare List.Pairwise.nil hl (by simp)

end Decides

end Hill90.Sorting
