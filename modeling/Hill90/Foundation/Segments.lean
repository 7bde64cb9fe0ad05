import Mathlib.Data.List.Infix

/-! # Names joined by a separator

A text that begins with a separator, and has one between two names: one text begins another at a
separator exactly where the names of the one begin those of the other.
-/

namespace Hill90.Segments

universe u

variable {α : Type u} {sep : α}

def joined (sep : α) (names : List (List α)) : List α := names.flatMap (sep :: ·)

/-- Nothing, or something behind a separator. -/
def Cut (sep : α) (l : List α) : Prop := l = [] ∨ ∃ rest, l = sep :: rest

variable {d r x y : List α} {names dir real : List (List α)}

theorem joined_nil : joined sep [] = [] := rfl

theorem joined_cons (name : List α) (names : List (List α)) :
    joined sep (name :: names) = sep :: (name ++ joined sep names) := by
  simp [joined]

theorem cut_closed (sep : α) (names : List (List α)) : ∃ rest, joined sep names ++ [sep] = sep :: rest := by
  cases names with
  | nil => exact ⟨[], rfl⟩
  | cons name names => exact ⟨_, congrArg (· ++ [sep]) (joined_cons name names)⟩

/-- Names are compared up to the separator. -/
theorem prefix_cut_iff (hd : sep ∉ d) (hr : sep ∉ r) (hy : Cut sep y) :
    d ++ sep :: x <+: r ++ y ↔ d = r ∧ sep :: x <+: y := by
  induction d generalizing r with
  | nil =>
    cases r with
    | nil => simp
    | cons c r =>
      rw [List.nil_append, List.cons_append, List.cons_prefix_cons]
      refine iff_of_false ?_ nofun
      rintro ⟨rfl, _⟩
      exact hr List.mem_cons_self
  | cons a d ih =>
    simp only [List.mem_cons, not_or] at hd
    cases r with
    | nil =>
      refine iff_of_false (fun h => ?_) nofun
      obtain rfl | ⟨rest, rfl⟩ := hy
      · simp at h
      · rw [List.nil_append, List.cons_append, List.cons_prefix_cons] at h
        exact hd.1 h.1.symm
    | cons c r =>
      simp only [List.mem_cons, not_or] at hr
      rw [List.cons_append, List.cons_append, List.cons_prefix_cons, ih hd.2 hr.2, List.cons.injEq,
        and_assoc]

theorem closed_prefix_iff (hdir : ∀ n ∈ dir, sep ∉ n) (hreal : ∀ n ∈ real, sep ∉ n) :
    joined sep dir ++ [sep] <+: joined sep real ++ [sep] ↔ dir <+: real := by
  induction dir generalizing real with
  | nil =>
    obtain ⟨rest, hrest⟩ := cut_closed sep real
    rw [hrest]
    simp [joined_nil]
  | cons d dir ih =>
    cases real with
    | nil =>
      rw [joined_cons, joined_nil]
      simp
    | cons r real =>
      obtain ⟨rest, hrest⟩ := cut_closed sep dir
      have hcut : Cut sep (joined sep real ++ [sep]) := .inr (cut_closed sep real)
      have hnext := @ih real (fun n hn => hdir n (List.mem_cons_of_mem _ hn))
        fun n hn => hreal n (List.mem_cons_of_mem _ hn)
      rw [joined_cons, joined_cons, List.cons_append, List.cons_append, List.cons_prefix_cons,
        List.append_assoc, List.append_assoc, hrest,
        prefix_cut_iff (hdir d List.mem_cons_self) (hreal r List.mem_cons_self) hcut, ← hrest, hnext,
        List.cons_prefix_cons]
      simp

/-- A text is another, or begins it at a separator. -/
theorem descends_iff (hdir : ∀ n ∈ dir, sep ∉ n) (hreal : ∀ n ∈ real, sep ∉ n) :
    joined sep real = joined sep dir ∨ joined sep dir ++ [sep] <+: joined sep real ↔ dir <+: real := by
  rw [← closed_prefix_iff hdir hreal, List.prefix_concat_iff, List.append_cancel_right_eq, eq_comm]

end Hill90.Segments
