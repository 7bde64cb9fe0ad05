import Mathlib.Data.List.Infix

/-! # Labelled machines and their runs

A machine moves by named actions, each of which it may refuse.  `RunIf ok` keeps
the runs whose every step is taken in a state that allows it, so a result about
all runs and a result about the well-behaved ones are instances of one induction.
-/

namespace Hill90

universe u v

structure Machine (σ : Type u) (α : Type v) where
  initial : σ → Prop
  step : σ → α → Option σ

namespace Machine

variable {σ : Type u} {α : Type v} {M : Machine σ α} {ok : σ → α → Prop}

variable (M) in
/-- The actions lead from the first state to the last, and each of them meets
`ok` in the state it is taken from. -/
inductive RunIf (ok : σ → α → Prop) : σ → List α → σ → Prop where
  | nil (s : σ) : RunIf ok s [] s
  | cons {s t u : σ} {a : α} {as : List α} (allowed : ok s a) (move : M.step s a = some t)
      (rest : RunIf ok t as u) : RunIf ok s (a :: as) u

variable (M) in
abbrev Run : σ → List α → σ → Prop := M.RunIf fun _ _ => True

variable (M) in
def ReachableIf (ok : σ → α → Prop) (t : σ) : Prop :=
  ∃ s as, M.initial s ∧ M.RunIf ok s as t

variable (M) in
abbrev Reachable : σ → Prop := M.ReachableIf fun _ _ => True

variable (M) in
def exec : σ → List α → Option σ
  | s, [] => some s
  | s, a :: as => (M.step s a).bind fun t => exec t as

theorem run_of_exec {s t : σ} {as : List α} (h : M.exec s as = some t) : M.Run s as t := by
  induction as generalizing s with
  | nil =>
    cases h
    exact .nil _
  | cons a as ih =>
    obtain ⟨u, hu, hrest⟩ := Option.bind_eq_some_iff.mp h
    exact .cons trivial hu (ih hrest)

variable (M) in
def after (s : σ) (as : List α) : σ := (M.exec s as).getD s

theorem run_after {s : σ} {as : List α} (h : (M.exec s as).isSome = true) :
    M.Run s as (M.after s as) := by
  obtain ⟨t, ht⟩ := Option.isSome_iff_exists.mp h
  rw [after, ht]
  exact run_of_exec ht

theorem exec_append (s : σ) (as bs : List α) :
    M.exec s (as ++ bs) = (M.exec s as).bind fun t => M.exec t bs := by
  induction as generalizing s with
  | nil => rfl
  | cons a as ih =>
    simp only [List.cons_append, exec, ih]
    cases M.step s a <;> rfl

theorem run_after_append {s : σ} {as bs : List α} (h : (M.exec s (as ++ bs)).isSome = true) :
    M.Run (M.after s as) bs (M.after s (as ++ bs)) := by
  obtain ⟨u, hu⟩ := Option.isSome_iff_exists.mp h
  have hbind := hu
  rw [exec_append, Option.bind_eq_some_iff] at hbind
  obtain ⟨t, ht, hrest⟩ := hbind
  rw [after, after, ht, hu]
  exact run_of_exec hrest

theorem step_after {s : σ} {as : List α} {a : α} (h : (M.exec s (as ++ [a])).isSome = true) :
    M.step (M.after s as) a = some (M.after s (as ++ [a])) := by
  have hrun := run_after_append h
  cases hrun with
  | cons _ move rest =>
    cases rest
    exact move

theorem RunIf.weaken {ok' : σ → α → Prop} {s t : σ} {as : List α} (h : M.RunIf ok s as t)
    (himp : ∀ s a, ok s a → ok' s a) : M.RunIf ok' s as t := by
  induction h with
  | nil s => exact .nil s
  | cons allowed move _ ih => exact .cons (himp _ _ allowed) move ih

theorem RunIf.run {s t : σ} {as : List α} (h : M.RunIf ok s as t) : M.Run s as t :=
  h.weaken fun _ _ _ => trivial

theorem RunIf.append {s t u : σ} {as bs : List α} (h : M.RunIf ok s as t)
    (h' : M.RunIf ok t bs u) : M.RunIf ok s (as ++ bs) u := by
  induction h with
  | nil _ => exact h'
  | cons allowed move _ ih => exact .cons allowed move (ih h')

theorem RunIf.single {s t : σ} {a : α} (allowed : ok s a) (move : M.step s a = some t) :
    M.RunIf ok s [a] t := .cons allowed move (.nil t)

variable (M) in
def accepts (C : σ → α → Bool) : σ → List α → Bool
  | _, [] => true
  | s, a :: as => C s a && (M.step s a).elim false fun t => accepts C t as

/-- A run whose checks imply `ok`, where they are applied in states of the invariant. -/
theorem runIf_of_accepts {C : σ → α → Bool} {I : σ → Prop}
    (hcheck : ∀ s a, I s → C s a = true → ok s a)
    (hinv : ∀ s a t, I s → ok s a → M.step s a = some t → I t) {s : σ} {as : List α} (hs : I s)
    (h : M.accepts C s as = true) : M.RunIf ok s as (M.after s as) := by
  have hrun : ∃ t, M.exec s as = some t ∧ M.RunIf ok s as t := by
    induction as generalizing s with
    | nil => exact ⟨s, rfl, .nil s⟩
    | cons a as ih =>
      obtain ⟨ha, hrest⟩ := Bool.and_eq_true_iff.mp h
      cases hstep : M.step s a with
      | none =>
        rw [hstep] at hrest
        cases hrest
      | some t =>
        rw [hstep] at hrest
        have hok : ok s a := hcheck s a hs ha
        obtain ⟨u, hu, hrun⟩ := ih (hinv s a t hs hok hstep) hrest
        refine ⟨u, ?_, .cons hok hstep hrun⟩
        rw [exec, hstep, Option.bind_some, hu]
  obtain ⟨t, ht, hrun⟩ := hrun
  rw [after, ht]
  exact hrun

theorem RunIf.invariant {I : σ → Prop} {s t : σ} {as : List α} (h : M.RunIf ok s as t)
    (hs : I s) (hstep : ∀ s a t, I s → ok s a → M.step s a = some t → I t) : I t := by
  induction h with
  | nil _ => exact hs
  | cons allowed move _ ih => exact ih (hstep _ _ _ hs allowed move)

theorem ReachableIf.invariant {I : σ → Prop} {t : σ} (h : M.ReachableIf ok t)
    (hinit : ∀ s, M.initial s → I s)
    (hstep : ∀ s a t, I s → ok s a → M.step s a = some t → I t) : I t := by
  obtain ⟨s, as, hs, hrun⟩ := h
  exact hrun.invariant (hinit s hs) hstep

theorem ReachableIf.trans {s t : σ} {as : List α} (h : M.ReachableIf ok s)
    (hrun : M.RunIf ok s as t) : M.ReachableIf ok t := by
  obtain ⟨s₀, bs, hs₀, hbs⟩ := h
  exact ⟨s₀, bs ++ as, hs₀, hbs.append hrun⟩

theorem ReachableIf.weaken {ok' : σ → α → Prop} {t : σ} (h : M.ReachableIf ok t)
    (himp : ∀ s a, ok s a → ok' s a) : M.ReachableIf ok' t := by
  obtain ⟨s, as, hs, hrun⟩ := h
  exact ⟨s, as, hs, hrun.weaken himp⟩

theorem ReachableIf.reachable {t : σ} (h : M.ReachableIf ok t) : M.Reachable t :=
  h.weaken fun _ _ _ => trivial

theorem reachableIf_of_accepts {C : σ → α → Bool}
    (hcheck : ∀ s a, M.ReachableIf ok s → C s a = true → ok s a) {s : σ} {as : List α}
    (hs : M.initial s) (h : M.accepts C s as = true) : M.ReachableIf ok (M.after s as) := by
  refine ⟨s, as, hs, runIf_of_accepts (I := M.ReachableIf ok) hcheck ?_ ⟨s, [], hs, .nil s⟩ h⟩
  intro s a t hreach hok hstep
  exact hreach.trans (.single hok hstep)

/-- As `ReachableIf.invariant`, where a step may be taken to start in a reachable state. -/
theorem ReachableIf.induction {I : σ → Prop} {t : σ} (h : M.ReachableIf ok t)
    (hinit : ∀ s, M.initial s → I s)
    (hstep : ∀ s a t, M.ReachableIf ok s → I s → ok s a → M.step s a = some t → I t) : I t := by
  have hboth : M.ReachableIf ok t ∧ I t := by
    apply h.invariant (I := fun t => M.ReachableIf ok t ∧ I t)
    · intro s hs
      exact ⟨⟨s, [], hs, .nil s⟩, hinit s hs⟩
    · intro s a t hs hok hmove
      exact ⟨hs.1.trans (.single hok hmove), hstep s a t hs.1 hs.2 hok hmove⟩
  exact hboth.2

/-- A relation that is reflexive, transitive and respected by every step from a
state satisfying the invariant relates the two ends of a run. -/
theorem RunIf.relates {I : σ → Prop} {R : σ → σ → Prop} {s t : σ} {as : List α}
    (h : M.RunIf ok s as t) (hs : I s) (hinv : ∀ s a t, I s → ok s a → M.step s a = some t → I t)
    (hrefl : ∀ s, R s s) (htrans : ∀ s t u, R s t → R t u → R s u)
    (hstep : ∀ s a t, I s → ok s a → M.step s a = some t → R s t) : R s t := by
  induction h with
  | nil s => exact hrefl s
  | cons allowed move _ ih =>
    exact htrans _ _ _ (hstep _ _ _ hs allowed move) (ih (hinv _ _ _ hs allowed move))

/-- When each step leads to a good state exactly if it is allowed, a run from a
good state visits good states only exactly if all its steps are allowed. -/
theorem Run.always_iff {I P : σ → Prop} {s t : σ} {as : List α} (h : M.Run s as t)
    (hI : I s) (hP : P s) (hinv : ∀ s a t, I s → M.step s a = some t → I t)
    (hexact : ∀ s a t, I s → P s → M.step s a = some t → (P t ↔ ok s a)) :
    (∀ pre u, pre <+: as → M.Run s pre u → P u) ↔ M.RunIf ok s as t := by
  constructor
  · intro hall
    induction h with
    | nil s => exact .nil s
    | @cons s v u a as _ move rest ih =>
      have hv : P v := hall [a] v (by simp) (.single trivial move)
      refine .cons ((hexact _ _ _ hI hP move).mp hv) move (ih (hinv _ _ _ hI move) hv ?_)
      intro pre w hpre hrun
      exact hall (a :: pre) w (List.cons_prefix_cons.mpr ⟨rfl, hpre⟩) (.cons trivial move hrun)
  · intro hok pre u hpre hrun
    obtain ⟨post, rfl⟩ := hpre
    clear h
    induction hrun with
    | nil s => exact hP
    | cons _ move _ ih =>
      cases hok with
      | cons allowed move' rest =>
        cases move.symm.trans move'
        exact ih (hinv _ _ _ hI move) ((hexact _ _ _ hI hP move).mpr allowed) rest

end Machine

end Hill90
