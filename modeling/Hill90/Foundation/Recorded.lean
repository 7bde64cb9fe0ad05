import Hill90.Foundation.Machine

/-! # Runs with a record

A machine's run beside a record of it: each step notes what the record should remember of it,
and whether a step is allowed may depend on what is on record.
-/

namespace Hill90

universe u v w

namespace Machine

variable {σ : Type u} {α : Type v} {γ : Type w} {M : Machine σ α} {note : σ → α → σ → γ → γ} {g₀ : γ}
  {ok : σ → γ → α → Prop}

variable (M note g₀) in
/-- A state that is reached by allowed steps, with what is on record there. -/
inductive Recorded (ok : σ → γ → α → Prop) : σ → γ → Prop where
  | initial {s : σ} (h : M.initial s) : Recorded ok s g₀
  | step {s t : σ} {g : γ} {a : α} (before : Recorded ok s g) (allowed : ok s g a)
      (move : M.step s a = some t) : Recorded ok t (note s a t g)

/-- What holds at first and is kept by every allowed step holds on record. -/
theorem Recorded.invariant {I : σ → γ → Prop} {s : σ} {g : γ} (h : M.Recorded note g₀ ok s g)
    (hinitial : ∀ s, M.initial s → I s g₀)
    (hstep : ∀ s g a t, I s g → ok s g a → M.step s a = some t → I t (note s a t g)) : I s g := by
  induction h with
  | initial h => exact hinitial _ h
  | step _ allowed move ih => exact hstep _ _ _ _ ih allowed move

theorem Recorded.reachable {s : σ} {g : γ} (h : M.Recorded note g₀ ok s g) : M.Reachable s := by
  induction h with
  | initial h => exact ⟨_, [], h, .nil _⟩
  | step _ _ move ih =>
    obtain ⟨s₀, as, hinit, hrun⟩ := ih
    exact ⟨s₀, as ++ [_], hinit, hrun.append (.single trivial move)⟩

variable (M note) in
/-- The executable form of a recorded run, where every step passes the check. -/
def record (C : σ → γ → α → Bool) : σ → γ → List α → Option (σ × γ)
  | s, g, [] => some (s, g)
  | s, g, a :: as =>
    if C s g a then (M.step s a).bind fun t => record C t (note s a t g) as else none

theorem recorded_of_record {C : σ → γ → α → Bool}
    (hcheck : ∀ s g a, M.Recorded note g₀ ok s g → C s g a = true → ok s g a) {s t : σ} {g g' : γ}
    {as : List α} (h : M.Recorded note g₀ ok s g) (hrecord : M.record note C s g as = some (t, g')) :
    M.Recorded note g₀ ok t g' := by
  induction as generalizing s g with
  | nil =>
    cases hrecord
    exact h
  | cons a as ih =>
    rw [record] at hrecord
    split at hrecord
    · rename_i hc
      obtain ⟨u, hu, hrest⟩ := Option.bind_eq_some_iff.mp hrecord
      exact ih (.step h (hcheck s g a h hc) hu) hrest
    · cases hrecord

end Machine

end Hill90
