import Mathlib.Data.Nat.Notation
import Mathlib.Tactic.Basic

/-! # A session-level advisory lock

One lock, held by one session or by none.  A session that holds it may take it again and
has to give it back as often; the end of a session gives it back at once.
-/

namespace Hill90

/-- The session that holds the lock, and how often it has taken it. -/
abbrev AdvisoryLock (σ : Type) := Option (σ × ℕ)

namespace AdvisoryLock

variable {σ : Type} [DecidableEq σ] {l : AdvisoryLock σ} {s : σ}

def heldBy (l : AdvisoryLock σ) (s : σ) : Bool := l.any fun h => h.1 = s

def tryLock (l : AdvisoryLock σ) (s : σ) : Bool × AdvisoryLock σ :=
  match l with
  | none => (true, some (s, 1))
  | some (t, n) => if t = s then (true, some (t, n + 1)) else (false, some (t, n))

def unlock (l : AdvisoryLock σ) (s : σ) : AdvisoryLock σ :=
  match l with
  | none => none
  | some (t, n) => if t = s then (if n ≤ 1 then none else some (t, n - 1)) else some (t, n)

def endSession (l : AdvisoryLock σ) (s : σ) : AdvisoryLock σ :=
  if l.heldBy s then none else l

@[simp] theorem heldBy_none (s : σ) : heldBy (none : AdvisoryLock σ) s = false := rfl

@[simp] theorem heldBy_some (t : σ) (n : ℕ) (s : σ) :
    heldBy (some (t, n)) s = decide (t = s) := rfl

theorem tryLock_free (s : σ) : tryLock (none : AdvisoryLock σ) s = (true, some (s, 1)) := rfl

theorem tryLock_taken {t : σ} {n : ℕ} (h : t ≠ s) :
    tryLock (some (t, n)) s = (false, some (t, n)) := if_neg h

theorem unlock_once (s : σ) : unlock (some (s, 1)) s = none := by simp [unlock]

theorem unlock_other {t : σ} {n : ℕ} (h : t ≠ s) : unlock (some (t, n)) s = some (t, n) :=
  if_neg h

theorem endSession_cases (l : AdvisoryLock σ) (s : σ) :
    l.endSession s = l ∧ l.heldBy s = false ∨ l.endSession s = none ∧ l.heldBy s = true := by
  unfold endSession
  cases l.heldBy s with
  | false => exact .inl ⟨rfl, rfl⟩
  | true => exact .inr ⟨rfl, rfl⟩

end AdvisoryLock

end Hill90
