import Mathlib.Algebra.Order.Ring.Rat
import Mathlib.Tactic.Linarith

/-! # Sliding windows

How many of a list of times fall into a window of a given width, wherever the window begins.
-/

namespace Hill90

def since (times : List ℚ) (t : ℚ) : ℕ := times.countP fun x => t < x

def within (width : ℚ) (times : List ℚ) (t : ℚ) : ℕ := times.countP fun x => t < x && x ≤ t + width

variable {width now : ℚ} {times : List ℚ} {cap : ℕ}

theorem since_anti {t t' : ℚ} (h : t ≤ t') : since times t' ≤ since times t := by
  apply List.countP_mono_left
  intro x _ hx
  simp only [decide_eq_true_eq] at hx ⊢
  exact lt_of_le_of_lt h hx

theorem since_cons_now (hwidth : 0 < width) :
    since (now :: times) (now - width) = since times (now - width) + 1 := by
  unfold since
  rw [List.countP_cons_of_pos]
  simpa using hwidth

/-- A window that reaches up to now holds no more than the last width of time does. -/
theorem within_le_since {t : ℚ} (ht : now ≤ t + width) : within width times t ≤ since times (now - width) := by
  apply List.countP_mono_left
  intro x _ hx
  simp only [Bool.and_eq_true, decide_eq_true_eq] at hx ⊢
  linarith [hx.1]

/-- Where the last width of time has room for one more, no window is overfilled by it. -/
theorem within_cons_le (hwindows : ∀ t, within width times t ≤ cap)
    (hroom : since times (now - width) < cap) (t : ℚ) : within width (now :: times) t ≤ cap := by
  by_cases hin : t < now ∧ now ≤ t + width
  · have hlast : within width times t ≤ since times (now - width) := within_le_since hin.2
    have hcons : within width (now :: times) t = within width times t + 1 := by
      unfold within
      rw [List.countP_cons_of_pos]
      simpa using hin
    omega
  · have hcons : within width (now :: times) t = within width times t := by
      unfold within
      rw [List.countP_cons_of_neg]
      simpa using hin
    rw [hcons]
    exact hwindows t

end Hill90
