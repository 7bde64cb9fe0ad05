import Hill90.Foundation.Runs

/-! # An alarm for failures that do not stop

An alarm counts failures in a row and rings once they are as many as its threshold, at the first
failure at which it is able to; a success ends the outage and arms it again.
-/

namespace Hill90

/-- A failure says whether the alarm is able to ring at it. -/
inductive Beat where
  | success
  | failure (able : Bool)
  deriving DecidableEq

structure Alarm where
  count : ℕ := 0
  rung : Bool := false
  deriving DecidableEq

namespace Alarm

open Runs

variable {threshold : ℕ} {bs : List Beat}

def beat (threshold : ℕ) (a : Alarm) : Beat → Bool × Alarm
  | .success => (false, {})
  | .failure able =>
    if threshold ≤ a.count + 1 ∧ a.rung = false ∧ able = true then (true, ⟨a.count + 1, true⟩)
    else (false, ⟨a.count + 1, a.rung⟩)

def watch (threshold : ℕ) (bs : List Beat) : ℕ × Alarm :=
  bs.foldl (fun w b => (w.1 + (beat threshold w.2 b).1.toNat, (beat threshold w.2 b).2)) (0, {})

def outage : Beat → Option Unit
  | .success => none
  | .failure _ => some ()

/-- From the threshold on there is a failure at which the alarm is able to ring. -/
def Due (threshold : ℕ) (r : Run Unit Beat) : Prop :=
  r.key ≠ none ∧ .failure true ∈ r.items.drop (threshold - 1)

instance (threshold : ℕ) : DecidablePred (Due threshold) := fun _ => inferInstanceAs (Decidable (_ ∧ _))

structure Follows (threshold : ℕ) (rs : List (Run Unit Beat)) (w : ℕ × Alarm) : Prop where
  rings : w.1 = rs.countP (Due threshold ·)
  ongoing : ∀ r, rs.getLast? = some r → r.key ≠ none →
    w.2.count = r.items.length ∧ (w.2.rung = true ↔ Due threshold r)
  quiet : (∀ r, rs.getLast? = some r → r.key = none) → w.2 = {}

theorem watch_concat (bs : List Beat) (b : Beat) : watch threshold (bs ++ [b]) =
    ((watch threshold bs).1 + (beat threshold (watch threshold bs).2 b).1.toNat,
      (beat threshold (watch threshold bs).2 b).2) := by
  simp [watch]

theorem runs_concat (bs : List Beat) (b : Beat) :
    runs outage (bs ++ [b]) = push outage (runs outage bs) b := by
  simp [runs]

/-- A failure in an outage of `n` failures, of which the alarm has rung or not. -/
theorem due_extend (threshold : ℕ) {r : Run Unit Beat} (hkey : r.key ≠ none) (able : Bool) :
    Due threshold { r with items := r.items ++ [.failure able] } ↔
      Due threshold r ∨ (threshold ≤ r.items.length + 1 ∧ able = true) := by
  unfold Due
  simp only [hkey, ne_eq, not_false_eq_true, true_and]
  rw [List.drop_append, List.mem_append]
  apply or_congr Iff.rfl
  by_cases hlength : threshold ≤ r.items.length + 1
  · rw [show threshold - 1 - r.items.length = 0 by omega]
    simp [hlength, eq_comm]
  · rw [List.drop_eq_nil_of_le (by simp; omega)]
    simp [hlength]

theorem due_begin (threshold : ℕ) (able : Bool) : Due threshold ⟨some (), [.failure able]⟩ ↔
    threshold ≤ 1 ∧ able = true := by
  have hextend := due_extend threshold (r := ⟨some (), []⟩) (by simp) able
  have hnone : ¬Due threshold ⟨some (), []⟩ := by simp [Due]
  simpa [hnone] using hextend

theorem Follows.success {rs : List (Run Unit Beat)} {w : ℕ × Alarm} (h : Follows threshold rs w) :
    Follows threshold (push outage rs .success) (w.1, {}) := by
  have hpush : push outage rs .success = rs ++ [⟨none, [.success]⟩] := by
    unfold push
    split
    · simp [outage]
    · rfl
  have hnot : ¬Due threshold ⟨none, [.success]⟩ := by simp [Due]
  rw [hpush]
  refine ⟨?_, ?_, fun _ => rfl⟩
  · simp [h.rings, hnot]
  · intro r hr hkey
    obtain rfl : _ = r := by simpa using hr
    exact absurd rfl hkey

theorem Follows.failure {rs : List (Run Unit Beat)} {w : ℕ × Alarm} (h : Follows threshold rs w)
    (able : Bool) : Follows threshold (push outage rs (.failure able))
      (w.1 + (beat threshold w.2 (.failure able)).1.toNat, (beat threshold w.2 (.failure able)).2) := by
  by_cases hopen : ∃ r, rs.getLast? = some r ∧ r.key ≠ none
  · -- the outage goes on
    obtain ⟨r, hr, hkey⟩ := hopen
    obtain ⟨hcount, hrung⟩ := h.ongoing r hr hkey
    obtain ⟨init, rfl⟩ := List.getLast?_eq_some_iff.mp hr
    have hpush : push outage (init ++ [r]) (.failure able) =
        init ++ [{ r with items := r.items ++ [.failure able] }] := by
      have hsome : r.key = some () := by
        cases hr' : r.key with
        | none => exact absurd hr' hkey
        | some u => rfl
      simp [push, outage, hsome]
    have hdue := due_extend threshold hkey able
    have hrings := h.rings
    rw [List.countP_append, List.countP_singleton] at hrings
    rw [hpush]
    refine ⟨?_, ?_, ?_⟩
    · rw [List.countP_append, List.countP_singleton, hrings]
      simp only [decide_eq_true_eq, hdue, beat, hcount, ← hrung]
      cases w.2.rung <;> cases able <;> by_cases hle : threshold ≤ r.items.length + 1 <;> simp [hle]
    · intro s hs hskey
      obtain rfl : _ = s := by simpa using hs
      simp only [beat, hcount, hdue, ← hrung, List.length_append, List.length_singleton]
      cases w.2.rung <;> cases able <;> by_cases hle : threshold ≤ r.items.length + 1 <;> simp [hle]
    · intro hquiet
      exact absurd (hquiet ⟨r.key, r.items ++ [.failure able]⟩ (by simp)) hkey
  · -- an outage begins
    have hquiet := h.quiet fun r hr => by_contra fun hkey => hopen ⟨r, hr, hkey⟩
    have hpush : push outage rs (.failure able) = rs ++ [⟨some (), [.failure able]⟩] := by
      unfold push
      split
      · rename_i last hlast
        rw [if_neg]
        · rfl
        · rintro ⟨hkey, _⟩
          exact hopen ⟨last, hlast, by rw [hkey]; simp [outage]⟩
      · rfl
    have hdue := due_begin threshold able
    rw [hpush]
    refine ⟨?_, ?_, ?_⟩
    · rw [List.countP_append, List.countP_singleton, h.rings]
      simp only [decide_eq_true_eq, hdue, beat, hquiet]
      cases able <;> by_cases hle : threshold ≤ 1 <;> simp [hle]
    · intro s hs hskey
      obtain rfl : _ = s := by simpa using hs
      simp only [beat, hquiet, hdue]
      cases able <;> by_cases hle : threshold ≤ 1 <;> simp [hle]
    · intro hnone
      have := hnone ⟨some (), [.failure able]⟩ (by simp)
      cases this

theorem follows_watch (bs : List Beat) :
    Follows threshold (runs outage bs) (watch threshold bs) := by
  induction bs using List.reverseRecOn with
  | nil => exact ⟨rfl, by rintro r ⟨⟩, fun _ => rfl⟩
  | append_singleton bs b ih =>
    rw [runs_concat, watch_concat]
    cases b with
    | success => exact ih.success
    | failure able => exact ih.failure able

/-- The alarm rings once for each outage in which it is due, and not otherwise. -/
theorem watch_rings (threshold : ℕ) (bs : List Beat) :
    (watch threshold bs).1 = (runs outage bs).countP (Due threshold ·) :=
  (follows_watch bs).rings

end Alarm

end Hill90
