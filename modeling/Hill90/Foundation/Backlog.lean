import Mathlib.Algebra.BigOperators.Group.Finset.Basic

/-! # A backlog worked off from its head

In each round the first `limit` waiting items are examined.  A good item is through once it has been
examined; a bad one waits for ever, and holds its place in the window.
-/

namespace Hill90.Backlog

variable {α : Type} [DecidableEq α] (items : List α) (good : α → Bool) (limit : ℕ)

def waiting (done : α → Bool) : List α := items.filter fun x => !(good x && done x)

def window (done : α → Bool) : List α := (waiting items good done).take limit

def round (done : α → Bool) : α → Bool := fun x => done x || x ∈ window items good limit done

def rounds : ℕ → α → Bool
  | 0 => fun _ => false
  | n + 1 => round items good limit (rounds n)

def badBefore (x : α) : ℕ := (items.takeWhile (· ≠ x)).countP fun y => !good y

variable {items good limit} {x : α} {done : α → Bool}

omit [DecidableEq α] in
theorem waiting_append (front back : List α) :
    waiting (front ++ back) good done = waiting front good done ++ waiting back good done :=
  List.filter_append _ _

omit [DecidableEq α] in
/-- Bad items are among those that wait. -/
theorem countP_le_waiting (front : List α) :
    (front.countP fun y => !good y) ≤ (waiting front good done).length := by
  rw [waiting, ← List.countP_eq_length_filter]
  refine List.countP_mono_left fun y _ hy => ?_
  rw [Bool.not_eq_true'] at hy
  simp [hy]

section Place

variable {front back : List α} (hitems : items = front ++ x :: back) (hfront : x ∉ front)
include hitems hfront

theorem badBefore_eq : badBefore items good x = front.countP fun y => !good y := by
  have htake : items.takeWhile (· ≠ x) = front := by
    rw [hitems, List.takeWhile_append_of_pos fun y hy => by simpa using fun h : y = x => hfront (h ▸ hy)]
    simp
  rw [badBefore, htake]

/-- With as many bad items before it as the window has places, an item is never examined. -/
theorem not_mem_window (hbad : limit ≤ badBefore items good x) :
    x ∉ window items good limit done := by
  rw [badBefore_eq hitems hfront] at hbad
  have hlength : limit ≤ (waiting front good done).length :=
    hbad.trans (countP_le_waiting front)
  rw [window, hitems, waiting_append, List.take_append_of_le_length hlength]
  intro hmem
  exact hfront (List.mem_of_mem_filter (List.mem_of_mem_take hmem))

/-- An item that still waits is examined, or one of the good ones before it gets through. -/
theorem mem_window_or (hwait : (!(good x && done x)) = true) (hbad : badBefore items good x < limit) :
    x ∈ window items good limit done ∨
      ∃ y ∈ front, good y = true ∧ done y = false ∧ y ∈ window items good limit done := by
  rw [badBefore_eq hitems hfront] at hbad
  rcases lt_or_ge (waiting front good done).length limit with hlt | hge
  · left
    obtain ⟨k, hk⟩ := Nat.exists_eq_add_of_lt hlt
    have hcons : waiting (x :: back) good done = x :: waiting back good done :=
      List.filter_cons_of_pos hwait
    rw [window, hitems, waiting_append, hcons, hk, Nat.add_assoc, List.take_length_add_append]
    exact List.mem_append_right _ List.mem_cons_self
  · right
    have hwindow : window items good limit done = (waiting front good done).take limit := by
      rw [window, hitems, waiting_append, List.take_append_of_le_length hge]
    -- the window lies in `front`, which has fewer bad items than the window places
    by_contra hnone
    have hall : ∀ y ∈ (waiting front good done).take limit, (!good y) = true := by
      intro y hy
      obtain ⟨hyfront, hywait⟩ := List.mem_filter.mp (List.mem_of_mem_take hy)
      by_contra hgood
      have hgood' : good y = true := by simpa using hgood
      refine hnone ⟨y, hyfront, hgood', ?_, hwindow ▸ hy⟩
      rw [hgood'] at hywait
      simpa using hywait
    have hcount := List.countP_eq_length.mpr hall
    rw [List.length_take, min_eq_left hge] at hcount
    have hsub : ((waiting front good done).take limit).Sublist front :=
      (List.take_sublist _ _).trans List.filter_sublist
    have hle := hsub.countP_le (p := fun y => !good y)
    omega

end Place

theorem rounds_mono (n k : ℕ) (h : rounds items good limit n x = true) :
    rounds items good limit (n + k) x = true := by
  induction k with
  | zero => exact h
  | succ k ih =>
    rw [← Nat.add_assoc]
    simp [rounds, round, ih]

def unseen (good : α → Bool) (front : List α) (done : α → Bool) : ℕ :=
  front.countP fun y => good y && !done y

omit [DecidableEq α] in
theorem unseen_lt {front : List α} {next : α → Bool} (hmono : ∀ y, done y = true → next y = true)
    {y : α} (hy : y ∈ front) (hgood : good y = true) (hdone : done y = false)
    (hnext : next y = true) : unseen good front next < unseen good front done := by
  unfold unseen
  obtain ⟨a, b, rfl⟩ := List.append_of_mem hy
  have hle (l : List α) : (l.countP fun y => good y && !next y) ≤
      l.countP fun y => good y && !done y := by
    refine List.countP_mono_left fun z _ hz => ?_
    cases hz' : done z with
    | false => simpa [hz'] using (Bool.and_eq_true_iff.mp hz).1
    | true => simp [hmono z hz'] at hz
  have ha := hle a
  have hb := hle b
  rw [List.countP_append, List.countP_append, List.countP_cons, List.countP_cons]
  simp only [hgood, hdone, hnext, Bool.not_true, Bool.and_false, Bool.not_false, Bool.and_true]
  simp only [Bool.false_eq_true, if_false, if_true]
  omega

/-- An item with room in the window is examined within one more round than good items precede it. -/
theorem examined {front back : List α} (hitems : items = front ++ x :: back) (hfront : x ∉ front)
    (hbad : badBefore items good x < limit) (n : ℕ) :
    rounds items good limit n x = true ∨
      n + unseen good front (rounds items good limit n) ≤ front.length := by
  induction n with
  | zero =>
    right
    rw [Nat.zero_add]
    exact List.countP_le_length
  | succ n ih =>
    rcases ih with ih | ih
    · exact .inl (rounds_mono n 1 ih)
    cases hx : rounds items good limit n x with
    | true => exact .inl (rounds_mono n 1 hx)
    | false =>
      have hwait : (!(good x && rounds items good limit n x)) = true := by simp [hx]
      rcases mem_window_or hitems hfront hwait hbad with hmem | ⟨y, hy, hgood, hdone, hmem⟩
      · left
        simp [rounds, round, hmem]
      · right
        have hmono : ∀ z, rounds items good limit n z = true →
            rounds items good limit (n + 1) z = true := fun z hz => rounds_mono n 1 hz
        have hlt := unseen_lt hmono hy hgood hdone (by simp [rounds, round, hmem])
        omega

/-- After as many rounds as there are items, just those are examined that have fewer bad items before
them than the window has places. -/
theorem rounds_length_iff (hnodup : items.Nodup) (hx : x ∈ items) :
    rounds items good limit items.length x = true ↔ badBefore items good x < limit := by
  obtain ⟨front, back, hitems⟩ := List.append_of_mem hx
  have hsplit := hitems ▸ hnodup
  have hfront : x ∉ front := fun h => (List.disjoint_of_nodup_append hsplit) h List.mem_cons_self
  constructor
  · intro h
    by_contra hbad
    have hnever : ∀ n, rounds items good limit n x = false := by
      intro n
      induction n with
      | zero => rfl
      | succ n ih =>
        have hout : x ∉ window items good limit (rounds items good limit n) :=
          not_mem_window hitems hfront (not_lt.mp hbad)
        simp [rounds, round, ih, hout]
    rw [hnever] at h
    cases h
  · intro hbad
    rcases examined hitems hfront hbad items.length with h | h
    · exact h
    · have hlength : items.length = front.length + (back.length + 1) := by
        rw [hitems, List.length_append, List.length_cons]
      omega

end Hill90.Backlog
