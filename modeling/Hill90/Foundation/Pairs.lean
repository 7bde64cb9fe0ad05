import Mathlib.Data.List.Nodup

/-! # A list of pairs set key by key

`put` gives a key one value: the first pair of the key is replaced, its other pairs are dropped,
and where the key has no pair one is appended.  `putAll` does so for each pair of a list.  It gives
that list back exactly when the list repeats no key and the pairs before it start as it does.
-/

namespace Hill90.Pairs

variable {κ β : Type} [DecidableEq κ]

def without (k : κ) (l : List (κ × β)) : List (κ × β) := l.filter fun p => p.1 ≠ k

def put (q : κ × β) : List (κ × β) → List (κ × β)
  | [] => [q]
  | p :: l => if p.1 = q.1 then q :: without q.1 l else p :: put q l

def putAll (l : List (κ × β)) : List (κ × β) → List (κ × β)
  | [] => l
  | q :: qs => putAll (put q l) qs

def Heads : List (κ × β) → List κ → Prop
  | [], _ => True
  | _ :: _, [] => False
  | p :: l, k :: ks => p.1 = k ∧ Heads (without k l) ks

def count (k : κ) (l : List (κ × β)) : ℕ := l.countP fun p => p.1 = k

@[simp]
theorem heads_nil (ks : List κ) : Heads ([] : List (κ × β)) ks := by
  cases ks <;> trivial

theorem count_without_self (k : κ) (l : List (κ × β)) : count k (without k l) = 0 := by
  simp [count, without, List.countP_eq_zero]

theorem count_without_of_ne {k j : κ} (h : j ≠ k) (l : List (κ × β)) :
    count k (without j l) = count k l := by
  simp only [count, without, List.countP_filter]
  apply List.countP_congr
  intro p _
  by_cases hp : p.1 = k
  · simp [hp, h.symm]
  · simp [hp]

theorem count_put_self (q : κ × β) (l : List (κ × β)) : count q.1 (put q l) = 1 := by
  induction l with
  | nil => simp [put, count]
  | cons p l ih =>
    by_cases hp : p.1 = q.1
    · rw [put, if_pos hp, count, List.countP_cons]
      have := count_without_self q.1 l
      simp [count] at this ⊢
      exact this
    · rw [put, if_neg hp, count, List.countP_cons]
      simpa [hp, count] using ih

theorem count_put_of_ne {k : κ} {q : κ × β} (h : q.1 ≠ k) (l : List (κ × β)) :
    count k (put q l) = count k l := by
  induction l with
  | nil => simp [put, count, h]
  | cons p l ih =>
    by_cases hp : p.1 = q.1
    · have hw := count_without_of_ne h l
      rw [put, if_pos hp]
      simp only [count, List.countP_cons] at hw ⊢
      simp [hp, h, hw]
    · rw [put, if_neg hp]
      simp only [count, List.countP_cons] at ih ⊢
      rw [ih]

theorem count_putAll_eq_one {k : κ} {l : List (κ × β)} (qs : List (κ × β)) (h : count k l = 1) :
    count k (putAll l qs) = 1 := by
  induction qs generalizing l with
  | nil => exact h
  | cons q qs ih =>
    apply ih
    by_cases hq : q.1 = k
    · subst hq
      exact count_put_self q l
    · rw [count_put_of_ne hq, h]

theorem count_putAll_of_mem {k : κ} {l qs : List (κ × β)} (h : k ∈ qs.map Prod.fst) :
    count k (putAll l qs) = 1 := by
  induction qs generalizing l with
  | nil => cases h
  | cons q qs ih =>
    by_cases hq : q.1 = k
    · subst hq
      exact count_putAll_eq_one qs (count_put_self q l)
    · apply ih
      simpa [Ne.symm hq] using h

theorem putAll_cons_key (p : κ × β) (l qs : List (κ × β)) :
    ∃ p' l', putAll (p :: l) qs = p' :: l' ∧ p'.1 = p.1 := by
  induction qs generalizing p l with
  | nil => exact ⟨p, l, rfl, rfl⟩
  | cons q qs ih =>
    by_cases hp : p.1 = q.1
    · obtain ⟨p', l', h, hkey⟩ := ih q (without q.1 l)
      refine ⟨p', l', ?_, hkey.trans hp.symm⟩
      rw [putAll, put, if_pos hp, h]
    · obtain ⟨p', l', h, hkey⟩ := ih p (put q l)
      refine ⟨p', l', ?_, hkey⟩
      rw [putAll, put, if_neg hp, h]

theorem putAll_cons_of_notMem {q : κ × β} (l : List (κ × β)) {qs : List (κ × β)}
    (h : q.1 ∉ qs.map Prod.fst) : putAll (q :: l) qs = q :: putAll l qs := by
  induction qs generalizing l with
  | nil => rfl
  | cons r qs ih =>
    rw [List.map_cons, List.mem_cons, not_or] at h
    rw [putAll, put, if_neg h.1, ih _ h.2, putAll]

theorem putAll_cons_eq_iff {q : κ × β} {l qs : List (κ × β)} :
    putAll (q :: l) qs = q :: qs ↔ q.1 ∉ qs.map Prod.fst ∧ putAll l qs = qs := by
  constructor
  · intro h
    have hq : q.1 ∉ qs.map Prod.fst := by
      intro hq
      have hone : count q.1 (q :: qs) = 1 := h ▸ count_putAll_of_mem hq
      obtain ⟨r, hr, hkey⟩ := List.mem_map.mp hq
      simp only [count, List.countP_cons, decide_true, ite_true] at hone
      have hzero : qs.countP (fun p => decide (p.1 = q.1)) = 0 := by omega
      simp only [List.countP_eq_zero, decide_eq_true_eq] at hzero
      exact hzero r hr hkey
    rw [putAll_cons_of_notMem l hq] at h
    exact ⟨hq, (List.cons.inj h).2⟩
  · rintro ⟨hq, h⟩
    rw [putAll_cons_of_notMem l hq, h]

theorem putAll_eq_self_iff {l qs : List (κ × β)} :
    putAll l qs = qs ↔ (qs.map Prod.fst).Nodup ∧ Heads l (qs.map Prod.fst) := by
  induction qs generalizing l with
  | nil => cases l <;> simp [putAll, Heads]
  | cons q qs ih =>
    rw [putAll, List.map_cons, List.nodup_cons]
    cases l with
    | nil =>
      rw [put, putAll_cons_eq_iff, ih]
      simp
    | cons p l =>
      by_cases hp : p.1 = q.1
      · rw [put, if_pos hp, putAll_cons_eq_iff, ih]
        simp [Heads, hp, and_assoc]
      · -- the first key stays that of `p`
        rw [put, if_neg hp]
        constructor
        · intro h
          obtain ⟨p', l', hput, hkey⟩ := putAll_cons_key p (put q l) qs
          rw [hput] at h
          obtain ⟨rfl, -⟩ := List.cons.inj h
          exact absurd hkey.symm hp
        · intro h
          exact absurd h.2.1 hp

/-! The value of a key is that of its last pair. -/

def value : List (κ × β) → κ → Option β
  | [], _ => none
  | p :: l, k => value l k <|> if p.1 = k then some p.2 else none

theorem value_without_self (k : κ) (l : List (κ × β)) : value (without k l) k = none := by
  induction l with
  | nil => rfl
  | cons p l ih =>
    unfold without at ih ⊢
    by_cases hp : p.1 = k
    · rw [List.filter_cons_of_neg (by simpa using hp), ih]
    · rw [List.filter_cons_of_pos (by simpa using hp), value, ih, if_neg hp]
      rfl

theorem value_without_of_ne {k j : κ} (h : j ≠ k) (l : List (κ × β)) :
    value (without j l) k = value l k := by
  induction l with
  | nil => rfl
  | cons p l ih =>
    unfold without at ih ⊢
    by_cases hp : p.1 = j
    · have hk : p.1 ≠ k := fun hk => h (hp.symm.trans hk)
      rw [List.filter_cons_of_neg (by simpa using hp), ih, value, if_neg hk, Option.orElse_eq_orElse,
        Option.orElse_eq_or, Option.or_none]
    · rw [List.filter_cons_of_pos (by simpa using hp), value, value, ih]

theorem value_put (q : κ × β) (l : List (κ × β)) (k : κ) :
    value (put q l) k = if q.1 = k then some q.2 else value l k := by
  induction l with
  | nil => rfl
  | cons p l ih =>
    by_cases hp : p.1 = q.1
    · rw [put, if_pos hp, value]
      by_cases hk : q.1 = k
      · subst hk
        rw [value_without_self, if_pos rfl, if_pos rfl]
        rfl
      · rw [value_without_of_ne hk, if_neg hk, value, if_neg (fun h => hk (hp.symm.trans h)), if_neg hk]
    · rw [put, if_neg hp, value, ih]
      split
      · rfl
      · rfl

theorem value_putAll (l qs : List (κ × β)) (k : κ) :
    value (putAll l qs) k = (value qs k <|> value l k) := by
  induction qs generalizing l with
  | nil => rfl
  | cons q qs ih =>
    rw [putAll, ih, value_put, value]
    cases value qs k with
    | some b => rfl
    | none =>
      change _ = ((if q.1 = k then some q.2 else none) <|> value l k)
      split <;> rfl

end Hill90.Pairs
