import Hill90.Foundation.Keyset

/-! # Keeping the newest rows

Rows arrive one by one in any order, each is put at its place among those kept, and all but the `n`
greatest keys are dropped.  What is kept does not depend on the order of arrival.
-/

namespace Hill90.Newest

open Keyset

variable {α κ : Type} [LinearOrder κ] (key : α → κ)

def descending (rows : List α) : List α := rows.insertionSort fun a b => key b ≤ key a

def keep (n : ℕ) (rows : List α) : List α := rows.drop (rows.length - n)

/-- `insert` puts a row that satisfies `P` at its place in an ascending list of such rows. -/
def Places (P : α → Prop) (insert : List α → α → List α) : Prop :=
  ∀ l x, (∀ a ∈ l, P a) → P x → l.Pairwise (fun a b => key a < key b) →
    (∀ a ∈ l, key a ≠ key x) →
    (insert l x).Perm (x :: l) ∧ (insert l x).Pairwise fun a b => key a < key b

variable {key}

theorem eq_of_perm_of_lt {l l' : List α} (hperm : l.Perm l')
    (hl : l.Pairwise fun a b => key a < key b) (hl' : l'.Pairwise fun a b => key a < key b) :
    l = l' :=
  List.Perm.eq_of_pairwise (fun _ _ _ _ hab hba => absurd hba hab.asymm) hl hl' hperm

/-- No place after the `n`-th has a say in what the first `n` places hold. -/
theorem take_orderedInsert_take (r : α → α → Prop) [DecidableRel r] (x : α) (n : ℕ) (l : List α) :
    ((l.take n).orderedInsert r x).take n = (l.orderedInsert r x).take n := by
  induction l generalizing n with
  | nil => simp
  | cons b l ih =>
    cases n with
    | zero => simp
    | succ n =>
      rw [List.take_succ_cons, List.orderedInsert_cons, List.orderedInsert_cons]
      split
      · rw [List.take_succ_cons, List.take_succ_cons]
        cases n with
        | zero => rfl
        | succ n =>
          rw [List.take_succ_cons, List.take_succ_cons, List.take_take, min_eq_left (Nat.le_succ n)]
      · rw [List.take_succ_cons, List.take_succ_cons, ih]

theorem reverse_keep (n : ℕ) (l : List α) : (keep n l).reverse = l.reverse.take n := by
  unfold keep
  rw [List.reverse_drop]
  by_cases h : n ≤ l.length
  · rw [show l.length - (l.length - n) = n by omega]
  · have hlength : l.reverse.length = l.length := List.length_reverse
    rw [show l.length - (l.length - n) = l.length by omega, List.take_of_length_le hlength.le,
      List.take_of_length_le (by omega)]

theorem descending_perm (rows : List α) : (descending key rows).Perm rows :=
  List.perm_insertionSort _ rows

theorem descending_sorted {rows : List α} (h : Distinct key rows) :
    (descending key rows).Pairwise fun a b => key b < key a := by
  have hle : (descending key rows).Pairwise fun a b => key b ≤ key a :=
    List.pairwise_insertionSort (fun a b => key b ≤ key a) rows
  have hne : (descending key rows).Pairwise fun a b => key a ≠ key b :=
    ((descending_perm rows).pairwise_iff fun h => h.symm).mpr h
  exact hle.imp₂ (fun _ _ hle hne => lt_of_le_of_ne hle (Ne.symm hne)) hne

theorem reverse_descending {rows : List α} (h : Distinct key rows) :
    (descending key rows).reverse = ordered key rows := by
  apply @eq_of_perm_of_lt _ _ _ key
  · exact (List.reverse_perm _).trans
      ((descending_perm rows).trans (List.perm_insertionSort _ rows).symm)
  · exact List.pairwise_reverse.mpr (descending_sorted h)
  · exact ordered_sorted h

section Run

variable {P : α → Prop} {insert : List α → α → List α} (hplaces : Places key P insert) {n : ℕ}
include hplaces

/-- One arrival, where what is kept are the first `n` of the rows so far in descending order. -/
theorem reverse_keep_insert {kept done : List α} {x : α}
    (hkept : kept.reverse = (descending key done).take n) (hdistinct : Distinct key (x :: done))
    (hP : ∀ a ∈ x :: done, P a) :
    (keep n (insert kept x)).reverse = (descending key (x :: done)).take n := by
  obtain ⟨hnew, hdone⟩ := List.pairwise_cons.mp hdistinct
  have hmem : ∀ a ∈ kept, a ∈ done := by
    intro a ha
    have htake : a ∈ (descending key done).take n := hkept ▸ List.mem_reverse.mpr ha
    exact (descending_perm done).mem_iff.mp (List.mem_of_mem_take htake)
  have hdesc : kept.reverse.Pairwise fun a b => key b < key a := by
    rw [hkept]
    exact (descending_sorted hdone).sublist (List.take_sublist _ _)
  have hasc : kept.Pairwise fun a b => key a < key b := List.pairwise_reverse.mp hdesc
  obtain ⟨hperm, hsorted⟩ := hplaces kept x
    (fun a ha => hP a (List.mem_cons_of_mem _ (hmem a ha))) (hP x List.mem_cons_self) hasc
    (fun a ha => (hnew a (hmem a ha)).symm)
  -- the insertion and the ordered one have the same rows, both in order
  have hfixed : descending key kept.reverse = kept.reverse :=
    List.Pairwise.insertionSort_eq (hdesc.imp fun h => h.le)
  have hinsert : (insert kept x).reverse =
      kept.reverse.orderedInsert (fun a b => key b ≤ key a) x := by
    have hcons : Distinct key (x :: kept.reverse) :=
      List.pairwise_cons.mpr ⟨fun a ha => hnew a (hmem a (List.mem_reverse.mp ha)),
        hdesc.imp fun h => h.ne'⟩
    have hsame : descending key (x :: kept.reverse) =
        kept.reverse.orderedInsert (fun a b => key b ≤ key a) x := by
      change (descending key kept.reverse).orderedInsert _ x = _
      rw [hfixed]
    rw [← hsame, ← List.reverse_inj, List.reverse_reverse, reverse_descending hcons]
    refine eq_of_perm_of_lt (hperm.trans ?_) hsorted (ordered_sorted hcons)
    exact ((List.reverse_perm kept).symm.cons x).trans (List.perm_insertionSort _ _).symm
  rw [reverse_keep, hinsert, hkept, take_orderedInsert_take]
  rfl

theorem reverse_foldl_keep (arrivals : List α) {kept done : List α}
    (hkept : kept.reverse = (descending key done).take n)
    (hdistinct : Distinct key (arrivals.reverse ++ done))
    (hP : ∀ a ∈ arrivals.reverse ++ done, P a) :
    (arrivals.foldl (fun l x => keep n (insert l x)) kept).reverse =
      (descending key (arrivals.reverse ++ done)).take n := by
  induction arrivals generalizing kept done with
  | nil => exact hkept
  | cons x arrivals ih =>
    rw [List.reverse_cons, List.append_assoc] at hdistinct hP ⊢
    apply ih _ hdistinct hP
    exact reverse_keep_insert hplaces hkept (List.pairwise_append.mp hdistinct).2.1
      fun a ha => hP a (List.mem_append_right _ ha)

/-- The rows kept of all arrivals are the newest of them, whatever the order of arrival. -/
theorem foldl_keep {rows arrivals : List α} (hperm : arrivals.Perm rows)
    (hdistinct : Distinct key rows) (hP : ∀ a ∈ rows, P a) :
    arrivals.foldl (fun l x => keep n (insert l x)) [] = keep n (ordered key rows) := by
  have hrev : (arrivals.reverse ++ []).Perm rows := by
    rw [List.append_nil]
    exact (List.reverse_perm _).trans hperm
  have hdistinct' : Distinct key (arrivals.reverse ++ []) :=
    (hrev.pairwise_iff fun h => h.symm).mpr hdistinct
  have hstart : ([] : List α).reverse = (descending key []).take n := by simp [descending]
  have hrun := reverse_foldl_keep hplaces arrivals hstart hdistinct'
    fun a ha => hP a (hrev.mem_iff.mp ha)
  rw [← List.reverse_inj, hrun, reverse_keep, ← reverse_descending hdistinct, List.reverse_reverse]
  congr 1
  rw [← List.reverse_inj, reverse_descending hdistinct', reverse_descending hdistinct]
  refine eq_of_perm_of_lt ?_ (ordered_sorted hdistinct') (ordered_sorted hdistinct)
  exact (List.perm_insertionSort _ _).trans (hrev.trans (List.perm_insertionSort _ _).symm)

end Run

end Hill90.Newest
