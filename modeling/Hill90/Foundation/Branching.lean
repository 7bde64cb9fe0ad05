import Mathlib.Algebra.BigOperators.Group.Finset.Basic
import Mathlib.Algebra.Order.BigOperators.Group.Finset
import Mathlib.Data.Finset.Card
import Mathlib.Logic.Relation

/-! # Trees of bounded width and depth

A relation given by finite sets of children.  If each node has at most `n` of them and
every child is one level below its parent, then the descendants of a node down to a
level are counted by a geometric sum.
-/

namespace Hill90

open Finset

variable {α : Type} [DecidableEq α]

def generation (children : α → Finset α) (root : α) : ℕ → Finset α
  | 0 => {root}
  | k + 1 => (generation children root k).biUnion children

def descendants (children : α → Finset α) (root : α) (d : ℕ) : Finset α :=
  (range d).biUnion fun k => generation children root (k + 1)

variable {children : α → Finset α} {root : α} {P : α → Prop}

theorem forall_generation (hroot : P root) (hchild : ∀ x y, P x → y ∈ children x → P y) (k : ℕ) :
    ∀ x ∈ generation children root k, P x := by
  induction k with
  | zero =>
    intro x hx
    rw [generation, mem_singleton] at hx
    exact hx ▸ hroot
  | succ k ih =>
    intro y hy
    obtain ⟨x, hx, hy⟩ := mem_biUnion.mp hy
    exact hchild x y (ih x hx) hy

theorem card_generation_le {n : ℕ} (hroot : P root) (hchild : ∀ x y, P x → y ∈ children x → P y)
    (hn : ∀ x, P x → (children x).card ≤ n) (k : ℕ) : (generation children root k).card ≤ n ^ k := by
  induction k with
  | zero => simp [generation]
  | succ k ih =>
    calc (generation children root (k + 1)).card
        ≤ (generation children root k).card * n :=
          card_biUnion_le_card_mul _ _ n fun x hx => hn x (forall_generation hroot hchild k x hx)
      _ ≤ n ^ k * n := Nat.mul_le_mul_right n ih
      _ = n ^ (k + 1) := (pow_succ n k).symm

theorem card_descendants_le {n : ℕ} (hroot : P root) (hchild : ∀ x y, P x → y ∈ children x → P y)
    (hn : ∀ x, P x → (children x).card ≤ n) (d : ℕ) :
    (descendants children root d).card ≤ ∑ k ∈ range d, n ^ (k + 1) :=
  card_biUnion_le.trans (sum_le_sum fun k _ => card_generation_le hroot hchild hn (k + 1))

theorem exists_generation {x : α} (h : Relation.TransGen (fun x y => y ∈ children x) root x) :
    ∃ k, x ∈ generation children root (k + 1) := by
  induction h with
  | single hx => exact ⟨0, mem_biUnion.mpr ⟨root, mem_singleton_self root, hx⟩⟩
  | tail _ hy ih =>
    obtain ⟨k, hk⟩ := ih
    exact ⟨k + 1, mem_biUnion.mpr ⟨_, hk, hy⟩⟩

/-- A node below the root is a descendant down to its own level. -/
theorem mem_descendants_of_level {level : α → ℕ} {d : ℕ} (hroot : P root) (hzero : level root = 0)
    (hchild : ∀ x y, P x → y ∈ children x → P y ∧ level y = level x + 1)
    (hd : ∀ x, P x → level x ≤ d) {x : α}
    (h : Relation.TransGen (fun x y => y ∈ children x) root x) : x ∈ descendants children root d := by
  obtain ⟨k, hk⟩ := exists_generation h
  have hlevel : ∀ k, ∀ x ∈ generation children root k, P x ∧ level x = k := by
    intro k
    induction k with
    | zero =>
      intro x hx
      rw [generation, mem_singleton] at hx
      subst hx
      exact ⟨hroot, hzero⟩
    | succ k ih =>
      intro y hy
      obtain ⟨x, hx, hy⟩ := mem_biUnion.mp hy
      obtain ⟨hP, hx⟩ := ih x hx
      obtain ⟨hP', hy⟩ := hchild x y hP hy
      exact ⟨hP', by omega⟩
  obtain ⟨hP, hx⟩ := hlevel (k + 1) x hk
  have hle := hd x hP
  exact mem_biUnion.mpr ⟨k, mem_range.mpr (by omega), hk⟩

end Hill90
