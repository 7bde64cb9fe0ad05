import Mathlib.Tactic.NormNum

/-! # Union-find

A forest of parents with ranks, searched with path compression and joined by rank.  Two elements are
joined just if they are in the closure of the pairs that were united, and the searches end.
-/

namespace Hill90.UnionFind

variable {α : Type} [DecidableEq α]

structure Forest (α : Type) where
  parent : α → Option α := fun _ => none
  rank : α → ℕ := fun _ => 0

namespace Forest

variable (f : Forest α)

def setParent (x p : α) : Forest α := { f with parent := Function.update f.parent x (some p) }

def setRank (x : α) (r : ℕ) : Forest α := { f with rank := Function.update f.rank x r }

def ensure (x : α) : Forest α := if f.parent x = none then (f.setParent x x).setRank x 0 else f

/-- The way up, with at most so many steps. -/
def climb : ℕ → α → Option α
  | 0, _ => none
  | n + 1, x =>
    match f.parent x with
    | none => none
    | some p => if p = x then some x else climb n p

/-- The way up once more; each element on it is hung below the root. -/
def compress (root : α) : ℕ → Forest α → α → Option (Forest α)
  | 0, _, _ => none
  | n + 1, f, x =>
    if x = root then some f
    else
      match f.parent x with
      | none => none
      | some p => compress root n (f.setParent x root) p

def find (fuel : ℕ) (x : α) : Option (α × Forest α) := do
  let f := f.ensure x
  let root ← f.climb fuel x
  let f ← compress root fuel f x
  pure (root, f)

/-- The root of less rank is hung below the other one. -/
def link (rx ry : α) : Forest α :=
  if rx = ry then f
  else if f.rank rx < f.rank ry then f.setParent rx ry
  else if f.rank ry < f.rank rx then f.setParent ry rx
  else (f.setParent ry rx).setRank rx (f.rank rx + 1)

def union (fuel : ℕ) (x y : α) : Option (Forest α) := do
  let (rx, f) ← f.find fuel x
  let (ry, f) ← f.find fuel y
  pure (f.link rx ry)

def unions (fuel : ℕ) : Forest α → List (α × α) → Option (Forest α)
  | f, [] => some f
  | f, p :: pairs => do
    let f ← f.union fuel p.1 p.2
    unions fuel f pairs

def finds (fuel : ℕ) : Forest α → List α → Option (List α)
  | _, [] => some []
  | f, x :: xs => do
    let (r, f) ← f.find fuel x
    let rs ← finds fuel f xs
    pure (r :: rs)

end Forest

open Forest

/-- Ranks rise along the parents, and stay below a bound. -/
structure Valid (f : Forest α) (bound : ℕ) : Prop where
  closed : ∀ x p, f.parent x = some p → f.parent p ≠ none
  rises : ∀ x p, f.parent x = some p → p ≠ x → f.rank x < f.rank p
  bounded : ∀ x, f.rank x ≤ bound

inductive Leads (f : Forest α) : α → α → Prop where
  | root (x : α) : f.parent x = some x → Leads f x x
  | step (x p r : α) : f.parent x = some p → p ≠ x → Leads f p r → Leads f x r

/-- Two elements have one root, or are the same. -/
def Joined (f : Forest α) (x y : α) : Prop := x = y ∨ ∃ r, Leads f x r ∧ Leads f y r

variable {f g : Forest α} {bound : ℕ} {x y r s p : α}

omit [DecidableEq α] in
theorem Leads.unique (h : Leads f x r) (h' : Leads f x s) : r = s := by
  induction h with
  | root x hx =>
    cases h' with
    | root => rfl
    | step _ p _ hp hne _ => exact absurd (Option.some.inj (hp.symm.trans hx)) hne
  | step x p r hp hne _ ih =>
    cases h' with
    | root _ hx => exact absurd (Option.some.inj (hp.symm.trans hx)) hne
    | step _ q _ hq _ hlead =>
      obtain rfl := Option.some.inj (hp.symm.trans hq)
      exact ih hlead

omit [DecidableEq α] in
theorem Leads.parent_root (h : Leads f x r) : f.parent r = some r := by
  induction h with
  | root x hx => exact hx
  | step _ _ _ _ _ _ ih => exact ih

omit [DecidableEq α] in
theorem Leads.parent_ne (h : Leads f x r) : f.parent x ≠ none := by
  cases h with
  | root _ hx => rw [hx]; exact Option.some_ne_none _
  | step _ _ _ hp _ _ => rw [hp]; exact Option.some_ne_none _

omit [DecidableEq α] in
theorem Leads.rank_lt (hf : Valid f bound) (h : Leads f x r) : x = r ∨ f.rank x < f.rank r := by
  induction h with
  | root => exact .inl rfl
  | step x p r hp hne _ ih =>
    right
    have hlt := hf.rises x p hp hne
    rcases ih with rfl | ih
    · exact hlt
    · exact hlt.trans ih

/-- From every element of the forest the climb ends at its root. -/
theorem Valid.climb (hf : Valid f bound) (x : α) (hx : f.parent x ≠ none) :
    ∃ r, Leads f x r ∧ ∀ n, bound - f.rank x < n → f.climb n x = some r := by
  induction hk : bound - f.rank x using Nat.strong_induction_on generalizing x with
  | _ k ih =>
    obtain ⟨p, hp⟩ := Option.ne_none_iff_exists'.mp hx
    by_cases heq : p = x
    · subst heq
      refine ⟨p, .root p hp, fun n hn => ?_⟩
      cases n with
      | zero => omega
      | succ n => rw [Forest.climb, hp]; exact if_pos rfl
    · have hlt := hf.rises x p hp heq
      have hle := hf.bounded p
      obtain ⟨r, hlead, hclimb⟩ := ih (bound - f.rank p) (by omega) p (hf.closed x p hp) rfl
      refine ⟨r, .step x p r hp heq hlead, fun n hn => ?_⟩
      cases n with
      | zero => omega
      | succ n =>
        rw [Forest.climb, hp]
        exact (if_neg heq).trans (hclimb n (by omega))

omit [DecidableEq α] in
theorem leads_iff_of (hg : ∀ x r, Leads f x r → Leads g x r)
    (hdom : ∀ x, g.parent x ≠ none → ∃ r, Leads f x r) : Leads g x r ↔ Leads f x r := by
  constructor
  · intro h
    obtain ⟨s, hs⟩ := hdom x h.parent_ne
    rwa [h.unique (hg x s hs)]
  · exact hg x r

section Compress

/-- Hanging an element below its root leaves every root as it is. -/
theorem setParent_root (hf : Valid f bound) (hx : Leads f x r) (hne : x ≠ r) :
    Valid (f.setParent x r) bound ∧ ∀ y s, Leads (f.setParent x r) y s ↔ Leads f y s := by
  have hroot := hx.parent_root
  have hparent (y : α) : (f.setParent x r).parent y = if y = x then some r else f.parent y :=
    Function.update_apply _ _ _ _
  have hvalid : Valid (f.setParent x r) bound := by
    refine ⟨?_, ?_, hf.bounded⟩
    · intro y p hp
      rw [hparent] at hp ⊢
      split
      · exact Option.some_ne_none _
      split at hp
      · cases hp
        rw [hroot]
        exact Option.some_ne_none _
      · exact hf.closed y p hp
    · intro y p hp hpy
      rw [hparent] at hp
      split at hp
      · rename_i hyx
        cases hp
        subst hyx
        exact (hx.rank_lt hf).resolve_left hne
      · exact hf.rises y p hp hpy
  have hforth : ∀ y s, Leads f y s → Leads (f.setParent x r) y s := by
    intro y s h
    induction h with
    | root y hy =>
      refine .root y ?_
      rw [hparent, if_neg, hy]
      rintro rfl
      exact hne ((Leads.root y hy).unique hx)
    | step y p s hp hpy hlead ih =>
      by_cases hyx : y = x
      · subst hyx
        obtain rfl := (Leads.step y p s hp hpy hlead).unique hx
        refine .step y s s ?_ hne.symm (.root s ?_)
        · rw [hparent, if_pos rfl]
        · rw [hparent, if_neg hne.symm, hroot]
      · exact .step y p s (by rw [hparent, if_neg hyx, hp]) hpy ih
  refine ⟨hvalid, fun y s => leads_iff_of hforth fun y hy => ?_⟩
  rw [hparent] at hy
  by_cases hyx : y = x
  · exact ⟨r, hyx ▸ hx⟩
  · rw [if_neg hyx] at hy
    obtain ⟨s, hs, -⟩ := hf.climb y hy
    exact ⟨s, hs⟩

theorem Valid.compress {n : ℕ} (hf : Valid f bound) (hx : Leads f x r) (hn : bound - f.rank x < n) :
    ∃ g, Forest.compress r n f x = some g ∧ Valid g bound ∧ ∀ y s, Leads g y s ↔ Leads f y s := by
  induction n generalizing f x with
  | zero => omega
  | succ n ih =>
    rw [Forest.compress]
    by_cases hxr : x = r
    · exact ⟨f, if_pos hxr, hf, fun _ _ => Iff.rfl⟩
    rw [if_neg hxr]
    obtain ⟨hvalid, hleads⟩ := setParent_root hf hx hxr
    cases hx with
    | root => exact absurd rfl hxr
    | step _ p _ hp hpx hlead =>
      rw [hp]
      have hlt := hf.rises x p hp hpx
      have hle := hf.bounded p
      obtain ⟨g, hg, hgvalid, hgleads⟩ := ih hvalid ((hleads p r).mpr hlead) (by
        change bound - f.rank p < n
        omega)
      exact ⟨g, hg, hgvalid, fun y s => (hgleads y s).trans (hleads y s)⟩

end Compress

section Find

omit [DecidableEq α] in
theorem Joined.congr (h : ∀ y s, Leads g y s ↔ Leads f y s) : Joined g x y ↔ Joined f x y := by
  simp only [Joined, h]

/-- A new element is joined to itself alone. -/
theorem Valid.ensure (hf : Valid f bound) (x : α) : Valid (f.ensure x) bound ∧
    (f.ensure x).parent x ≠ none ∧ (∀ y s, Leads f y s → Leads (f.ensure x) y s) ∧
      ∀ y z, Joined (f.ensure x) y z ↔ Joined f y z := by
  unfold Forest.ensure
  split
  · rename_i hx
    have hparent (y : α) : ((f.setParent x x).setRank x 0).parent y =
        if y = x then some x else f.parent y := Function.update_apply _ _ _ _
    have hrank (y : α) : ((f.setParent x x).setRank x 0).rank y = if y = x then 0 else f.rank y :=
      Function.update_apply _ _ _ _
    have hforth : ∀ y s, Leads f y s → Leads ((f.setParent x x).setRank x 0) y s := by
      intro y s h
      induction h with
      | root y hy =>
        have hyx : y ≠ x := fun heq => by rw [heq, hx] at hy; cases hy
        exact .root y (by rw [hparent, if_neg hyx, hy])
      | step y p s hp hpy _ ih =>
        have hyx : y ≠ x := fun heq => by rw [heq, hx] at hp; cases hp
        exact .step y p s (by rw [hparent, if_neg hyx, hp]) hpy ih
    have hself : Leads ((f.setParent x x).setRank x 0) x x :=
      .root x (by rw [hparent, if_pos rfl])
    have hback : ∀ y s, Leads ((f.setParent x x).setRank x 0) y s → (y = x ∧ s = x) ∨ Leads f y s := by
      intro y s h
      by_cases hyx : y = x
      · subst hyx
        exact .inl ⟨rfl, h.unique hself⟩
      · have hy := h.parent_ne
        rw [hparent, if_neg hyx] at hy
        obtain ⟨s', hs', -⟩ := hf.climb y hy
        rw [h.unique (hforth y s' hs')]
        exact .inr hs'
    refine ⟨⟨?_, ?_, ?_⟩, ?_, hforth, ?_⟩
    · intro y p hp
      rw [hparent] at hp ⊢
      split
      · exact Option.some_ne_none _
      split at hp
      · cases hp
        contradiction
      · exact hf.closed y p hp
    · intro y p hp hpy
      rw [hparent] at hp
      split at hp
      · rename_i hyx
        cases hp
        exact absurd hyx.symm hpy
      · rename_i hyx
        have hpx : p ≠ x := fun heq => hf.closed y p hp (heq ▸ hx)
        rw [hrank, hrank, if_neg hyx, if_neg hpx]
        exact hf.rises y p hp hpy
    · intro y
      rw [hrank]
      split
      · exact Nat.zero_le _
      · exact hf.bounded y
    · rw [hparent, if_pos rfl]
      exact Option.some_ne_none _
    · intro y z
      constructor
      · have hold : ∀ y s, Leads f y s → s ≠ x := by
          intro y s h heq
          have hroot := h.parent_root
          rw [heq, hx] at hroot
          cases hroot
        rintro (heq | ⟨s, hy, hz⟩)
        · exact .inl heq
        rcases hback y s hy with ⟨hyx, hsx⟩ | hy
        · rcases hback z s hz with ⟨hzx, -⟩ | hz
          · exact .inl (hyx.trans hzx.symm)
          · exact absurd hsx (hold z s hz)
        · rcases hback z s hz with ⟨-, hsx⟩ | hz
          · exact absurd hsx (hold y s hy)
          · exact .inr ⟨s, hy, hz⟩
      · rintro (heq | ⟨s, hy, hz⟩)
        · exact .inl heq
        · exact .inr ⟨s, hforth y s hy, hforth z s hz⟩
  · rename_i hx
    exact ⟨hf, hx, fun _ _ h => h, fun _ _ => Iff.rfl⟩

/-- A search ends at the root, and changes neither roots nor what is joined. -/
theorem Valid.find (hf : Valid f bound) {n : ℕ} (hn : bound < n) (x : α) :
    ∃ r g, f.find n x = some (r, g) ∧ Valid g bound ∧ Leads g x r ∧
      (∀ y s, Leads f y s → Leads g y s) ∧ ∀ y z, Joined g y z ↔ Joined f y z := by
  obtain ⟨hvalid, hin, hforth, hjoined⟩ := hf.ensure x
  obtain ⟨r, hlead, hclimb⟩ := hvalid.climb x hin
  obtain ⟨g, hg, hgvalid, hgleads⟩ := hvalid.compress (n := n) hlead (by omega)
  refine ⟨r, g, ?_, hgvalid, (hgleads x r).mpr hlead, fun y s h => (hgleads y s).mpr (hforth y s h),
    fun y z => (Joined.congr hgleads).trans (hjoined y z)⟩
  unfold Forest.find
  dsimp only
  rw [hclimb n (by omega), Option.bind_eq_bind, Option.bind_some, hg]
  rfl

/-- Searches one after the other end at the roots of one forest, which joins what `f` does. -/
theorem Valid.finds {n : ℕ} (xs : List α) (hf : Valid f bound) (hn : bound < n) :
    ∃ rs g, Forest.finds n f xs = some rs ∧ (∀ y s, Leads f y s → Leads g y s) ∧
      (∀ y z, Joined g y z ↔ Joined f y z) ∧ List.Forall₂ (Leads g) xs rs := by
  induction xs generalizing f with
  | nil => exact ⟨[], f, rfl, fun _ _ h => h, fun _ _ => Iff.rfl, .nil⟩
  | cons x xs ih =>
    obtain ⟨r, f', hfind, hvalid, hlead, hforth, hjoined⟩ := hf.find hn x
    obtain ⟨rs, g, hrest, hforth', hjoined', hall⟩ := ih hvalid
    refine ⟨r :: rs, g, ?_, fun y s h => hforth' y s (hforth y s h),
      fun y z => (hjoined' y z).trans (hjoined y z), .cons (hforth' x r hlead) hall⟩
    rw [Forest.finds, hfind, Option.bind_eq_bind, Option.bind_some]
    dsimp only
    rw [hrest]
    rfl

end Find

section Union

variable {a b : α}

/-- Hanging one root below another of greater rank. -/
theorem hang (hf : Valid f bound) (ha : f.parent a = some a) (hb : f.parent b = some b) (hne : a ≠ b)
    (hparent : ∀ y, g.parent y = if y = a then some b else f.parent y)
    (hrank : ∀ y, y ≠ b → g.rank y = f.rank y) (hgrow : f.rank b ≤ g.rank b)
    (hlt : f.rank a < g.rank b) (hbound : g.rank b ≤ bound + 1) :
    Valid g (bound + 1) ∧ ∀ u v, Joined g u v ↔
      Joined f u v ∨ (Leads f u a ∧ Leads f v b) ∨ (Leads f u b ∧ Leads f v a) := by
  have hgb : g.parent b = some b := by rw [hparent, if_neg hne.symm, hb]
  have hforth : ∀ y s, Leads f y s → Leads g y (if s = a then b else s) := by
    intro y s h
    induction h with
    | root y hy =>
      by_cases hya : y = a
      · rw [if_pos hya]
        exact .step y b b (by rw [hparent, if_pos hya]) (hya ▸ hne.symm) (.root b hgb)
      · rw [if_neg hya]
        exact .root y (by rw [hparent, if_neg hya, hy])
    | step y p s hp hpy _ ih =>
      have hya : y ≠ a := fun heq => hpy (by rw [heq, ha] at hp; rw [heq]; exact (Option.some.inj hp).symm)
      exact .step y p _ (by rw [hparent, if_neg hya, hp]) hpy ih
  have hback : ∀ y s, Leads g y s → ∃ s', Leads f y s' ∧ s = if s' = a then b else s' := by
    intro y s h
    have hy : f.parent y ≠ none := by
      have hy := h.parent_ne
      rw [hparent] at hy
      by_cases hya : y = a
      · rw [hya, ha]
        exact Option.some_ne_none _
      · rwa [if_neg hya] at hy
    obtain ⟨s', hs', -⟩ := hf.climb y hy
    exact ⟨s', hs', h.unique (hforth y s' hs')⟩
  refine ⟨⟨?_, ?_, ?_⟩, ?_⟩
  · intro y p hp
    rw [hparent] at hp ⊢
    split
    · exact Option.some_ne_none _
    split at hp
    · cases hp
      rw [hb]
      exact Option.some_ne_none _
    · exact hf.closed y p hp
  · intro y p hp hpy
    rw [hparent] at hp
    split at hp
    · rename_i hya
      cases hp
      rw [hya, hrank a hne]
      exact hlt
    · have hyb : y ≠ b := fun heq => hpy (by rw [heq, hb] at hp; rw [heq]; exact (Option.some.inj hp).symm)
      have hrise := hf.rises y p hp hpy
      rw [hrank y hyb]
      by_cases hpb : p = b
      · subst hpb
        exact hrise.trans_le hgrow
      · rwa [hrank p hpb]
  · intro y
    by_cases hyb : y = b
    · rwa [hyb]
    · rw [hrank y hyb]
      exact (hf.bounded y).trans (Nat.le_succ _)
  · intro u v
    constructor
    · rintro (heq | ⟨s, hu, hv⟩)
      · exact .inl (.inl heq)
      obtain ⟨s₁, hu, hs₁⟩ := hback u s hu
      obtain ⟨s₂, hv, hs₂⟩ := hback v s hv
      have heq := hs₁.symm.trans hs₂
      by_cases h₁ : s₁ = a
      · subst h₁
        by_cases h₂ : s₂ = s₁
        · exact .inl (.inr ⟨s₁, hu, h₂ ▸ hv⟩)
        · rw [if_pos rfl, if_neg h₂] at heq
          exact .inr (.inl ⟨hu, heq ▸ hv⟩)
      · by_cases h₂ : s₂ = a
        · subst h₂
          rw [if_neg h₁, if_pos rfl] at heq
          exact .inr (.inr ⟨heq ▸ hu, hv⟩)
        · rw [if_neg h₁, if_neg h₂] at heq
          exact .inl (.inr ⟨s₁, hu, heq ▸ hv⟩)
    · rintro ((heq | ⟨s, hu, hv⟩) | ⟨hu, hv⟩ | ⟨hu, hv⟩)
      · exact .inl heq
      · exact .inr ⟨_, hforth u s hu, hforth v s hv⟩
      · refine .inr ⟨b, ?_, ?_⟩
        · have h := hforth u a hu
          rwa [if_pos rfl] at h
        · have h := hforth v b hv
          rwa [if_neg hne.symm] at h
      · refine .inr ⟨b, ?_, ?_⟩
        · have h := hforth u b hu
          rwa [if_neg hne.symm] at h
        · have h := hforth v a hv
          rwa [if_pos rfl] at h

theorem Valid.link (hf : Valid f bound) (ha : f.parent a = some a) (hb : f.parent b = some b) :
    Valid (f.link a b) (bound + 1) ∧ ∀ u v, Joined (f.link a b) u v ↔
      Joined f u v ∨ (Leads f u a ∧ Leads f v b) ∨ (Leads f u b ∧ Leads f v a) := by
  unfold Forest.link
  split
  · rename_i hab
    subst hab
    refine ⟨⟨hf.closed, hf.rises, fun y => (hf.bounded y).trans (Nat.le_succ _)⟩, fun u v => ?_⟩
    constructor
    · exact .inl
    · rintro (h | ⟨hu, hv⟩ | ⟨hu, hv⟩)
      · exact h
      · exact .inr ⟨a, hu, hv⟩
      · exact .inr ⟨a, hu, hv⟩
  rename_i hne
  split
  · rename_i hlt
    exact hang hf ha hb hne (fun y => Function.update_apply _ _ _ _) (fun y _ => rfl) le_rfl hlt
      ((hf.bounded b).trans (Nat.le_succ _))
  have hswap (g : Forest α) (h : Valid g (bound + 1) ∧ ∀ u v, Joined g u v ↔
      Joined f u v ∨ (Leads f u b ∧ Leads f v a) ∨ (Leads f u a ∧ Leads f v b)) :
      Valid g (bound + 1) ∧ ∀ u v, Joined g u v ↔
        Joined f u v ∨ (Leads f u a ∧ Leads f v b) ∨ (Leads f u b ∧ Leads f v a) :=
    ⟨h.1, fun u v => (h.2 u v).trans (or_congr_right or_comm)⟩
  split
  · rename_i hlt
    exact hswap _ (hang hf hb ha (Ne.symm hne) (fun y => Function.update_apply _ _ _ _)
      (fun y _ => rfl) le_rfl hlt ((hf.bounded a).trans (Nat.le_succ _)))
  · rename_i h₁ h₂
    have hself : ((f.setParent b a).setRank a (f.rank a + 1)).rank a = f.rank a + 1 :=
      Function.update_self _ _ _
    refine hswap _ (hang hf hb ha (Ne.symm hne) (fun y => Function.update_apply _ _ _ _)
      (fun y hy => Function.update_of_ne hy _ _) ?_ ?_ ?_)
    · rw [hself]
      exact Nat.le_succ _
    · rw [hself]
      omega
    · rw [hself]
      exact Nat.succ_le_succ (hf.bounded a)

omit [DecidableEq α] in
/-- What leads to the root of `x` is what is joined to `x`. -/
theorem leads_iff_joined (hx : Leads f x r) : Leads f y r ↔ Joined f y x := by
  constructor
  · exact fun h => .inr ⟨r, h, hx⟩
  · rintro (rfl | ⟨s, hy, hs⟩)
    · exact hx
    · rwa [hx.unique hs]

/-- A union ends, and joins just the two classes. -/
theorem Valid.union (hf : Valid f bound) {n : ℕ} (hn : bound < n) (x y : α) :
    ∃ g, f.union n x y = some g ∧ Valid g (bound + 1) ∧ ∀ u v, Joined g u v ↔
      Joined f u v ∨ (Joined f u x ∧ Joined f v y) ∨ (Joined f u y ∧ Joined f v x) := by
  obtain ⟨rx, f₁, hfind₁, hvalid₁, hlead₁, -, hjoined₁⟩ := hf.find hn x
  obtain ⟨ry, f₂, hfind₂, hvalid₂, hlead₂, hforth, hjoined₂⟩ := hvalid₁.find hn y
  have hx := hforth x rx hlead₁
  obtain ⟨hvalid, hjoined⟩ := hvalid₂.link hx.parent_root hlead₂.parent_root
  refine ⟨f₂.link rx ry, ?_, hvalid, fun u v => ?_⟩
  · unfold Forest.union
    rw [hfind₁, Option.bind_eq_bind, Option.bind_some]
    dsimp only
    rw [hfind₂, Option.bind_some]
    rfl
  · rw [hjoined]
    simp only [leads_iff_joined hx, leads_iff_joined hlead₂, hjoined₂, hjoined₁]

end Union

section Unions

open Relation

omit [DecidableEq α] in
/-- One more pair joins the classes of its two elements. -/
theorem eqvGen_insert (R : α → α → Prop) (x y : α) {u v : α} :
    EqvGen (fun a b => R a b ∨ (a = x ∧ b = y)) u v ↔ EqvGen R u v ∨
      (EqvGen R u x ∧ EqvGen R v y) ∨ (EqvGen R u y ∧ EqvGen R v x) := by
  constructor
  · intro h
    induction h with
    | rel a b hab =>
      rcases hab with hab | ⟨rfl, rfl⟩
      · exact .inl (.rel _ _ hab)
      · exact .inr (.inl ⟨.refl _, .refl _⟩)
    | refl a => exact .inl (.refl a)
    | symm a b _ ih =>
      rcases ih with h | ⟨ha, hb⟩ | ⟨ha, hb⟩
      · exact .inl h.symm
      · exact .inr (.inr ⟨hb, ha⟩)
      · exact .inr (.inl ⟨hb, ha⟩)
    | trans a b c _ _ ih₁ ih₂ =>
      rcases ih₁ with h₁ | ⟨ha, hb⟩ | ⟨ha, hb⟩
      · rcases ih₂ with h₂ | ⟨hb, hc⟩ | ⟨hb, hc⟩
        · exact .inl (h₁.trans _ _ _ h₂)
        · exact .inr (.inl ⟨h₁.trans _ _ _ hb, hc⟩)
        · exact .inr (.inr ⟨h₁.trans _ _ _ hb, hc⟩)
      · rcases ih₂ with h₂ | ⟨hb', hc⟩ | ⟨hb', hc⟩
        · exact .inr (.inl ⟨ha, h₂.symm.trans _ _ _ hb⟩)
        · exact .inr (.inl ⟨ha, hc⟩)
        · exact .inl (ha.trans _ _ _ hc.symm)
      · rcases ih₂ with h₂ | ⟨hb', hc⟩ | ⟨hb', hc⟩
        · exact .inr (.inr ⟨ha, h₂.symm.trans _ _ _ hb⟩)
        · exact .inl (ha.trans _ _ _ hc.symm)
        · exact .inr (.inr ⟨ha, hc⟩)
  · have hmono : ∀ {a b}, EqvGen R a b → EqvGen (fun a b => R a b ∨ (a = x ∧ b = y)) a b :=
      fun h => h.mono fun _ _ hab => .inl hab
    have hxy : EqvGen (fun a b => R a b ∨ (a = x ∧ b = y)) x y := .rel _ _ (.inr ⟨rfl, rfl⟩)
    rintro (h | ⟨hu, hv⟩ | ⟨hu, hv⟩)
    · exact hmono h
    · exact (hmono hu).trans _ _ _ (hxy.trans _ _ _ (hmono hv).symm)
    · exact (hmono hu).trans _ _ _ (hxy.symm.trans _ _ _ (hmono hv).symm)

/-- A run of unions, from a forest that joins what `R` generates. -/
theorem Valid.unions {n : ℕ} (pairs : List (α × α)) {R : α → α → Prop} (hf : Valid f bound)
    (hn : bound + pairs.length < n) (hR : ∀ u v, Joined f u v ↔ EqvGen R u v) :
    ∃ g, Forest.unions n f pairs = some g ∧ Valid g (bound + pairs.length) ∧
      ∀ u v, Joined g u v ↔ EqvGen (fun a b => R a b ∨ (a, b) ∈ pairs) u v := by
  induction pairs generalizing f bound R with
  | nil =>
    refine ⟨f, rfl, hf, fun u v => ?_⟩
    simp only [List.not_mem_nil, or_false]
    exact hR u v
  | cons p pairs ih =>
    rw [List.length_cons] at hn
    obtain ⟨g, hg, hgvalid, hjoined⟩ := hf.union (n := n) (by omega) p.1 p.2
    obtain ⟨g', hg', hvalid, hjoined'⟩ := ih (R := fun a b => R a b ∨ (a = p.1 ∧ b = p.2)) hgvalid
      (by omega) fun u v => by rw [hjoined, eqvGen_insert]; simp only [hR]
    refine ⟨g', ?_, ?_, fun u v => ?_⟩
    · rw [Forest.unions, hg]
      exact hg'
    · rwa [List.length_cons, Nat.add_comm pairs.length, ← Nat.add_assoc]
    · rw [hjoined']
      simp only [List.mem_cons, or_assoc, Prod.ext_iff]

omit [DecidableEq α] in
theorem valid_empty : Valid ({} : Forest α) 0 :=
  ⟨fun _ _ h => (by cases h), fun _ _ h => (by cases h), fun _ => le_rfl⟩

omit [DecidableEq α] in
/-- In the empty forest nothing is joined. -/
theorem joined_empty {u v : α} : Joined ({} : Forest α) u v ↔ EqvGen (fun _ _ => False) u v := by
  constructor
  · rintro (rfl | ⟨r, hu, -⟩)
    · exact .refl _
    · exact absurd rfl hu.parent_ne
  · intro h
    induction h with
    | rel _ _ h => exact h.elim
    | refl => exact .inl rfl
    | symm _ _ _ ih =>
      rcases ih with rfl | ⟨r, hu, -⟩
      · exact .inl rfl
      · exact absurd rfl hu.parent_ne
    | trans _ _ _ _ _ ih₁ ih₂ =>
      rcases ih₁ with rfl | ⟨r, hu, -⟩
      · exact ih₂
      · exact absurd rfl hu.parent_ne

end Unions

end Hill90.UnionFind
