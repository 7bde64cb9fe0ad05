import Mathlib.Data.List.Basic
import Mathlib.Data.List.Chain

/-! # A list cut into runs

Neighbours with the same key stand in one run; an item without a key stands alone.  The runs
are determined by what they are, and no key has two of them exactly when the items of each key
stand together.
-/

namespace Hill90.Runs

open scoped List

structure Run (κ α : Type) where
  key : Option κ
  items : List α
  deriving DecidableEq, Repr

variable {κ α : Type} {f : α → Option κ} {xs : List α} {rs ss : List (Run κ α)}

def push [DecidableEq κ] (f : α → Option κ) (rs : List (Run κ α)) (x : α) : List (Run κ α) :=
  match rs.getLast? with
  | some last =>
    if last.key = f x ∧ f x ≠ none then rs.dropLast ++ [{ last with items := last.items ++ [x] }]
    else rs ++ [⟨f x, [x]⟩]
  | none => rs ++ [⟨f x, [x]⟩]

def runs [DecidableEq κ] (f : α → Option κ) (xs : List α) : List (Run κ α) := xs.foldl (push f) []

structure Cuts (f : α → Option κ) (rs : List (Run κ α)) (xs : List α) : Prop where
  flat : rs.flatMap Run.items = xs
  nonempty : ∀ r ∈ rs, r.items ≠ []
  uniform : ∀ r ∈ rs, ∀ x ∈ r.items, f x = r.key
  single : ∀ r ∈ rs, r.key = none → ∃ x, r.items = [x]
  apart : rs.IsChain fun r s => r.key = s.key → r.key = none

/-- Between two items of one key there are only items of that key. -/
def Together (f : α → Option κ) (xs : List α) : Prop :=
  ∀ a b c, [a, b, c] <+ xs → f a = f c → f a ≠ none → f b = f a

theorem Cuts.begin (h : Cuts f rs xs) {x : α}
    (hlast : ∀ r, rs.getLast? = some r → r.key = f x → r.key = none) :
    Cuts f (rs ++ [⟨f x, [x]⟩]) (xs ++ [x]) where
  flat := by simp [h.flat]
  nonempty r hr := by
    obtain hr | hr := List.mem_append.mp hr
    · exact h.nonempty r hr
    · rw [List.mem_singleton.mp hr]
      simp
  uniform r hr y hy := by
    obtain hr | hr := List.mem_append.mp hr
    · exact h.uniform r hr y hy
    · rw [List.mem_singleton.mp hr] at hy ⊢
      rw [List.mem_singleton.mp hy]
  single r hr hnone := by
    obtain hr | hr := List.mem_append.mp hr
    · exact h.single r hr hnone
    · rw [List.mem_singleton.mp hr]
      exact ⟨x, rfl⟩
  apart := by
    refine List.isChain_append.mpr ⟨h.apart, .singleton _, ?_⟩
    intro r hr s hs
    obtain rfl : _ = s := by simpa using hs
    exact hlast r hr

theorem Cuts.extend {last : Run κ α} (h : Cuts f (rs ++ [last]) xs) {x : α}
    (hkey : last.key = f x) (hsome : f x ≠ none) :
    Cuts f (rs ++ [{ last with items := last.items ++ [x] }]) (xs ++ [x]) where
  flat := by simp [← h.flat]
  nonempty r hr := by
    obtain hr | hr := List.mem_append.mp hr
    · exact h.nonempty r (List.mem_append_left _ hr)
    · rw [List.mem_singleton.mp hr]
      simp
  uniform r hr y hy := by
    obtain hr | hr := List.mem_append.mp hr
    · exact h.uniform r (List.mem_append_left _ hr) y hy
    · rw [List.mem_singleton.mp hr] at hy ⊢
      obtain hy | hy := List.mem_append.mp hy
      · exact h.uniform last (List.mem_append_right _ (List.mem_singleton_self _)) y hy
      · rw [List.mem_singleton.mp hy, hkey]
  single r hr hnone := by
    obtain hr | hr := List.mem_append.mp hr
    · exact h.single r (List.mem_append_left _ hr) hnone
    · rw [List.mem_singleton.mp hr] at hnone
      exact absurd (hkey.symm.trans hnone) hsome
  apart := by
    obtain ⟨hinit, -, hlink⟩ := List.isChain_append.mp h.apart
    refine List.isChain_append.mpr ⟨hinit, .singleton _, ?_⟩
    intro r hr s hs
    obtain rfl : _ = s := by simpa using hs
    exact hlink r hr last (by simp)

theorem Cuts.push [DecidableEq κ] (h : Cuts f rs xs) (x : α) : Cuts f (Runs.push f rs x) (xs ++ [x]) := by
  unfold Runs.push
  obtain rfl | ⟨rs, last, rfl⟩ := List.eq_nil_or_concat rs
  · exact h.begin (by simp)
  · simp only [List.concat_eq_append, List.getLast?_append, List.getLast?_singleton,
      Option.some_or, List.dropLast_concat] at h ⊢
    split
    · rename_i hjoin
      exact h.extend hjoin.1 hjoin.2
    · rename_i hjoin
      apply h.begin
      intro r hr hkey
      obtain rfl : last = r := by simpa using hr
      by_contra hnone
      exact hjoin ⟨hkey, hkey ▸ hnone⟩

theorem cuts_runs [DecidableEq κ] (f : α → Option κ) (xs : List α) : Cuts f (runs f xs) xs := by
  have hfrom : ∀ ys rs pre, Cuts f rs pre → Cuts f (ys.foldl (Runs.push f) rs) (pre ++ ys) := by
    intro ys
    induction ys with
    | nil =>
      intro rs pre h
      simpa using h
    | cons y ys ih =>
      intro rs pre h
      simpa using ih _ _ (h.push y)
  exact hfrom xs [] [] ⟨rfl, by simp, by simp, by simp, .nil⟩

theorem Cuts.tail {r : Run κ α} (h : Cuts f (r :: rs) xs) : Cuts f rs (rs.flatMap Run.items) where
  flat := rfl
  nonempty s hs := h.nonempty s (List.mem_cons_of_mem r hs)
  uniform s hs := h.uniform s (List.mem_cons_of_mem r hs)
  single s hs := h.single s (List.mem_cons_of_mem r hs)
  apart := h.apart.tail

theorem Cuts.key_of_mem (h : Cuts f rs xs) {x : α} (hx : x ∈ xs) {k : κ} (hk : f x = some k) :
    k ∈ rs.filterMap Run.key := by
  rw [← h.flat] at hx
  obtain ⟨r, hr, hxr⟩ := List.mem_flatMap.mp hx
  exact List.mem_filterMap.mpr ⟨r, hr, by rw [← h.uniform r hr x hxr, hk]⟩

/-- The items of a key are those of its run, where it has no other. -/
theorem Cuts.items_eq [DecidableEq κ] (h : Cuts f rs xs) (hkeys : (rs.filterMap Run.key).Nodup) {r : Run κ α}
    (hr : r ∈ rs) {k : κ} (hk : r.key = some k) : r.items = xs.filter fun x => f x = some k := by
  induction rs generalizing xs with
  | nil => cases hr
  | cons s rs ih =>
    have hsplit : xs.filter (fun x => decide (f x = some k)) =
        s.items.filter (fun x => decide (f x = some k)) ++
          (rs.flatMap Run.items).filter fun x => decide (f x = some k) := by
      rw [← h.flat, List.flatMap_cons, List.filter_append]
    have hkeys' : (rs.filterMap Run.key).Nodup := by
      rw [List.filterMap_cons] at hkeys
      split at hkeys
      · exact hkeys
      · exact (List.nodup_cons.mp hkeys).2
    have hnone : s.key ≠ some k → s.items.filter (fun x => decide (f x = some k)) = [] := by
      intro hne
      rw [List.filter_eq_nil_iff]
      intro x hx
      simpa [h.uniform s List.mem_cons_self x hx] using hne
    obtain rfl | hr := List.mem_cons.mp hr
    · have hrest : (rs.flatMap Run.items).filter (fun x => decide (f x = some k)) = [] := by
        rw [List.filter_eq_nil_iff]
        intro x hx hfx
        have hmem := h.tail.key_of_mem hx (of_decide_eq_true hfx)
        rw [List.filterMap_cons, hk] at hkeys
        exact (List.nodup_cons.mp hkeys).1 hmem
      have hall : r.items.filter (fun x => decide (f x = some k)) = r.items := by
        rw [List.filter_eq_self]
        intro x hx
        simpa [hk] using h.uniform r List.mem_cons_self x hx
      rw [hsplit, hrest, hall, List.append_nil]
    · have hne : s.key ≠ some k := by
        intro hs
        rw [List.filterMap_cons, hs] at hkeys
        exact (List.nodup_cons.mp hkeys).1 (List.mem_filterMap.mpr ⟨r, hr, hk⟩)
      rw [hsplit, hnone hne, List.nil_append]
      exact ih h.tail hkeys' hr

theorem Together.of_sublist {ys : List α} (h : Together f xs) (hsub : ys <+ xs) : Together f ys :=
  fun a b c habc => h a b c (habc.trans hsub)

theorem Cuts.together (h : Cuts f rs xs) (hkeys : (rs.filterMap Run.key).Nodup) : Together f xs := by
  induction rs generalizing xs with
  | nil =>
    intro a b c habc
    rw [← h.flat] at habc
    cases habc
  | cons r rs ih =>
    intro a b c habc hac hsome
    have hkeys' : (rs.filterMap Run.key).Nodup := by
      rw [List.filterMap_cons] at hkeys
      split at hkeys
      · exact hkeys
      · exact (List.nodup_cons.mp hkeys).2
    -- An item of this run and a later one do not share a key.
    have hcross : ∀ {x y}, x ∈ r.items → y ∈ rs.flatMap Run.items → f x = f y → f x = none := by
      intro x y hx hy hxy
      have hkey := h.uniform r List.mem_cons_self x hx
      cases hr : r.key with
      | none => rw [hkey, hr]
      | some k =>
        have hmem := h.tail.key_of_mem hy (hxy.symm.trans (hkey.trans hr))
        rw [List.filterMap_cons, hr] at hkeys
        exact absurd hmem (List.nodup_cons.mp hkeys).1
    rw [← h.flat, List.flatMap_cons] at habc
    obtain ⟨l, m, hlm, hl, hm⟩ := List.sublist_append_iff.mp habc
    match l, hlm, hl with
    | [], hlm, _ =>
      cases hlm
      exact ih h.tail hkeys' a b c hm hac hsome
    | [x], hlm, hl =>
      cases hlm
      exact absurd (hcross (List.singleton_sublist.mp hl) (hm.subset (by simp)) hac) hsome
    | [x, y], hlm, hl =>
      cases hlm
      exact absurd (hcross (hl.subset (by simp)) (hm.subset (by simp)) hac) hsome
    | [x, y, z], hlm, hl =>
      cases hlm
      rw [h.uniform r List.mem_cons_self a (hl.subset (by simp)),
        h.uniform r List.mem_cons_self b (hl.subset (by simp))]
    | x :: y :: z :: w :: l, hlm, _ =>
      have := congrArg List.length hlm
      simp at this

theorem Cuts.nodup (h : Cuts f rs xs) (htogether : Together f xs) : (rs.filterMap Run.key).Nodup := by
  induction rs generalizing xs with
  | nil => exact List.nodup_nil
  | cons r rs ih =>
    have hsub : rs.flatMap Run.items <+ xs := by
      rw [← h.flat, List.flatMap_cons]
      exact List.sublist_append_right _ _
    have hrest := ih h.tail (htogether.of_sublist hsub)
    rw [List.filterMap_cons]
    split
    · exact hrest
    · rename_i k hk
      refine List.nodup_cons.mpr ⟨?_, hrest⟩
      intro hmem
      obtain ⟨s, hs, hsk⟩ := List.mem_filterMap.mp hmem
      cases rs with
      | nil => cases hs
      | cons r' rs =>
        have happart := (List.isChain_cons_cons.mp h.apart).1
        have hne : r'.key ≠ some k := by
          intro hr'
          have := happart (hk.trans hr'.symm)
          rw [hk] at this
          cases this
        obtain rfl | hs := List.mem_cons.mp hs
        · exact hne hsk
        · obtain ⟨a, ha⟩ := List.exists_mem_of_ne_nil _ (h.nonempty r List.mem_cons_self)
          obtain ⟨b, hb⟩ := List.exists_mem_of_ne_nil _ (h.nonempty r' (by simp))
          obtain ⟨c, hc⟩ := List.exists_mem_of_ne_nil _ (h.nonempty s (by simp [hs]))
          have hcflat : c ∈ rs.flatMap Run.items := List.mem_flatMap.mpr ⟨s, hs, hc⟩
          have hfa : f a = some k := (h.uniform r List.mem_cons_self a ha).trans hk
          have hfb : f b = r'.key := h.uniform r' (by simp) b hb
          have hfc : f c = some k := (h.uniform s (by simp [hs]) c hc).trans hsk
          have habc : [a, b, c] <+ xs := by
            rw [← h.flat, List.flatMap_cons, List.flatMap_cons]
            exact (List.singleton_sublist.mpr ha).append
              ((List.singleton_sublist.mpr hb).append (List.singleton_sublist.mpr hcflat))
          have hbetween := htogether a b c habc (hfa.trans hfc.symm) (by rw [hfa]; simp)
          exact hne (hfb.symm.trans (hbetween.trans hfa))

theorem Cuts.nodup_iff (h : Cuts f rs xs) : (rs.filterMap Run.key).Nodup ↔ Together f xs :=
  ⟨h.together, h.nodup⟩

end Hill90.Runs
