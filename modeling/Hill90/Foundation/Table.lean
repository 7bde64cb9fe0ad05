import Mathlib.Data.List.Basic
import Mathlib.Data.List.Nodup
import Mathlib.Order.Basic

/-! # Tables with a primary key

A table is a list of rows with pairwise distinct keys.  An update rewrites the rows
that match a condition and numbers them from a sequence, one number each; it may
not touch a key.  Rows are found by key, and every operation says what it does to
the row of each key.
-/

namespace Hill90

variable {κ ρ : Type} {key : ρ → κ}

structure Table (key : ρ → κ) where
  rows : List ρ
  keys : (rows.map key).Nodup

namespace Table

def empty : Table key := ⟨[], List.nodup_nil⟩

def delete (t : Table key) (p : ρ → Bool) : Table key :=
  ⟨t.rows.filter fun r => !p r, t.keys.sublist (List.filter_sublist.map key)⟩

def count (t : Table key) (p : ρ → Bool) : ℕ := t.rows.countP p

/-- The matching rows rewritten, the first with number `n`, the next with `n + 1`. -/
def patchRows (p : ρ → Bool) (f : ℕ → ρ → ρ) : ℕ → List ρ → List ρ
  | _, [] => []
  | n, r :: rs => if p r then f n r :: patchRows p f (n + 1) rs else r :: patchRows p f n rs

theorem patchRows_keys {p : ρ → Bool} {f : ℕ → ρ → ρ} (hf : ∀ n r, key (f n r) = key r) (n : ℕ)
    (rs : List ρ) : (patchRows p f n rs).map key = rs.map key := by
  induction rs generalizing n with
  | nil => rfl
  | cons r rs ih =>
    rw [patchRows]
    split
    · rw [List.map_cons, List.map_cons, hf, ih]
    · rw [List.map_cons, List.map_cons, ih]

def patch (t : Table key) (p : ρ → Bool) (f : ℕ → ρ → ρ) (n : ℕ)
    (hf : ∀ n r, key (f n r) = key r) : Table key :=
  ⟨patchRows p f n t.rows, by
    rw [patchRows_keys hf]
    exact t.keys⟩

variable {t : Table key} {p q : ρ → Bool} {f : ℕ → ρ → ρ} {n : ℕ} {r : ρ} {k : κ}

theorem eq_of_key_eq {r r' : ρ} (hr : r ∈ t.rows) (hr' : r' ∈ t.rows) (hkey : key r = key r') :
    r = r' := List.inj_on_of_nodup_map t.keys hr hr' hkey

theorem mem_delete {r : ρ} : r ∈ (t.delete p).rows ↔ r ∈ t.rows ∧ p r = false := by
  simp [delete]

theorem count_eq_zero_iff : t.count p = 0 ↔ ∀ r ∈ t.rows, p r = false := by
  simp [count, List.countP_eq_zero]

theorem mem_patchRows {rs : List ρ} {r' : ρ} (h : r' ∈ patchRows p f n rs) :
    ∃ r ∈ rs, (p r = false ∧ r' = r) ∨
      (p r = true ∧ ∃ i, n ≤ i ∧ i < n + rs.countP p ∧ r' = f i r) := by
  induction rs generalizing n with
  | nil => cases h
  | cons r rs ih =>
    rw [patchRows] at h
    split at h
    · rename_i hp
      have hcount : (r :: rs).countP p = rs.countP p + 1 := List.countP_cons_of_pos hp
      obtain rfl | h := List.mem_cons.mp h
      · exact ⟨r, by simp, .inr ⟨hp, n, by omega, by omega, rfl⟩⟩
      · obtain ⟨r₀, hr₀, hsame | ⟨hp₀, i, hle, hlt, heq⟩⟩ := ih h
        · exact ⟨r₀, List.mem_cons_of_mem r hr₀, .inl hsame⟩
        · exact ⟨r₀, List.mem_cons_of_mem r hr₀, .inr ⟨hp₀, i, by omega, by omega, heq⟩⟩
    · rename_i hp
      have hcount : (r :: rs).countP p = rs.countP p := List.countP_cons_of_neg hp
      obtain rfl | h := List.mem_cons.mp h
      · exact ⟨r', by simp, .inl ⟨by simpa using hp, rfl⟩⟩
      · obtain ⟨r₀, hr₀, hcase⟩ := ih h
        refine ⟨r₀, List.mem_cons_of_mem r hr₀, ?_⟩
        rwa [hcount]

theorem mem_patch {hf : ∀ n r, key (f n r) = key r} {r' : ρ} (h : r' ∈ (t.patch p f n hf).rows) :
    ∃ r ∈ t.rows, (p r = false ∧ r' = r) ∨
      (p r = true ∧ ∃ i, n ≤ i ∧ i < n + t.count p ∧ r' = f i r) := mem_patchRows h

theorem key_of_mem_patchRows {rs : List ρ} {r' : ρ} (h : r' ∈ patchRows p f n rs)
    (hf : ∀ n r, key (f n r) = key r) : ∃ r ∈ rs, key r' = key r := by
  obtain ⟨r, hr, ⟨_, rfl⟩ | ⟨_, i, _, _, rfl⟩⟩ := mem_patchRows h
  · exact ⟨r', hr, rfl⟩
  · exact ⟨r, hr, hf i r⟩

/-- An UPDATE loses no key. -/
theorem exists_of_mem_patch (hf : ∀ n r, key (f n r) = key r) {r : ρ} (h : r ∈ t.rows) :
    ∃ r' ∈ (t.patch p f n hf).rows, key r' = key r := by
  have hmem : key r ∈ (patchRows p f n t.rows).map key := by
    rw [patchRows_keys hf]
    exact List.mem_map.mpr ⟨r, h, rfl⟩
  obtain ⟨r', hr', heq⟩ := List.mem_map.mp hmem
  exact ⟨r', hr', heq⟩

theorem patch_eq_self {hf : ∀ n r, key (f n r) = key r} (h : t.count p = 0) :
    t.patch p f n hf = t := by
  have hrows : ∀ (n : ℕ) (rs : List ρ), rs.countP p = 0 → patchRows p f n rs = rs := by
    intro n rs
    induction rs generalizing n with
    | nil => exact fun _ => rfl
    | cons r rs ih =>
      intro hzero
      have hr : ¬p r = true := List.countP_eq_zero.mp hzero r (by simp)
      rw [patchRows, if_neg hr, ih]
      rwa [List.countP_cons_of_neg hr] at hzero
  cases t with
  | mk rows keys =>
    simp only [patch, mk.injEq]
    exact hrows n rows h

theorem delete_eq_self (h : t.count p = 0) : t.delete p = t := by
  have hrows : (t.delete p).rows = t.rows := by
    apply List.filter_eq_self.mpr
    intro r hr
    simp [count_eq_zero_iff.mp h r hr]
  cases t with
  | mk rows keys =>
    simp only [delete, mk.injEq]
    exact hrows

/-- Rows that do not count before or after their rewriting do not change the count. -/
theorem count_patch_eq {hf : ∀ n r, key (f n r) = key r}
    (hq : ∀ r, p r = true → q r = false ∧ ∀ i, q (f i r) = false) :
    (t.patch p f n hf).count q = t.count q := by
  have hrows : ∀ (n : ℕ) (rs : List ρ), (patchRows p f n rs).countP q = rs.countP q := by
    intro n rs
    induction rs generalizing n with
    | nil => rfl
    | cons r rs ih =>
      rw [patchRows]
      split
      · obtain ⟨hbefore, hafter⟩ := hq r ‹_›
        rw [List.countP_cons, List.countP_cons, ih, hbefore, hafter]
      · rw [List.countP_cons, List.countP_cons, ih]
  exact hrows n t.rows

theorem count_delete_eq (hq : ∀ r, p r = true → q r = false) : (t.delete p).count q = t.count q := by
  rw [count, delete, List.countP_filter]
  apply List.countP_congr
  intro r _
  cases hp : p r with
  | false => simp
  | true => simp [hq r hp]

variable [DecidableEq κ]

def get? (t : Table key) (k : κ) : Option ρ := t.rows.find? fun r => key r = k

/-- Refused when the key is taken. -/
def insert (t : Table key) (r : ρ) : Option (Table key) :=
  if h : key r ∈ t.rows.map key then none
  else some ⟨t.rows ++ [r], by
    rw [List.map_append]
    exact t.keys.append (List.nodup_singleton _) (by simpa using h)⟩

theorem key_of_get? (h : t.get? k = some r) : key r = k := by
  simpa using List.find?_some h

theorem mem_of_get? (h : t.get? k = some r) : r ∈ t.rows := List.mem_of_find?_eq_some h

theorem mem_iff_get? : r ∈ t.rows ↔ t.get? (key r) = some r := by
  constructor
  · intro hr
    obtain ⟨r', hr'⟩ : ∃ r', t.get? (key r) = some r' :=
      Option.isSome_iff_exists.mp (List.find?_isSome.mpr ⟨r, hr, by simp⟩)
    rw [hr', eq_of_key_eq (mem_of_get? hr') hr (key_of_get? hr')]
  · exact mem_of_get?

theorem get?_eq_none_iff : t.get? k = none ↔ ∀ r ∈ t.rows, key r ≠ k := by
  simp [get?]

theorem rows_of_insert {t' : Table key} (h : t.insert r = some t') : t'.rows = t.rows ++ [r] := by
  unfold insert at h
  split at h
  · cases h
  · cases h
    rfl

theorem fresh_of_insert {t' : Table key} (h : t.insert r = some t') : t.get? (key r) = none := by
  unfold insert at h
  split at h
  · cases h
  · rename_i hfresh
    rw [get?_eq_none_iff]
    intro r' hr' hkey
    apply hfresh
    rw [← hkey]
    exact List.mem_map_of_mem hr'

theorem exists_insert (h : t.get? (key r) = none) : ∃ t', t.insert r = some t' := by
  have hfresh : key r ∉ t.rows.map key := by
    intro htaken
    obtain ⟨r', hr', hkey⟩ := List.mem_map.mp htaken
    exact get?_eq_none_iff.mp h r' hr' hkey
  exact ⟨_, by rw [insert, dif_neg hfresh]⟩

theorem mem_of_insert {t' : Table key} (h : t.insert r = some t') {r' : ρ} :
    r' ∈ t'.rows ↔ r' ∈ t.rows ∨ r' = r := by
  rw [rows_of_insert h, List.mem_append, List.mem_singleton]

/-- A row that is there stays there. -/
theorem get?_of_insert {t' : Table key} (h : t.insert r = some t') {r' : ρ}
    (hr' : t.get? k = some r') : t'.get? k = some r' := by
  have hmem : r' ∈ t'.rows := (mem_of_insert h).mpr (.inl (mem_of_get? hr'))
  rw [← key_of_get? hr']
  exact mem_iff_get?.mp hmem

theorem count_of_insert {t' : Table key} (h : t.insert r = some t') :
    t'.count q = t.count q + if q r then 1 else 0 := by
  rw [count, rows_of_insert h, List.countP_append, List.countP_singleton]
  rfl

theorem get?_patchRows (hf : ∀ n r, key (f n r) = key r) {rs : List ρ}
    (h : rs.find? (fun r => key r = k) = some r) :
    ∃ i, n ≤ i ∧ (patchRows p f n rs).find? (fun r => key r = k) =
      some (if p r then f i r else r) := by
  induction rs generalizing n with
  | nil => cases h
  | cons r₀ rs ih =>
    rw [patchRows]
    by_cases hk : key r₀ = k
    · rw [List.find?_cons_of_pos (by simpa using hk)] at h
      cases h
      refine ⟨n, Nat.le_refl n, ?_⟩
      split
      · rw [List.find?_cons_of_pos (by simpa [hf] using hk)]
      · rw [List.find?_cons_of_pos (by simpa using hk)]
    · rw [List.find?_cons_of_neg (by simpa using hk)] at h
      split
      · obtain ⟨i, hle, hi⟩ := ih (n := n + 1) h
        refine ⟨i, by omega, ?_⟩
        rw [List.find?_cons_of_neg (by simpa [hf] using hk), hi]
      · obtain ⟨i, hle, hi⟩ := ih (n := n) h
        refine ⟨i, hle, ?_⟩
        rw [List.find?_cons_of_neg (by simpa using hk), hi]

theorem get?_patch {hf : ∀ n r, key (f n r) = key r} (h : t.get? k = some r) :
    ∃ i, n ≤ i ∧ (t.patch p f n hf).get? k = some (if p r then f i r else r) :=
  get?_patchRows hf h

theorem mem_patch_of_mem (hf : ∀ n r, key (f n r) = key r) {r : ρ} (h : r ∈ t.rows) :
    ∃ i, (if p r then f i r else r) ∈ (t.patch p f n hf).rows := by
  obtain ⟨i, _, hget⟩ : ∃ i, n ≤ i ∧ (t.patch p f n hf).get? (key r) =
      some (if p r then f i r else r) := get?_patch (mem_iff_get?.mp h)
  exact ⟨i, mem_of_get? hget⟩

theorem get?_patch_of_not {hf : ∀ n r, key (f n r) = key r} (h : t.get? k = some r)
    (hp : p r = false) : (t.patch p f n hf).get? k = some r := by
  obtain ⟨i, _, hi⟩ : ∃ i, n ≤ i ∧ (t.patch p f n hf).get? k = some (if p r then f i r else r) :=
    get?_patch h
  rwa [hp] at hi

theorem get?_patch_none {hf : ∀ n r, key (f n r) = key r} :
    (t.patch p f n hf).get? k = none ↔ t.get? k = none := by
  have hmem : k ∈ (t.patch p f n hf).rows.map key ↔ k ∈ t.rows.map key := by
    change k ∈ (patchRows p f n t.rows).map key ↔ _
    rw [patchRows_keys hf]
  have hnone : ∀ t : Table key, t.get? k = none ↔ k ∉ t.rows.map key := by
    intro t
    simp [get?_eq_none_iff]
  rw [hnone, hnone, hmem]

theorem get?_patch_eq {g : ρ → ρ} {hf : ∀ (_ : ℕ) r, key (g r) = key r} :
    (t.patch p (fun _ => g) n hf).get? k = (t.get? k).map fun r => if p r then g r else r := by
  cases h : t.get? k with
  | none =>
    rw [get?_patch_none.mpr h]
    rfl
  | some r =>
    obtain ⟨i, _, hi⟩ : ∃ i, n ≤ i ∧ (t.patch p (fun _ => g) n hf).get? k =
        some (if p r then g r else r) := get?_patch h
    rw [hi]
    rfl

theorem get?_of_delete (h : (t.delete p).get? k = some r) : t.get? k = some r ∧ p r = false := by
  obtain ⟨hr, hp⟩ := mem_delete.mp (mem_of_get? h)
  rw [← key_of_get? h]
  exact ⟨mem_iff_get?.mp hr, hp⟩

theorem get?_insert {t' : Table key} (h : t.insert r = some t') (k : κ) :
    t'.get? k = if k = key r then some r else t.get? k := by
  split
  · rename_i hk
    rw [hk]
    exact mem_iff_get?.mp ((mem_of_insert h).mpr (.inr rfl))
  · rename_i hk
    cases hget : t.get? k with
    | some r' => exact get?_of_insert h hget
    | none =>
      refine get?_eq_none_iff.mpr fun r' hr' hkey => ?_
      obtain hr' | rfl := (mem_of_insert h).mp hr'
      · exact get?_eq_none_iff.mp hget r' hr' hkey
      · exact hk hkey.symm

theorem get?_delete (k₀ k : κ) :
    (t.delete fun r => key r = k₀).get? k = if k = k₀ then none else t.get? k := by
  split
  · rename_i hk
    refine get?_eq_none_iff.mpr fun r hr hkey => ?_
    simpa [hkey.trans hk] using (mem_delete.mp hr).2
  · rename_i hk
    cases hget : t.get? k with
    | some r =>
      have hr : r ∈ (t.delete fun r => key r = k₀).rows := by
        refine mem_delete.mpr ⟨mem_of_get? hget, decide_eq_false fun hr => hk ?_⟩
        rw [← hr, key_of_get? hget]
      rw [← key_of_get? hget]
      exact mem_iff_get?.mp hr
    | none =>
      exact get?_eq_none_iff.mpr fun r hr hkey =>
        get?_eq_none_iff.mp hget r (mem_delete.mp hr).1 hkey

end Table

end Hill90
