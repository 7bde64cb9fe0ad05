import Mathlib.Data.List.Basic

/-! # The chunks of a Discord message

`chunkMessage` of the bot cuts the reply of an agent into messages that Discord accepts, at a
newline where there is one in the second half.  A text is its UTF-16 code units.
-/

namespace Hill90.Discord

abbrev Text := List UInt16

def maxDiscordLength : ℕ := 2000

def newline : UInt16 := 0x0A

def isSpace (u : UInt16) : Bool :=
  u ∈ [0x09, 0x0A, 0x0B, 0x0C, 0x0D, 0x20, 0xA0, 0x1680, 0x2028, 0x2029, 0x202F, 0x205F, 0x3000,
    0xFEFF] || (0x2000 ≤ u && u ≤ 0x200A)

def trimStart (t : Text) : Text := t.dropWhile isSpace

def lastIndexOf (unit : UInt16) (start : ℕ) (t : Text) : Option ℕ :=
  ((t.take (start + 1)).reverse.findIdx? (· == unit)).map fun k =>
    (t.take (start + 1)).length - 1 - k

def breakAt (remaining : Text) : ℕ :=
  match lastIndexOf newline maxDiscordLength remaining with
  | some at_ => if at_ < maxDiscordLength / 2 then maxDiscordLength else at_
  | none => maxDiscordLength

theorem lastIndexOf_le {unit : UInt16} {start k : ℕ} {t : Text}
    (h : lastIndexOf unit start t = some k) : k ≤ start := by
  obtain ⟨j, _, rfl⟩ := Option.map_eq_some_iff.mp h
  have := List.length_take_le (start + 1) t
  omega

theorem breakAt_bounds (t : Text) :
    maxDiscordLength / 2 ≤ breakAt t ∧ breakAt t ≤ maxDiscordLength := by
  unfold breakAt
  split
  · rename_i k hk
    have := lastIndexOf_le hk
    split
    · exact ⟨Nat.div_le_self _ _, Nat.le_refl _⟩
    · exact ⟨by omega, this⟩
  · exact ⟨Nat.div_le_self _ _, Nat.le_refl _⟩

theorem length_trimStart_le (t : Text) : (trimStart t).length ≤ t.length :=
  (List.dropWhile_sublist _).length_le

def chunksOf (remaining : Text) : List Text :=
  if remaining.length = 0 then []
  else if remaining.length ≤ maxDiscordLength then [remaining]
  else
    remaining.take (breakAt remaining) ::
      chunksOf (trimStart (remaining.drop (breakAt remaining)))
termination_by remaining.length
decreasing_by
  have hcut := (breakAt_bounds remaining).1
  have htrim := length_trimStart_le (remaining.drop (breakAt remaining))
  rw [List.length_drop] at htrim
  have : maxDiscordLength / 2 = 1000 := rfl
  omega

def chunkMessage (text : Text) : List Text :=
  if text.length ≤ maxDiscordLength then [text] else chunksOf text

/-- The text is the chunks with white space after each of them. -/
inductive Cut : List Text → Text → Prop where
  | nil : Cut [] []
  | cons {chunk gap rest : Text} {chunks : List Text} (hgap : gap.all isSpace = true)
      (hrest : Cut chunks rest) : Cut (chunk :: chunks) (chunk ++ gap ++ rest)

theorem exists_gap (t : Text) : ∃ gap, gap.all isSpace = true ∧ t = gap ++ trimStart t :=
  ⟨t.takeWhile isSpace, List.all_takeWhile, (List.takeWhile_append_dropWhile).symm⟩

theorem not_isSpace_head_trimStart {t : Text} {u : UInt16} (h : (trimStart t).head? = some u) :
    isSpace u = false := by
  have hnot := List.head?_dropWhile_not isSpace t
  rw [trimStart] at h
  rw [h] at hnot
  simpa using hnot

theorem cut_single (t : Text) : Cut [t] t := by
  have hcut : Cut [t] (t ++ [] ++ []) := .cons rfl .nil
  simpa using hcut

theorem cut_chunksOf (t : Text) : Cut (chunksOf t) t := by
  fun_induction chunksOf t with
  | case1 t hnil =>
    rw [List.length_eq_zero_iff.mp hnil]
    exact .nil
  | case2 t _ _ => exact cut_single t
  | case3 t _ _ ih =>
    obtain ⟨gap, hgap, hrest⟩ := exists_gap (t.drop (breakAt t))
    have hcut : Cut (t.take (breakAt t) :: chunksOf (trimStart (t.drop (breakAt t))))
        (t.take (breakAt t) ++ gap ++ trimStart (t.drop (breakAt t))) := .cons hgap ih
    rwa [List.append_assoc, ← hrest, List.take_append_drop] at hcut

/-- A chunk is not too long, and all but the last one are at least half as long as they may be. -/
theorem length_chunksOf (t : Text) :
    (∀ c ∈ chunksOf t, c ≠ [] ∧ c.length ≤ maxDiscordLength) ∧
      ∀ c ∈ (chunksOf t).dropLast, maxDiscordLength / 2 ≤ c.length := by
  fun_induction chunksOf t with
  | case1 t _ => simp
  | case2 t hnil hle =>
    refine ⟨?_, by simp⟩
    rintro c hc
    rw [List.mem_singleton.mp hc]
    exact ⟨fun h => hnil (by rw [h]; rfl), hle⟩
  | case3 t _ hlong ih =>
    obtain ⟨hlow, hhigh⟩ := breakAt_bounds t
    have hlength : (t.take (breakAt t)).length = breakAt t := by
      rw [List.length_take]
      omega
    have hhalf : maxDiscordLength / 2 = 1000 := rfl
    refine ⟨?_, ?_⟩
    · intro c hc
      obtain rfl | hc := List.mem_cons.mp hc
      · refine ⟨fun h => ?_, by omega⟩
        rw [h, List.length_nil] at hlength
        omega
      · exact ih.1 c hc
    · intro c hc
      cases hrest : chunksOf (trimStart (t.drop (breakAt t))) with
      | nil =>
        rw [hrest] at hc
        cases hc
      | cons d ds =>
        rw [hrest, List.dropLast_cons_of_ne_nil (List.cons_ne_nil d ds)] at hc
        obtain rfl | hc := List.mem_cons.mp hc
        · omega
        · exact ih.2 c (hrest ▸ hc)

theorem head_chunksOf {t c : Text} {cs : List Text} (h : chunksOf t = c :: cs) :
    c.head? = t.head? := by
  rw [chunksOf] at h
  split at h
  · cases h
  · split at h
    · cases h
      rfl
    · obtain ⟨rfl, -⟩ := List.cons.inj h
      have hlow := (breakAt_bounds t).1
      have hhalf : maxDiscordLength / 2 = 1000 := rfl
      rw [List.head?_take, if_neg (by omega)]

theorem visible_chunksOf (t : Text) :
    ∀ c ∈ (chunksOf t).tail, ∀ u, c.head? = some u → isSpace u = false := by
  fun_induction chunksOf t with
  | case1 t _ => simp
  | case2 t _ _ => simp
  | case3 t _ _ ih =>
    intro c hc u hu
    rw [List.tail_cons] at hc
    cases hrest : chunksOf (trimStart (t.drop (breakAt t))) with
    | nil =>
      rw [hrest] at hc
      cases hc
    | cons d ds =>
      rw [hrest] at hc
      obtain rfl | hc := List.mem_cons.mp hc
      · rw [head_chunksOf hrest] at hu
        exact not_isSpace_head_trimStart hu
      · exact ih c (by rw [hrest]; exact hc) u hu

/-- Whatever an agent replies, Discord gets it in messages that are not too long, with only white
space missing between them; none after the first begins with white space, and none but the last
is shorter than half of what is allowed. -/
theorem chunkMessage_cuts (text : Text) :
    Cut (chunkMessage text) text ∧
      (∀ c ∈ chunkMessage text, c.length ≤ maxDiscordLength) ∧
      (∀ c ∈ (chunkMessage text).dropLast, maxDiscordLength / 2 ≤ c.length) ∧
      ∀ c ∈ (chunkMessage text).tail, ∃ u, c.head? = some u ∧ isSpace u = false := by
  unfold chunkMessage
  split
  · rename_i hle
    refine ⟨?_, ?_, by simp, by simp⟩
    · exact cut_single text
    · intro c hc
      rwa [List.mem_singleton.mp hc]
  · refine ⟨cut_chunksOf text, fun c hc => ((length_chunksOf text).1 c hc).2,
      (length_chunksOf text).2, ?_⟩
    intro c hc
    have hne := ((length_chunksOf text).1 c (List.mem_of_mem_tail hc)).1
    obtain ⟨u, us, rfl⟩ := List.exists_cons_of_ne_nil hne
    exact ⟨u, rfl, visible_chunksOf text _ hc u rfl⟩

end Hill90.Discord
