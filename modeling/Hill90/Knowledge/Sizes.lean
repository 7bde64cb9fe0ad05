import Mathlib.Tactic.Linarith
import Mathlib.Tactic.Ring
import Hill90.Knowledge.Lossless

/-! # What is new in a chunk, and its size

The loop counts the tokens of each part on its own, rounded, and never the separators between them.
-/

namespace Hill90.Knowledge.Sizes

open Lossless

/-- A chunk has paragraphs of its own, and keeps to its size unless one of them alone exceeds the
target. -/
def Fresh (target overlap : ℕ) (group : List (List Char)) (c : Chunk) : Prop :=
  group ≠ [] ∧ ((∀ p ∈ group, estimateTokens p ≤ target) → c.tokenEstimate ≤ target + overlap)

def ownOf (m : Merge) : List (List Char) := if m.chunks.isEmpty then m.parts else m.parts.tail

/-- The characters that are not counted in `current_tokens`, separators apart. -/
def roundedOff (parts : List (List Char)) : ℤ :=
  (parts.map fun p => (p.length : ℤ) - 4 * estimateTokens p).sum

/-- Unless a paragraph in the buffer alone exceeds the target, what the rounding drops and the
separators have room beside the tokens counted. -/
def Room (target overlap : ℕ) (m : Merge) : Prop :=
  (∀ p ∈ ownOf m, estimateTokens p ≤ target) →
    roundedOff m.parts + 2 * ((m.parts.length : ℤ) - 1) ≤
      4 * ((target : ℤ) + overlap - m.tokens) + 3

def Ready (target overlap : ℕ) (m : Merge) : Prop := ownOf m ≠ [] ∧ Room target overlap m

/-- The next paragraph has no room in the buffer. -/
def Full (target : ℕ) (m : Merge) (para : List Char) : Prop :=
  m.parts ≠ [] ∧ m.tokens + estimateTokens para > target

/-- The buffer is not the end of the last chunk. -/
def Lasts (m : Merge) : Prop :=
  m.parts ≠ [] ∧ ∀ prev, m.chunks.getLast? = some prev →
    joined m.parts ≠ lastChars (joined m.parts).length prev.content

/-- What the loop's buffer is whenever it becomes a chunk. -/
def Whenever (P : Merge → Prop) (target overlap : ℕ) : Merge → List (List Char) → Prop
  | m, [] => Lasts m → P m
  | m, para :: rest => (Full target m para → P m) ∧
      Whenever P target overlap (m.step target overlap para) rest

section Unique

end Unique

section Loop

variable {target overlap : ℕ} {m : Merge} {groups : List (List (List Char))}
  {own : List (List Char)} {para : List Char}

theorem roundedOff_add (parts : List (List Char)) :
    roundedOff parts + 4 * tokensOf parts + 2 * parts.length = weightOf parts := by
  induction parts with
  | nil => rfl
  | cons p parts ih =>
    unfold roundedOff tokensOf weightOf weight at ih ⊢
    simp only [List.map_cons, List.sum_cons, List.length_cons]
    push_cast at ih ⊢
    linarith

/-- The size of a text that is joined from parts, by the tokens of the parts. -/
theorem estimateTokens_joined_le_iff {parts : List (List Char)} (hparts : parts ≠ [])
    (hne : ∀ p ∈ parts, p ≠ []) {n : ℕ} (hn : 0 < n) : estimateTokens (joined parts) ≤ n ↔
      roundedOff parts + 2 * ((parts.length : ℤ) - 1) ≤ 4 * ((n : ℤ) - tokensOf parts) + 3 := by
  obtain ⟨p, hp⟩ := List.exists_mem_of_ne_nil _ hparts
  have hjoined := joined_ne_nil hp (hne p hp)
  have hweight : (joined parts).length + 2 = weightOf parts := weight_joined hparts
  have hround := roundedOff_add parts
  rw [← hweight] at hround
  unfold estimateTokens charsPerToken
  rw [if_neg (by simpa using hjoined), max_le_iff]
  push_cast at hround
  constructor
  · rintro ⟨-, hle⟩
    omega
  · intro hle
    constructor <;> omega

structure Reading (overlap : ℕ) (m : Merge) (groups : List (List (List Char)))
    (own : List (List Char)) : Prop where
  holding : Holding overlap m groups own
  counted : m.tokens = tokensOf m.parts

theorem ownOf_eq (h : Holding overlap m groups own) : ownOf m = own := by
  have hparts := h.parts
  unfold lastContent lastOr at hparts
  rw [Option.or_none, List.getLast?_map] at hparts
  unfold ownOf
  cases hchunks : m.chunks with
  | nil =>
    rw [hchunks] at hparts
    exact hparts
  | cons c chunks =>
    rw [hchunks, List.getLast?_cons] at hparts
    rw [hparts]
    rfl

theorem fresh_iff (h : Reading overlap m groups own) (hparts : m.parts ≠ []) (htarget : 0 < target)
    (index : ℕ) : Fresh target overlap own ⟨index, joined m.parts, estimateTokens (joined m.parts)⟩ ↔
      Ready target overlap m := by
  have hsize := estimateTokens_joined_le_iff hparts h.holding.parts_ne_nil
    (n := target + overlap) (by omega)
  unfold Fresh Ready Room
  rw [ownOf_eq h.holding, h.counted, hsize]
  push_cast
  rfl

theorem Reading.add (h : Reading overlap m groups own) (hpara : para ≠ []) :
    Reading overlap (m.add para) groups (own ++ [para]) := by
  refine ⟨h.holding.add hpara, ?_⟩
  change m.tokens + estimateTokens para = tokensOf (m.parts ++ [para])
  rw [tokensOf_concat, h.counted]

theorem tokens_emit (content : List Char) (tokens : ℕ) :
    (m.emit overlap content tokens).tokens = tokensOf (m.emit overlap content tokens).parts :=
  (Nat.add_zero _).symm

theorem forall₂_concat {α β : Type} {R : α → β → Prop} {xs : List α} {ys : List β} {x : α} {y : β} :
    List.Forall₂ R (xs ++ [x]) (ys ++ [y]) ↔ List.Forall₂ R xs ys ∧ R x y := by
  rw [← List.forall₂_reverse_iff, List.reverse_concat, List.reverse_concat, List.forall₂_cons,
    List.forall₂_reverse_iff, and_comm]

/-- The chunks after one more paragraph are fresh if those before it are, and the buffer is ready where
the paragraph has no room in it. -/
theorem Reading.step (h : Reading overlap m groups own) (hpara : para ≠ []) (htarget : 0 < target) :
    ∃ groups' own', groups'.flatten ++ own' = groups.flatten ++ own ++ [para] ∧
      Reading overlap (m.step target overlap para) groups' own' ∧
      (List.Forall₂ (Fresh target overlap) groups' (m.step target overlap para).chunks ↔
        List.Forall₂ (Fresh target overlap) groups m.chunks ∧
          (Full target m para → Ready target overlap m)) := by
  unfold Merge.step
  split
  · rename_i hfirst
    obtain ⟨rfl, hemit⟩ := h.holding.oversize hfirst.2 hpara (estimateTokens para)
    have hread : Reading overlap (m.emit overlap para (estimateTokens para)) (groups ++ [[para]]) [] :=
      ⟨hemit, tokens_emit para _⟩
    refine ⟨groups ++ [[para]], [], by simp, hread, forall₂_concat.trans ?_⟩
    have hfresh : Fresh target overlap [para] ⟨m.chunks.length, para, estimateTokens para⟩ := by
      refine ⟨List.cons_ne_nil _ _, fun hsmall => ?_⟩
      have hle := hsmall para List.mem_cons_self
      omega
    exact and_congr_right fun _ => iff_of_true hfresh fun hfull => absurd hfirst.2 hfull.1
  split
  · rename_i hfull
    have hread : Reading overlap (m.emit overlap (joined m.parts) (estimateTokens (joined m.parts)))
        (groups ++ [own]) [] := ⟨h.holding.emit hfull.1 _, tokens_emit _ _⟩
    refine ⟨groups ++ [own], [] ++ [para], by simp, hread.add hpara, forall₂_concat.trans ?_⟩
    rw [fresh_iff h hfull.1 htarget]
    exact and_congr_right fun _ => ⟨fun hready _ => hready, fun hready => hready hfull⟩
  · rename_i hroom
    refine ⟨groups, own ++ [para], (List.append_assoc _ _ _).symm, h.add hpara, ?_⟩
    exact (and_iff_left fun hfull => absurd hfull hroom).symm

theorem finish_of_lasts (h : Lasts m) : m.finish =
    m.chunks ++ [⟨m.chunks.length, joined m.parts, estimateTokens (joined m.parts)⟩] := by
  unfold Merge.finish
  rw [if_neg h.1]
  dsimp only
  split
  · rename_i prev hprev
    exact if_pos (h.2 prev hprev)
  · rfl

theorem finish_of_not_lasts (h : ¬Lasts m) : m.finish = m.chunks := by
  unfold Merge.finish
  split
  · rfl
  · rename_i hparts
    have hend : ∃ prev, m.chunks.getLast? = some prev ∧
        joined m.parts = lastChars (joined m.parts).length prev.content := by
      by_contra hnone
      exact h ⟨hparts, fun prev hprev heq => hnone ⟨prev, hprev, heq⟩⟩
    obtain ⟨prev, hprev, heq⟩ := hend
    rw [hprev]
    exact if_neg (not_not.mpr heq)

theorem Reading.run (h : Reading overlap m groups own) {paragraphs : List (List Char)}
    (hne : ∀ p ∈ paragraphs, p ≠ []) (htarget : 0 < target) :
    ∃ groups' : List (List (List Char)), groups'.flatten <+: groups.flatten ++ own ++ paragraphs ∧
      Covers (carried overlap) none groups'
        ((paragraphs.foldl (Merge.step target overlap) m).finish.map Chunk.content) ∧
      (∀ c ∈ (paragraphs.foldl (Merge.step target overlap) m).finish.map Chunk.content, c ≠ []) ∧
      (List.Forall₂ (Fresh target overlap) groups'
          (paragraphs.foldl (Merge.step target overlap) m).finish ↔
        List.Forall₂ (Fresh target overlap) groups m.chunks ∧
          Whenever (Ready target overlap) target overlap m paragraphs) := by
  induction paragraphs generalizing m groups own with
  | nil =>
    rw [List.foldl_nil, List.append_nil]
    by_cases hlasts : Lasts m
    · have hemit := h.holding.emit hlasts.1 (estimateTokens (joined m.parts))
      rw [finish_of_lasts hlasts]
      refine ⟨groups ++ [own], by simp, hemit.covers, hemit.filled, forall₂_concat.trans ?_⟩
      rw [fresh_iff h hlasts.1 htarget]
      exact and_congr_right fun _ => ⟨fun hready _ => hready, fun hready => hready hlasts⟩
    · rw [finish_of_not_lasts hlasts]
      refine ⟨groups, List.prefix_append _ _, h.holding.covers, h.holding.filled, ?_⟩
      exact (and_iff_left fun hl => absurd hl hlasts).symm
  | cons para paragraphs ih =>
    obtain ⟨groups', own', heq, hstep, hfresh⟩ := h.step (hne para List.mem_cons_self) htarget
    obtain ⟨groups'', hprefix, hcovers, hfilled, hiff⟩ :=
      ih hstep fun p hp => hne p (List.mem_cons_of_mem _ hp)
    refine ⟨groups'', ?_, hcovers, hfilled, ?_⟩
    · rwa [heq, List.append_assoc, List.singleton_append] at hprefix
    · rw [List.foldl_cons, hiff, hfresh, and_assoc]
      rfl

end Loop

section Iff

variable {target overlap : ℕ} {paragraphs : List (List Char)}

end Iff

section Sizes

variable {target overlap : ℕ} {m : Merge} {groups : List (List (List Char))}
  {own paragraphs done rest : List (List Char)}

theorem tokensOf_append (ps qs : List (List Char)) :
    tokensOf (ps ++ qs) = tokensOf ps + tokensOf qs := by
  unfold tokensOf
  rw [List.map_append, List.sum_append]

end Sizes

section Text

variable (split : List Char → List (List Char)) (strip : List Char → List Char)

end Text

end Hill90.Knowledge.Sizes
