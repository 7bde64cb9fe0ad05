import Mathlib
import Hill90.Knowledge.Chunker

/-! # What the chunks hold

The chunks against the paragraphs they are made of: each chunk is the overlap with the one before,
then paragraphs of its own.
-/

namespace Hill90.Knowledge

namespace Lossless

/-- `_split_into_paragraphs`, over `re.split(r"\n\s*\n", text)` and `str.strip`. -/
def splitIntoParagraphs (split : List Char → List (List Char)) (strip : List Char → List Char)
    (text : List Char) : List (List Char) := ((split text).map strip).filter fun p => p ≠ []

def chunkTextWith (split : List Char → List (List Char)) (strip : List Char → List Char)
    (target overlap : ℕ) (text : List Char) : List Chunk :=
  mergeParagraphsIntoChunks target overlap (splitIntoParagraphs split strip text)

/-- The overlap that a chunk is to begin with: the tail of the one before, none for an overlap of 0. -/
def overlapOf (overlap : ℕ) (prev : Option (List Char)) : List (List Char) :=
  if overlap = 0 then [] else (prev.map (lastChars (overlap * charsPerToken))).toList

/-- What a chunk does begin with. -/
def carried (overlap : ℕ) (prev : Option (List Char)) : List (List Char) :=
  (prev.map (lastChars (overlap * charsPerToken))).toList

/-- Each content is the overlap with the content before, then the paragraphs of its group. -/
def Covers (before : Option (List Char) → List (List Char)) :
    Option (List Char) → List (List (List Char)) → List (List Char) → Prop
  | _, [], [] => True
  | prev, group :: groups, content :: contents =>
    content = joined (before prev ++ group) ∧ Covers before (some content) groups contents
  | _, _, _ => False

def LosesNothing (overlap : ℕ) (paragraphs : List (List Char)) (chunks : List Chunk) : Prop :=
  Indexed chunks ∧ ∃ groups : List (List (List Char)), groups.flatten = paragraphs ∧
    Covers (overlapOf overlap) none groups (chunks.map Chunk.content)

/-- The buffer holds more than the overlap, and its text is the end of the last chunk. -/
def Swallows (m : Merge) : Prop :=
  2 ≤ m.parts.length ∧ ∃ prev, m.chunks.getLast? = some prev ∧
    joined m.parts = lastChars (joined m.parts).length prev.content

section Weight

/-- The length with the separator that follows. -/
def weight (text : List Char) : ℕ := text.length + 2

def weightOf (parts : List (List Char)) : ℕ := (parts.map weight).sum

theorem weightOf_append (ps qs : List (List Char)) :
    weightOf (ps ++ qs) = weightOf ps + weightOf qs := by
  unfold weightOf
  rw [List.map_append, List.sum_append]

theorem joined_cons_cons (p q : List Char) (ps : List (List Char)) :
    joined (p :: q :: ps) = p ++ (['\n', '\n'] ++ joined (q :: ps)) := by
  unfold joined
  simp [List.intercalate]

theorem joined_singleton (p : List Char) : joined [p] = p := by
  simp [joined, List.intercalate]

theorem weight_joined {parts : List (List Char)} (h : parts ≠ []) :
    weight (joined parts) = weightOf parts := by
  induction parts with
  | nil => exact absurd rfl h
  | cons p parts ih =>
    cases parts with
    | nil =>
      rw [joined_singleton]
      exact (Nat.add_zero _).symm
    | cons q parts =>
      have hrest : (joined (q :: parts)).length + 2 = weightOf (q :: parts) :=
        ih (List.cons_ne_nil _ _)
      rw [joined_cons_cons]
      change (p ++ (['\n', '\n'] ++ joined (q :: parts))).length + 2 =
        (p.length + 2) + weightOf (q :: parts)
      rw [← hrest]
      simp only [List.length_append, List.length_cons, List.length_nil]
      omega

theorem joined_ne_nil {parts : List (List Char)} {p : List Char} (hp : p ∈ parts) (hne : p ≠ []) :
    joined parts ≠ [] := by
  intro hnil
  have hweight := weight_joined (List.ne_nil_of_mem hp)
  rw [hnil] at hweight
  obtain ⟨front, back, rfl⟩ := List.append_of_mem hp
  have hpos := List.length_pos_of_ne_nil hne
  rw [weightOf_append] at hweight
  unfold weightOf weight at hweight
  rw [List.map_cons, List.sum_cons, List.length_nil] at hweight
  omega

theorem lastChars_ne_nil {text : List Char} (n : ℕ) (h : text ≠ []) : lastChars n text ≠ [] := by
  have hpos := List.length_pos_of_ne_nil h
  unfold lastChars
  split
  · exact h
  · intro hnil
    have hlength := congrArg List.length hnil
    rw [List.length_drop, List.length_nil] at hlength
    omega

/-- The end of an end. -/
theorem lastChars_length_lastChars (n : ℕ) (text : List Char) :
    lastChars (lastChars n text).length text = lastChars n text := by
  unfold lastChars
  split
  · split
    · rfl
    · rw [Nat.sub_self, List.drop_zero]
  · rw [List.length_drop]
    split
    · rename_i hzero
      rw [List.drop_of_length_le (by omega : text.length ≤ text.length - n)]
      have hempty : text = [] := List.length_eq_zero_iff.mp (by omega)
      exact hempty
    · congr 1
      omega

end Weight

section Covers

variable {before : Option (List Char) → List (List Char)} {prev : Option (List Char)}
  {groups : List (List (List Char))} {contents : List (List Char)}

/-- The content before the next one. -/
def lastOr (prev : Option (List Char)) (contents : List (List Char)) : Option (List Char) :=
  contents.getLast?.or prev

theorem Covers.concat (h : Covers before prev groups contents) (group : List (List Char)) :
    Covers before prev (groups ++ [group])
      (contents ++ [joined (before (lastOr prev contents) ++ group)]) := by
  induction groups generalizing prev contents with
  | nil =>
    cases contents with
    | nil => exact ⟨rfl, trivial⟩
    | cons => exact h.elim
  | cons g groups ih =>
    cases contents with
    | nil => exact h.elim
    | cons c contents =>
      have hlast : lastOr prev (c :: contents) = lastOr (some c) contents := by
        unfold lastOr
        rw [List.getLast?_cons]
        cases contents.getLast? <;> rfl
      rw [hlast]
      exact ⟨h.1, ih h.2⟩

/-- The weight of the own paragraphs, from the contents alone. -/
def ownWeight (before : Option (List Char) → List (List Char)) :
    Option (List Char) → List (List Char) → ℤ
  | _, [] => 0
  | prev, content :: contents =>
    weight content - weightOf (before prev) + ownWeight before (some content) contents

theorem Covers.weight (h : Covers before prev groups contents) (hne : ∀ c ∈ contents, c ≠ []) :
    (weightOf groups.flatten : ℤ) = ownWeight before prev contents := by
  induction groups generalizing prev contents with
  | nil =>
    cases contents with
    | nil => rfl
    | cons => exact h.elim
  | cons g groups ih =>
    cases contents with
    | nil => exact h.elim
    | cons c contents =>
      obtain ⟨hc, hrest⟩ := h
      have hparts : before prev ++ g ≠ [] := by
        intro hnil
        rw [hnil] at hc
        exact hne c List.mem_cons_self hc
      have hweight := weight_joined hparts
      rw [← hc, weightOf_append] at hweight
      rw [List.flatten_cons, weightOf_append, ownWeight,
        ← ih hrest fun c hc => hne c (List.mem_cons_of_mem _ hc)]
      omega

end Covers

section Loop

variable {target overlap : ℕ} {m : Merge} {done : List (List Char)} {para : List Char}

def lastContent (m : Merge) : Option (List Char) := lastOr none (m.chunks.map Chunk.content)

/-- The chunks so far cover the paragraphs in `groups`, and the buffer holds the overlap and `own`. -/
structure Holding (overlap : ℕ) (m : Merge) (groups : List (List (List Char)))
    (own : List (List Char)) : Prop where
  covers : Covers (carried overlap) none groups (m.chunks.map Chunk.content)
  parts : m.parts = carried overlap (lastContent m) ++ own
  filled : ∀ c ∈ m.chunks.map Chunk.content, c ≠ []
  owned : ∀ p ∈ own, p ≠ []

theorem lastContent_emit (content : List Char) (tokens : ℕ) :
    lastContent (m.emit overlap content tokens) = some content := by
  unfold lastContent lastOr Merge.emit
  rw [List.map_append, List.map_singleton, List.getLast?_concat]
  rfl

theorem carried_ne_nil {prev : Option (List Char)} (h : ∀ c, prev = some c → c ≠ []) :
    ∀ p ∈ carried overlap prev, p ≠ [] := by
  cases prev with
  | none => exact fun p hp => absurd hp List.not_mem_nil
  | some c =>
    intro p hp
    rw [List.mem_singleton.mp hp]
    exact lastChars_ne_nil _ (h c rfl)

variable {groups : List (List (List Char))} {own : List (List Char)}

theorem Holding.lastContent_ne_nil (h : Holding overlap m groups own) (c : List Char)
    (hc : lastContent m = some c) : c ≠ [] := by
  unfold lastContent lastOr at hc
  rw [Option.or_none] at hc
  exact h.filled c (List.mem_of_getLast? hc)

theorem Holding.parts_ne_nil (h : Holding overlap m groups own) : ∀ p ∈ m.parts, p ≠ [] := by
  intro p hp
  rw [h.parts] at hp
  rcases List.mem_append.mp hp with hp | hp
  · exact carried_ne_nil h.lastContent_ne_nil p hp
  · exact h.owned p hp

theorem Holding.add (h : Holding overlap m groups own) (hpara : para ≠ []) :
    Holding overlap (m.add para) groups (own ++ [para]) := by
  refine ⟨h.covers, ?_, h.filled, ?_⟩
  · change m.parts ++ [para] = _
    rw [h.parts, List.append_assoc]
    rfl
  · intro p hp
    rcases List.mem_append.mp hp with hp | hp
    · exact h.owned p hp
    · rw [List.mem_singleton.mp hp]
      exact hpara

/-- The buffer becomes a chunk. -/
theorem Holding.emit (h : Holding overlap m groups own) (hne : m.parts ≠ []) (tokens : ℕ) :
    Holding overlap (m.emit overlap (joined m.parts) tokens) (groups ++ [own]) [] := by
  have hcontent : joined m.parts ≠ [] := by
    obtain ⟨p, hp⟩ := List.exists_mem_of_ne_nil _ hne
    exact joined_ne_nil hp (h.parts_ne_nil p hp)
  refine ⟨?_, ?_, ?_, fun p hp => absurd hp List.not_mem_nil⟩
  · have hcovers := h.covers.concat own
    rw [h.parts]
    unfold Merge.emit
    rw [List.map_append]
    exact hcovers
  · rw [lastContent_emit]
    rfl
  · intro c hc
    unfold Merge.emit at hc
    rw [List.map_append] at hc
    rcases List.mem_append.mp hc with hc | hc
    · exact h.filled c hc
    · rw [List.mem_singleton.mp hc]
      exact hcontent

theorem Holding.oversize (h : Holding overlap m groups own) (hparts : m.parts = [])
    (hpara : para ≠ []) (tokens : ℕ) :
    own = [] ∧ Holding overlap (m.emit overlap para tokens) (groups ++ [[para]]) [] := by
  have hempty := h.parts
  rw [hparts] at hempty
  obtain ⟨-, rfl⟩ := List.append_eq_nil_iff.mp hempty.symm
  have hadd := h.add hpara
  have hone : (m.add para).parts = [para] := by
    change m.parts ++ [para] = _
    rw [hparts]
    rfl
  have hemit := hadd.emit (by rw [hone]; exact List.cons_ne_nil _ _) tokens
  rw [hone, joined_singleton] at hemit
  exact ⟨rfl, hemit⟩

theorem Holding.step (target : ℕ) (h : Holding overlap m groups own) (hpara : para ≠ []) :
    ∃ groups' own', groups'.flatten ++ own' = groups.flatten ++ own ++ [para] ∧
      Holding overlap (m.step target overlap para) groups' own' := by
  unfold Merge.step
  split
  · rename_i hfirst
    obtain ⟨rfl, hemit⟩ := h.oversize hfirst.2 hpara (estimateTokens para)
    refine ⟨groups ++ [[para]], [], ?_, hemit⟩
    simp
  split
  · rename_i hfull
    refine ⟨groups ++ [own], [] ++ [para], ?_, (h.emit hfull.1 _).add hpara⟩
    simp
  · exact ⟨groups, own ++ [para], (List.append_assoc _ _ _).symm, h.add hpara⟩

theorem exists_holding (target : ℕ) (paragraphs : List (List Char)) (hne : ∀ p ∈ paragraphs, p ≠ [])
    (h : Holding overlap m groups own) : ∃ groups' own',
      groups'.flatten ++ own' = groups.flatten ++ own ++ paragraphs ∧
        Holding overlap (paragraphs.foldl (Merge.step target overlap) m) groups' own' := by
  induction paragraphs generalizing m groups own with
  | nil => exact ⟨groups, own, (List.append_nil _).symm, h⟩
  | cons para paragraphs ih =>
    obtain ⟨groups', own', heq, hstep⟩ := h.step target (hne para List.mem_cons_self)
    obtain ⟨groups'', own'', heq', hrun⟩ := ih (fun p hp => hne p (List.mem_cons_of_mem _ hp)) hstep
    refine ⟨groups'', own'', ?_, hrun⟩
    rw [heq', heq, List.append_assoc, List.singleton_append]

theorem holding_start (overlap : ℕ) : Holding overlap {} [] [] :=
  ⟨trivial, rfl, fun _ hc => absurd hc List.not_mem_nil, fun _ hp => absurd hp List.not_mem_nil⟩

/-- At the end the buffer becomes a chunk, or it is dropped: the paragraphs in it are lost just if the
last chunk ends with its text. -/
theorem Holding.finish (h : Holding overlap m groups own) :
    ∃ groups' lost, groups'.flatten ++ lost = groups.flatten ++ own ∧
      Covers (carried overlap) none groups' (m.finish.map Chunk.content) ∧
      (∀ c ∈ m.finish.map Chunk.content, c ≠ []) ∧ (lost ≠ [] ↔ Swallows m) ∧
      (∀ p ∈ lost, p ≠ []) := by
  have hemit (hne : m.parts ≠ []) :
      Covers (carried overlap) none (groups ++ [own])
        ((m.chunks ++ [(⟨m.chunks.length, joined m.parts, estimateTokens (joined m.parts)⟩ : Chunk)]).map
          Chunk.content) ∧
      ∀ c ∈ (m.chunks ++ [(⟨m.chunks.length, joined m.parts, estimateTokens (joined m.parts)⟩ : Chunk)]).map
        Chunk.content, c ≠ [] := by
    have hchunk := h.emit hne (estimateTokens (joined m.parts))
    exact ⟨hchunk.covers, hchunk.filled⟩
  unfold Merge.finish
  split
  · rename_i hempty
    have hparts := h.parts
    rw [hempty] at hparts
    obtain ⟨-, rfl⟩ := List.append_eq_nil_iff.mp hparts.symm
    refine ⟨groups, [], rfl, h.covers, h.filled, ?_, h.owned⟩
    refine iff_of_false (fun hlost => hlost rfl) fun hswallows => ?_
    have hlength := hswallows.1
    rw [hempty] at hlength
    exact absurd hlength (by decide)
  rename_i hne
  obtain ⟨hcovers, hfilled⟩ := hemit hne
  split
  · rename_i prev hprev
    dsimp only
    split
    · rename_i hkeep
      refine ⟨groups ++ [own], [], by simp, hcovers, hfilled, ?_,
        fun p hp => absurd hp List.not_mem_nil⟩
      refine iff_of_false (fun hlost => hlost rfl) ?_
      rintro ⟨-, other, hother, heq⟩
      rw [hprev] at hother
      cases hother
      exact hkeep heq
    · rename_i hdrop
      refine ⟨groups, own, rfl, h.covers, h.filled, ?_, h.owned⟩
      have hlast : lastContent m = some prev.content := by
        unfold lastContent lastOr
        rw [List.getLast?_map, hprev]
        rfl
      have hlength : m.parts.length = own.length + 1 := by
        rw [h.parts, hlast, List.length_append]
        exact Nat.add_comm 1 _
      constructor
      · intro hown
        have hpos := List.length_pos_of_ne_nil hown
        exact ⟨by omega, prev, hprev, not_not.mp hdrop⟩
      · rintro ⟨htwo, -⟩ rfl
        rw [hlength] at htwo
        exact absurd htwo (by decide)
  · rename_i hnone
    refine ⟨groups ++ [own], [], by simp, hcovers, hfilled, ?_,
      fun p hp => absurd hp List.not_mem_nil⟩
    refine iff_of_false (fun hlost => hlost rfl) ?_
    rintro ⟨-, prev, hprev, -⟩
    rw [hnone] at hprev
    cases hprev

end Loop

section Count

variable {target overlap : ℕ} {m : Merge} {done : List (List Char)} {para : List Char}

def tokensOf (parts : List (List Char)) : ℕ := (parts.map estimateTokens).sum

/-- A chunk is there once the paragraphs so far exceed the target. -/
structure Counted (target : ℕ) (m : Merge) (done : List (List Char)) : Prop where
  unfull : m.chunks = [] → m.parts = done ∧ m.tokens = tokensOf done ∧ tokensOf done ≤ target
  full : m.chunks ≠ [] → target < tokensOf done ∧ 1 ≤ m.parts.length ∧
    ((2 ≤ m.parts.length ∧ 2 ≤ done.length) ∨
      (done.length = 1 ∧ m.chunks.length = 1 ∧ m.parts.length = 1))

theorem tokensOf_concat (done : List (List Char)) (para : List Char) :
    tokensOf (done ++ [para]) = tokensOf done + estimateTokens para := by
  unfold tokensOf
  rw [List.map_append, List.sum_append, List.map_singleton, List.sum_singleton]

theorem Counted.step (overlap : ℕ) (h : Counted target m done) (para : List Char) :
    Counted target (m.step target overlap para) (done ++ [para]) := by
  have htokens := tokensOf_concat done para
  have hlength : (done ++ [para]).length = done.length + 1 := List.length_append
  by_cases hchunks : m.chunks = []
  · obtain ⟨hparts, hm, hle⟩ := h.unfull hchunks
    unfold Merge.step
    split
    · rename_i hfirst
      have hdone : done = [] := hparts.symm.trans hfirst.2
      constructor
      · intro hnil
        exact absurd hnil (by unfold Merge.emit; simp)
      · intro _
        refine ⟨by omega, le_rfl, .inr ⟨by rw [hdone]; rfl, ?_, rfl⟩⟩
        change (m.chunks ++ [_]).length = 1
        rw [hchunks]
        rfl
    split
    · rename_i hfull
      constructor
      · intro hnil
        exact absurd hnil (by unfold Merge.emit Merge.add; simp)
      · intro _
        have hgrow := hfull.2
        have hpos := List.length_pos_of_ne_nil hfull.1
        rw [hparts] at hpos
        exact ⟨by omega, Nat.le_add_left 1 1, .inl ⟨le_rfl, by rw [hlength]; omega⟩⟩
    · rename_i hfirst hfull
      constructor
      · intro _
        refine ⟨congrArg (· ++ [para]) hparts, ?_, ?_⟩
        · change m.tokens + _ = _
          omega
        · by_cases hnil : m.parts = []
          · have hpara : ¬target < estimateTokens para := fun hlt => hfirst ⟨hlt, hnil⟩
            have hzero : tokensOf done = 0 := by rw [← hparts, hnil]; rfl
            omega
          · have hgrow : ¬target < m.tokens + estimateTokens para := fun hlt => hfull ⟨hnil, hlt⟩
            omega
      · exact fun hne => absurd hchunks hne
  · obtain ⟨hlt, hone, hdone⟩ := h.full hchunks
    have hsome : 1 ≤ done.length := by
      rcases hdone with ⟨-, htwo⟩ | ⟨hone, -⟩ <;> omega
    unfold Merge.step
    have hne : m.parts ≠ [] := List.ne_nil_of_length_pos hone
    rw [if_neg fun hfirst => hne hfirst.2]
    split
    · constructor
      · intro hnil
        exact absurd hnil (by unfold Merge.emit Merge.add; simp)
      · exact fun _ => ⟨by omega, Nat.le_add_left 1 1, .inl ⟨le_rfl, by omega⟩⟩
    · constructor
      · exact fun hnil => absurd hnil hchunks
      · intro _
        have hparts : (m.add para).parts.length = m.parts.length + 1 := List.length_append
        exact ⟨by omega, by omega, .inl ⟨by omega, by omega⟩⟩

theorem counted_run (overlap : ℕ) (paragraphs : List (List Char)) (h : Counted target m done) :
    Counted target (paragraphs.foldl (Merge.step target overlap) m) (done ++ paragraphs) := by
  induction paragraphs generalizing m done with
  | nil => rwa [List.append_nil]
  | cons para paragraphs ih =>
    have hrun := ih (h.step overlap para)
    rwa [List.append_assoc] at hrun

theorem counted_start (target : ℕ) : Counted target {} [] :=
  ⟨fun _ => ⟨rfl, rfl, Nat.zero_le _⟩, fun h => absurd rfl h⟩

theorem length_finish_of_nil (h : m.chunks = []) : m.finish.length ≤ 1 := by
  unfold Merge.finish
  rw [h]
  split
  · exact Nat.zero_le _
  · exact le_rfl

/-- Something is appended at the end where the buffer holds more than the overlap. -/
theorem length_finish_of_two (h : 2 ≤ m.parts.length) (hkeep : ¬Swallows m) :
    m.finish.length = m.chunks.length + 1 := by
  unfold Merge.finish
  rw [if_neg (List.ne_nil_of_length_pos (by omega))]
  split
  · rename_i prev hprev
    dsimp only
    rw [if_pos fun heq => hkeep ⟨h, prev, hprev, heq⟩]
    exact List.length_append
  · exact List.length_append

theorem length_finish_of_one {groups : List (List (List Char))} {own : List (List Char)}
    (hhold : Holding overlap m groups own) (hchunks : m.chunks ≠ []) (h : m.parts.length = 1) :
    m.finish = m.chunks := by
  obtain ⟨prev, hprev⟩ := Option.isSome_iff_exists.mp (List.getLast?_isSome.mpr hchunks)
  have hlast : lastContent m = some prev.content := by
    unfold lastContent lastOr
    rw [List.getLast?_map, hprev]
    rfl
  have hparts := hhold.parts
  rw [hlast] at hparts
  have hown : own = [] := by
    rw [hparts, List.length_append] at h
    exact List.length_eq_zero_iff.mp (Nat.add_left_cancel (h : 1 + own.length = 1 + 0))
  rw [hown, List.append_nil] at hparts
  have hdrop : joined m.parts = lastChars (joined m.parts).length prev.content := by
    rw [hparts]
    change joined [_] = lastChars (joined [_]).length prev.content
    rw [joined_singleton, lastChars_length_lastChars]
  unfold Merge.finish
  rw [if_neg (List.ne_nil_of_length_pos (by omega)), hprev]
  dsimp only
  rw [if_neg (not_not.mpr hdrop)]

/-- Without an overlap the text of the buffer is longer than the last chunk. -/
theorem not_swallows_of_zero {groups : List (List (List Char))} {own : List (List Char)}
    (hhold : Holding 0 m groups own) : ¬Swallows m := by
  rintro ⟨htwo, prev, hprev, heq⟩
  have hlast : lastContent m = some prev.content := by
    unfold lastContent lastOr
    rw [List.getLast?_map, hprev]
    rfl
  have hparts := hhold.parts
  rw [hlast] at hparts
  have hne : m.parts ≠ [] := List.ne_nil_of_length_pos (by omega)
  have hweight := weight_joined hne
  have hown : own ≠ [] := by
    rintro rfl
    rw [hparts] at htwo
    exact absurd htwo (show ¬2 ≤ 1 by decide)
  obtain ⟨p, rest, rfl⟩ := List.exists_cons_of_ne_nil hown
  rw [hparts] at hweight
  have hsum : weightOf (carried 0 (some prev.content) ++ p :: rest) =
      weight prev.content + (weight p + weightOf rest) := by
    rw [weightOf_append]
    exact congrArg₂ (· + ·) (Nat.add_zero _) rfl
  rw [hsum, ← hparts] at hweight
  unfold weight at hweight
  have hlength := congrArg List.length heq
  unfold lastChars at hlength
  rw [if_neg (by omega), List.length_drop] at hlength
  omega

end Count

section Iff

variable {target overlap : ℕ} {paragraphs : List (List Char)}

/-- With an overlap, what is lost is what is swallowed at the end. -/
theorem losesNothing_iff_of_pos (hoverlap : 0 < overlap) (hne : ∀ p ∈ paragraphs, p ≠ []) :
    LosesNothing overlap paragraphs (mergeParagraphsIntoChunks target overlap paragraphs) ↔
      ¬Swallows (paragraphs.foldl (Merge.step target overlap) {}) := by
  have hbefore : overlapOf overlap = carried overlap := by
    funext prev
    exact if_neg (by omega)
  obtain ⟨groups, own, heq, hhold⟩ :=
    exists_holding target paragraphs hne (holding_start overlap)
  obtain ⟨groups', lost, heq', hcovers, hfilled, hlost, -⟩ := hhold.finish
  have hall : groups'.flatten ++ lost = paragraphs := heq'.trans heq
  unfold LosesNothing
  rw [hbefore]
  constructor
  · rintro ⟨-, claimed, hclaimed, hcovers'⟩ hswallows
    have hweight := (hcovers'.weight hfilled).trans (hcovers.weight hfilled).symm
    rw [hclaimed, ← hall, weightOf_append] at hweight
    obtain ⟨p, rest, rfl⟩ := List.exists_cons_of_ne_nil (hlost.mpr hswallows)
    change ((weightOf groups'.flatten + (weight p + weightOf rest) : ℕ) : ℤ) = _ at hweight
    unfold weight at hweight
    omega
  · intro hkeep
    have hnil : lost = [] := not_not.mp fun h => hkeep (hlost.mp h)
    rw [hnil, List.append_nil] at hall
    exact ⟨indexed_mergeParagraphs paragraphs, groups', hall, hcovers⟩

theorem ownWeight_overlapOf_zero (prev : Option (List Char)) (contents : List (List Char)) :
    ownWeight (overlapOf 0) prev contents = weightOf contents := by
  induction contents generalizing prev with
  | nil => rfl
  | cons c contents ih =>
    rw [ownWeight, ih]
    change (weight c : ℤ) - (0 : ℕ) + _ = ((weight c + weightOf contents : ℕ) : ℤ)
    omega

/-- The whole chunk is carried over, so the weights telescope. -/
theorem ownWeight_carried_zero (prev : Option (List Char)) (contents : List (List Char)) :
    ownWeight (carried 0) prev contents =
      weightOf (lastOr prev contents).toList - weightOf prev.toList := by
  induction contents generalizing prev with
  | nil =>
    rw [ownWeight]
    change (0 : ℤ) = (weightOf (Option.toList (Option.or none prev)) : ℤ) - _
    rw [Option.none_or, Int.sub_self]
  | cons c contents ih =>
    have hlast : lastOr prev (c :: contents) = lastOr (some c) contents := by
      unfold lastOr
      rw [List.getLast?_cons]
      cases contents.getLast? <;> rfl
    have hcarried : carried 0 prev = prev.toList := by
      cases prev <;> rfl
    rw [ownWeight, ih, hlast, hcarried]
    change (weight c : ℤ) - _ + (_ - ((weight c + 0 : ℕ) : ℤ)) = _
    omega

/-- Without an overlap, a second chunk repeats the first. -/
theorem losesNothing_iff_of_zero (hne : ∀ p ∈ paragraphs, p ≠ []) :
    LosesNothing 0 paragraphs (mergeParagraphsIntoChunks target 0 paragraphs) ↔
      paragraphs.length ≤ 1 ∨ tokensOf paragraphs ≤ target := by
  obtain ⟨groups, own, heq, hhold⟩ :=
    exists_holding target paragraphs hne (holding_start 0)
  obtain ⟨groups', lost, heq', hcovers, hfilled, hlost, -⟩ := hhold.finish
  have hkeep := not_swallows_of_zero hhold
  have hnil : lost = [] := not_not.mp fun h => hkeep (hlost.mp h)
  have hall : groups'.flatten = paragraphs := by
    rw [hnil, List.append_nil] at heq'
    exact heq'.trans heq
  have hcounted := counted_run 0 paragraphs (counted_start target)
  rw [List.nil_append] at hcounted
  have hindexed := @indexed_mergeParagraphs target 0 paragraphs
  unfold mergeParagraphsIntoChunks at hindexed ⊢
  generalize paragraphs.foldl (Merge.step target 0) {} = m at *
  have hfew : m.finish.length ≤ 1 ↔ paragraphs.length ≤ 1 ∨ tokensOf paragraphs ≤ target := by
    by_cases hchunks : m.chunks = []
    · exact iff_of_true (length_finish_of_nil hchunks) (.inr (hcounted.unfull hchunks).2.2)
    · obtain ⟨hlt, -, ⟨hparts, htwo⟩ | ⟨hone, hlength, hparts⟩⟩ := hcounted.full hchunks
      · have hpos := List.length_pos_of_ne_nil hchunks
        refine iff_of_false ?_ ?_
        · rw [length_finish_of_two hparts hkeep]
          omega
        · omega
      · refine iff_of_true ?_ (.inl hone.le)
        rw [length_finish_of_one hhold hchunks hparts]
        exact hlength.le
  rw [← hfew]
  constructor
  · rintro ⟨-, claimed, hclaimed, hcovers'⟩
    have hweight := (hcovers'.weight hfilled).symm.trans
      ((congrArg (fun l => (weightOf l : ℤ)) (hclaimed.trans hall.symm)).trans
        (hcovers.weight hfilled))
    rw [ownWeight_overlapOf_zero, ownWeight_carried_zero] at hweight
    -- all chunks together weigh as much as the last one
    rw [← List.length_map (f := Chunk.content)]
    generalize m.finish.map Chunk.content = contents at hweight
    rcases List.eq_nil_or_concat' contents with rfl | ⟨front, c, rfl⟩
    · exact Nat.zero_le _
    · have hlast : lastOr none (front ++ [c]) = some c := by
        unfold lastOr
        rw [List.getLast?_concat]
        rfl
      rw [hlast, weightOf_append] at hweight
      change ((weightOf front + weightOf [c] : ℕ) : ℤ) = (weightOf [c] : ℤ) - (0 : ℕ) at hweight
      cases front with
      | nil => exact le_rfl
      | cons d front =>
        change (((weight d + weightOf front) + weightOf [c] : ℕ) : ℤ) = _ at hweight
        unfold weight at hweight
        omega
  · intro hone
    refine ⟨hindexed, groups', hall, ?_⟩
    rw [← List.length_map (f := Chunk.content)] at hone
    generalize m.finish.map Chunk.content = contents at hcovers hone ⊢
    -- the one chunk there is has none before it
    cases groups' with
    | nil =>
      cases contents with
      | nil => trivial
      | cons => exact hcovers.elim
    | cons g groups' =>
      cases contents with
      | nil => exact hcovers.elim
      | cons c contents =>
        obtain rfl : contents = [] := List.length_eq_zero_iff.mp (Nat.le_zero.mp (Nat.le_of_succ_le_succ hone))
        cases groups' with
        | nil => exact ⟨hcovers.1, trivial⟩
        | cons => exact hcovers.2.elim

variable (split : List Char → List (List Char)) (strip : List Char → List Char)

theorem splitIntoParagraphs_ne_nil (text : List Char) :
    ∀ p ∈ splitIntoParagraphs split strip text, p ≠ [] :=
  fun _ hp => of_decide_eq_true (List.mem_filter.mp hp).2

/-- The chunks of a text lose nothing just if there is an overlap or no second chunk, and the text of the
last buffer is not the end of the chunk before. -/
theorem losesNothing_iff (target overlap : ℕ) (text : List Char) :
    LosesNothing overlap (splitIntoParagraphs split strip text)
        (chunkTextWith split strip target overlap text) ↔
      (0 < overlap ∨ (splitIntoParagraphs split strip text).length ≤ 1 ∨
        tokensOf (splitIntoParagraphs split strip text) ≤ target) ∧
      ¬Swallows ((splitIntoParagraphs split strip text).foldl (Merge.step target overlap) {}) := by
  have hne := splitIntoParagraphs_ne_nil split strip text
  unfold chunkTextWith
  generalize splitIntoParagraphs split strip text = paragraphs at hne ⊢
  rcases Nat.eq_zero_or_pos overlap with rfl | hoverlap
  · obtain ⟨groups, own, -, hhold⟩ :=
      exists_holding target paragraphs hne (holding_start 0)
    have hkeep := not_swallows_of_zero hhold
    rw [losesNothing_iff_of_zero hne, and_iff_left hkeep, or_iff_right (lt_irrefl 0)]
  · rw [losesNothing_iff_of_pos hoverlap hne, and_iff_right (Or.inl hoverlap)]

/-- Four paragraphs `aaaa` with a target of three: the fourth is taken for the overlap. -/
theorem chunkText_swallows : ¬LosesNothing 1
    (splitIntoParagraphs (fun _ => List.replicate 4 ['a', 'a', 'a', 'a']) id
      (joined (List.replicate 4 ['a', 'a', 'a', 'a'])))
    (chunkTextWith (fun _ => List.replicate 4 ['a', 'a', 'a', 'a']) id 3 1
      (joined (List.replicate 4 ['a', 'a', 'a', 'a']))) := by
  intro h
  refine (losesNothing_iff_of_pos Nat.one_pos (splitIntoParagraphs_ne_nil _ _ _)).mp h ?_
  refine ⟨by decide +kernel, ⟨0, joined (List.replicate 3 ['a', 'a', 'a', 'a']), 4⟩, ?_, ?_⟩ <;>
    decide +kernel

end Iff

end Lossless

end Hill90.Knowledge
