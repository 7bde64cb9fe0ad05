import Hill90.Foundation.Blur

/-! # Bytes that are decoded piece by piece

A piece that ends within a character leaves a replacement for it, and one for each of its bytes that
follow: the text differs from that of the whole from there on, as far as the whole has anything but
replacements.
-/

namespace Hill90.Utf8

/-- The bytes after a piece go on with the character that it ends in. -/
def Divides (a b : Bytes) : Prop :=
  ∃ p, after none a = some p ∧ ∃ x ∈ b.head?, p.lower ≤ x ∧ x ≤ p.upper

/-- From a piece that ends within a character on, the text has replacements only, as far as the
limit. -/
def Unnoticed (n : ℕ) (pieces : List Bytes) : Prop :=
  ∀ pre post, pieces = pre ++ post → Divides pre.flatten post.flatten →
    ∀ i, (decode pre.flatten).length ≤ i + 1 → i < n →
      (decode pieces.flatten)[i]? = some replacement

section Decode

variable {p : Option Pending} {a b : Bytes}

theorem decodeFrom_cons (p : Option Pending) (x : UInt8) (bs : Bytes) :
    decodeFrom p (x :: bs) = (feed p x).1 ++ decodeFrom (feed p x).2 bs := by
  cases p <;> rfl

theorem after_append (p : Option Pending) (a b : Bytes) : after p (a ++ b) = after (after p a) b := by
  induction a generalizing p with
  | nil => cases p <;> rfl
  | cons x a ih => cases p <;> exact ih _

theorem after_fair (hp : ∀ q ∈ p, q.Fair) (a : Bytes) : ∀ q ∈ after p a, q.Fair := by
  induction a generalizing p with
  | nil => cases p <;> exact hp
  | cons x a ih =>
    have hafter : after p (x :: a) = after (feed p x).2 a := by
      cases p <;> rfl
    rw [hafter]
    exact ih (feed_fair hp x)

/-- The characters that have ended, and what is left of the rest. -/
theorem exists_emitted (p : Option Pending) (a : Bytes) : ∃ front, ∀ b,
    decodeFrom p (a ++ b) = front ++ decodeFrom (after p a) b := by
  induction a generalizing p with
  | nil => exact ⟨[], fun b => by cases p <;> rfl⟩
  | cons x a ih =>
    obtain ⟨front, hfront⟩ := ih (feed p x).2
    refine ⟨(feed p x).1 ++ front, fun b => ?_⟩
    have hafter : after p (x :: a) = after (feed p x).2 a := by
      cases p <;> rfl
    rw [List.cons_append, decodeFrom_cons, hfront, hafter, List.append_assoc]

theorem decodeFrom_some {q : Pending} (hq : q.Fair) (b : Bytes) : ∃ c k rest,
    decodeFrom (some q) b = c :: rest ∧ decode b = List.replicate k replacement ++ rest ∧
      (k = 0 → c = replacement) ∧ (0 < k ↔ ∃ x ∈ b.head?, q.lower ≤ x ∧ x ≤ q.upper) := by
  induction b generalizing q with
  | nil => exact ⟨replacement, 0, [], rfl, rfl, fun _ => rfl, by simp⟩
  | cons x b ih =>
    have hdecode : decode (x :: b) = (start x).1 ++ decodeFrom (start x).2 b := rfl
    rw [decodeFrom_cons, feed]
    by_cases hrange : q.lower ≤ x ∧ x ≤ q.upper
    · have hlow := UInt8.le_iff_toNat_le.mp hrange.1
      have hhigh := UInt8.le_iff_toNat_le.mp hrange.2
      have hlower := hq.lower
      have hupper := hq.upper
      have halone : start x = ([replacement], none) := start_continuation (by omega) (by omega)
      have hrest : decode (x :: b) = replacement :: decode b := by
        rw [hdecode, halone]
        rfl
      have hhead : ∃ y ∈ (x :: b).head?, q.lower ≤ y ∧ y ≤ q.upper := ⟨x, rfl, hrange⟩
      rw [if_pos hrange, hrest]
      dsimp only
      by_cases hone : q.needed ≤ 1
      · rw [if_pos hone]
        exact ⟨_, 1, decode b, rfl, rfl, fun h => absurd h Nat.one_ne_zero, iff_of_true Nat.one_pos hhead⟩
      · rw [if_neg hone]
        obtain ⟨c, k, rest, hc, hk, -, -⟩ := ih (next_fair hq hrange hone)
        refine ⟨c, k + 1, rest, ?_, ?_, fun h => absurd h k.succ_ne_zero,
          iff_of_true (Nat.succ_pos k) hhead⟩
        · rw [List.nil_append, hc]
        · rw [hk, List.replicate_succ, List.cons_append]
    · rw [if_neg hrange]
      refine ⟨replacement, 0, decode (x :: b), rfl, rfl, fun _ => rfl, ?_⟩
      refine iff_of_false (Nat.lt_irrefl 0) ?_
      rintro ⟨y, hy, hy'⟩
      cases hy
      exact hrange hy'

/-- What a cut makes of a text. -/
theorem decode_cut (a b : Bytes) :
    (¬Divides a b ∧ decode (a ++ b) = decode a ++ decode b) ∨
      Divides a b ∧ ∃ front c k rest, decode a = front ++ [replacement] ∧
        decode (a ++ b) = front ++ c :: rest ∧
          decode b = List.replicate (k + 1) replacement ++ rest := by
  obtain ⟨front, hfront⟩ := exists_emitted none a
  have hwhole : decode (a ++ b) = front ++ decodeFrom (after none a) b := hfront b
  have hpiece : decode a = front ++ decodeFrom (after none a) [] := by
    rw [← hfront, List.append_nil]
    rfl
  cases hafter : after none a with
  | none =>
    left
    refine ⟨?_, decode_append b hafter⟩
    rintro ⟨q, hq, -⟩
    rw [hafter] at hq
    cases hq
  | some q =>
    rw [hafter] at hwhole hpiece
    have hfair : q.Fair := after_fair (by simp) a q hafter
    obtain ⟨c, k, rest, hc, hk, hzero, hdivides⟩ := decodeFrom_some hfair b
    rw [hc] at hwhole
    have hiff : Divides a b ↔ 0 < k := by
      rw [hdivides]
      constructor
      · rintro ⟨q', hq', hx⟩
        cases hafter.symm.trans hq'
        exact hx
      · exact fun hx => ⟨q, hafter, hx⟩
    cases k with
    | zero =>
      left
      refine ⟨fun h => absurd (hiff.mp h) (Nat.lt_irrefl 0), ?_⟩
      have hrest : decode b = rest := hk
      rw [hwhole, hpiece, hzero rfl, hrest, List.append_assoc]
      rfl
    | succ k => exact .inr ⟨hiff.mpr (Nat.succ_pos k), front, c, k, rest, hpiece, hwhole, hk⟩

end Decode

section Leading

variable {n k : ℕ} {u v w : List Char}

theorem replicate_prefix_append (h : ∀ n, List.replicate n replacement <+: v →
    List.replicate n replacement <+: w) (hu : List.replicate n replacement <+: u ++ v) :
    List.replicate n replacement <+: u ++ w := by
  induction u generalizing n with
  | nil => exact h n hu
  | cons c u ih =>
    cases n with
    | zero => exact List.nil_prefix
    | succ n =>
      rw [List.replicate_succ, List.cons_append, List.cons_prefix_cons] at hu ⊢
      exact ⟨hu.1, ih hu.2⟩

theorem replicate_prefix_replicate (k : ℕ) (h : List.replicate n replacement <+: v) :
    List.replicate (k + n) replacement <+: List.replicate k replacement ++ v := by
  rw [List.replicate_add]
  exact (List.prefix_append_right_inj _).mpr h

theorem replicate_prefix_le {m : ℕ} (hle : m ≤ n) (h : List.replicate n replacement <+: v) :
    List.replicate m replacement <+: v := by
  have hmn : List.replicate m replacement <+: List.replicate n replacement := by
    refine ⟨List.replicate (n - m) replacement, ?_⟩
    rw [← List.replicate_add, Nat.add_sub_cancel' hle]
  exact hmn.trans h

theorem take_of_replicate (h : List.replicate n replacement <+: v) :
    v.take n = List.replicate n replacement := by
  have htake := List.prefix_iff_eq_take.mp h
  rw [List.length_replicate] at htake
  exact htake.symm

theorem leading_pieces (pieces : List Bytes) (h : List.replicate n replacement <+: decode pieces.flatten) :
    List.replicate n replacement <+: (pieces.map decode).flatten := by
  induction pieces generalizing n with
  | nil => exact h
  | cons a pieces ih =>
    rw [List.flatten_cons] at h
    rw [List.map_cons, List.flatten_cons]
    obtain ⟨-, hwhole⟩ | ⟨-, front, c, k, rest, hpiece, hwhole, hnext⟩ := decode_cut a pieces.flatten
    · rw [hwhole] at h
      exact replicate_prefix_append (fun _ => ih) h
    · rw [hwhole] at h
      rw [hpiece, List.append_assoc, List.singleton_append]
      refine replicate_prefix_append (fun m hm => ?_) h
      cases m with
      | zero => exact List.nil_prefix
      | succ m =>
        rw [List.replicate_succ, List.cons_prefix_cons] at hm ⊢
        refine ⟨rfl, ih ?_⟩
        rw [hnext]
        exact replicate_prefix_le (Nat.le_add_left m (k + 1)) (replicate_prefix_replicate (k + 1) hm.2)

theorem take_cut_iff {c : Char} {rest : List Char} {pieces : List Bytes}
    (hnext : decode pieces.flatten = List.replicate (k + 1) replacement ++ rest) :
    (replacement :: (pieces.map decode).flatten).take n = (c :: rest).take n ↔
      List.replicate n replacement <+: c :: rest := by
  cases n with
  | zero => exact iff_of_true rfl List.nil_prefix
  | succ n =>
    rw [List.take_succ_cons, List.take_succ_cons, List.cons.injEq, List.replicate_succ,
      List.cons_prefix_cons]
    refine and_congr_right fun _ => ?_
    have hlead : ∀ j, List.replicate j replacement <+: rest →
        List.replicate (j + 1) replacement <+: (pieces.map decode).flatten := by
      intro j hj
      apply leading_pieces
      rw [hnext]
      exact replicate_prefix_le (by omega) (replicate_prefix_replicate (k + 1) hj)
    constructor
    · intro htake
      have hall : ∀ j ≤ n, List.replicate j replacement <+: rest := by
        intro j
        induction j with
        | zero => exact fun _ => List.nil_prefix
        | succ j ih =>
          intro hj
          have hpieces := take_of_replicate (hlead j (ih (by omega)))
          have hsame : (pieces.map decode).flatten.take (j + 1) = rest.take (j + 1) := by
            have hcut := congrArg (List.take (j + 1)) htake
            rwa [List.take_take, List.take_take, Nat.min_eq_left hj] at hcut
          rw [← hpieces, hsame]
          exact List.take_prefix _ _
      exact hall n (Nat.le_refl n)
    · intro hrest
      rw [take_of_replicate hrest, take_of_replicate (replicate_prefix_le (Nat.le_succ n) (hlead n hrest))]

/-- From a place on, as far as the limit. -/
theorem replicate_prefix_iff (front tail : List Char) :
    (∀ i, front.length ≤ i → i < n → (front ++ tail)[i]? = some replacement) ↔
      List.replicate (n - front.length) replacement <+: tail := by
  constructor
  · intro h
    rw [List.prefix_iff_getElem?]
    intro i hi
    rw [List.length_replicate] at hi
    have hat := h (front.length + i) (Nat.le_add_right _ _) (by omega)
    rw [List.getElem?_append_right (Nat.le_add_right _ _), Nat.add_sub_cancel_left] at hat
    rw [hat, List.getElem_replicate]
  · intro h i hle hlt
    rw [List.getElem?_append_right hle]
    rw [List.prefix_iff_getElem?] at h
    have hat := h (i - front.length) (by rw [List.length_replicate]; omega)
    rw [hat, List.getElem_replicate]

end Leading

section Pieces

variable {n : ℕ} {a b : Bytes} {pieces : List Bytes}

theorem not_divides_nil (b : Bytes) : ¬Divides [] b := by
  rintro ⟨q, hq, -⟩
  cases hq

theorem unnoticed_nil : Unnoticed n [] := by
  intro pre post hsplit hdivides
  obtain ⟨rfl, rfl⟩ := List.append_eq_nil_iff.mp hsplit.symm
  exact absurd hdivides (not_divides_nil _)

theorem divides_append_iff {pre : Bytes} (post : Bytes) (hpre : pre ≠ []) :
    Divides a (pre ++ post) ↔ Divides a pre := by
  unfold Divides
  rw [List.head?_append_of_ne_nil pre hpre]

/-- A cut between two characters is forgotten. -/
theorem after_of_not_divides {pre : Bytes} (h : ¬Divides a pre) (hpre : pre ≠ []) :
    after none (a ++ pre) = after none pre := by
  rw [after_append]
  cases hafter : after none a with
  | none => rfl
  | some q =>
    obtain ⟨x, pre, rfl⟩ := List.exists_cons_of_ne_nil hpre
    have hrange : ¬(q.lower ≤ x ∧ x ≤ q.upper) := fun hrange => h ⟨q, hafter, x, rfl, hrange⟩
    have hfeed : (feed (some q) x).2 = (start x).2 := by
      rw [feed, if_neg hrange]
    have hsome : after (some q) (x :: pre) = after (feed (some q) x).2 pre := rfl
    rw [hsome, hfeed]
    rfl

theorem divides_cons_iff {pre : Bytes} (h : ¬Divides a pre) (hpre : pre ≠ []) :
    Divides (a ++ pre) b ↔ Divides pre b := by
  unfold Divides
  rw [after_of_not_divides h hpre]

theorem decode_of_not_divides (h : ¬Divides a b) : decode (a ++ b) = decode a ++ decode b := by
  obtain ⟨-, hdecode⟩ | ⟨hdivides, -⟩ := decode_cut a b
  · exact hdecode
  · exact absurd hdivides h

theorem length_decode_pos (h : Divides a b) : 0 < (decode a).length := by
  obtain ⟨hnot, -⟩ | ⟨-, front, c, k, rest, hdecode, -⟩ := decode_cut a b
  · exact absurd h hnot
  · rw [hdecode]
    simp

theorem length_decode_le (a b : Bytes) : (decode a).length ≤ (decode (a ++ b)).length := by
  obtain ⟨-, hdecode⟩ | ⟨-, front, c, k, rest, hpiece, hwhole, -⟩ := decode_cut a b
  · rw [hdecode, List.length_append]
    omega
  · rw [hpiece, hwhole]
    simp

theorem unnoticed_cons_iff (h : ¬Divides a pieces.flatten) :
    Unnoticed n (a :: pieces) ↔ Unnoticed (n - (decode a).length) pieces := by
  have hdecode := decode_of_not_divides h
  constructor
  · intro hall pre post hsplit hdivides i hle hlt
    have hpre : pre.flatten ≠ [] := by
      intro hnil
      rw [hnil] at hdivides
      exact not_divides_nil _ hdivides
    have hcut : ¬Divides a pre.flatten := by
      rwa [hsplit, List.flatten_append, divides_append_iff _ hpre] at h
    have hpiece := decode_of_not_divides hcut
    have hat := hall (a :: pre) post (by rw [hsplit, List.cons_append])
      (by rwa [List.flatten_cons, divides_cons_iff hcut hpre]) ((decode a).length + i)
      (by rw [List.flatten_cons, hpiece, List.length_append]; omega) (by omega)
    rwa [List.flatten_cons, hdecode, List.getElem?_append_right (Nat.le_add_right _ _),
      Nat.add_sub_cancel_left] at hat
  · intro hall pre post hsplit hdivides i hle hlt
    cases pre with
    | nil => exact absurd hdivides (not_divides_nil _)
    | cons a' pre =>
      rw [List.cons_append, List.cons.injEq] at hsplit
      obtain ⟨rfl, hsplit⟩ := hsplit
      rw [List.flatten_cons] at hdivides hle
      have hpre : pre.flatten ≠ [] := by
        intro hnil
        rw [hnil, List.append_nil] at hdivides
        rw [hsplit, List.flatten_append, hnil] at h
        exact h hdivides
      have hcut : ¬Divides a pre.flatten := by
        rwa [hsplit, List.flatten_append, divides_append_iff _ hpre] at h
      rw [divides_cons_iff hcut hpre] at hdivides
      have hpos := length_decode_pos hdivides
      rw [decode_of_not_divides hcut, List.length_append] at hle
      rw [List.flatten_cons, hdecode, List.getElem?_append_right (by omega)]
      exact hall pre post hsplit hdivides _ (by omega) (by omega)

theorem unnoticed_cut_iff {front rest : List Char} {c : Char} (h : Divides a pieces.flatten)
    (hpiece : decode a = front ++ [replacement]) (hwhole : decode (a ++ pieces.flatten) = front ++ c :: rest) :
    Unnoticed n (a :: pieces) ↔ List.replicate (n - front.length) replacement <+: c :: rest := by
  rw [← replicate_prefix_iff, ← hwhole]
  constructor
  · intro hall i hle hlt
    refine hall [a] pieces rfl (by simpa using h) i ?_ hlt
    rw [List.flatten_singleton, hpiece, List.length_append, List.length_singleton]
    omega
  · intro hall pre post hsplit hdivides i hle hlt
    cases pre with
    | nil => exact absurd hdivides (not_divides_nil _)
    | cons a' pre =>
      rw [List.cons_append, List.cons.injEq] at hsplit
      obtain ⟨rfl, hsplit⟩ := hsplit
      have hlength := length_decode_le a pre.flatten
      rw [hpiece, List.length_append, List.length_singleton] at hlength
      rw [List.flatten_cons] at hle
      rw [List.flatten_cons]
      exact hall i (by omega) hlt

/-- As far as the limit, the pieces have the text of the whole exactly where their cuts are not
noticed. -/
theorem take_pieces_iff (n : ℕ) (pieces : List Bytes) :
    (pieces.map decode).flatten.take n = (decode pieces.flatten).take n ↔ Unnoticed n pieces := by
  induction pieces generalizing n with
  | nil => exact iff_of_true rfl unnoticed_nil
  | cons a pieces ih =>
    rw [List.map_cons, List.flatten_cons, List.flatten_cons]
    -- either the first piece ends between two characters, and the others go on as they would alone, or it
    -- cuts one, and from there on both texts agree only in replacements
    obtain ⟨hcut, hwhole⟩ | ⟨hcut, front, c, k, rest, hpiece, hwhole, hnext⟩ :=
      decode_cut a pieces.flatten
    · rw [unnoticed_cons_iff hcut, ← ih, hwhole, List.take_append, List.take_append,
        List.append_cancel_left_eq]
    · rw [unnoticed_cut_iff hcut hpiece hwhole, ← take_cut_iff hnext, hpiece, hwhole,
        List.append_assoc, List.singleton_append, List.take_append, List.take_append,
        List.append_cancel_left_eq]

end Pieces

end Hill90.Utf8
