import Hill90.Foundation.Utf8
import Mathlib.Algebra.Group.Nat.Defs

/-! # Texts up to their characters outside ASCII

Bytes that are decoded piece by piece give the same ASCII characters as the whole of them, with
others wherever the whole has others.
-/

namespace Hill90.Utf8

/-- A character outside ASCII before a text in which each run of them is one. -/
def mark : List Char → List Char
  | [] => [replacement]
  | c :: cs => if c = replacement then c :: cs else replacement :: c :: cs

def blur : List Char → List Char
  | [] => []
  | c :: cs => if c.toNat < 128 then c :: blur cs else mark (blur cs)

variable {c : Char} {a b : List Char}

theorem blur_ascii (cs : List Char) (h : c.toNat < 128) : blur (c :: cs) = c :: blur cs := if_pos h

theorem blur_other (cs : List Char) (h : 128 ≤ c.toNat) : blur (c :: cs) = mark (blur cs) :=
  if_neg (by omega)

theorem blur_replacement (cs : List Char) : blur (replacement :: cs) = mark (blur cs) :=
  blur_other cs (by decide)

theorem exists_mark (cs : List Char) : ∃ rest, mark cs = replacement :: rest := by
  cases cs with
  | nil => exact ⟨[], rfl⟩
  | cons c cs =>
    rw [mark]
    split
    · next h => exact ⟨cs, by rw [h]⟩
    · exact ⟨c :: cs, rfl⟩

theorem mark_mark (cs : List Char) : mark (mark cs) = mark cs := by
  obtain ⟨rest, hrest⟩ := exists_mark cs
  rw [hrest, mark, if_pos rfl]

theorem blur_append_congr (start : List Char) (h : blur a = blur b) :
    blur (start ++ a) = blur (start ++ b) := by
  induction start with
  | nil => exact h
  | cons c start ih => simp only [List.cons_append, blur, ih]

theorem mark_of_head {cs : List Char} (h : cs.head? ≠ some replacement) :
    mark cs = replacement :: cs := by
  cases cs with
  | nil => rfl
  | cons c cs => exact if_neg fun heq => h (congrArg some heq)

theorem mark_cons_replacement (cs : List Char) :
    mark (replacement :: cs) = replacement :: cs := by
  rw [mark, if_pos rfl]

theorem mark_append {d : Char} (cs ds : List Char) (h : d ≠ replacement) :
    mark (cs ++ d :: ds) = mark cs ++ d :: ds := by
  cases cs with
  | nil => exact if_neg h
  | cons c cs =>
    rw [List.cons_append, mark, mark]
    split <;> rfl

theorem ne_replacement (h : c.toNat < 128) : c ≠ replacement := by
  rintro rfl
  exact absurd h (by decide)

/-- An ASCII character begins a text as it did. -/
theorem head_blur (cs : List Char) (h : c.toNat < 128) :
    (blur cs).head? = some c ↔ cs.head? = some c := by
  cases cs with
  | nil => rfl
  | cons d cs =>
    by_cases hd : d.toNat < 128
    · rw [blur_ascii cs hd]
      rfl
    · obtain ⟨rest, hrest⟩ := exists_mark (blur cs)
      rw [blur_other cs (by omega), hrest]
      refine iff_of_false (fun heq => ne_replacement h (Option.some.inj heq).symm) fun heq => ?_
      rw [Option.some.inj heq] at hd
      exact hd h

theorem blur_append_ascii {d : Char} (cs ds : List Char) (h : d.toNat < 128) :
    blur (cs ++ d :: ds) = blur cs ++ d :: blur ds := by
  induction cs with
  | nil => exact blur_ascii ds h
  | cons c cs ih =>
    by_cases hc : c.toNat < 128
    · rw [List.cons_append, blur_ascii _ hc, ih, blur_ascii cs hc]
      rfl
    · rw [List.cons_append, blur_other _ (by omega), ih, mark_append _ _ (ne_replacement h),
        blur_other cs (by omega)]

theorem blur_eq_self {cs : List Char} (h : replacement ∉ blur cs) : blur cs = cs := by
  induction cs with
  | nil => rfl
  | cons c cs ih =>
    by_cases hc : c.toNat < 128
    · rw [blur_ascii cs hc] at h ⊢
      rw [ih fun hmem => h (List.mem_cons_of_mem _ hmem)]
    · obtain ⟨rest, hrest⟩ := exists_mark (blur cs)
      rw [blur_other cs (by omega), hrest] at h
      exact absurd List.mem_cons_self h

/-- The characters that a pending one can become. -/
def Pending.floor (p : Pending) : ℕ := (p.value * 64 + (p.lower.toNat - 0x80)) * 64 ^ (p.needed - 1)

def Pending.ceiling (p : Pending) : ℕ :=
  (p.value * 64 + (p.upper.toNat - 0x80) + 1) * 64 ^ (p.needed - 1)

/-- Each of them is one, and outside ASCII. -/
structure Pending.Fair (p : Pending) : Prop where
  needed : 1 ≤ p.needed
  lower : 0x80 ≤ p.lower.toNat
  upper : p.upper.toNat ≤ 0xBF
  floor : 128 ≤ p.floor
  valid : p.ceiling ≤ 0xD800 ∨ 0xE000 ≤ p.floor ∧ p.ceiling ≤ 0x110000

theorem start_fair (x : UInt8) : ∀ p ∈ (start x).2, p.Fair := by
  have hall : ∀ i : Fin 256, ∀ p ∈ (start (UInt8.ofFin i)).2,
      1 ≤ p.needed ∧ 0x80 ≤ p.lower.toNat ∧ p.upper.toNat ≤ 0xBF ∧ 128 ≤ p.floor ∧
        (p.ceiling ≤ 0xD800 ∨ 0xE000 ≤ p.floor ∧ p.ceiling ≤ 0x110000) := by
    decide +kernel
  intro p hp
  obtain ⟨hneeded, hlower, hupper, hfloor, hvalid⟩ := hall x.toFin p hp
  exact ⟨hneeded, hlower, hupper, hfloor, hvalid⟩

/-- The character that a byte completes. -/
theorem completed_other {p : Pending} (hp : p.Fair) {x : UInt8} (h : p.lower ≤ x ∧ x ≤ p.upper)
    (hone : p.needed ≤ 1) : 128 ≤ (Char.ofNat (p.value * 64 + (x.toNat - 0x80))).toNat := by
  have hlow := UInt8.le_iff_toNat_le.mp h.1
  have hhigh := UInt8.le_iff_toNat_le.mp h.2
  have hneeded : p.needed - 1 = 0 := by omega
  have hfloor := hp.floor
  have hvalid := hp.valid
  rw [Pending.floor, hneeded, Nat.pow_zero, Nat.mul_one] at hfloor hvalid
  rw [Pending.ceiling, hneeded, Nat.pow_zero, Nat.mul_one] at hvalid
  have hchar : (p.value * 64 + (x.toNat - 0x80)).isValidChar := by
    unfold Nat.isValidChar
    omega
  rw [Char.toNat_ofNat, if_pos hchar]
  omega

theorem floor_any (k v : ℕ) : (⟨k + 1, v, 0x80, 0xBF⟩ : Pending).floor = v * 64 ^ (k + 1) := by
  have hlower : (0x80 : UInt8).toNat - 0x80 = 0 := by decide
  unfold Pending.floor
  dsimp only
  rw [hlower, Nat.add_zero, Nat.add_sub_cancel, Nat.mul_assoc, Nat.pow_succ']

theorem ceiling_any (k v : ℕ) :
    (⟨k + 1, v, 0x80, 0xBF⟩ : Pending).ceiling = (v + 1) * 64 ^ (k + 1) := by
  have hupper : (0xBF : UInt8).toNat - 0x80 = 63 := by decide
  unfold Pending.ceiling
  dsimp only
  rw [hupper, Nat.add_sub_cancel, Nat.pow_succ', ← Nat.mul_assoc, Nat.add_mul v 1 64]

theorem next_fair {p : Pending} (hp : p.Fair) {x : UInt8} (h : p.lower ≤ x ∧ x ≤ p.upper)
    (hmore : ¬p.needed ≤ 1) :
    (⟨p.needed - 1, p.value * 64 + (x.toNat - 0x80), 0x80, 0xBF⟩ : Pending).Fair := by
  have hlow := UInt8.le_iff_toNat_le.mp h.1
  have hhigh := UInt8.le_iff_toNat_le.mp h.2
  obtain ⟨k, hk⟩ : ∃ k, p.needed = k + 2 := ⟨p.needed - 2, by omega⟩
  have hfloor : p.floor ≤ (p.value * 64 + (x.toNat - 0x80)) * 64 ^ (k + 1) := by
    rw [Pending.floor, hk]
    exact Nat.mul_le_mul_right _ (by omega)
  have hceiling : (p.value * 64 + (x.toNat - 0x80) + 1) * 64 ^ (k + 1) ≤ p.ceiling := by
    rw [Pending.ceiling, hk]
    exact Nat.mul_le_mul_right _ (by omega)
  have hold := hp.floor
  have hvalid := hp.valid
  have hneeded : k + 2 - 1 = k + 1 := rfl
  rw [hk, hneeded]
  generalize p.value * 64 + (x.toNat - 0x80) = v at *
  rw [← floor_any] at hfloor
  rw [← ceiling_any] at hceiling
  exact ⟨Nat.succ_pos k, Nat.le_refl 0x80, Nat.le_refl 0xBF, Nat.le_trans hold hfloor, by omega⟩

theorem feed_fair {p : Option Pending} (hp : ∀ q ∈ p, q.Fair) (x : UInt8) :
    ∀ q ∈ (feed p x).2, q.Fair := by
  match p, hp with
  | none, _ => exact start_fair x
  | some p, hp =>
    have hfair := hp p rfl
    have hfeed : feed (some p) x = if p.lower ≤ x ∧ x ≤ p.upper then
        if p.needed ≤ 1 then ([Char.ofNat (p.value * 64 + (x.toNat - 0x80))], none)
        else ([], some ⟨p.needed - 1, p.value * 64 + (x.toNat - 0x80), 0x80, 0xBF⟩)
      else (replacement :: (start x).1, (start x).2) := rfl
    rw [hfeed]
    split
    · next hrange =>
      split
      · simp
      · next hmore =>
        intro q hq
        obtain rfl := Option.some.inj hq
        exact next_fair hfair hrange hmore
    · exact start_fair x

theorem start_continuation {x : UInt8} (hlow : 0x80 ≤ x.toNat) (hhigh : x.toNat ≤ 0xBF) :
    start x = ([replacement], none) := by
  have hascii : ¬x < 0x80 := by rw [UInt8.lt_iff_toNat_lt]; simp; omega
  have hlead : x < 0xC2 := by rw [UInt8.lt_iff_toNat_lt]; simp; omega
  rw [start, if_neg hascii, if_pos hlead]

/-- A character that has begun is a replacement, or stands where replacements would. -/
theorem blur_decodeFrom {p : Pending} (hp : p.Fair) (bs : Bytes) :
    blur (decodeFrom (some p) bs) = mark (blur (decode bs)) := by
  induction bs generalizing p with
  | nil => rfl
  | cons x bs ih =>
    have hfeed : decodeFrom (some p) (x :: bs) =
        (feed (some p) x).1 ++ decodeFrom (feed (some p) x).2 bs := rfl
    have hstart : decode (x :: bs) = (start x).1 ++ decodeFrom (start x).2 bs := rfl
    rw [hfeed, hstart, feed]
    split
    · next hrange =>
      have hlow := UInt8.le_iff_toNat_le.mp hrange.1
      have hhigh := UInt8.le_iff_toNat_le.mp hrange.2
      have hlower := hp.lower
      have hupper := hp.upper
      have halone : start x = ([replacement], none) := start_continuation (by omega) (by omega)
      have hrest : blur (replacement :: decode bs) = mark (blur (decode bs)) := blur_replacement _
      rw [halone, List.singleton_append, ← decode, hrest, mark_mark]
      split
      · next hone => exact blur_other _ (completed_other hp hrange hone)
      · next hmore => exact ih (next_fair hp hrange hmore)
    · exact blur_replacement _

theorem blur_decodeFrom_append {p : Option Pending} (hp : ∀ q ∈ p, q.Fair) (a b : Bytes) :
    blur (decodeFrom p (a ++ b)) = blur (decodeFrom p a ++ decode b) := by
  induction a generalizing p with
  | nil =>
    cases p with
    | none => rfl
    | some p =>
      rw [List.nil_append, blur_decodeFrom (hp p rfl)]
      exact (blur_replacement _).symm
  | cons x a ih =>
    have hcons : ∀ bs, decodeFrom p (x :: bs) = (feed p x).1 ++ decodeFrom (feed p x).2 bs := by
      cases p <;> exact fun _ => rfl
    rw [List.cons_append, hcons, hcons, List.append_assoc]
    exact blur_append_congr _ (ih (feed_fair hp x))

/-- A cut shows outside ASCII at most. -/
theorem blur_decode_append (a b : Bytes) : blur (decode (a ++ b)) = blur (decode a ++ decode b) :=
  blur_decodeFrom_append (by simp) a b

theorem blur_decode_flatten (chunks : List Bytes) :
    blur (decode chunks.flatten) = blur (chunks.map decode).flatten := by
  induction chunks with
  | nil => rfl
  | cons chunk chunks ih =>
    rw [List.flatten_cons, blur_decode_append, List.map_cons, List.flatten_cons]
    exact blur_append_congr _ ih

end Hill90.Utf8
