import Mathlib

/-! # Lenient decoding of UTF-8

Each byte sequence stands for some text: what begins no character, or is cut off before the end of
one, is read as a replacement character.
-/

namespace Hill90.Utf8

abbrev Bytes := List UInt8

/-- A character that has begun: how many bytes it still needs, its value so far, and the range of
the next byte. -/
structure Pending where
  needed : ℕ
  value : ℕ
  lower : UInt8 := 0x80
  upper : UInt8 := 0xBF
  deriving DecidableEq, Repr

def replacement : Char := Char.ofNat 0xFFFD

/-- A byte that no character waits for. -/
def start (b : UInt8) : List Char × Option Pending :=
  if b < 0x80 then ([Char.ofNat b.toNat], none)
  else if b < 0xC2 then ([replacement], none)
  else if b < 0xE0 then ([], some ⟨1, b.toNat - 0xC0, 0x80, 0xBF⟩)
  else if b < 0xF0 then
    ([], some ⟨2, b.toNat - 0xE0, if b = 0xE0 then 0xA0 else 0x80, if b = 0xED then 0x9F else 0xBF⟩)
  else if b < 0xF5 then
    ([], some ⟨3, b.toNat - 0xF0, if b = 0xF0 then 0x90 else 0x80, if b = 0xF4 then 0x8F else 0xBF⟩)
  else ([replacement], none)

def feed : Option Pending → UInt8 → List Char × Option Pending
  | none, b => start b
  | some p, b =>
    if p.lower ≤ b ∧ b ≤ p.upper then
      let value := p.value * 64 + (b.toNat - 0x80)
      if p.needed ≤ 1 then ([Char.ofNat value], none) else ([], some ⟨p.needed - 1, value, 0x80, 0xBF⟩)
    else (replacement :: (start b).1, (start b).2)

def decodeFrom : Option Pending → Bytes → List Char
  | none, [] => []
  | some _, [] => [replacement]
  | p, b :: bs => (feed p b).1 ++ decodeFrom (feed p b).2 bs

def decode (bs : Bytes) : List Char := decodeFrom none bs

/-- The character that has begun and not ended after the bytes. -/
def after : Option Pending → Bytes → Option Pending
  | p, [] => p
  | p, b :: bs => after (feed p b).2 bs

theorem decodeFrom_append {p : Option Pending} {a : Bytes} (b : Bytes) (h : after p a = none) :
    decodeFrom p (a ++ b) = decodeFrom p a ++ decode b := by
  induction a generalizing p with
  | nil =>
    obtain rfl : p = none := h
    rfl
  | cons x xs ih =>
    have hxs := ih (p := (feed p x).2) h
    cases p <;> simp [decodeFrom, hxs]

/-- A cut between two characters does not show in the text. -/
theorem decode_append {a : Bytes} (b : Bytes) (h : after none a = none) :
    decode (a ++ b) = decode a ++ decode b := decodeFrom_append b h

/-- Neither do any number of them. -/
theorem decode_flatten {chunks : List Bytes} (h : ∀ chunk ∈ chunks, after none chunk = none) :
    decode chunks.flatten = (chunks.map decode).flatten := by
  induction chunks with
  | nil => rfl
  | cons chunk chunks ih =>
    rw [List.flatten_cons, decode_append _ (h chunk List.mem_cons_self),
      ih fun c hc => h c (List.mem_cons_of_mem _ hc), List.map_cons, List.flatten_cons]

/-- What is pending will be a character from U+0040 on. -/
def Pending.Proper (p : Pending) : Prop :=
  0x80 ≤ p.lower ∧ (1 ≤ p.value ∨ 2 ≤ p.needed ∧ 0x81 ≤ p.lower)

section Ascii

variable {b : UInt8} (hb : 0 < b) (hb' : b < 64)

include hb hb'

/-- The character of a byte below U+0040, the first aside, is that of no other number. -/
theorem ofNat_eq_iff (n : ℕ) : Char.ofNat n = Char.ofNat b.toNat ↔ n = b.toNat := by
  refine ⟨fun h => ?_, fun h => h ▸ rfl⟩
  have hnat := congrArg Char.toNat h
  have hpos : 0 < b.toNat := UInt8.lt_iff_toNat_lt.mp hb
  have hlt : b.toNat < 64 := UInt8.lt_iff_toNat_lt.mp hb'
  have hvalid : b.toNat.isValidChar := .inl (by omega)
  rw [Char.toNat_ofNat, Char.toNat_ofNat, if_pos hvalid] at hnat
  split at hnat <;> omega

theorem count_ofNat (n : ℕ) :
    [Char.ofNat n].count (Char.ofNat b.toNat) = if n = b.toNat then 1 else 0 := by
  rw [List.count_singleton]
  simp only [beq_iff_eq, ofNat_eq_iff hb hb']

theorem start_spec (x : UInt8) :
    (start x).1.count (Char.ofNat b.toNat) = [x].count b ∧ ∀ p ∈ (start x).2, p.Proper := by
  have hlt : b.toNat < 64 := UInt8.lt_iff_toNat_lt.mp hb'
  have hreplacement : [replacement].count (Char.ofNat b.toNat) = 0 := by
    rw [replacement, count_ofNat hb hb', if_neg (by omega)]
  have hx : [x].count b = if x.toNat = b.toNat then 1 else 0 := by
    rw [List.count_singleton]
    simp only [beq_iff_eq, UInt8.toNat_inj]
  simp only [start, UInt8.lt_iff_toNat_lt, hx] at *
  split
  · exact ⟨count_ofNat hb hb' _, by simp⟩
  · have hother : (if x.toNat = b.toNat then 1 else 0) = 0 := if_neg (by simp at *; omega)
    rw [hother]
    split
    · exact ⟨hreplacement, by simp⟩
    · split
      · refine ⟨rfl, fun p hp => ?_⟩
        obtain rfl := Option.some.inj hp
        exact ⟨UInt8.le_refl 0x80, .inl (by simp at *; omega)⟩
      · split
        · refine ⟨rfl, fun p hp => ?_⟩
          obtain rfl := Option.some.inj hp
          by_cases h : x = 0xE0
          · subst h
            exact ⟨by decide, .inr (by decide)⟩
          · have hne : x.toNat ≠ 0xE0 := fun heq => h (UInt8.toNat_inj.mp heq)
            simp only [if_neg h]
            exact ⟨UInt8.le_refl 0x80, .inl (by simp at *; omega)⟩
        · split
          · refine ⟨rfl, fun p hp => ?_⟩
            obtain rfl := Option.some.inj hp
            by_cases h : x = 0xF0
            · subst h
              exact ⟨by decide, .inr (by decide)⟩
            · have hne : x.toNat ≠ 0xF0 := fun heq => h (UInt8.toNat_inj.mp heq)
              simp only [if_neg h]
              exact ⟨UInt8.le_refl 0x80, .inl (by simp at *; omega)⟩
          · exact ⟨hreplacement, by simp⟩

theorem feed_spec {p : Option Pending} (hp : ∀ q ∈ p, q.Proper) (x : UInt8) :
    (feed p x).1.count (Char.ofNat b.toNat) = [x].count b ∧ ∀ q ∈ (feed p x).2, q.Proper := by
  have hstart := start_spec hb hb' x
  match p, hp with
  | none, _ => exact hstart
  | some p, hp =>
    obtain ⟨hlower, hvalue⟩ := hp p rfl
    have hlt : b.toNat < 64 := UInt8.lt_iff_toNat_lt.mp hb'
    have hfeed : feed (some p) x = if p.lower ≤ x ∧ x ≤ p.upper then
        if p.needed ≤ 1 then ([Char.ofNat (p.value * 64 + (x.toNat - 0x80))], none)
        else ([], some ⟨p.needed - 1, p.value * 64 + (x.toNat - 0x80), 0x80, 0xBF⟩)
      else (replacement :: (start x).1, (start x).2) := rfl
    rw [hfeed]
    split
    · next h =>
      have hrange := UInt8.le_iff_toNat_le.mp h.1
      have hx : [x].count b = 0 := by
        rw [List.count_singleton, if_neg]
        rw [beq_iff_eq]
        rintro rfl
        simp [UInt8.le_iff_toNat_le] at *
        omega
      have hnext : 64 ≤ p.value * 64 + (x.toNat - 0x80) ∨
          1 ≤ p.value * 64 + (x.toNat - 0x80) ∧ 2 ≤ p.needed := by
        simp [UInt8.le_iff_toNat_le] at *
        omega
      rw [hx]
      split
      · exact ⟨by rw [count_ofNat hb hb', if_neg (by omega)], by simp⟩
      · refine ⟨rfl, fun q hq => ?_⟩
        obtain rfl := Option.some.inj hq
        exact ⟨UInt8.le_refl 0x80, .inl (by dsimp only; omega)⟩
    · refine ⟨?_, hstart.2⟩
      have hreplacement : replacement ≠ Char.ofNat b.toNat := by
        rw [replacement, Ne, ofNat_eq_iff hb hb']
        omega
      rw [List.count_cons_of_ne hreplacement, hstart.1]

theorem count_decodeFrom {p : Option Pending} (hp : ∀ q ∈ p, q.Proper) (bs : Bytes) :
    (decodeFrom p bs).count (Char.ofNat b.toNat) = bs.count b := by
  induction bs generalizing p with
  | nil =>
    cases p with
    | none => rfl
    | some p =>
      have hlt : b.toNat < 64 := UInt8.lt_iff_toNat_lt.mp hb'
      rw [decodeFrom, replacement, count_ofNat hb hb', if_neg (by omega)]
      rfl
  | cons x bs ih =>
    obtain ⟨hcount, hnext⟩ := feed_spec hb hb' hp x
    have hcons : decodeFrom p (x :: bs) = (feed p x).1 ++ decodeFrom (feed p x).2 bs := by
      cases p <;> rfl
    rw [hcons, List.count_append, hcount, ih hnext, ← List.count_append]
    rfl

/-- A character below U+0040, the first aside, stands in the text as often as its byte in the
bytes. -/
theorem count_decode (bs : Bytes) : (decode bs).count (Char.ofNat b.toNat) = bs.count b :=
  count_decodeFrom hb hb' (by simp) bs

end Ascii

end Hill90.Utf8
