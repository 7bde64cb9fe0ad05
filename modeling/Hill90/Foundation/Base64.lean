import Hill90.Foundation.Utf8

/-! # Base64

Three bytes as four digits, with padding at the end.
-/

namespace Hill90.Base64

open Utf8 (Bytes)

def digit (n : ℕ) : Char :=
  if n < 26 then Char.ofNat (n + 65)
  else if n < 52 then Char.ofNat (n + 71)
  else if n < 62 then Char.ofNat (n - 4)
  else if n = 62 then '+'
  else '/'

def value (c : Char) : Option ℕ :=
  if 'A' ≤ c ∧ c ≤ 'Z' then some (c.toNat - 65)
  else if 'a' ≤ c ∧ c ≤ 'z' then some (c.toNat - 71)
  else if '0' ≤ c ∧ c ≤ '9' then some (c.toNat + 4)
  else if c = '+' then some 62
  else if c = '/' then some 63
  else none

/-- The four numbers of three bytes. -/
def first (a : UInt8) : ℕ := a.toNat / 4

def second (a b : UInt8) : ℕ := a.toNat % 4 * 16 + b.toNat / 16

def third (b c : UInt8) : ℕ := b.toNat % 16 * 4 + c.toNat / 64

def fourth (c : UInt8) : ℕ := c.toNat % 64

def encode : Bytes → List Char
  | [] => []
  | [a] => [digit (first a), digit (second a 0), '=', '=']
  | [a, b] => [digit (first a), digit (second a b), digit (third b 0), '=']
  | a :: b :: c :: bs =>
    digit (first a) :: digit (second a b) :: digit (third b c) :: digit (fourth c) :: encode bs

/-- The bytes of four numbers. -/
def byte₁ (v w : ℕ) : UInt8 := UInt8.ofNat (v * 4 + w / 16)

def byte₂ (w x : ℕ) : UInt8 := UInt8.ofNat (w % 16 * 16 + x / 4)

def byte₃ (x y : ℕ) : UInt8 := UInt8.ofNat (x % 4 * 64 + y)

def decode : List Char → Option Bytes
  | [] => some []
  | c :: d :: e :: f :: rest =>
    if f = '=' then
      if rest ≠ [] then none
      else if e = '=' then do
        let v ← value c
        let w ← value d
        pure [byte₁ v w]
      else do
        let v ← value c
        let w ← value d
        let x ← value e
        pure [byte₁ v w, byte₂ w x]
    else do
      let v ← value c
      let w ← value d
      let x ← value e
      let y ← value f
      let bs ← decode rest
      pure (byte₁ v w :: byte₂ w x :: byte₃ x y :: bs)
  | _ => none

section Digits

theorem value_digit {n : ℕ} (h : n < 64) : value (digit n) = some n := by
  have hall : ∀ i : Fin 64, value (digit i) = some i.val := by decide +kernel
  exact hall ⟨n, h⟩

theorem digit_ne_padding {n : ℕ} (h : n < 64) : digit n ≠ '=' := by
  have hall : ∀ i : Fin 64, digit i ≠ '=' := by decide +kernel
  exact hall ⟨n, h⟩

variable (a b c : UInt8)

theorem first_lt : first a < 64 := by
  have ha := a.toNat_lt
  unfold first
  omega

theorem second_lt : second a b < 64 := by
  have hb := b.toNat_lt
  unfold second
  omega

theorem third_lt : third b c < 64 := by
  have hc := c.toNat_lt
  unfold third
  omega

theorem fourth_lt : fourth c < 64 := by
  unfold fourth
  omega

theorem byte₁_eq : byte₁ (first a) (second a b) = a := by
  have hb := b.toNat_lt
  have hnat : first a * 4 + second a b / 16 = a.toNat := by
    unfold first second
    omega
  rw [byte₁, hnat, UInt8.ofNat_toNat]

theorem byte₂_eq : byte₂ (second a b) (third b c) = b := by
  have hb := b.toNat_lt
  have hc := c.toNat_lt
  have hnat : second a b % 16 * 16 + third b c / 4 = b.toNat := by
    unfold second third
    omega
  rw [byte₂, hnat, UInt8.ofNat_toNat]

theorem byte₃_eq : byte₃ (third b c) (fourth c) = c := by
  have hc := c.toNat_lt
  have hnat : third b c % 4 * 64 + fourth c = c.toNat := by
    unfold third fourth
    omega
  rw [byte₃, hnat, UInt8.ofNat_toNat]

end Digits

/-- What is encoded is decoded. -/
theorem decode_encode : ∀ bs : Bytes, decode (encode bs) = some bs
  | [] => rfl
  | [a] => by
    rw [encode, decode, if_pos rfl, if_neg (by simp), if_pos rfl, value_digit (first_lt a),
      value_digit (second_lt a 0)]
    simp [byte₁_eq]
  | [a, b] => by
    rw [encode, decode, if_pos rfl, if_neg (by simp), if_neg (digit_ne_padding (third_lt b 0)),
      value_digit (first_lt a), value_digit (second_lt a b), value_digit (third_lt b 0)]
    simp [byte₁_eq, byte₂_eq]
  | a :: b :: c :: bs => by
    rw [encode, decode, if_neg (digit_ne_padding (fourth_lt c)), value_digit (first_lt a),
      value_digit (second_lt a b), value_digit (third_lt b c), value_digit (fourth_lt c),
      decode_encode bs]
    simp [byte₁_eq, byte₂_eq, byte₃_eq]

end Hill90.Base64
