import Mathlib.Data.Rat.Floor
import Mathlib.Tactic.Linarith
import Mathlib.Tactic.NormNum
import Mathlib.Tactic.Ring

/-! # The limits a container starts under

What the create, import and update routes store as `cpus`, `mem_limit` and `pids_limit`,
and what `createAndStartContainer` makes of a stored row.  A decimal string is read as the
exact rational it writes.
-/

namespace Hill90.Agents.Limits

def maxAgentCpus : ℕ := 4
def maxAgentMemBytes : ℕ := 16761118720
def maxAgentPidsLimit : ℕ := 300

inductive Value where
  | undefined
  | null
  | boolean (b : Bool)
  | number (q : ℚ)
  | string (s : String)
  | composite
  deriving DecidableEq

def Value.truthy : Value → Bool
  | undefined | null => false
  | boolean b => b
  | number q => q ≠ 0
  | string s => s ≠ ""
  | composite => true

def isSpace (c : Char) : Bool :=
  c.toNat ∈ [0x9, 0xa, 0xb, 0xc, 0xd, 0x20, 0xa0, 0x1680, 0x2028, 0x2029, 0x202f, 0x205f, 0x3000,
    0xfeff] || (0x2000 ≤ c.toNat && c.toNat ≤ 0x200a)

def digitsValue (cs : List Char) : ℕ := cs.foldl (fun n c => 10 * n + (c.toNat - 48)) 0

structure Decimal where
  whole : List Char
  fraction : List Char
  deriving DecidableEq

/-- The decimal, as a fraction over the power of ten its places name. -/
def Decimal.parseFloat (d : Decimal) : ℚ :=
  digitsValue (d.whole ++ d.fraction) / 10 ^ d.fraction.length

/-- `\d+(?:\.\d+)?` at the start of the text, and what stands after it. -/
def matchDecimal (cs : List Char) : Option (Decimal × List Char) :=
  match cs.takeWhile Char.isDigit, cs.dropWhile Char.isDigit with
  | [], _ => none
  | whole, '.' :: rest =>
    match rest.takeWhile Char.isDigit with
    | [] => some (⟨whole, []⟩, '.' :: rest)
    | fraction => some (⟨whole, fraction⟩, rest.dropWhile Char.isDigit)
  | whole, rest => some (⟨whole, []⟩, rest)

/-- `/^(\d+(?:\.\d+)?)$/` -/
def matchCpus (s : String) : Option Decimal :=
  match matchDecimal s.toList with
  | some (d, []) => some d
  | _ => none

inductive MemUnit where
  | bytes
  | k
  | m
  | g
  deriving DecidableEq

def MemUnit.multiplier : MemUnit → ℕ
  | bytes => 1
  | k => 1024
  | m => 1024 * 1024
  | g => 1024 * 1024 * 1024

def matchUnit : List Char → MemUnit × List Char
  | [] => (.bytes, [])
  | c :: rest =>
    if c.toLower = 'k' then (.k, rest)
    else if c.toLower = 'm' then (.m, rest)
    else if c.toLower = 'g' then (.g, rest)
    else (.bytes, c :: rest)

def matchEnd : List Char → Bool
  | [] => true
  | [c] => c.toLower = 'b'
  | _ => false

/-- `\s*([kmg]?)b?$`, without regard to case -/
def matchSuffix (cs : List Char) : Option MemUnit :=
  match matchUnit (cs.dropWhile isSpace) with
  | (u, rest) => if matchEnd rest then some u else none

/-- `/^(\d+(?:\.\d+)?)\s*([kmg]?)b?$/i` -/
def matchMem (cs : List Char) : Option (Decimal × MemUnit) :=
  match matchDecimal cs with
  | none => none
  | some (d, rest) => (matchSuffix rest).map fun u => (d, u)

def memBytes (d : Decimal) (u : MemUnit) : ℚ := d.parseFloat * u.multiplier

def cpusValidationError : Value → Option String
  | .string s =>
    match matchCpus s with
    | none => some "cpus must be a positive number (e.g. \"1.0\")"
    | some d =>
      if d.parseFloat ≤ 0 then some "cpus must be a positive number (e.g. \"1.0\")"
      else if d.parseFloat > maxAgentCpus then
        some s!"cpus must not exceed {maxAgentCpus} (the VPS has {maxAgentCpus} CPUs — Docker itself refuses more at container-start)"
      else none
  | _ => some "cpus must be a string"

def memLimitValidationError : Value → Option String
  | .string s =>
    match matchMem s.toList with
    | none => some "mem_limit must be a number with an optional k/m/g unit (e.g. \"1g\")"
    | some (d, u) =>
      if memBytes d u ≤ 0 then some "mem_limit must be a positive amount of memory"
      else if memBytes d u > maxAgentMemBytes then
        some s!"mem_limit must not exceed {maxAgentMemBytes} bytes (the VPS's total RAM — Docker accepts a larger value and enforces nothing)"
      else none
  | _ => some "mem_limit must be a string"

def pidsLimitValidationError : Value → Option String
  | .number q =>
    if q.isInt = false then some "pids_limit must be an integer"
    else if q ≤ 0 then
      some "pids_limit must be a positive integer (negative values, including -1, mean \"unlimited\" to Docker)"
    else if q > maxAgentPidsLimit then
      some s!"pids_limit must not exceed {maxAgentPidsLimit} (the highest default_pids_limit among current container_profiles rows)"
    else none
  | _ => some "pids_limit must be an integer"

structure Fields where
  cpus : Value := .undefined
  memLimit : Value := .undefined
  pidsLimit : Value := .undefined

structure Row where
  cpus : String
  memLimit : String
  pidsLimit : ℤ
  deriving DecidableEq

inductive Refusal where
  | invalid (error : String)
  | query
  deriving DecidableEq

/-- A check that a falsy value skips. -/
def checked (validationError : Value → Option String) (v : Value) : Except Refusal Unit :=
  if v.truthy then
    match validationError v with
    | some error => .error (.invalid error)
    | none => .ok ()
  else .ok ()

def validateLimits (b : Fields) : Except Refusal Unit := do
  checked cpusValidationError b.cpus
  checked memLimitValidationError b.memLimit
  checked pidsLimitValidationError b.pidsLimit

/-- Storing text in a `VARCHAR(10)` column: only blanks may be cut off. -/
def varchar (s : String) : Option String :=
  if s.toList.length ≤ 10 then some s
  else if (s.toList.drop 10).all (· = ' ') then some (String.ofList (s.toList.take 10))
  else none

def Value.toVarchar : Value → Except Refusal String
  | .string s => ((varchar s).map Except.ok).getD (.error .query)
  | _ => .error .query

def Value.toInteger : Value → Except Refusal ℤ
  | .number q => if q.isInt then .ok q.num else .error .query
  | _ => .error .query

def Value.orElse (v w : Value) : Value := if v.truthy then v else w

def insertLimits (b : Fields) : Except Refusal Row := do
  validateLimits b
  let cpus ← (b.cpus.orElse (.string "1.0")).toVarchar
  let memLimit ← (b.memLimit.orElse (.string "1g")).toVarchar
  let pidsLimit ← (b.pidsLimit.orElse (.number 200)).toInteger
  return ⟨cpus, memLimit, pidsLimit⟩

/-- `POST /agents` -/
def createAgent (b : Fields) : Except Refusal Row := insertLimits b

/-- `POST /agents/import` -/
def importAgent (b : Fields) : Except Refusal Row := insertLimits b

/-- `COALESCE(v || null, current)` -/
def coalesceText (current : String) (v : Value) : Except Refusal String :=
  if v.truthy then v.toVarchar else .ok current

/-- `COALESCE(v ?? null, current)` -/
def coalesceInteger (current : ℤ) : Value → Except Refusal ℤ
  | .undefined | .null => .ok current
  | v => v.toInteger

/-- `PUT /agents/:id`.  A falsy `cpus` or `mem_limit` leaves the column as it is, but only a
nullish `pids_limit` does. -/
def updateAgent (row : Row) (b : Fields) : Except Refusal Row := do
  validateLimits b
  let cpus ← coalesceText row.cpus b.cpus
  let memLimit ← coalesceText row.memLimit b.memLimit
  let pidsLimit ← coalesceInteger row.pidsLimit b.pidsLimit
  return ⟨cpus, memLimit, pidsLimit⟩

inductive Stored : Row → Prop where
  | created {b : Fields} {row : Row} (h : createAgent b = .ok row) : Stored row
  | imported {b : Fields} {row : Row} (h : importAgent b = .ok row) : Stored row
  | updated {row row' : Row} {b : Fields} (before : Stored row) (h : updateAgent row b = .ok row') :
    Stored row'

def parseCpus (cpus : String) : Except String ℚ :=
  match matchCpus cpus with
  | none => .error s!"Invalid cpus: {cpus}"
  | some d =>
    if d.parseFloat ≤ 0 then .error s!"Invalid cpus: {cpus}"
    else if d.parseFloat > maxAgentCpus then
      .error s!"Invalid cpus: {cpus} (exceeds VPS capacity of {maxAgentCpus})"
    else .ok d.parseFloat

def parseMemLimit (limit : String) : Except String ℚ :=
  match matchMem limit.toList with
  | none => .error s!"Invalid mem_limit: {limit}"
  | some (d, u) =>
    if memBytes d u > maxAgentMemBytes then
      .error s!"Invalid mem_limit: {limit} (exceeds VPS total RAM of {maxAgentMemBytes} bytes)"
    else .ok (memBytes d u)

/-- `Math.round` -/
def mathRound (q : ℚ) : ℤ := ⌊q + 1 / 2⌋

structure HostConfig where
  nanoCpus : ℚ
  memory : ℚ
  pidsLimit : ℚ

/-- The limits `createAndStartContainer` sends with a row, or the error it raises first. -/
def createAndStartContainer (row : Row) : Except String HostConfig := do
  let cpus ← parseCpus row.cpus
  let memoryBytes ← parseMemLimit row.memLimit
  if row.pidsLimit ≤ 0 ∨ row.pidsLimit > maxAgentPidsLimit then
    throw s!"Invalid pidsLimit: {row.pidsLimit} (must be a positive integer, max {maxAgentPidsLimit})"
  return ⟨mathRound (cpus * 10 ^ 9), memoryBytes, row.pidsLimit⟩

/-- A positive integer not above the bound. -/
def Binding (q : ℚ) (bound : ℕ) : Prop := ∃ n : ℕ, q = n ∧ 0 < n ∧ n ≤ bound

def Bounded (row : Row) : Prop :=
  ∃ host, createAndStartContainer row = .ok host ∧
    Binding host.nanoCpus (maxAgentCpus * 10 ^ 9) ∧ Binding host.memory maxAgentMemBytes ∧
      Binding host.pidsLimit maxAgentPidsLimit

def WholeBytes (memLimit : String) : Prop :=
  ∃ d u, matchMem memLimit.toList = some (d, u) ∧ (memBytes d u).isInt = true

theorem bind_eq_ok {ε α β : Type} {x : Except ε α} {f : α → Except ε β} {b : β} :
    x >>= f = .ok b ↔ ∃ a, x = .ok a ∧ f a = .ok b := by
  cases x with
  | error e =>
    constructor
    · intro h
      cases h
    · rintro ⟨a, h, _⟩
      cases h
  | ok a =>
    constructor
    · exact fun h => ⟨a, rfl, h⟩
    · rintro ⟨a', h, hf⟩
      cases h
      exact hf

theorem takeWhile_snoc {p : Char → Bool} {a : Char} (ha : p a = false) (l : List Char) :
    (l ++ [a]).takeWhile p = l.takeWhile p := by
  induction l with
  | nil => simp [ha]
  | cons b l ih =>
    rw [List.cons_append, List.takeWhile_cons, List.takeWhile_cons]
    split
    · rw [ih]
    · rfl

theorem dropWhile_snoc {p : Char → Bool} {a : Char} (ha : p a = false) (l : List Char) :
    (l ++ [a]).dropWhile p = l.dropWhile p ++ [a] := by
  induction l with
  | nil => simp [ha]
  | cons b l ih =>
    rw [List.cons_append, List.dropWhile_cons, List.dropWhile_cons]
    split
    · exact ih
    · rfl

theorem matchDecimal_snoc (cs : List Char) :
    matchDecimal (cs ++ [' ']) =
      (matchDecimal cs).map fun found => (found.1, found.2 ++ [' ']) := by
  have hblank : Char.isDigit ' ' = false := by decide
  simp only [matchDecimal, takeWhile_snoc hblank, dropWhile_snoc hblank]
  cases htake : cs.takeWhile Char.isDigit with
  | nil => rfl
  | cons c whole =>
    cases hdrop : cs.dropWhile Char.isDigit with
    | nil => simp
    | cons a rest =>
      by_cases ha : a = '.'
      · subst ha
        simp only [List.cons_append, takeWhile_snoc hblank, dropWhile_snoc hblank]
        cases rest.takeWhile Char.isDigit with
        | nil => rfl
        | cons _ _ => rfl
      · simp [ha]

theorem matchUnit_snoc {cs : List Char} (hcs : cs ≠ []) :
    matchUnit (cs ++ [' ']) = ((matchUnit cs).1, (matchUnit cs).2 ++ [' ']) := by
  cases cs with
  | nil => exact absurd rfl hcs
  | cons c rest =>
    simp only [List.cons_append, matchUnit]
    split
    · rfl
    · split
      · rfl
      · split
        · rfl
        · rfl

theorem matchEnd_snoc (cs : List Char) : matchEnd (cs ++ [' ']) = false := by
  match cs with
  | [] => decide
  | [_] => rfl
  | _ :: _ :: _ => rfl

/-- Only blanks right after the number may end an accepted text, and they change nothing. -/
theorem matchSuffix_snoc {cs : List Char} {u : MemUnit} (h : matchSuffix (cs ++ [' ']) = some u) :
    matchSuffix cs = some u := by
  have hdrop : (cs ++ [' ']).dropWhile isSpace =
      if cs.dropWhile isSpace = [] then [] else cs.dropWhile isSpace ++ [' '] := by
    rw [List.dropWhile_append]
    simp [show isSpace ' ' = true by decide]
  simp only [matchSuffix, hdrop] at h ⊢
  by_cases hcs : cs.dropWhile isSpace = []
  · simpa [hcs] using h
  · simp only [if_neg hcs, matchUnit_snoc hcs, matchEnd_snoc] at h
    cases h

theorem matchMem_snoc {cs : List Char} {d : Decimal} {u : MemUnit}
    (h : matchMem (cs ++ [' ']) = some (d, u)) : matchMem cs = some (d, u) := by
  simp only [matchMem, matchDecimal_snoc] at h ⊢
  cases hdecimal : matchDecimal cs with
  | none => simp [hdecimal] at h
  | some found =>
    obtain ⟨d', rest⟩ := found
    simp only [hdecimal, Option.map_some, Option.map_eq_some_iff, Prod.mk.injEq] at h ⊢
    obtain ⟨v, hsuffix, hd, hv⟩ := h
    exact ⟨v, matchSuffix_snoc hsuffix, hd, hv⟩

theorem matchMem_blanks {cs : List Char} {d : Decimal} {u : MemUnit} (n : ℕ)
    (h : matchMem (cs ++ List.replicate n ' ') = some (d, u)) : matchMem cs = some (d, u) := by
  induction n with
  | zero => simpa using h
  | succ n ih =>
    rw [List.replicate_succ', ← List.append_assoc] at h
    exact ih (matchMem_snoc h)

/-- What a `VARCHAR(10)` column keeps of a text: all of it, or all but blanks at its end. -/
theorem blanks_of_varchar {s kept : String} (h : varchar s = some kept) :
    ∃ n, s.toList = kept.toList ++ List.replicate n ' ' := by
  unfold varchar at h
  split at h
  · cases h
    exact ⟨0, by simp⟩
  · split at h
    · rename_i hblank
      cases h
      refine ⟨(s.toList.drop 10).length, ?_⟩
      have hrest : s.toList.drop 10 = List.replicate (s.toList.drop 10).length ' ' :=
        List.eq_replicate_of_mem fun c hc => by simpa using List.all_eq_true.mp hblank c hc
      rw [String.toList_ofList, ← hrest, List.take_append_drop]
    · cases h

theorem length_of_varchar {s kept : String} (h : varchar s = some kept) :
    kept.toList.length ≤ 10 := by
  unfold varchar at h
  split at h
  · cases h
    assumption
  · split at h
    · cases h
      simp
    · cases h

theorem matchCpus_iff {s : String} {d : Decimal} :
    matchCpus s = some d ↔ matchDecimal s.toList = some (d, []) := by
  unfold matchCpus
  split
  · rename_i d' hdecimal
    simp [hdecimal]
  · rename_i hnone
    simp only [reduceCtorEq, false_iff]
    exact hnone d

theorem varchar_of_cpus {s kept : String} {d : Decimal} (hmatch : matchCpus s = some d)
    (h : varchar s = some kept) : matchCpus kept = some d := by
  obtain ⟨n, hs⟩ := blanks_of_varchar h
  rw [matchCpus_iff, hs] at hmatch
  rw [matchCpus_iff]
  cases n with
  | zero => simpa using hmatch
  | succ n =>
    rw [List.replicate_succ', ← List.append_assoc, matchDecimal_snoc] at hmatch
    obtain ⟨found, _, hfound⟩ := Option.map_eq_some_iff.mp hmatch
    simp at hfound

theorem length_of_matchDecimal {cs rest : List Char} {d : Decimal}
    (h : matchDecimal cs = some (d, rest)) :
    0 < d.whole.length ∧ (d.fraction = [] ∨ d.whole.length + d.fraction.length + 1 ≤ cs.length) := by
  have hlength : cs.length = (cs.takeWhile Char.isDigit).length + (cs.dropWhile Char.isDigit).length := by
    rw [← List.length_append, List.takeWhile_append_dropWhile]
  unfold matchDecimal at h
  cases htake : cs.takeWhile Char.isDigit with
  | nil => simp [htake] at h
  | cons c whole =>
    cases hdrop : cs.dropWhile Char.isDigit with
    | nil =>
      simp only [htake, hdrop, Option.some.injEq, Prod.mk.injEq] at h
      rw [← h.1]
      exact ⟨Nat.succ_pos _, .inl rfl⟩
    | cons a tail =>
      rw [htake, hdrop] at hlength
      by_cases ha : a = '.'
      · subst ha
        have hle := List.IsPrefix.length_le (List.takeWhile_prefix (l := tail) Char.isDigit)
        cases hfraction : tail.takeWhile Char.isDigit with
        | nil =>
          simp only [htake, hdrop, hfraction, Option.some.injEq, Prod.mk.injEq] at h
          rw [← h.1]
          exact ⟨Nat.succ_pos _, .inl rfl⟩
        | cons b fraction =>
          simp only [htake, hdrop, hfraction, Option.some.injEq, Prod.mk.injEq] at h
          rw [hfraction] at hle
          rw [← h.1]
          refine ⟨Nat.succ_pos _, .inr ?_⟩
          simp only [List.length_cons] at hlength hle ⊢
          omega
      · simp only [htake, hdrop] at h
        split at h
        · cases h
        · rename_i heq _
          cases heq
          exact absurd rfl ha
        · cases h
          exact ⟨Nat.succ_pos _, .inl rfl⟩

theorem billionths {d : Decimal} (h : d.fraction.length ≤ 9) :
    ∃ n : ℕ, d.parseFloat * 10 ^ 9 = n := by
  refine ⟨digitsValue (d.whole ++ d.fraction) * 10 ^ (9 - d.fraction.length), ?_⟩
  have hsplit : (10 : ℚ) ^ 9 = 10 ^ (9 - d.fraction.length) * 10 ^ d.fraction.length := by
    rw [← pow_add, Nat.sub_add_cancel h]
  have hne : (10 : ℚ) ^ d.fraction.length ≠ 0 := by positivity
  rw [Decimal.parseFloat, hsplit]
  push_cast
  field_simp

theorem mathRound_natCast (n : ℕ) : mathRound n = n := by
  have : (1 : ℚ) / 2 = 0.5 := by norm_num
  rw [mathRound, Int.floor_eq_iff]
  constructor
  · push_cast
    linarith
  · push_cast
    linarith

/-- A text that stays below ten characters has at most eight decimal places. -/
theorem fraction_of_cpus {s : String} {d : Decimal} (hmatch : matchCpus s = some d)
    (hlength : s.toList.length ≤ 10) : d.fraction.length ≤ 9 := by
  obtain ⟨_, hfraction | hfraction⟩ := length_of_matchDecimal (matchCpus_iff.mp hmatch)
  · simp [hfraction]
  · omega

/-- What is true of every stored row: its texts are ones the checks accept, and only its
`pids_limit` may be zero. -/
structure Row.Valid (row : Row) : Prop where
  cpus : ∃ d, matchCpus row.cpus = some d ∧ row.cpus.toList.length ≤ 10 ∧ 0 < d.parseFloat ∧
    d.parseFloat ≤ maxAgentCpus
  memLimit : ∃ d u, matchMem row.memLimit.toList = some (d, u) ∧ 0 < memBytes d u ∧
    memBytes d u ≤ maxAgentMemBytes
  pidsLimit : 0 ≤ row.pidsLimit ∧ row.pidsLimit ≤ maxAgentPidsLimit

theorem accepted_of_checked {validationError : Value → Option String} {v : Value}
    (h : checked validationError v = .ok ()) (htruthy : v.truthy = true) :
    validationError v = none := by
  unfold checked at h
  rw [if_pos htruthy] at h
  split at h
  · cases h
  · assumption

theorem toVarchar_eq_ok {v : Value} {kept : String} (h : v.toVarchar = .ok kept) :
    ∃ s, v = .string s ∧ varchar s = some kept := by
  unfold Value.toVarchar at h
  split at h
  · rename_i s
    cases hkept : varchar s with
    | none => simp [hkept] at h
    | some kept' =>
      simp only [hkept, Option.map_some, Option.getD_some, Except.ok.injEq] at h
      exact ⟨s, rfl, by rw [h] at hkept; exact hkept⟩
  · cases h

theorem cpus_stored {s kept : String} (haccepted : cpusValidationError (.string s) = none)
    (hkept : varchar s = some kept) :
    ∃ d, matchCpus kept = some d ∧ kept.toList.length ≤ 10 ∧ 0 < d.parseFloat ∧
      d.parseFloat ≤ maxAgentCpus := by
  simp only [cpusValidationError] at haccepted
  split at haccepted
  · cases haccepted
  · rename_i d hmatch
    split at haccepted
    · cases haccepted
    · rename_i hpos
      split at haccepted
      · cases haccepted
      · rename_i hle
        exact ⟨d, varchar_of_cpus hmatch hkept, length_of_varchar hkept, not_le.mp hpos, not_lt.mp hle⟩

theorem memLimit_stored {s kept : String} (haccepted : memLimitValidationError (.string s) = none)
    (hkept : varchar s = some kept) :
    ∃ d u, matchMem kept.toList = some (d, u) ∧ 0 < memBytes d u ∧
      memBytes d u ≤ maxAgentMemBytes := by
  simp only [memLimitValidationError] at haccepted
  split at haccepted
  · cases haccepted
  · rename_i d u hmatch
    split at haccepted
    · cases haccepted
    · rename_i hpos
      split at haccepted
      · cases haccepted
      · rename_i hle
        obtain ⟨n, hs⟩ := blanks_of_varchar hkept
        rw [hs] at hmatch
        exact ⟨d, u, matchMem_blanks n hmatch, not_le.mp hpos, not_lt.mp hle⟩

theorem pidsLimit_stored {q : ℚ} {n : ℤ} (haccepted : pidsLimitValidationError (.number q) = none)
    (hkept : (Value.number q).toInteger = .ok n) : 0 < n ∧ n ≤ maxAgentPidsLimit := by
  simp only [Value.toInteger] at hkept
  split at hkept
  · rename_i hint
    cases hkept
    have hq : q = (q.num : ℚ) := Rat.eq_num_of_isInt hint
    simp only [pidsLimitValidationError, hint, Bool.true_eq_false, if_false] at haccepted
    split at haccepted
    · cases haccepted
    · rename_i hpos
      split at haccepted
      · cases haccepted
      · rename_i hle
        rw [hq] at hpos hle
        constructor
        · exact_mod_cast not_le.mp hpos
        · exact_mod_cast not_lt.mp hle
  · cases hkept

theorem validated {b : Fields} (h : validateLimits b = .ok ()) :
    checked cpusValidationError b.cpus = .ok () ∧
      checked memLimitValidationError b.memLimit = .ok () ∧
        checked pidsLimitValidationError b.pidsLimit = .ok () := by
  obtain ⟨⟨⟩, hcpus, h⟩ := bind_eq_ok.mp h
  obtain ⟨⟨⟩, hmem, hpids⟩ := bind_eq_ok.mp h
  exact ⟨hcpus, hmem, hpids⟩

theorem cpus_of_toVarchar {v : Value} {kept : String}
    (hchecked : checked cpusValidationError v = .ok ()) (htruthy : v.truthy = true)
    (hkept : v.toVarchar = .ok kept) :
    ∃ d, matchCpus kept = some d ∧ kept.toList.length ≤ 10 ∧ 0 < d.parseFloat ∧
      d.parseFloat ≤ maxAgentCpus := by
  obtain ⟨s, rfl, hs⟩ := toVarchar_eq_ok hkept
  exact cpus_stored (accepted_of_checked hchecked htruthy) hs

theorem memLimit_of_toVarchar {v : Value} {kept : String}
    (hchecked : checked memLimitValidationError v = .ok ()) (htruthy : v.truthy = true)
    (hkept : v.toVarchar = .ok kept) :
    ∃ d u, matchMem kept.toList = some (d, u) ∧ 0 < memBytes d u ∧
      memBytes d u ≤ maxAgentMemBytes := by
  obtain ⟨s, rfl, hs⟩ := toVarchar_eq_ok hkept
  exact memLimit_stored (accepted_of_checked hchecked htruthy) hs

theorem pidsLimit_of_toInteger {v : Value} {n : ℤ}
    (hchecked : checked pidsLimitValidationError v = .ok ()) (hkept : v.toInteger = .ok n) :
    0 ≤ n ∧ n ≤ maxAgentPidsLimit := by
  cases v with
  | number q =>
    by_cases htruthy : (Value.number q).truthy = true
    · obtain ⟨hpos, hle⟩ := pidsLimit_stored (accepted_of_checked hchecked htruthy) hkept
      exact ⟨hpos.le, hle⟩
    · have hq : q = 0 := by simpa [Value.truthy] using htruthy
      subst hq
      cases hkept
      exact ⟨le_rfl, by decide⟩
  | _ => cases hkept

theorem default_cpus : ∃ d, matchCpus "1.0" = some d ∧ "1.0".toList.length ≤ 10 ∧
    0 < d.parseFloat ∧ d.parseFloat ≤ maxAgentCpus :=
  ⟨⟨['1'], ['0']⟩, by decide, by decide, by decide +kernel, by decide +kernel⟩

theorem default_memLimit : ∃ d u, matchMem "1g".toList = some (d, u) ∧ 0 < memBytes d u ∧
    memBytes d u ≤ maxAgentMemBytes :=
  ⟨⟨['1'], []⟩, .g, by decide, by decide +kernel, by decide +kernel⟩

theorem valid_of_insert {b : Fields} {row : Row} (h : insertLimits b = .ok row) : row.Valid := by
  obtain ⟨⟨⟩, hvalid, h⟩ := bind_eq_ok.mp h
  obtain ⟨cpus, hcpus, h⟩ := bind_eq_ok.mp h
  obtain ⟨memLimit, hmem, h⟩ := bind_eq_ok.mp h
  obtain ⟨pidsLimit, hpids, h⟩ := bind_eq_ok.mp h
  cases h
  obtain ⟨hvc, hvm, hvp⟩ := validated hvalid
  refine ⟨?_, ?_, ?_⟩
  · by_cases htruthy : b.cpus.truthy = true
    · rw [Value.orElse, if_pos htruthy] at hcpus
      exact cpus_of_toVarchar hvc htruthy hcpus
    · rw [Value.orElse, if_neg htruthy] at hcpus
      cases hcpus
      exact default_cpus
  · by_cases htruthy : b.memLimit.truthy = true
    · rw [Value.orElse, if_pos htruthy] at hmem
      exact memLimit_of_toVarchar hvm htruthy hmem
    · rw [Value.orElse, if_neg htruthy] at hmem
      cases hmem
      exact default_memLimit
  · by_cases htruthy : b.pidsLimit.truthy = true
    · rw [Value.orElse, if_pos htruthy] at hpids
      exact pidsLimit_of_toInteger hvp hpids
    · rw [Value.orElse, if_neg htruthy] at hpids
      cases hpids
      exact ⟨(by decide : (0 : ℤ) ≤ 200), (by decide : (200 : ℤ) ≤ maxAgentPidsLimit)⟩

theorem valid_of_update {row row' : Row} {b : Fields} (hrow : row.Valid)
    (h : updateAgent row b = .ok row') : row'.Valid := by
  obtain ⟨⟨⟩, hvalid, h⟩ := bind_eq_ok.mp h
  obtain ⟨cpus, hcpus, h⟩ := bind_eq_ok.mp h
  obtain ⟨memLimit, hmem, h⟩ := bind_eq_ok.mp h
  obtain ⟨pidsLimit, hpids, h⟩ := bind_eq_ok.mp h
  cases h
  obtain ⟨hvc, hvm, hvp⟩ := validated hvalid
  refine ⟨?_, ?_, ?_⟩
  · unfold coalesceText at hcpus
    split at hcpus
    · exact cpus_of_toVarchar hvc ‹_› hcpus
    · cases hcpus
      exact hrow.cpus
  · unfold coalesceText at hmem
    split at hmem
    · exact memLimit_of_toVarchar hvm ‹_› hmem
    · cases hmem
      exact hrow.memLimit
  · unfold coalesceInteger at hpids
    split at hpids
    · cases hpids
      exact hrow.pidsLimit
    · cases hpids
      exact hrow.pidsLimit
    · exact pidsLimit_of_toInteger hvp hpids

theorem valid_of_stored {row : Row} (h : Stored row) : row.Valid := by
  induction h with
  | created h => exact valid_of_insert h
  | imported h => exact valid_of_insert h
  | updated _ h ih => exact valid_of_update ih h

theorem binding_nanoCpus {d : Decimal} (hplaces : d.fraction.length ≤ 9) (hpos : 0 < d.parseFloat)
    (hle : d.parseFloat ≤ maxAgentCpus) :
    Binding (mathRound (d.parseFloat * 10 ^ 9)) (maxAgentCpus * 10 ^ 9) := by
  obtain ⟨n, hn⟩ := billionths hplaces
  refine ⟨n, by rw [hn, mathRound_natCast]; norm_cast, ?_, ?_⟩
  · have : (0 : ℚ) < n := by rw [← hn]; positivity
    exact_mod_cast this
  · have : (n : ℚ) ≤ maxAgentCpus * 10 ^ 9 := by
      rw [← hn]
      exact mul_le_mul_of_nonneg_right hle (by positivity)
    exact_mod_cast this

theorem binding_iff {q : ℚ} {bound : ℕ} (hpos : 0 < q) (hle : q ≤ bound) :
    Binding q bound ↔ q.isInt = true := by
  constructor
  · rintro ⟨n, rfl, _, _⟩
    rfl
  · intro hint
    have hq : q = (q.num : ℚ) := Rat.eq_num_of_isInt hint
    have hnum : 0 < q.num := Rat.num_pos.mpr hpos
    have hcast : q = (q.num.toNat : ℚ) := by
      rw [hq]
      exact_mod_cast (Int.toNat_of_nonneg hnum.le).symm
    refine ⟨q.num.toNat, hcast, by omega, ?_⟩
    rw [hcast] at hle
    exact_mod_cast hle

/-- A stored row starts a container under limits that bind exactly where its `mem_limit` names
whole bytes and no update has left its `pids_limit` at zero. -/
theorem bounded_iff {row : Row} (h : Stored row) :
    Bounded row ↔ WholeBytes row.memLimit ∧ row.pidsLimit ≠ 0 := by
  obtain ⟨⟨c, hc, hlength, hcpos, hcle⟩, ⟨d, u, hd, hdpos, hdle⟩, hnonneg, hple⟩ := valid_of_stored h
  have hparse : parseCpus row.cpus = .ok c.parseFloat := by
    simp [parseCpus, hc, not_le.mpr hcpos, not_lt.mpr hcle]
  have hmem : parseMemLimit row.memLimit = .ok (memBytes d u) := by
    simp [parseMemLimit, hd, not_lt.mpr hdle]
  have hwhole : WholeBytes row.memLimit ↔ (memBytes d u).isInt = true := by
    simp [WholeBytes, hd]
  have hnano := binding_nanoCpus (fraction_of_cpus hc hlength) hcpos hcle
  rw [hwhole, ← binding_iff hdpos hdle]
  by_cases hzero : row.pidsLimit = 0
  · have hstart : ∀ host, createAndStartContainer row ≠ .ok host := by
      intro host hhost
      simp only [createAndStartContainer, hparse, hmem, hzero] at hhost
      cases hhost
    constructor
    · rintro ⟨host, hhost, _⟩
      exact absurd hhost (hstart host)
    · exact fun hright => absurd hzero hright.2
  · have hstart : createAndStartContainer row =
        .ok ⟨mathRound (c.parseFloat * 10 ^ 9), memBytes d u, row.pidsLimit⟩ := by
      have hin : ¬(row.pidsLimit ≤ 0 ∨ row.pidsLimit > maxAgentPidsLimit) := by omega
      simp only [createAndStartContainer, hparse, hmem, if_neg hin]
      rfl
    have hpids : Binding row.pidsLimit maxAgentPidsLimit := by
      refine ⟨row.pidsLimit.toNat, ?_, by omega, by omega⟩
      exact_mod_cast (Int.toNat_of_nonneg hnonneg).symm
    constructor
    · rintro ⟨host, hhost, _, hbinding, _⟩
      rw [hstart] at hhost
      cases hhost
      exact ⟨hbinding, hzero⟩
    · rintro ⟨hbinding, _⟩
      exact ⟨_, hstart, hnano, hbinding, hpids⟩

theorem bounded_iff_given :
    Bounded ⟨"2.5", "1.5g", 64⟩ ↔ WholeBytes "1.5g" ∧ (64 : ℤ) ≠ 0 :=
  bounded_iff (.created (b := { cpus := .string "2.5", memLimit := .string "1.5g", pidsLimit := .number 64 })
    (by decide +kernel))

/-- An agent created with a byte and a half, and one updated to no processes. -/
theorem stored_unbounded :
    (Stored ⟨"1.0", "1.5", 200⟩ ∧ ¬Bounded ⟨"1.0", "1.5", 200⟩) ∧
      Stored ⟨"1.0", "1g", 0⟩ ∧ ¬Bounded ⟨"1.0", "1g", 0⟩ := by
  have hcreated : Stored ⟨"1.0", "1g", 200⟩ := .created (b := {}) (by decide +kernel)
  refine ⟨⟨.created (b := { memLimit := .string "1.5" }) (by decide +kernel), ?_⟩,
    .updated hcreated (b := { pidsLimit := .number 0 }) (by decide +kernel), ?_⟩
  · rintro ⟨host, hhost, _, ⟨n, hn, _⟩, _⟩
    have hmemory : host.memory = 3 / 2 := by
      have hall : (createAndStartContainer ⟨"1.0", "1.5", 200⟩).toOption.map HostConfig.memory =
          some (3 / 2) := by decide +kernel
      rw [hhost] at hall
      exact Option.some.inj hall
    rw [hmemory] at hn
    have hden := congrArg Rat.den hn
    rw [Rat.den_natCast] at hden
    exact absurd hden (by decide +kernel)
  · rintro ⟨host, hhost, _⟩
    have hnone : (createAndStartContainer ⟨"1.0", "1g", 0⟩).toOption.map HostConfig.memory = none := by
      decide +kernel
    rw [hhost] at hnone
    cases hnone

end Hill90.Agents.Limits
