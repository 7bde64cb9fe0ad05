import Hill90.Foundation.Utf8
import Mathlib.Data.Int.Notation

/-! # The lines of an event log

An agent writes its `events.jsonl` itself, so a line of it holds any JSON value.  What the routes
ask of such a value are its members, whether they are truthy, and their text.
-/

namespace Hill90.Events

open Utf8

inductive Json (ν : Type) where
  | null
  | bool (b : Bool)
  | number (n : ν)
  | text (s : String)
  | array (items : List (Json ν))
  | object (members : List (String × Json ν))

structure Collation where
  compare : String → String → Ordering
  transCmp : Std.TransCmp compare

/-- What the routes use of the language: `JSON.parse` (`none` where it throws), the numbers
(which are falsy, `String(n)`, `n.toFixed(4)`, `Number(text)`), `Date.prototype.toISOString` of a
time in milliseconds, and `localeCompare`. -/
structure Runtime (ν : Type) where
  parse : List Char → Option (Json ν)
  isZero : ν → Bool
  numberText : ν → String
  fixed : ν → String
  ofText : String → ν
  ofInt : ℤ → ν
  isoString : ℤ → String
  collation : Collation

inductive Thrown where
  | typeError
  deriving DecidableEq, Repr

namespace Json

variable {ν : Type}

def isNull : Json ν → Bool
  | .null => true
  | _ => false

/-- `value.name`: a value that is no object has none of the members the routes ask for. -/
def property : Json ν → String → Except Thrown (Option (Json ν))
  | .null, _ => .error .typeError
  | .object members, name => .ok (members.lookup name)
  | _, _ => .ok none

def property? : Option (Json ν) → String → Option (Json ν)
  | some (.object members), name => members.lookup name
  | _, _ => none

variable (js : Runtime ν)

def truthy : Option (Json ν) → Bool
  | none | some .null => false
  | some (.bool b) => b
  | some (.number n) => !js.isZero n
  | some (.text s) => s ≠ ""
  | some (.array _) | some (.object _) => true

def orElse (a b : Option (Json ν)) : Option (Json ν) := if truthy js a then a else b

mutual

/-- `String(value)`, `none` where it throws: an object whose own `toString` is no function has no
text. -/
def text? : Json ν → Option String
  | .null => some "null"
  | .bool b => some (if b then "true" else "false")
  | .number n => some (js.numberText n)
  | .text s => some s
  | .array items => (items? items).map fun texts => String.intercalate "," texts
  | .object members => if (members.lookup "toString").isSome then none else some "[object Object]"

def items? : List (Json ν) → Option (List String)
  | [] => some []
  | .null :: rest => (items? rest).map ("" :: ·)
  | value :: rest =>
    match text? value, items? rest with
    | some first, some others => some (first :: others)
    | _, _ => none

end

def localeCompare (receiver argument : Json ν) : Except Thrown Ordering :=
  match receiver, argument.text? js with
  | .text s, some t => .ok (js.collation.compare s t)
  | _, _ => .error .typeError

end Json

def isSpace (c : Char) : Bool :=
  c.toNat ∈ [0x9, 0xA, 0xB, 0xC, 0xD, 0x20, 0xA0, 0x1680, 0x2028, 0x2029, 0x202F, 0x205F, 0x3000,
    0xFEFF] || (0x2000 ≤ c.toNat && c.toNat ≤ 0x200A)

def trim (line : List Char) : List Char :=
  ((line.dropWhile isSpace).reverse.dropWhile isSpace).reverse

def split : List Char → List (List Char)
  | [] => [[]]
  | c :: cs =>
    if c = '\n' then [] :: split cs
    else match split cs with
      | [] => [[c]]
      | line :: lines => (c :: line) :: lines

theorem exists_split (text : List Char) : ∃ first others, split text = first :: others := by
  cases text with
  | nil => exact ⟨[], [], rfl⟩
  | cons c text =>
    unfold split
    split
    · exact ⟨_, _, rfl⟩
    · split <;> exact ⟨_, _, rfl⟩

theorem split_cons {c : Char} (text : List Char) (h : c ≠ '\n') :
    ∃ first others, split text = first :: others ∧ split (c :: text) = (c :: first) :: others := by
  obtain ⟨first, others, hsplit⟩ := exists_split text
  exact ⟨first, others, hsplit, by rw [split, if_neg h, hsplit]⟩

theorem sublist_of_mem_split {text line : List Char} (h : line ∈ split text) : line.Sublist text := by
  induction text generalizing line with
  | nil => rw [List.mem_singleton.mp h]
  | cons c text ih =>
    by_cases hc : c = '\n'
    · rw [split, if_pos hc] at h
      obtain rfl | h := List.mem_cons.mp h
      · exact List.nil_sublist _
      · exact (ih h).cons c
    · obtain ⟨first, others, hsplit, hcons⟩ := split_cons text hc
      rw [hcons] at h
      obtain rfl | h := List.mem_cons.mp h
      · exact (ih (hsplit ▸ List.mem_cons_self)).cons_cons c
      · exact (ih (hsplit ▸ List.mem_cons_of_mem _ h)).cons c

theorem newline_notMem_split {text line : List Char} (h : line ∈ split text) : '\n' ∉ line := by
  induction text generalizing line with
  | nil => simp [List.mem_singleton.mp h]
  | cons c text ih =>
    by_cases hc : c = '\n'
    · rw [split, if_pos hc] at h
      obtain rfl | h := List.mem_cons.mp h
      · simp
      · exact ih h
    · obtain ⟨first, others, hsplit, hcons⟩ := split_cons text hc
      rw [hcons] at h
      obtain rfl | h := List.mem_cons.mp h
      · have hfirst := ih (hsplit ▸ List.mem_cons_self)
        simpa [Ne.symm hc] using hfirst
      · exact ih (hsplit ▸ List.mem_cons_of_mem _ h)

def trimmedLines (raw : List Char) : List (List Char) :=
  ((split raw).map trim).filter fun line => !line.isEmpty

variable {ν : Type} (js : Runtime ν)

/-- Each line parsed, `null` where `JSON.parse` throws, and no `null` kept. -/
def containerEvents (rawBuf : Bytes) : List (Json ν) :=
  ((trimmedLines (decode rawBuf)).map fun line => (js.parse line).getD .null).filter
    fun event => !event.isNull

def parsedLines (rawBuf : Bytes) : List (Json ν) :=
  (trimmedLines (decode rawBuf)).filterMap js.parse

/-- The events are the values of the lines other than `null`. -/
theorem containerEvents_eq (rawBuf : Bytes) :
    containerEvents js rawBuf = (parsedLines js rawBuf).filter fun event => !event.isNull := by
  unfold containerEvents parsedLines
  generalize trimmedLines (decode rawBuf) = lines
  induction lines with
  | nil => rfl
  | cons line lines ih =>
    cases hline : js.parse line with
    | none => simpa [hline, Json.isNull] using ih
    | some value =>
      cases hnull : value.isNull with
      | false => simpa [hline, hnull] using ih
      | true => simpa [hline, hnull] using ih

end Hill90.Events
