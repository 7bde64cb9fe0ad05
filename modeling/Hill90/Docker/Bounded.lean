import Hill90.Foundation.Utf8
import Mathlib.Data.Nat.Notation

/-! # Bounded reads

`bounded-read.ts`: a promise over the events of a stream, which may come in any order, and go on once
it has settled.
-/

namespace Hill90.Docker.Bounded

open Utf8 (Bytes)

inductive Event (ε : Type) where
  | data (chunk : Bytes)
  | error (err : ε)
  | end
  | close
  deriving DecidableEq

inductive Failure (ε : Type) where
  | readTooLarge (limit : ℕ)
  | stream (err : ε)
  deriving DecidableEq

inductive Settlement (ε : Type) where
  | resolve (buffer : Bytes)
  | reject (err : Failure ε)
  deriving DecidableEq

/-- `calls` are the calls of `resolve` and `reject`, `destroyed` counts those of `stream.destroy`. -/
structure State (ε : Type) where
  chunks : List Bytes := []
  total : ℕ := 0
  settled : Bool := false
  calls : List (Settlement ε) := []
  destroyed : ℕ := 0
  deriving DecidableEq

variable {ε : Type}

section Source

def maxReadBytes : ℕ := 2 * 1024 * 1024

def settle (s : State ε) (call : Settlement ε) : State ε :=
  if s.settled then s else { s with settled := true, calls := s.calls ++ [call] }

variable (maxBytes : ℕ)

def on (s : State ε) : Event ε → State ε
  | .data chunk =>
    let s := { s with total := s.total + chunk.length }
    if maxBytes < s.total then
      settle { s with destroyed := s.destroyed + 1, chunks := [] } (.reject (.readTooLarge maxBytes))
    else { s with chunks := s.chunks ++ [chunk] }
  | .error err => settle s (.reject (.stream err))
  | .end => settle s (.resolve s.chunks.flatten)
  | .close => settle s (.resolve s.chunks.flatten)

def collectBounded (events : List (Event ε)) : State ε := events.foldl (on maxBytes) {}

end Source

section Streams

def body : List (Event ε) → Bytes
  | .data chunk :: events => chunk ++ body events
  | _ => []

def ending : List (Event ε) → Option (Event ε)
  | [] => none
  | .data _ :: events => ending events
  | e :: _ => some e

/-- Only the whole of a stream that has ended, within the limit, is resolved with. -/
structure AllOrNothing (maxBytes : ℕ) (events : List (Event ε)) (s : State ε) : Prop where
  complete : ending events = some .end → (body events).length ≤ maxBytes →
    s.calls = [.resolve (body events)]
  rejects : maxBytes < (body events).length ∨ (∃ e, ending events = some e ∧ e ≠ .end) →
    ∃ err, s.calls = [.reject err]
  pending : ending events = none → (body events).length ≤ maxBytes → s.calls = []
  destroys : maxBytes < (body events).length → 0 < s.destroyed

end Streams

variable {maxBytes : ℕ} {s : State ε} {events : List (Event ε)}

theorem settle_of_settled (h : s.settled = true) (call : Settlement ε) : settle s call = s := if_pos h

theorem settle_of_open (h : s.settled = false) (call : Settlement ε) :
    settle s call = { s with settled := true, calls := s.calls ++ [call] } := if_neg (by simp [h])

theorem on_settled (maxBytes : ℕ) (h : s.settled = true) (e : Event ε) :
    (on maxBytes s e).settled = true ∧ (on maxBytes s e).calls = s.calls ∧
      s.destroyed ≤ (on maxBytes s e).destroyed := by
  cases e with
  | data chunk =>
    unfold on
    dsimp only
    split
    · rw [settle_of_settled (by exact h)]
      exact ⟨h, rfl, Nat.le_succ _⟩
    · exact ⟨h, rfl, Nat.le_refl _⟩
  | error err =>
    rw [on, settle_of_settled h]
    exact ⟨h, rfl, Nat.le_refl _⟩
  | «end» =>
    rw [on, settle_of_settled h]
    exact ⟨h, rfl, Nat.le_refl _⟩
  | close =>
    rw [on, settle_of_settled h]
    exact ⟨h, rfl, Nat.le_refl _⟩

theorem foldl_settled (maxBytes : ℕ) (h : s.settled = true) (events : List (Event ε)) :
    (events.foldl (on maxBytes) s).calls = s.calls ∧
      s.destroyed ≤ (events.foldl (on maxBytes) s).destroyed := by
  induction events generalizing s with
  | nil => exact ⟨rfl, Nat.le_refl _⟩
  | cons e events ih =>
    obtain ⟨hsettled, hcalls, hdestroyed⟩ := on_settled maxBytes h e
    obtain ⟨hrest, hmore⟩ := ih hsettled
    exact ⟨hrest.trans hcalls, Nat.le_trans hdestroyed hmore⟩

def verdict (maxBytes : ℕ) (read : Bytes) (events : List (Event ε)) : List (Settlement ε) :=
  if maxBytes < (read ++ body events).length then [.reject (.readTooLarge maxBytes)]
  else
    match ending events with
    | none | some (.data _) => []
    | some (.error err) => [.reject (.stream err)]
    | some .end | some .close => [.resolve (read ++ body events)]

structure Reading (maxBytes : ℕ) (read : Bytes) (s : State ε) : Prop where
  opened : s.settled = false
  calls : s.calls = []
  chunks : s.chunks.flatten = read
  total : s.total = read.length
  within : read.length ≤ maxBytes

theorem Reading.settles {read : Bytes} (h : Reading maxBytes read s) (call : Settlement ε)
    (events : List (Event ε)) : (events.foldl (on maxBytes) (settle s call)).calls = [call] := by
  have hsettle := settle_of_open h.opened call
  rw [hsettle, (foldl_settled maxBytes (by rfl) events).1, h.calls]
  rfl

theorem Reading.data {read chunk : Bytes} (h : Reading maxBytes read s)
    (hle : (read ++ chunk).length ≤ maxBytes) :
    Reading maxBytes (read ++ chunk) (on maxBytes s (.data chunk)) := by
  rw [List.length_append] at hle
  have htotal : ¬maxBytes < s.total + chunk.length := by
    rw [h.total]
    omega
  unfold on
  dsimp only
  rw [if_neg htotal]
  refine ⟨h.opened, h.calls, ?_, ?_, ?_⟩
  · simp [h.chunks]
  · simp [h.total]
  · simpa using hle

theorem Reading.over {read chunk : Bytes} (h : Reading maxBytes read s)
    (hlt : maxBytes < (read ++ chunk).length) (events : List (Event ε)) :
    (events.foldl (on maxBytes) (on maxBytes s (.data chunk))).calls =
        [.reject (.readTooLarge maxBytes)] ∧
      0 < (events.foldl (on maxBytes) (on maxBytes s (.data chunk))).destroyed := by
  rw [List.length_append] at hlt
  have htotal : maxBytes < s.total + chunk.length := by
    rw [h.total]
    exact hlt
  unfold on
  dsimp only
  rw [if_pos htotal, settle_of_open (by exact h.opened), h.calls]
  let failed : State ε := { s with
    chunks := [], total := s.total + chunk.length, settled := true
    calls := [.reject (.readTooLarge maxBytes)], destroyed := s.destroyed + 1 }
  have hsettled : failed.settled = true := rfl
  obtain ⟨hcalls, hdestroyed⟩ := foldl_settled maxBytes hsettled events
  exact ⟨hcalls, Nat.lt_of_lt_of_le (Nat.succ_pos _) hdestroyed⟩

theorem Reading.calls_eq {read : Bytes} (h : Reading maxBytes read s) (events : List (Event ε)) :
    (events.foldl (on maxBytes) s).calls = verdict maxBytes read events ∧
      (maxBytes < (read ++ body events).length → 0 < (events.foldl (on maxBytes) s).destroyed) := by
  have hread : ¬maxBytes < (read ++ []).length := by
    rw [List.append_nil]
    exact Nat.not_lt.mpr h.within
  induction events generalizing read s with
  | nil =>
    refine ⟨?_, fun hlt => absurd hlt hread⟩
    have hverdict : verdict maxBytes read ([] : List (Event ε)) = [] := if_neg hread
    rw [List.foldl_nil, h.calls, hverdict]
  | cons e events ih =>
    rw [List.foldl_cons]
    cases e with
    | data chunk =>
      have happend : read ++ body (.data chunk :: events) = read ++ chunk ++ body events := by
        rw [body, List.append_assoc]
      rw [verdict, happend]
      by_cases hlt : maxBytes < (read ++ chunk).length
      · obtain ⟨hcalls, hdestroyed⟩ := h.over hlt events
        refine ⟨?_, fun _ => hdestroyed⟩
        rw [hcalls, if_pos]
        rw [List.length_append]
        omega
      · have hnext := h.data (Nat.not_lt.mp hlt)
        exact ih hnext (by rwa [List.append_nil])
    | error err =>
      refine ⟨?_, fun hlt => absurd hlt hread⟩
      have hverdict : verdict maxBytes read (.error err :: events) = [.reject (.stream err)] :=
        if_neg hread
      rw [on, h.settles, hverdict]
    | «end» =>
      refine ⟨?_, fun hlt => absurd hlt hread⟩
      have hverdict : verdict maxBytes read (.end :: events) = [.resolve (read ++ [])] :=
        if_neg hread
      rw [on, h.settles, hverdict, h.chunks, List.append_nil]
    | close =>
      refine ⟨?_, fun hlt => absurd hlt hread⟩
      have hverdict : verdict maxBytes read (.close :: events) = [.resolve (read ++ [])] :=
        if_neg hread
      rw [on, h.settles, hverdict, h.chunks, List.append_nil]

theorem calls_collectBounded (maxBytes : ℕ) (events : List (Event ε)) :
    (collectBounded maxBytes events).calls = verdict maxBytes [] events ∧
      (maxBytes < (body events).length → 0 < (collectBounded maxBytes events).destroyed) :=
  Reading.calls_eq ⟨rfl, rfl, rfl, rfl, Nat.zero_le _⟩ events

theorem ending_ne_data (events : List (Event ε)) (chunk : Bytes) :
    ending events ≠ some (.data chunk) := by
  induction events with
  | nil => exact nofun
  | cons e events ih =>
    cases e with
    | data _ => exact ih
    | error _ => exact nofun
    | «end» => exact nofun
    | close => exact nofun

/-- A read is all or nothing exactly where the stream does not close, within the limit, before it has
ended or failed. -/
theorem allOrNothing_iff (maxBytes : ℕ) (events : List (Event ε)) :
    AllOrNothing maxBytes events (collectBounded maxBytes events) ↔
      ¬(ending events = some .close ∧ (body events).length ≤ maxBytes) := by
  obtain ⟨hcalls, hdestroys⟩ := calls_collectBounded maxBytes events
  rw [verdict, List.nil_append] at hcalls
  constructor
  · rintro h ⟨hclose, hle⟩
    obtain ⟨err, herr⟩ := h.rejects (.inr ⟨.close, hclose, nofun⟩)
    rw [if_neg (Nat.not_lt.mpr hle), hclose, herr] at hcalls
    cases hcalls
  · intro hclose
    refine ⟨fun hend hle => ?_, fun hother => ?_, fun hnone hle => ?_, hdestroys⟩
    · rw [hcalls, if_neg (Nat.not_lt.mpr hle), hend]
    · by_cases hlt : maxBytes < (body events).length
      · exact ⟨_, hcalls.trans (if_pos hlt)⟩
      · obtain ⟨e, he, hne⟩ := hother.resolve_left hlt
        rw [if_neg hlt, he] at hcalls
        cases e with
        | data chunk => exact absurd he (ending_ne_data events chunk)
        | error err => exact ⟨_, hcalls⟩
        | «end» => exact absurd rfl hne
        | close => exact absurd ⟨he, Nat.not_lt.mp hlt⟩ hclose
    · rw [hcalls, if_neg (Nat.not_lt.mpr hle), hnone]

/-- The connection is lost after two bytes. -/
theorem close_resolves : ¬∀ (maxBytes : ℕ) (events : List (Event Unit)),
    AllOrNothing maxBytes events (collectBounded maxBytes events) := by
  intro h
  obtain ⟨err, herr⟩ := (h maxReadBytes [.data [104, 105], .close]).rejects (.inr ⟨.close, rfl, nofun⟩)
  cases herr

end Hill90.Docker.Bounded
