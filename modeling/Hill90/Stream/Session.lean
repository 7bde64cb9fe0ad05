import Mathlib.Data.List.Basic
import Hill90.Foundation.Alarm

/-! # A server-sent event response

The bounded writer of `sse-writer.ts` over the response it writes to, the timers the
route arms for it, and the signal for a poll that keeps failing.
-/

namespace Hill90.Stream

def hardCapBytes : ℕ := 8 * 1024 * 1024

def pollFailureSignalMs : ℕ := 10000

/-- `Math.max(1, Math.ceil(pollFailureSignalMs / pollIntervalMs))`, for an interval that is not 0. -/
def failureThresholdFor (pollIntervalMs : ℕ) : ℕ :=
  max 1 ((pollFailureSignalMs + pollIntervalMs - 1) / pollIntervalMs)

inductive Frame (α : Type) where
  | event (e : α)
  | heartbeat
  | error (error detail : String)
  deriving DecidableEq

namespace Frame

variable {α : Type}

def clientNotReading : Frame α :=
  .error "Client not reading"
    "The event stream was stopped because its buffer limit was exceeded."

def credentialExpired : Frame α :=
  .error "Credential expired"
    "The stream ended because the credential that authorised it expired."

def accessRevoked : Frame α :=
  .error "Access revoked"
    "The stream ended because you are no longer a participant in this thread."

def event? : Frame α → Option α
  | .event e => some e
  | .heartbeat | .error .. => none

end Frame

/-- What the socket shows to one write: `res.writableLength` before it, and its answer. -/
structure Sink where
  queued : ℕ := 0
  accepted : Bool := true
  deriving DecidableEq

/-- `ended` and `destroyed` are the response's own flags, `behind` is the writer's
`paused`, `closed` and `ticking` belong to the route's `cleanup`. -/
structure Session (α : Type) where
  frames : List (Frame α) := []
  ended : Bool := false
  destroyed : Bool := false
  overflowed : Bool := false
  behind : Bool := false
  sourcePaused : Bool := false
  closed : Bool := false
  ticking : Bool := false
  overflow_ends : overflowed = true → ended = true := by simp

namespace Session

variable {α : Type}

def live (s : Session α) : Bool := !s.ended && !s.destroyed

def cleanup (s : Session α) : Session α := { s with closed := true, ticking := false }

def events (s : Session α) : List α := s.frames.filterMap Frame.event?

def write (s : Session α) (sink : Sink) (frame : Frame α) : Session α :=
  if s.overflowed || !s.live then s
  else if hardCapBytes < sink.queued then
    { s.cleanup with
      overflowed := true, frames := s.frames ++ [Frame.clientNotReading], ended := true
      overflow_ends := fun _ => rfl }
  else if !sink.accepted && !s.behind then
    { s with frames := s.frames ++ [frame], behind := true, sourcePaused := true }
  else { s with frames := s.frames ++ [frame] }

def drain (s : Session α) : Session α :=
  if s.behind then { s with behind := false, sourcePaused := s.overflowed && s.sourcePaused }
  else s

def close (s : Session α) : Session α := { s.cleanup with destroyed := true }

/-- `endStreamForExpiredCredential`, under the guard of its timer. -/
def expire (s : Session α) : Session α :=
  if s.live then
    { s with
      frames := s.frames ++ [Frame.credentialExpired], ended := true
      overflow_ends := fun _ => rfl }
  else s

/-- `endStreamForRevokedAccess` and the cleanup after it. -/
def revoke (s : Session α) : Session α :=
  if s.live then
    { s.cleanup with
      frames := s.frames ++ [Frame.accessRevoked], ended := true
      overflow_ends := fun _ => rfl }
  else s

/-- The timers are armed for a client that is still there. -/
def arm (s : Session α) : Session α :=
  if s.closed || !s.live then s else { s with ticking := true }

def heartbeat (s : Session α) (sink : Sink) : Session α :=
  if s.live then s.write sink .heartbeat else s

@[simp] theorem events_drain (s : Session α) : s.drain.events = s.events := by
  unfold drain
  split <;> rfl

@[simp] theorem events_close (s : Session α) : s.close.events = s.events := rfl

@[simp] theorem events_expire (s : Session α) : s.expire.events = s.events := by
  unfold expire
  split
  · simp [events, Frame.credentialExpired, Frame.event?]
  · rfl

@[simp] theorem events_revoke (s : Session α) : s.revoke.events = s.events := by
  unfold revoke
  split
  · simp [events, Frame.accessRevoked, Frame.event?]
  · rfl

@[simp] theorem events_arm (s : Session α) : s.arm.events = s.events := by
  unfold arm
  split <;> rfl

theorem overflowed_of_live {s : Session α} (h : s.live = true) : s.overflowed = false := by
  have hends := s.overflow_ends
  simp only [live, Bool.and_eq_true, Bool.not_eq_true'] at h
  cases ho : s.overflowed with
  | false => rfl
  | true => simp_all

theorem live_write (s : Session α) (sink : Sink) (frame : Frame α) :
    (s.write sink frame).live = (s.live && decide (sink.queued ≤ hardCapBytes)) := by
  unfold write
  cases hlive : s.live with
  | false => simp [hlive]
  | true =>
    have := overflowed_of_live hlive
    by_cases hcap : hardCapBytes < sink.queued
    · simp [*, live]
    · rw [if_neg (by simp [this]), if_neg hcap]
      simp only [live] at hlive
      split <;> simp [live, hlive, Nat.le_of_not_lt hcap]

/-- A frame is written to a live response whose queue is within the cap. -/
theorem events_write (s : Session α) (sink : Sink) (frame : Frame α) :
    (s.write sink frame).events =
      if s.live = true ∧ sink.queued ≤ hardCapBytes then s.events ++ frame.event?.toList
      else s.events := by
  unfold write
  cases hlive : s.live with
  | false => simp
  | true =>
    have := overflowed_of_live hlive
    by_cases hcap : hardCapBytes < sink.queued
    · rw [if_neg (by simp [this]), if_pos hcap, if_neg (by omega)]
      simp [events, Frame.clientNotReading, Frame.event?]
    · have hfits : sink.queued ≤ hardCapBytes := Nat.le_of_not_lt hcap
      have happend : (s.frames ++ [frame]).filterMap Frame.event? =
          s.events ++ frame.event?.toList := by
        rw [List.filterMap_append]
        cases frame <;> rfl
      rw [if_neg (by simp [this]), if_neg hcap]
      split <;> simpa [hfits, events] using happend

/-- A write of anything but an event leaves the events as they are. -/
@[simp] theorem events_write_heartbeat (s : Session α) (sink : Sink) :
    (s.write sink .heartbeat).events = s.events := by
  simp [events_write, Frame.event?]

@[simp] theorem events_write_error (s : Session α) (sink : Sink) (error detail : String) :
    (s.write sink (.error error detail)).events = s.events := by
  simp [events_write, Frame.event?]

@[simp] theorem events_heartbeat (s : Session α) (sink : Sink) :
    (s.heartbeat sink).events = s.events := by
  unfold heartbeat
  split <;> simp

end Session

structure FailureSignal where
  consecutiveFailures : ℕ := 0
  signalled : Bool := false

namespace FailureSignal

/-- Whether the threshold is crossed with this failure, and the signal after it. -/
def recordFailure (threshold : ℕ) (s : FailureSignal) : Bool × FailureSignal :=
  if !s.signalled && threshold ≤ s.consecutiveFailures + 1 then
    (true, ⟨s.consecutiveFailures + 1, true⟩)
  else (false, ⟨s.consecutiveFailures + 1, s.signalled⟩)

def recordSuccess (_ : FailureSignal) : FailureSignal := {}

def observe (threshold : ℕ) (w : ℕ × FailureSignal) (ok : Bool) : ℕ × FailureSignal :=
  if ok then (w.1, w.2.recordSuccess)
  else (w.1 + (w.2.recordFailure threshold).1.toNat, (w.2.recordFailure threshold).2)

def follow (threshold : ℕ) (polls : List Bool) : ℕ × FailureSignal :=
  polls.foldl (observe threshold) (0, {})

def beatOf (ok : Bool) : Beat := if ok then .success else .failure true

def outages (polls : List Bool) : List (Runs.Run Unit Beat) :=
  (Runs.runs Alarm.outage (polls.map beatOf)).filter fun r => r.key.isSome

theorem follow_eq_watch (threshold : ℕ) (polls : List Bool) :
    follow threshold polls =
      ((Alarm.watch threshold (polls.map beatOf)).1,
        ⟨(Alarm.watch threshold (polls.map beatOf)).2.count,
          (Alarm.watch threshold (polls.map beatOf)).2.rung⟩) := by
  induction polls using List.reverseRecOn with
  | nil => rfl
  | append_singleton polls ok ih =>
    rw [follow, List.foldl_concat, ← follow, ih, List.map_append, List.map_singleton,
      Alarm.watch_concat]
    generalize Alarm.watch threshold (polls.map beatOf) = w
    obtain ⟨rings, count, rung⟩ := w
    cases ok with
    | true => simp [observe, recordSuccess, beatOf, Alarm.beat]
    | false =>
      simp only [observe, recordFailure, beatOf, Alarm.beat, Bool.false_eq_true, if_false]
      cases rung <;> by_cases hle : threshold ≤ count + 1 <;> simp [hle]

theorem due_iff_of_mem {threshold : ℕ} (hpos : 1 ≤ threshold) {polls : List Bool}
    {r : Runs.Run Unit Beat} (hr : r ∈ Runs.runs Alarm.outage (polls.map beatOf)) :
    Alarm.Due threshold r ↔ r.key.isSome = true ∧ threshold ≤ r.items.length := by
  have hcuts := Runs.cuts_runs Alarm.outage (polls.map beatOf)
  have hfailure : r.key ≠ none → ∀ b ∈ r.items, b = .failure true := by
    intro hkey b hb
    have hmem : b ∈ polls.map beatOf := by
      rw [← hcuts.flat]
      exact List.mem_flatMap.mpr ⟨r, hr, hb⟩
    obtain ⟨ok, _, rfl⟩ := List.mem_map.mp hmem
    cases ok with
    | true => exact absurd (hcuts.uniform r hr _ hb).symm hkey
    | false => rfl
  rw [Alarm.Due, Option.isSome_iff_ne_none]
  apply and_congr_right
  intro hkey
  constructor
  · intro hmem
    have hlong := List.length_pos_of_mem hmem
    rw [List.length_drop] at hlong
    omega
  · intro hlong
    have hne : r.items.drop (threshold - 1) ≠ [] := by
      rw [ne_eq, List.drop_eq_nil_iff]
      omega
    obtain ⟨b, hb⟩ := List.exists_mem_of_ne_nil _ hne
    rwa [← hfailure hkey b (List.mem_of_mem_drop hb)]

/-- However the polls of a stream go, its client is told once of each outage that lasts as many
polls as the threshold, and of no other. -/
theorem signals_eq_outages (pollIntervalMs : ℕ) (polls : List Bool) :
    (follow (failureThresholdFor pollIntervalMs) polls).1 =
      (outages polls).countP fun r => failureThresholdFor pollIntervalMs ≤ r.items.length := by
  rw [follow_eq_watch, Alarm.watch_rings, outages, List.countP_filter]
  apply List.countP_congr
  intro r hr
  have hpos : 1 ≤ failureThresholdFor pollIntervalMs := Nat.le_max_left _ _
  rw [decide_eq_true_eq, due_iff_of_mem hpos hr]
  simp [and_comm]

end FailureSignal

end Hill90.Stream
