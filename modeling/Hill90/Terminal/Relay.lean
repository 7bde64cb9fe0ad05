import Hill90.Foundation.Machine
import Mathlib.Data.Nat.Notation

/-! # A relay with backpressure

`pumpWithBackpressure` for a source and a destination of its own: the messages of the source, the
timers of the event loop, and a destination that opens and closes as it likes.
-/

namespace Hill90.Terminal.Relay

/-- A message with what `to` is when it arrives, and what it has queued once it is sent. -/
structure Arrival (μ : Type) where
  data : μ
  isBinary : Bool
  isOpen : Bool
  queued : ℕ
  deriving DecidableEq

/-- The variables of the closure, and what they have done to the world: `timers` are the intervals
that are armed, `overflows` the calls of `onOverflow`.  `late` says that a message has been relayed
after the cleanup. -/
structure State (μ : Type) where
  resumeTimer : Option ℕ := none
  paused : Bool := false
  overflowed : Bool := false
  timers : List ℕ := []
  nextTimer : ℕ := 0
  sourcePaused : Bool := false
  isOpen : Bool
  sent : List (μ × Bool) := []
  overflows : List ℕ := []
  arrived : List (Arrival μ) := []
  cleaned : Bool := false
  late : Bool := false
  deriving DecidableEq

inductive Event (μ : Type) where
  | message (data : μ) (isBinary : Bool) (queued : ℕ)
  | poll (timer queued : ℕ)
  | setOpen (isOpen : Bool)
  | cleanup
  deriving DecidableEq

variable {μ : Type}

namespace State

variable (s : State μ)

def stopPolling : State μ :=
  match s.resumeTimer with
  | some timer => { s with timers := s.timers.filter (· ≠ timer), resumeTimer := none }
  | none => s

def resumeSource : State μ := { ({ s with paused := false }).stopPolling with sourcePaused := false }

def pauseSource : State μ :=
  if s.paused then s
  else { s with
    paused := true
    sourcePaused := true
    timers := s.timers ++ [s.nextTimer]
    resumeTimer := some s.nextTimer
    nextTimer := s.nextTimer + 1 }

variable (highWaterBytes hardCapBytes : ℕ)

def relay (data : μ) (isBinary : Bool) (queued : ℕ) : State μ :=
  if s.overflowed then s
  else if !s.isOpen then s
  else
    let s := { s with sent := s.sent ++ [(data, isBinary)], late := s.cleaned }
    if hardCapBytes < queued then
      let s := ({ s with overflowed := true }).stopPolling
      { s with overflows := s.overflows ++ [queued] }
    else if highWaterBytes < queued then s.pauseSource
    else s

def tick (queued : ℕ) : State μ :=
  if !s.isOpen then s.resumeSource
  else if queued ≤ highWaterBytes / 2 then s.resumeSource
  else s

def cleanup : State μ :=
  let s := { s.stopPolling with cleaned := true, late := false }
  if s.paused then { s with sourcePaused := false } else s

def arrive (a : Arrival μ) : State μ := { s with arrived := s.arrived ++ [a] }

def step : Event μ → Option (State μ)
  | .message data isBinary queued =>
    some ((s.arrive ⟨data, isBinary, s.isOpen, queued⟩).relay highWaterBytes hardCapBytes data
      isBinary queued)
  | .poll timer queued => if timer ∈ s.timers then some (s.tick highWaterBytes queued) else none
  | .setOpen isOpen => some { s with isOpen := isOpen }
  | .cleanup => some s.cleanup

end State

variable (highWaterBytes hardCapBytes : ℕ)

def machine : Machine (State μ) (Event μ) where
  initial s := ∃ isOpen, s = { isOpen := isOpen }
  step s := s.step highWaterBytes hardCapBytes

/-- A message beyond the hard cap. -/
def exceeds (a : Arrival μ) : Bool := a.isOpen && decide (hardCapBytes < a.queued)

/-- The messages that find the destination open, up to the one that exceeds the hard cap. -/
def due : List (Arrival μ) → List (μ × Bool)
  | [] => []
  | a :: as =>
    if a.isOpen then (a.data, a.isBinary) :: if exceeds hardCapBytes a then [] else due as else due as

/-- Every message is forwarded until the cap is exceeded, the source is paused exactly while it is
polled, with one timer, and with none once the cleanup has run. -/
structure Flawless (s : State μ) : Prop where
  sent : s.overflows = [] → s.sent = s.arrived.map fun a => (a.data, a.isBinary)
  polled : s.sourcePaused = true ↔ s.timers ≠ []
  single : s.timers.length ≤ 1
  quiet : s.cleaned = true → s.timers = []

/-- The same of the messages that find the destination open, until the cap is exceeded or the cleanup
runs; and neither leaves a timer. -/
structure Relayed (s : State μ) : Prop where
  sent : s.sent = due hardCapBytes s.arrived
  overflows : s.overflows.length = if s.arrived.any (exceeds hardCapBytes) then 1 else 0
  single : s.timers.length ≤ 1
  polled : s.overflows = [] → s.cleaned = false → (s.sourcePaused = true ↔ s.timers ≠ [])
  overflowed : s.overflows ≠ [] → s.timers = []
  cleaned : s.cleaned = true → s.late = false → s.timers = [] ∧ s.sourcePaused = false

structure Kept (s : State μ) : Prop where
  timers : s.timers = s.resumeTimer.toList
  polling : s.resumeTimer.isSome → s.paused = true
  source : s.cleaned = false → s.sourcePaused = s.paused
  armed : s.cleaned = false → s.overflowed = false → s.paused = true → s.resumeTimer.isSome
  overflowed : s.overflowed = s.arrived.any (exceeds hardCapBytes)
  stopped : s.overflowed = true → s.resumeTimer = none
  overflows : s.overflows.length = if s.overflowed then 1 else 0
  sent : s.sent = due hardCapBytes s.arrived
  cleaned : s.cleaned = true → s.late = false → s.resumeTimer = none ∧ s.sourcePaused = false
  unpaused : s.paused = false → s.sourcePaused = false

section Proofs

variable {highWaterBytes hardCapBytes} {s t : State μ}

theorem due_concat (as : List (Arrival μ)) (a : Arrival μ) : due hardCapBytes (as ++ [a]) =
    due hardCapBytes as ++
      if as.any (exceeds hardCapBytes) then [] else if a.isOpen then [(a.data, a.isBinary)] else [] := by
  induction as with
  | nil =>
    cases hopen : a.isOpen <;> simp [due, hopen]
  | cons b as ih =>
    cases hopen : b.isOpen with
    | false =>
      have hexceeds : exceeds hardCapBytes b = false := by simp [exceeds, hopen]
      simp [due, hopen, hexceeds, ih]
    | true =>
      cases hexceeds : exceeds hardCapBytes b with
      | false => simp [due, hopen, hexceeds, ih]
      | true => simp [due, hopen, hexceeds]

theorem stopPolling_eq (htimers : s.timers = s.resumeTimer.toList) :
    s.stopPolling = { s with timers := [], resumeTimer := none } := by
  unfold State.stopPolling
  cases htimer : s.resumeTimer with
  | none =>
    rw [htimer] at htimers
    cases s
    cases htimer
    cases htimers
    rfl
  | some timer =>
    rw [htimer] at htimers
    simp [htimers]

theorem Kept.conduct (h : Kept hardCapBytes s) : Relayed hardCapBytes s := by
  have hoverflowed : s.overflows = [] ↔ s.overflowed = false := by
    have hlength := h.overflows
    rw [← List.length_eq_zero_iff]
    rw [hlength]
    cases s.overflowed <;> simp
  have htimers : s.timers = [] ↔ s.resumeTimer = none := by
    rw [h.timers]
    cases s.resumeTimer <;> simp
  constructor
  · exact h.sent
  · rw [h.overflows, h.overflowed]
  · rw [h.timers]
    cases s.resumeTimer <;> simp
  · intro hnone hcleaned
    rw [h.source hcleaned, Ne, htimers]
    constructor
    · intro hpaused hresume
      have hsome := h.armed hcleaned (hoverflowed.mp hnone) hpaused
      rw [hresume] at hsome
      cases hsome
    · intro hresume
      exact h.polling (Option.isSome_iff_ne_none.mpr hresume)
  · intro hsome
    rw [htimers]
    apply h.stopped
    by_contra hover
    exact hsome (hoverflowed.mpr (by simpa using hover))
  · intro hcleaned hlate
    obtain ⟨hresume, hsource⟩ := h.cleaned hcleaned hlate
    exact ⟨htimers.mpr hresume, hsource⟩

theorem Kept.resumeSource (h : Kept hardCapBytes s) : Kept hardCapBytes s.resumeSource := by
  have hstop : s.resumeSource =
      { s with paused := false, timers := [], resumeTimer := none, sourcePaused := false } := by
    rw [State.resumeSource, stopPolling_eq (by exact h.timers)]
  rw [hstop]
  constructor
  · rfl
  · exact nofun
  · exact fun _ => rfl
  · exact nofun
  · exact h.overflowed
  · exact fun _ => rfl
  · exact h.overflows
  · exact h.sent
  · exact fun _ _ => ⟨rfl, rfl⟩
  · exact fun _ => rfl

theorem Kept.pauseSource (h : Kept hardCapBytes s) (hrunning : s.overflowed = false)
    (hlate : s.cleaned = true → s.late = true) : Kept hardCapBytes s.pauseSource := by
  unfold State.pauseSource
  split
  · exact h
  · next hpaused =>
    have hnone : s.resumeTimer = none := by
      by_contra hsome
      exact hpaused (h.polling (Option.isSome_iff_ne_none.mpr hsome))
    have htimers := h.timers
    rw [hnone] at htimers
    constructor
    · simp [htimers]
    · exact fun _ => rfl
    · exact fun _ => rfl
    · exact fun _ _ _ => rfl
    · exact h.overflowed
    · intro hover
      exact absurd (hrunning.symm.trans hover) nofun
    · exact h.overflows
    · exact h.sent
    · intro hcleaned hlate'
      exact absurd ((hlate hcleaned).symm.trans hlate') nofun
    · exact nofun

theorem Kept.cleanup (h : Kept hardCapBytes s) : Kept hardCapBytes s.cleanup := by
  have hcleanup : s.cleanup = { s with
      timers := [], resumeTimer := none, cleaned := true, late := false, sourcePaused := false } := by
    unfold State.cleanup
    rw [stopPolling_eq h.timers]
    cases hpaused : s.paused with
    | true => simp
    | false =>
      have hsource := h.unpaused hpaused
      simp [hsource]
  rw [hcleanup]
  constructor
  · rfl
  · exact nofun
  · exact nofun
  · exact nofun
  · exact h.overflowed
  · exact fun _ => rfl
  · exact h.overflows
  · exact h.sent
  · exact fun _ _ => ⟨rfl, rfl⟩
  · exact fun _ => rfl

theorem Kept.tick (h : Kept hardCapBytes s) (queued : ℕ) :
    Kept hardCapBytes (s.tick highWaterBytes queued) := by
  unfold State.tick
  split
  · exact h.resumeSource
  · split
    · exact h.resumeSource
    · exact h

theorem Kept.setOpen (h : Kept hardCapBytes s) (isOpen : Bool) :
    Kept hardCapBytes { s with isOpen := isOpen } :=
  ⟨h.timers, h.polling, h.source, h.armed, h.overflowed, h.stopped, h.overflows, h.sent, h.cleaned,
    h.unpaused⟩

/-- A message that is not forwarded. -/
theorem Kept.ignore (h : Kept hardCapBytes s) {a : Arrival μ}
    (ha : s.overflowed = true ∨ a.isOpen = false) : Kept hardCapBytes (s.arrive a) := by
  have hany : (s.arrived ++ [a]).any (exceeds hardCapBytes) = s.arrived.any (exceeds hardCapBytes) := by
    rw [List.any_append, ← h.overflowed]
    obtain hover | hclosed := ha
    · simp [hover]
    · simp [exceeds, hclosed]
  have hdue : due hardCapBytes (s.arrived ++ [a]) = due hardCapBytes s.arrived := by
    rw [due_concat, ← h.overflowed]
    obtain hover | hclosed := ha
    · simp [hover]
    · simp [hclosed]
  exact ⟨h.timers, h.polling, h.source, h.armed, h.overflowed.trans hany.symm, h.stopped, h.overflows,
    h.sent.trans hdue.symm, h.cleaned, h.unpaused⟩

theorem Kept.forward (h : Kept hardCapBytes s) {a : Arrival μ} (hover : s.overflowed = false)
    (hopen : a.isOpen = true) :
    (s.arrived ++ [a]).any (exceeds hardCapBytes) = decide (hardCapBytes < a.queued) ∧
      due hardCapBytes (s.arrived ++ [a]) = s.sent ++ [(a.data, a.isBinary)] := by
  have hnone : s.arrived.any (exceeds hardCapBytes) = false := h.overflowed.symm.trans hover
  constructor
  · rw [List.any_append, hnone]
    simp [exceeds, hopen]
  · rw [due_concat, hnone, h.sent]
    simp [hopen]

theorem Kept.relay (h : Kept hardCapBytes s) (data : μ) (isBinary : Bool) (queued : ℕ) :
    Kept hardCapBytes ((s.arrive ⟨data, isBinary, s.isOpen, queued⟩).relay highWaterBytes hardCapBytes
      data isBinary queued) := by
  by_cases hover : s.overflowed = true
  · have hrelay : (s.arrive ⟨data, isBinary, s.isOpen, queued⟩).relay highWaterBytes hardCapBytes
        data isBinary queued = s.arrive ⟨data, isBinary, s.isOpen, queued⟩ := if_pos hover
    rw [hrelay]
    exact h.ignore (.inl hover)
  · have hrunning : s.overflowed = false := by simpa using hover
    cases hopen : s.isOpen with
    | false =>
      have hrelay : (s.arrive ⟨data, isBinary, false, queued⟩).relay highWaterBytes hardCapBytes
          data isBinary queued = s.arrive ⟨data, isBinary, false, queued⟩ := by
        simp [State.relay, State.arrive, hrunning, hopen]
      rw [hrelay]
      exact h.ignore (.inr rfl)
    | true =>
      obtain ⟨hany, hdue⟩ := h.forward (a := ⟨data, isBinary, true, queued⟩) hrunning rfl
      have hlength := h.overflows
      rw [hrunning] at hlength
      unfold State.relay
      rw [if_neg (by exact hover), if_neg (by simp [State.arrive, hopen])]
      by_cases hcap : hardCapBytes < queued
      · -- the source stays paused if it is, without a timer
        rw [decide_eq_true hcap] at hany
        dsimp only [State.arrive]
        rw [if_pos hcap, stopPolling_eq (by exact h.timers)]
        constructor
        · rfl
        · exact nofun
        · exact h.source
        · exact nofun
        · exact hany.symm
        · exact fun _ => rfl
        · simpa using hlength
        · exact hdue.symm
        · intro hcleaned hlate
          exact absurd (hcleaned.symm.trans hlate) nofun
        · exact h.unpaused
      · rw [decide_eq_false hcap] at hany
        dsimp only [State.arrive]
        rw [if_neg hcap]
        have hkept : Kept hardCapBytes { s with
            arrived := s.arrived ++ [⟨data, isBinary, true, queued⟩]
            sent := s.sent ++ [(data, isBinary)], late := s.cleaned } := by
          refine ⟨h.timers, h.polling, h.source, h.armed, hrunning.trans hany.symm, h.stopped,
            h.overflows, hdue.symm, fun hcleaned hlate => ?_, h.unpaused⟩
          exact absurd (hcleaned.symm.trans hlate) nofun
        split
        · exact hkept.pauseSource hrunning fun hcleaned => hcleaned
        · exact hkept

theorem Kept.step (h : Kept hardCapBytes s) (e : Event μ)
    (hstep : (machine highWaterBytes hardCapBytes).step s e = some t) : Kept hardCapBytes t := by
  cases e with
  | message data isBinary queued =>
    cases hstep
    exact h.relay data isBinary queued
  | poll timer queued =>
    obtain ⟨_, ht⟩ := Option.ite_none_right_eq_some.mp hstep
    cases ht
    exact h.tick queued
  | setOpen isOpen =>
    cases hstep
    exact h.setOpen isOpen
  | cleanup =>
    cases hstep
    exact h.cleanup

theorem kept_initial (isOpen : Bool) : Kept hardCapBytes ({ isOpen := isOpen } : State μ) :=
  ⟨rfl, nofun, fun _ => rfl, nofun, rfl, nofun, rfl, rfl, nofun, fun _ => rfl⟩

/-- In every run a message is forwarded that finds the destination open and the cap kept; and the
source is paused while it is polled, with one timer, until the cap is exceeded or the cleanup runs. -/
theorem relayed (highWaterBytes hardCapBytes : ℕ) {s : State μ}
    (hs : (machine highWaterBytes hardCapBytes).Reachable s) : Relayed hardCapBytes s := by
  have hkept : Kept hardCapBytes s := by
    apply hs.invariant
    · rintro s ⟨isOpen, rfl⟩
      exact kept_initial isOpen
    · intro s e t h _ hstep
      exact h.step e hstep
  exact hkept.conduct

/-- Two messages for a slow destination, which then catches up. -/
def slow : List (Event ℕ) := [.message 1 true 10, .message 2 true 30, .poll 0 25, .poll 0 5, .cleanup]

theorem relayed_slow :
    Relayed 100 ((machine 20 100).after ({ isOpen := true } : State ℕ) slow) :=
  relayed 20 100 ⟨{ isOpen := true }, slow, ⟨true, rfl⟩, Machine.run_after (by decide)⟩

/-- A message that arrives before the destination is open. -/
theorem early_message_dropped :
    ¬∀ s : State ℕ, (machine 20 100).Reachable s → Flawless s := by
  intro h
  have hsent := (h _ ⟨{ isOpen := false }, [.message 1 true 0], ⟨false, rfl⟩,
    .single trivial rfl⟩).sent rfl
  cases hsent

end Proofs

end Hill90.Terminal.Relay
