import Hill90.Foundation.Runs
import Hill90.View.Groups

/-! # The segments of a timeline

`buildSegments` of `EventTimeline.tsx` puts neighbours of one group together, and each segment of
two events or more gets a badge with a status and a span.  React knows it by its group.
-/

namespace Hill90.View.Segments

open Groups (AgentEvent)
open Runs

abbrev Segment := Run String AgentEvent

def groupOf (groups : String → Option String) (e : AgentEvent) : Option String := groups e.id

def buildSegments (events : List AgentEvent) (groups : String → Option String) : List Segment :=
  runs (groupOf groups) events

inductive GroupStatus where
  | completed
  | failed
  | inProgress
  deriving DecidableEq, Repr

def workStepTypes : List String := ["work_received", "work_completed", "work_failed"]

structure WorkSteps where
  hasWorkReceived : Bool := false
  hasWorkCompleted : Bool := false
  hasWorkFailed : Bool := false

def WorkSteps.see (w : WorkSteps) (event : AgentEvent) : WorkSteps :=
  if event.tool ≠ "runtime" || event.type ∉ workStepTypes then w
  else if event.type = "work_received" then { w with hasWorkReceived := true }
  else if event.type = "work_completed" then { w with hasWorkCompleted := true }
  else if event.type = "work_failed" then { w with hasWorkFailed := true }
  else w

def deriveGroupStatus (groupEvents : List AgentEvent) : Option GroupStatus :=
  let w := groupEvents.foldl WorkSteps.see {}
  if !w.hasWorkReceived && !w.hasWorkCompleted && !w.hasWorkFailed then none
  else if w.hasWorkFailed then some .failed
  else if w.hasWorkCompleted then some .completed
  else some .inProgress

structure Span where
  minTs : Option ℤ := none
  maxTs : Option ℤ := none

/-- A `NaN` is neither less nor greater than anything. -/
def Span.see (s : Span) (event : AgentEvent) : Span :=
  match event.time with
  | none => s
  | some t =>
    { minTs := if s.minTs.all fun m => t < m then some t else s.minTs
      maxTs := if s.maxTs.all fun m => m < t then some t else s.maxTs }

/-- `Math.max(0, maxTs - minTs)` is 0 where no timestamp was a number. -/
def Span.width (s : Span) : ℤ :=
  match s.minTs, s.maxTs with
  | some m, some n => max 0 (n - m)
  | _, _ => 0

def computeGroupSpan (groupEvents : List AgentEvent) : Option ℤ :=
  if groupEvents.length < 2 then none else some (groupEvents.foldl Span.see {}).width

def badge (s : Segment) : Option (GroupStatus × Option ℤ) :=
  if s.key.isSome ∧ 2 ≤ s.items.length then
    (deriveGroupStatus s.items).map fun status => (status, computeGroupSpan s.items)
  else none

section Status

variable {events : List AgentEvent}

def Steps (events : List AgentEvent) (type : String) : Prop :=
  ∃ e ∈ events, e.tool = "runtime" ∧ e.type = type

theorem see_flags (w : WorkSteps) (events : List AgentEvent) :
    ((events.foldl WorkSteps.see w).hasWorkReceived = true ↔
        w.hasWorkReceived = true ∨ Steps events "work_received") ∧
      ((events.foldl WorkSteps.see w).hasWorkCompleted = true ↔
        w.hasWorkCompleted = true ∨ Steps events "work_completed") ∧
      ((events.foldl WorkSteps.see w).hasWorkFailed = true ↔
        w.hasWorkFailed = true ∨ Steps events "work_failed") := by
  induction events generalizing w with
  | nil => simp [Steps]
  | cons e events ih =>
    obtain ⟨hreceived, hcompleted, hfailed⟩ := ih (w.see e)
    have hsteps : ∀ type, Steps (e :: events) type ↔
        (e.tool = "runtime" ∧ e.type = type) ∨ Steps events type := by
      simp [Steps]
    simp only [List.foldl_cons, hsteps]
    rw [hreceived, hcompleted, hfailed]
    unfold WorkSteps.see workStepTypes
    by_cases htool : e.tool = "runtime"
    · by_cases hr : e.type = "work_received"
      · simp [htool, hr]
      · by_cases hc : e.type = "work_completed"
        · simp [htool, hc]
        · by_cases hf : e.type = "work_failed" <;> simp [htool, hr, hc, hf]
    · simp [htool]

/-- A failure counts more than a completion, and that more than a beginning. -/
theorem deriveGroupStatus_iff (events : List AgentEvent) :
    (deriveGroupStatus events = some .failed ↔ Steps events "work_failed") ∧
      (deriveGroupStatus events = some .completed ↔
        Steps events "work_completed" ∧ ¬Steps events "work_failed") ∧
      (deriveGroupStatus events = some .inProgress ↔
        Steps events "work_received" ∧ ¬Steps events "work_completed" ∧
          ¬Steps events "work_failed") := by
  obtain ⟨hreceived, hcompleted, hfailed⟩ := see_flags {} events
  simp only [Bool.false_eq_true, false_or] at hreceived hcompleted hfailed
  unfold deriveGroupStatus
  rw [← hreceived, ← hcompleted, ← hfailed]
  clear hreceived hcompleted hfailed
  generalize events.foldl WorkSteps.see {} = w
  obtain ⟨received, completed, failed⟩ := w
  cases received <;> cases completed <;> cases failed <;> simp

end Status

section Segments

variable {events : List AgentEvent} {groups : String → Option String} {s : Segment}

/-- Every event is in a segment of its group, in the order of the timeline.  A group has one segment
exactly when its events stand together; then its segment has all of them. -/
theorem buildSegments_faithful (events : List AgentEvent) (groups : String → Option String) :
    (buildSegments events groups).flatMap Run.items = events ∧
      (∀ s ∈ buildSegments events groups, s.items ≠ [] ∧ (s.key = none → s.items.length = 1) ∧
        ∀ e ∈ s.items, groups e.id = s.key) ∧
      (((buildSegments events groups).filterMap Run.key).Nodup ↔
        Together (groupOf groups) events) ∧
      (Together (groupOf groups) events → ∀ s ∈ buildSegments events groups, ∀ g,
        s.key = some g → s.items = events.filter fun e => groups e.id = some g) := by
  have hcuts : Cuts (groupOf groups) (buildSegments events groups) events :=
    cuts_runs (groupOf groups) events
  refine ⟨hcuts.flat, ?_, hcuts.nodup_iff, ?_⟩
  · intro s hs
    refine ⟨hcuts.nonempty s hs, fun hnone => ?_, hcuts.uniform s hs⟩
    obtain ⟨e, he⟩ := hcuts.single s hs hnone
    rw [he]
    rfl
  · intro htogether s hs g hg
    exact hcuts.items_eq (hcuts.nodup htogether) hs hg

/-- A badge tells of the segment, and of the whole group only where the group stands together. -/
theorem badge_of_together (htogether : Together (groupOf groups) events)
    (hs : s ∈ buildSegments events groups) {g : String} (hg : s.key = some g) {status : GroupStatus} {span : Option ℤ}
    (hbadge : badge s = some (status, span)) :
    deriveGroupStatus (events.filter fun e => groups e.id = some g) = some status ∧
      computeGroupSpan (events.filter fun e => groups e.id = some g) = span := by
  have hcuts : Cuts (groupOf groups) (buildSegments events groups) events :=
    cuts_runs (groupOf groups) events
  have hitems : s.items = events.filter fun e => groups e.id = some g :=
    hcuts.items_eq (hcuts.nodup htogether) hs hg
  unfold badge at hbadge
  split at hbadge
  · obtain ⟨found, hfound, hpair⟩ := Option.map_eq_some_iff.mp hbadge
    cases hpair
    rw [← hitems]
    exact ⟨hfound, rfl⟩
  · cases hbadge

end Segments

end Hill90.View.Segments
