import Mathlib.Logic.Function.Basic
import Hill90.Foundation.Alarm

/-! # Journal entries that keep failing

`journal-gaps.ts`: the failures in a row of each agent's journal, and the notice to its owner
that they have become persistent.  The callbacks of different agents come in any order.
-/

namespace Hill90.Chat.JournalGaps

def persistentAfter : ℕ := 3

structure Streak where
  count : ℕ
  firstFailedAt : ℕ
  reason : String
  notified : Bool
  deriving DecidableEq

/-- `notify` with its receiver, the agent, the number of failures and the reason. -/
structure Notice where
  ownerSub : String
  agentSlug : String
  consecutiveFailures : ℕ
  reason : String
  deriving DecidableEq

abbrev Streaks := String → Option Streak

/-- `ownerSub` is falsy where it is absent or empty. -/
def known (ownerSub : Option String) : Bool := ownerSub.any fun sub => sub ≠ ""

def nextStreak (prev : Option Streak) (now : ℕ) (reason : String) : Streak :=
  match prev with
  | some prev => { prev with count := prev.count + 1, reason }
  | none => ⟨1, now, reason, false⟩

def recordJournalFailure (streaks : Streaks) (now : ℕ) (agentSlug : String)
    (ownerSub : Option String) (reason : String) : Option Notice × Streaks :=
  let streak := nextStreak (streaks agentSlug) now reason
  if persistentAfter ≤ streak.count ∧ streak.notified = false ∧ known ownerSub = true then
    (some ⟨ownerSub.getD "", agentSlug, streak.count, reason⟩,
      Function.update streaks agentSlug (some { streak with notified := true }))
  else (none, Function.update streaks agentSlug (some streak))

def recordJournalSuccess (streaks : Streaks) (agentSlug : String) : Streaks :=
  Function.update streaks agentSlug none

inductive Report where
  | failed (now : ℕ) (ownerSub : Option String) (reason : String)
  | appended

structure Log where
  notices : List Notice := []
  streaks : Streaks := fun _ => none

def Log.record (l : Log) (r : String × Report) : Log :=
  match r.2 with
  | .failed now ownerSub reason =>
    ⟨l.notices ++ (recordJournalFailure l.streaks now r.1 ownerSub reason).1.toList,
      (recordJournalFailure l.streaks now r.1 ownerSub reason).2⟩
  | .appended => ⟨l.notices, recordJournalSuccess l.streaks r.1⟩

def record (reports : List (String × Report)) : Log := reports.foldl Log.record {}

def Report.beat : Report → Beat
  | .failed _ ownerSub _ => .failure (known ownerSub)
  | .appended => .success

def about (agentSlug : String) (reports : List (String × Report)) : List Beat :=
  (reports.filter fun r => r.1 = agentSlug).map fun r => r.2.beat

def outages (agentSlug : String) (reports : List (String × Report)) : List (Runs.Run Unit Beat) :=
  Runs.runs Alarm.outage (about agentSlug reports)

section Notices

variable {reports : List (String × Report)} {r : String × Report} {agentSlug : String}

theorem about_concat : about agentSlug (reports ++ [r]) =
    if r.1 = agentSlug then about agentSlug reports ++ [r.2.beat] else about agentSlug reports := by
  by_cases h : r.1 = agentSlug <;> simp [about, h]

theorem record_concat : record (reports ++ [r]) = (record reports).record r := by
  simp [record]

/-- A notice names the agent whose entry failed, after enough failures, to an owner that is known. -/
theorem notice_of_failure {streaks : Streaks} {now : ℕ} {ownerSub : Option String} {reason : String}
    {n : Notice} (h : (recordJournalFailure streaks now agentSlug ownerSub reason).1 = some n) :
    n.agentSlug = agentSlug ∧ ownerSub = some n.ownerSub ∧ n.ownerSub ≠ "" ∧
      persistentAfter ≤ n.consecutiveFailures ∧ n.reason = reason := by
  unfold recordJournalFailure at h
  dsimp only at h
  split at h
  · rename_i hdue
    cases h
    obtain ⟨hcount, -, hknown⟩ := hdue
    cases ownerSub with
    | none => cases hknown
    | some sub => exact ⟨rfl, rfl, by simpa [known] using hknown, hcount, rfl⟩
  · cases h

theorem streaks_record_of_ne (l : Log) (h : r.1 ≠ agentSlug) :
    (l.record r).streaks agentSlug = l.streaks agentSlug := by
  unfold Log.record
  split
  · unfold recordJournalFailure
    dsimp only
    split
    · exact Function.update_of_ne h.symm _ _
    · exact Function.update_of_ne h.symm _ _
  · exact Function.update_of_ne h.symm _ _

structure Matches (agentSlug : String) (l : Log) (w : ℕ × Alarm) : Prop where
  notices : l.notices.countP (fun n => n.agentSlug = agentSlug) = w.1
  streak : (l.streaks agentSlug = none ∧ w.2 = {}) ∨
    ∃ s, l.streaks agentSlug = some s ∧ s.count = w.2.count ∧ s.notified = w.2.rung

theorem Matches.other {l : Log} {w : ℕ × Alarm} (h : Matches agentSlug l w) (hne : r.1 ≠ agentSlug) :
    Matches agentSlug (l.record r) w := by
  refine ⟨?_, ?_⟩
  · rw [← h.notices]
    unfold Log.record
    split
    · rename_i now ownerSub reason _
      rw [List.countP_append]
      cases hn : (recordJournalFailure l.streaks now r.1 ownerSub reason).1 with
      | none => simp
      | some n => simp [(notice_of_failure hn).1, hne]
    · rfl
  · rw [streaks_record_of_ne l hne]
    exact h.streak

theorem Matches.same {l : Log} {w : ℕ × Alarm} (h : Matches agentSlug l w) (report : Report) :
    Matches agentSlug (l.record (agentSlug, report))
      (w.1 + (Alarm.beat persistentAfter w.2 report.beat).1.toNat,
        (Alarm.beat persistentAfter w.2 report.beat).2) := by
  cases report with
  | appended =>
    refine ⟨by simpa [Log.record, Report.beat, Alarm.beat] using h.notices, .inl ⟨?_, rfl⟩⟩
    simp [Log.record, recordJournalSuccess]
  | failed now ownerSub reason =>
    have hstreak : ∃ first why, nextStreak (l.streaks agentSlug) now reason =
        ⟨w.2.count + 1, first, why, w.2.rung⟩ := by
      obtain ⟨hnone, hw⟩ | ⟨s, hs, hcount, hrung⟩ := h.streak
      · rw [hnone, hw]
        exact ⟨now, reason, rfl⟩
      · rw [hs, ← hcount, ← hrung]
        exact ⟨s.firstFailedAt, reason, rfl⟩
    obtain ⟨first, why, hstreak⟩ := hstreak
    have hnotices := h.notices
    simp only [Log.record, recordJournalFailure, hstreak, Report.beat, Alarm.beat]
    split
    · refine ⟨?_, .inr ⟨_, Function.update_self _ _ _, ?_, ?_⟩⟩
      · simp [hnotices]
      · simp
      · simp
    · refine ⟨?_, .inr ⟨_, Function.update_self _ _ _, ?_, ?_⟩⟩
      · simp [hnotices]
      · simp
      · simp

theorem matches_record (agentSlug : String) (reports : List (String × Report)) :
    Matches agentSlug (record reports) (Alarm.watch persistentAfter (about agentSlug reports)) := by
  induction reports using List.reverseRecOn with
  | nil => exact ⟨rfl, .inl ⟨rfl, rfl⟩⟩
  | append_singleton reports r ih =>
    rw [record_concat, about_concat]
    split
    · rename_i hr
      obtain ⟨slug, report⟩ := r
      cases hr
      rw [Alarm.watch_concat]
      exact ih.same report
    · rename_i hr
      exact ih.other hr

/-- Each notice goes to the owner that a failed callback of its agent has named. -/
theorem receiver_of_notice {n : Notice} (h : n ∈ (record reports).notices) :
    ∃ now, (n.agentSlug, .failed now (some n.ownerSub) n.reason) ∈ reports ∧ n.ownerSub ≠ "" ∧
      persistentAfter ≤ n.consecutiveFailures := by
  induction reports using List.reverseRecOn with
  | nil => cases h
  | append_singleton reports r ih =>
    have hold : n ∈ (record reports).notices → ∃ now,
        (n.agentSlug, .failed now (some n.ownerSub) n.reason) ∈ reports ++ [r] ∧ n.ownerSub ≠ "" ∧
          persistentAfter ≤ n.consecutiveFailures := by
      intro hn
      obtain ⟨now, hmem, hrest⟩ := ih hn
      exact ⟨now, List.mem_append_left _ hmem, hrest⟩
    obtain ⟨slug, report⟩ := r
    rw [record_concat] at h
    cases report with
    | appended => exact hold h
    | failed now ownerSub reason =>
      obtain hn | hn := List.mem_append.mp h
      · exact hold hn
      · obtain ⟨hslug, howner, hknown, hcount, hreason⟩ := notice_of_failure (Option.mem_toList.mp hn)
        refine ⟨now, List.mem_append_right _ ?_, hknown, hcount⟩
        rw [hslug, ← howner, hreason]
        exact List.mem_singleton_self _

/-- Whatever the callbacks of all agents report, in any order: there is one notice for each outage
of an agent's journal in which, from the third failure on, an owner was known, and no other; and
each goes to an owner that a failure of the agent has named. -/
theorem notices_eq_outages (agentSlug : String) (reports : List (String × Report)) :
    (record reports).notices.countP (fun n => n.agentSlug = agentSlug) =
        (outages agentSlug reports).countP (fun o =>
          o.key ≠ none ∧ .failure true ∈ o.items.drop (persistentAfter - 1)) ∧
      ∀ n ∈ (record reports).notices, n.agentSlug = agentSlug →
        ∃ now, (agentSlug, .failed now (some n.ownerSub) n.reason) ∈ reports ∧ n.ownerSub ≠ "" ∧
          persistentAfter ≤ n.consecutiveFailures := by
  constructor
  · rw [(matches_record agentSlug reports).notices, Alarm.watch_rings]
    rfl
  · rintro n hn rfl
    exact receiver_of_notice hn

end Notices

end Hill90.Chat.JournalGaps
