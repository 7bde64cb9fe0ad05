import Hill90.Foundation.Utf8
import Hill90.Foundation.Machine
import Mathlib.Data.Nat.Notation

/-! # The two ways to run a command

`execute` and `execute_streaming` of `policy.py`, from where the child has been spawned: the child writes
to two pipes, which hold only so many bytes, and `communicate` reads both of them, where the loop over
the lines of `stdout` reads one after the other.
-/

namespace Hill90.Agentbox.Execution

open Utf8 (Bytes)

inductive Stream where
  | stdout
  | stderr
  deriving DecidableEq

/-- What a child does next: it writes a byte, or closes one of its pipes. -/
inductive Action where
  | write (stream : Stream) (byte : UInt8)
  | close (stream : Stream)
  deriving DecidableEq

structure Child where
  script : List Action
  exitCode : ℤ
  deriving DecidableEq

inductive Entry where
  | execute
  | executeStreaming
  deriving DecidableEq

/-- A decoder with `text=True`; `fails` says that it has met bytes that no text has, and `lines` is the
text of the lines that have ended. -/
structure Codec where
  decode : Bytes → Except String (List Char)
  fails : Bytes → Bool
  lines : Bytes → List Char
  decode_of_fails (a b : Bytes) : fails a = true → ∃ e, decode (a ++ b) = .error e

/-- A pipe: what it holds, what has been read, whether its write end is closed, and whether it will not
be read again. -/
structure Pipe where
  buffer : Bytes := []
  read : Bytes := []
  closed : Bool := false
  done : Bool := false
  deriving DecidableEq

structure State where
  script : List Action
  exited : Bool := false
  timedOut : Bool := false
  pipes : Stream → Pipe := fun _ => {}
  stdoutText : List Char := []
  returned : Bool := false

inductive Event where
  | act
  | exit
  | expire
  | read (stream : Stream) (n : ℕ)
  | endOfFile (stream : Stream)
  | finish
  deriving DecidableEq

structure LineCount where
  emitted : ℕ
  total : ℕ
  deriving DecidableEq

structure Report where
  success : Bool
  exitCode : ℤ
  stdout : List Char
  stderr : List Char
  stdoutTruncated : Bool
  stdoutCharsTotal : ℕ
  stderrTruncated : Bool
  stderrCharsTotal : ℕ
  lines : Option LineCount := none
  deriving DecidableEq

inductive Outcome where
  | failed (error : String)
  | finished (report : Report)
  deriving DecidableEq

section Source

def stdoutLimitChars : ℕ := 100000

def stderrLimitChars : ℕ := 10000

def truncateWithDisclosure (text : List Char) (limit : ℕ) : List Char × Bool × ℕ :=
  if text.length ≤ limit then (text, false, text.length) else (text.take limit, true, text.length)

def report (exitCode : ℤ) (stdout stderr : List Char) (lines : Option LineCount) : Report :=
  let out := truncateWithDisclosure stdout stdoutLimitChars
  let err := truncateWithDisclosure stderr stderrLimitChars
  { success := exitCode = 0
    exitCode := exitCode
    stdout := out.1
    stderr := err.1
    stdoutTruncated := out.2.1
    stdoutCharsTotal := out.2.2
    stderrTruncated := err.2.1
    stderrCharsTotal := err.2.2
    lines := lines }

def lineCount (text : List Char) : ℕ :=
  text.count '\n' + if text.getLast?.any (· ≠ '\n') then 1 else 0

variable (codec : Codec) (capacity : ℕ) (entry : Entry)

namespace State

variable (s : State)

def setPipe (stream : Stream) (p : Pipe) : State :=
  { s with pipes := fun x => if x = stream then p else s.pipes x }

def closeAll : State := { s with pipes := fun stream => { s.pipes stream with closed := true } }

def reads (stream : Stream) : Bool :=
  !(s.pipes stream).done &&
    match entry, stream with
    | .execute, _ | .executeStreaming, .stdout => true
    | .executeStreaming, .stderr => (s.pipes .stdout).done

/-- The next action of the child. A write waits for room, and is lost where the pipe is closed. -/
def act : Option State :=
  match s.script with
  | [] => none
  | .write stream byte :: script =>
    let p := s.pipes stream
    if p.closed then some { s with script := script }
    else if p.buffer.length < capacity then
      some (({ s with script := script } : State).setPipe stream { p with buffer := p.buffer ++ [byte] })
    else none
  | .close stream :: script =>
    some (({ s with script := script } : State).setPipe stream { s.pipes stream with closed := true })

/-- Some of what a pipe holds is read.  A `ValueError` ends the loop over the lines. -/
def take (stream : Stream) (n : ℕ) : State :=
  let p := s.pipes stream
  let next := { p with buffer := p.buffer.drop n, read := p.read ++ p.buffer.take n }
  if entry = .executeStreaming ∧ stream = .stdout ∧ codec.fails next.read then
    ({ s with stdoutText := codec.lines p.read } : State).setPipe stream { next with done := true }
  else s.setPipe stream next

def stop (stream : Stream) : State :=
  let p := s.pipes stream
  let text := match codec.decode p.read with
    | .ok text => text
    | .error _ => codec.lines p.read
  ({ s with stdoutText := if stream = .stdout then text else s.stdoutText } : State).setPipe stream
    { p with done := true }

def step (e : Event) : Option State :=
  if s.returned then none
  else
    match e with
    | .act => s.act capacity
    | .exit =>
      if s.script = [] ∧ s.exited = false then some { s.closeAll with exited := true } else none
    | .expire =>
      if s.exited = false then
        some { s.closeAll with script := [], exited := true, timedOut := true }
      else none
    | .read stream n =>
      if s.reads entry stream ∧ 0 < n ∧ n ≤ (s.pipes stream).buffer.length then
        some (s.take codec entry stream n)
      else none
    | .endOfFile stream =>
      if s.reads entry stream ∧ (s.pipes stream).buffer = [] ∧ (s.pipes stream).closed then
        some (s.stop codec stream)
      else none
    | .finish =>
      if (s.pipes .stdout).done ∧ (s.pipes .stderr).done ∧ s.exited then
        some { s with returned := true }
      else none

def outcome (timeout : ℕ) (onOutput : Bool) (maxLines : ℕ) (exitCode : ℤ) : Option Outcome :=
  if !s.returned then none
  else
    let expired := Outcome.failed s!"Timed out after {timeout}s"
    some (match entry with
      | .execute =>
        if s.timedOut then expired
        else
          match codec.decode (s.pipes .stdout).read with
          | .error e => .failed e
          | .ok stdout =>
            match codec.decode (s.pipes .stderr).read with
            | .error e => .failed e
            | .ok stderr => .finished (report exitCode stdout stderr none)
      | .executeStreaming =>
        match codec.decode (s.pipes .stderr).read with
        | .error e => .failed e
        | .ok stderr =>
          if s.timedOut then expired
          else
            let total := lineCount s.stdoutText
            let emitted := if onOutput then min maxLines total else 0
            .finished (report exitCode s.stdoutText stderr (some ⟨emitted, total⟩)))

end State

def machine (child : Child) : Machine State Event where
  initial s := s = { script := child.script }
  step s := s.step codec capacity entry

end Source

section Claims

def written (stream : Stream) : Bool → List Action → Bytes
  | _, [] => []
  | closed, .write x byte :: script =>
    if x = stream ∧ closed = false then byte :: written stream closed script
    else written stream closed script
  | closed, .close x :: script => written stream (closed || x = stream) script

def early : Bool → Bool → List Action → Bytes
  | _, _, [] => []
  | out, err, .write x byte :: script =>
    if x = .stderr ∧ out = false ∧ err = false then byte :: early out err script
    else early out err script
  | out, err, .close x :: script => early (out || x = .stdout) (err || x = .stderr) script

def InTime (_ : State) (e : Event) : Prop := e ≠ .expire

end Claims

/-- What has been read from a pipe, what it holds and what is still to be written is all that the child
writes to it. -/
structure Pipe.Kept (capacity : ℕ) (script rest : List Action) (x : Stream) (p : Pipe) : Prop where
  whole : p.read ++ (p.buffer ++ written x p.closed rest) = written x false script
  bounded : p.buffer.length ≤ capacity
  drained : p.done = true → p.closed = true ∧ p.buffer = []

/-- Before `stdout` is done, what has been written to `stderr` is in its pipe. -/
structure Kept (codec : Codec) (capacity : ℕ) (entry : Entry) (script : List Action) (s : State) :
    Prop where
  pipes (x : Stream) : (s.pipes x).Kept capacity script s.script x
  ended : s.exited = true → s.script = [] ∧ ∀ x, (s.pipes x).closed = true
  inTime : s.timedOut = false
  text : entry = .executeStreaming → (s.pipes .stdout).done = true →
    codec.decode (s.pipes .stdout).read = .ok s.stdoutText
  returned : s.returned = true → (∀ x, (s.pipes x).done = true) ∧ s.exited = true
  unread : entry = .executeStreaming → (s.pipes .stdout).done = false →
    (s.pipes .stderr).read = [] ∧
      (early false false script).length ≤ (s.pipes .stderr).buffer.length +
        (early (s.pipes .stdout).closed (s.pipes .stderr).closed s.script).length ∧
      ((s.pipes .stdout).closed = false → (s.pipes .stderr).buffer.length +
        (early false (s.pipes .stderr).closed s.script).length ≤ (early false false script).length)
  fits : entry = .executeStreaming → (s.pipes .stdout).done = true →
    (early false false script).length ≤ capacity

section Writes

variable {x y : Stream} {byte : UInt8} {closed errClosed : Bool} {script : List Action}

theorem written_closed (x : Stream) (script : List Action) : written x true script = [] := by
  induction script with
  | nil => rfl
  | cons action script ih =>
    cases action with
    | write y byte =>
      rw [written, if_neg (by simp)]
      exact ih
    | close y => exact ih

theorem written_write_ne (h : y ≠ x) :
    written x closed (.write y byte :: script) = written x closed script :=
  if_neg fun heq => h heq.1

theorem written_write (x : Stream) :
    written x false (.write x byte :: script) = byte :: written x false script :=
  if_pos ⟨rfl, rfl⟩

theorem written_close_ne (h : y ≠ x) : written x closed (.close y :: script) = written x closed script := by
  rw [written, decide_eq_false h, Bool.or_false]

theorem written_close (x : Stream) : written x closed (.close x :: script) = [] := by
  rw [written, decide_eq_true rfl, Bool.or_true, written_closed]

theorem early_closed (errClosed : Bool) (script : List Action) : early true errClosed script = [] := by
  induction script generalizing errClosed with
  | nil => rfl
  | cons action script ih =>
    cases action with
    | write y byte =>
      rw [early, if_neg (by simp)]
      exact ih errClosed
    | close y => exact ih _

theorem early_lost (h : y = .stdout ∨ errClosed = true) :
    early closed errClosed (.write y byte :: script) = early closed errClosed script := by
  refine if_neg ?_
  rintro ⟨rfl, -, hopen⟩
  obtain hy | hclosed := h
  · cases hy
  · cases hopen.symm.trans hclosed

theorem early_write : early false false (.write .stderr byte :: script) =
    byte :: early false false script :=
  if_pos ⟨rfl, rfl, rfl⟩

theorem early_close_stdout : early closed errClosed (.close .stdout :: script) = [] := by
  rw [early, decide_eq_true rfl, Bool.or_true, early_closed]

theorem early_close_stderr :
    early closed errClosed (.close .stderr :: script) = early closed true script := by
  rw [early, decide_eq_true rfl, Bool.or_true, decide_eq_false nofun, Bool.or_false]

end Writes

section Steps

variable {codec : Codec} {capacity : ℕ} {entry : Entry} {script : List Action} {s t : State}

@[simp]
theorem pipes_setPipe_self (s : State) (x : Stream) (p : Pipe) : (s.setPipe x p).pipes x = p :=
  if_pos rfl

theorem pipes_setPipe_ne {x y : Stream} (h : y ≠ x) (s : State) (p : Pipe) :
    (s.setPipe x p).pipes y = s.pipes y := if_neg h

theorem forall_setPipe {P : Stream → Pipe → Prop} {x : Stream} {p : Pipe} (hx : P x p)
    (h : ∀ y, y ≠ x → P y (s.pipes y)) (y : Stream) : P y ((s.setPipe x p).pipes y) := by
  by_cases hy : y = x
  · subst hy
    rwa [pipes_setPipe_self]
  · rw [pipes_setPipe_ne hy]
    exact h y hy

theorem Pipe.Kept.of_written {rest rest' : List Action} {x : Stream} {p : Pipe}
    (h : p.Kept capacity script rest x) (heq : written x p.closed rest' = written x p.closed rest) :
    p.Kept capacity script rest' x := ⟨heq ▸ h.whole, h.bounded, h.drained⟩

theorem Pipe.Kept.not_done {rest : List Action} {x : Stream} {p : Pipe}
    (h : p.Kept capacity script rest x) (hopen : p.closed = false) : p.done = false := by
  cases hdone : p.done with
  | false => rfl
  | true => cases hopen.symm.trans (h.drained hdone).1

theorem kept_initial (script : List Action) : Kept codec capacity entry script { script := script } :=
  ⟨fun _ => ⟨rfl, Nat.zero_le _, nofun⟩, nofun, rfl, nofun, nofun,
    fun _ _ => ⟨rfl, by simp, by simp⟩, nofun⟩

/-- A write that is lost. -/
theorem Kept.lose (h : Kept codec capacity entry script s) {x : Stream} {byte : UInt8}
    {rest : List Action} (hscript : s.script = .write x byte :: rest)
    (hclosed : (s.pipes x).closed = true) : Kept codec capacity entry script { s with script := rest } := by
  constructor
  · intro y
    refine (h.pipes y).of_written ?_
    rw [hscript]
    by_cases hy : x = y
    · subst hy
      rw [hclosed, written_closed, written_closed]
    · rw [written_write_ne hy]
  · intro hexited
    have hnil := (h.ended hexited).1
    rw [hscript] at hnil
    cases hnil
  · exact h.inTime
  · exact h.text
  · exact h.returned
  · intro hentry hdone
    have hunread := h.unread hentry hdone
    rw [hscript] at hunread
    cases x with
    | stdout => rwa [early_lost (.inl rfl), early_lost (.inl rfl)] at hunread
    | stderr => rwa [early_lost (.inr hclosed), early_lost (.inr hclosed)] at hunread
  · exact h.fits

/-- A write to a pipe that has room. -/
theorem Kept.write (h : Kept codec capacity entry script s) {x : Stream} {byte : UInt8}
    {rest : List Action} (hscript : s.script = .write x byte :: rest)
    (hopen : (s.pipes x).closed = false) (hroom : (s.pipes x).buffer.length < capacity) :
    Kept codec capacity entry script (({ s with script := rest } : State).setPipe x
      { s.pipes x with buffer := (s.pipes x).buffer ++ [byte] }) := by
  have hdone : (s.pipes x).done = false := (h.pipes x).not_done hopen
  have hne : Stream.stdout ≠ .stderr := nofun
  constructor
  · apply forall_setPipe (P := fun y p => p.Kept capacity script rest y)
    · refine ⟨?_, ?_, fun hdone' => ?_⟩
      · have hwhole := (h.pipes x).whole
        rw [hscript, hopen, written_write] at hwhole
        change _ ++ (_ ++ [byte] ++ written x (s.pipes x).closed rest) = _
        rw [hopen, List.append_assoc, List.singleton_append]
        exact hwhole
      · rw [List.length_append]
        exact hroom
      · cases hdone.symm.trans hdone'
    · intro y hy
      refine (h.pipes y).of_written ?_
      rw [hscript, written_write_ne (Ne.symm hy)]
  · intro hexited
    have hnil := (h.ended hexited).1
    rw [hscript] at hnil
    cases hnil
  · exact h.inTime
  · intro hentry hout
    cases x with
    | stdout =>
      rw [pipes_setPipe_self, hdone] at hout
      cases hout
    | stderr =>
      rw [pipes_setPipe_ne hne] at hout ⊢
      exact h.text hentry hout
  · intro hreturned
    rw [(h.returned hreturned).1 x] at hdone
    cases hdone
  · intro hentry hout
    cases x with
    | stdout =>
      have hunread := h.unread hentry hdone
      rw [hscript, early_lost (.inl rfl), early_lost (.inl rfl)] at hunread
      rw [pipes_setPipe_self, pipes_setPipe_ne hne.symm]
      exact hunread
    | stderr =>
      rw [pipes_setPipe_ne hne] at hout
      obtain ⟨hread, hle, hge⟩ := h.unread hentry hout
      rw [pipes_setPipe_self, pipes_setPipe_ne hne]
      rw [hopen, hscript] at hle hge
      rw [early_write] at hge
      refine ⟨hread, ?_, ?_⟩
      · change _ ≤ (_ ++ [byte]).length + (early (s.pipes .stdout).closed (s.pipes .stderr).closed rest).length
        rw [hopen, List.length_append, List.length_singleton]
        cases hclosed : (s.pipes .stdout).closed with
        | true =>
          rw [hclosed, early_closed] at hle
          rw [early_closed]
          simp only [List.length_nil] at hle ⊢
          omega
        | false =>
          rw [hclosed, early_write, List.length_cons] at hle
          omega
      · intro hclosed
        have hle' := hge hclosed
        change (_ ++ [byte]).length + (early false (s.pipes .stderr).closed rest).length ≤ _
        rw [hopen, List.length_append, List.length_singleton]
        rw [List.length_cons] at hle'
        omega
  · intro hentry hout
    cases x with
    | stdout =>
      rw [pipes_setPipe_self, hdone] at hout
      cases hout
    | stderr =>
      rw [pipes_setPipe_ne hne] at hout
      exact h.fits hentry hout

theorem Kept.close (h : Kept codec capacity entry script s) {x : Stream} {rest : List Action}
    (hscript : s.script = .close x :: rest) :
    Kept codec capacity entry script (({ s with script := rest } : State).setPipe x
      { s.pipes x with closed := true }) := by
  have hne : Stream.stdout ≠ .stderr := nofun
  have hrunning : s.exited = true → False := by
    intro hexited
    have hnil := (h.ended hexited).1
    rw [hscript] at hnil
    cases hnil
  constructor
  · apply forall_setPipe (P := fun y p => p.Kept capacity script rest y)
    · refine ⟨?_, (h.pipes x).bounded, fun hdone => ⟨rfl, ((h.pipes x).drained hdone).2⟩⟩
      have hwhole := (h.pipes x).whole
      rw [hscript, written_close] at hwhole
      change _ ++ (_ ++ written x true rest) = _
      rwa [written_closed]
    · intro y hy
      refine (h.pipes y).of_written ?_
      rw [hscript, written_close_ne (Ne.symm hy)]
  · exact fun hexited => (hrunning hexited).elim
  · exact h.inTime
  · intro hentry hdone
    cases x with
    | stdout =>
      rw [pipes_setPipe_self] at hdone ⊢
      exact h.text hentry hdone
    | stderr =>
      rw [pipes_setPipe_ne hne] at hdone ⊢
      exact h.text hentry hdone
  · exact fun hreturned => (hrunning (h.returned hreturned).2).elim
  · intro hentry hdone
    cases x with
    | stdout =>
      rw [pipes_setPipe_self] at hdone
      obtain ⟨hread, hle, -⟩ := h.unread hentry hdone
      rw [hscript, early_close_stdout] at hle
      rw [pipes_setPipe_self, pipes_setPipe_ne hne.symm]
      refine ⟨hread, ?_, nofun⟩
      change _ ≤ _ + (early true (s.pipes .stderr).closed rest).length
      rwa [early_closed]
    | stderr =>
      rw [pipes_setPipe_ne hne] at hdone
      have hunread := h.unread hentry hdone
      rw [hscript, early_close_stderr, early_close_stderr] at hunread
      rw [pipes_setPipe_self, pipes_setPipe_ne hne]
      exact hunread
  · intro hentry hdone
    cases x with
    | stdout =>
      rw [pipes_setPipe_self] at hdone
      exact h.fits hentry hdone
    | stderr =>
      rw [pipes_setPipe_ne hne] at hdone
      exact h.fits hentry hdone

theorem Kept.exit (h : Kept codec capacity entry script s) (hscript : s.script = []) :
    Kept codec capacity entry script { s.closeAll with exited := true } := by
  constructor
  · intro x
    refine ⟨?_, (h.pipes x).bounded, fun hdone => ⟨rfl, ((h.pipes x).drained hdone).2⟩⟩
    have hwhole := (h.pipes x).whole
    rw [hscript] at hwhole
    change (s.pipes x).read ++ ((s.pipes x).buffer ++ written x true s.script) = _
    rwa [hscript]
  · exact fun _ => ⟨hscript, fun _ => rfl⟩
  · exact h.inTime
  · exact h.text
  · exact fun hreturned => ⟨(h.returned hreturned).1, rfl⟩
  · intro hentry hdone
    obtain ⟨hread, hle, -⟩ := h.unread hentry hdone
    refine ⟨hread, ?_, nofun⟩
    change _ ≤ _ + (early true true s.script).length
    rw [hscript] at hle ⊢
    exact hle
  · exact h.fits

variable (hdecode : entry = .executeStreaming →
  ∃ text, codec.decode (written .stdout false script) = .ok text)

include hdecode in
theorem Kept.take_eq (h : Kept codec capacity entry script s) (x : Stream) (n : ℕ) :
    s.take codec entry x n = s.setPipe x { s.pipes x with
      buffer := (s.pipes x).buffer.drop n
      read := (s.pipes x).read ++ (s.pipes x).buffer.take n } := by
  refine if_neg ?_
  rintro ⟨hentry, rfl, hfails⟩
  obtain ⟨text, htext⟩ := hdecode hentry
  obtain ⟨e, he⟩ := codec.decode_of_fails _ ((s.pipes .stdout).buffer.drop n ++
    written .stdout (s.pipes .stdout).closed s.script) hfails
  have hwhole := (h.pipes .stdout).whole
  have hsplit : (s.pipes .stdout).read ++ (s.pipes .stdout).buffer.take n ++
      ((s.pipes .stdout).buffer.drop n ++ written .stdout (s.pipes .stdout).closed s.script) =
        written .stdout false script := by
    rw [← hwhole, List.append_assoc, ← List.append_assoc (List.take n _), List.take_append_drop]
  rw [hsplit, htext] at he
  cases he

theorem Kept.read (h : Kept codec capacity entry script s) {x : Stream} (n : ℕ)
    (hreturned : s.returned = false) (hreads : s.reads entry x = true) :
    Kept codec capacity entry script (s.setPipe x { s.pipes x with
      buffer := (s.pipes x).buffer.drop n
      read := (s.pipes x).read ++ (s.pipes x).buffer.take n }) := by
  have hne : Stream.stdout ≠ .stderr := nofun
  obtain ⟨hopen, hturn⟩ := Bool.and_eq_true_iff.mp hreads
  have hdone : (s.pipes x).done = false := by simpa using hopen
  constructor
  · apply forall_setPipe (P := fun y p => p.Kept capacity script s.script y)
    · refine ⟨?_, ?_, fun hdone' => ?_⟩
      · change (s.pipes x).read ++ (s.pipes x).buffer.take n ++ ((s.pipes x).buffer.drop n ++
          written x (s.pipes x).closed s.script) = _
        rw [List.append_assoc, ← List.append_assoc (List.take n _), List.take_append_drop]
        exact (h.pipes x).whole
      · rw [List.length_drop]
        exact (Nat.sub_le _ n).trans (h.pipes x).bounded
      · cases hdone.symm.trans hdone'
    · exact fun y _ => h.pipes y
  · intro hexited
    obtain ⟨hnil, hclosed⟩ := h.ended hexited
    exact ⟨hnil, forall_setPipe (P := fun _ p => p.closed = true) (hclosed x) fun y _ => hclosed y⟩
  · exact h.inTime
  · intro hentry hout
    cases x with
    | stdout =>
      rw [pipes_setPipe_self, hdone] at hout
      cases hout
    | stderr =>
      rw [pipes_setPipe_ne hne] at hout ⊢
      exact h.text hentry hout
  · intro hreturned'
    cases hreturned.symm.trans hreturned'
  · intro hentry hout
    cases x with
    | stdout =>
      rw [pipes_setPipe_self, pipes_setPipe_ne hne.symm]
      exact h.unread hentry hdone
    | stderr =>
      rw [pipes_setPipe_ne hne] at hout
      rw [hentry] at hturn
      cases hout.symm.trans hturn
  · intro hentry hout
    cases x with
    | stdout =>
      rw [pipes_setPipe_self, hdone] at hout
      cases hout
    | stderr =>
      rw [pipes_setPipe_ne hne] at hout
      exact h.fits hentry hout

include hdecode in
theorem Kept.stop (h : Kept codec capacity entry script s) {x : Stream}
    (hreturned : s.returned = false) (hreads : s.reads entry x = true)
    (hempty : (s.pipes x).buffer = []) (hclosed : (s.pipes x).closed = true) :
    Kept codec capacity entry script (s.stop codec x) := by
  have hne : Stream.stdout ≠ .stderr := nofun
  obtain ⟨hopen', hturn⟩ := Bool.and_eq_true_iff.mp hreads
  have hopen : (s.pipes x).done = false := by simpa using hopen'
  have hall : (s.pipes x).read = written x false script := by
    have hwhole := (h.pipes x).whole
    rwa [hempty, hclosed, written_closed, List.append_nil, List.append_nil] at hwhole
  unfold State.stop
  constructor
  · exact forall_setPipe (P := fun y p => p.Kept capacity script s.script y)
      ⟨(h.pipes x).whole, (h.pipes x).bounded, fun _ => ⟨hclosed, hempty⟩⟩ fun y _ => h.pipes y
  · intro hexited
    obtain ⟨hnil, hends⟩ := h.ended hexited
    exact ⟨hnil, forall_setPipe (P := fun _ p => p.closed = true) (hends x) fun y _ => hends y⟩
  · exact h.inTime
  · intro hentry hdone
    cases x with
    | stdout =>
      obtain ⟨text, htext⟩ := hdecode hentry
      have hread : codec.decode (s.pipes .stdout).read = .ok text := by rw [hall, htext]
      have hkept : (s.stop codec .stdout).stdoutText = text := by simp [State.stop, State.setPipe, hread]
      rw [pipes_setPipe_self]
      exact hread.trans (congrArg _ hkept.symm)
    | stderr =>
      rw [pipes_setPipe_ne hne] at hdone ⊢
      exact h.text hentry hdone
  · intro hreturned'
    cases hreturned.symm.trans hreturned'
  · intro hentry hdone
    cases x with
    | stdout =>
      rw [pipes_setPipe_self] at hdone
      cases hdone
    | stderr =>
      rw [pipes_setPipe_ne hne] at hdone
      rw [hentry] at hturn
      cases hdone.symm.trans hturn
  · intro hentry hdone
    cases x with
    | stdout =>
      -- all that was written early is in the pipe of `stderr`, which nobody has read
      obtain ⟨-, hle, -⟩ := h.unread hentry hopen
      rw [hclosed, early_closed] at hle
      exact hle.trans (h.pipes .stderr).bounded
    | stderr =>
      rw [pipes_setPipe_ne hne] at hdone
      exact h.fits hentry hdone

theorem Kept.finish (h : Kept codec capacity entry script s) (hstdout : (s.pipes .stdout).done = true)
    (hstderr : (s.pipes .stderr).done = true) (hexited : s.exited = true) :
    Kept codec capacity entry script { s with returned := true } := by
  refine ⟨h.pipes, h.ended, h.inTime, h.text, fun _ => ⟨fun x => ?_, hexited⟩, h.unread, h.fits⟩
  cases x with
  | stdout => exact hstdout
  | stderr => exact hstderr

theorem Kept.act (h : Kept codec capacity entry script s) (hstep : s.act capacity = some t) :
    Kept codec capacity entry script t := by
  unfold State.act at hstep
  split at hstep
  · cases hstep
  · rename_i x byte rest hscript
    dsimp only at hstep
    split at hstep
    · rename_i hclosed
      cases hstep
      exact h.lose hscript hclosed
    · rename_i hopen
      -- without room the child waits: there is no step
      split at hstep
      · rename_i hroom
        cases hstep
        exact h.write hscript (by simpa using hopen) hroom
      · cases hstep
  · rename_i x rest hscript
    cases hstep
    exact h.close hscript

include hdecode in
theorem kept_step {e : Event} (h : Kept codec capacity entry script s) (hok : InTime s e)
    (hstep : s.step codec capacity entry e = some t) : Kept codec capacity entry script t := by
  unfold State.step at hstep
  split at hstep
  · cases hstep
  rename_i hreturned
  have hreturned : s.returned = false := by simpa using hreturned
  cases e with
  | act => exact h.act hstep
  | exit =>
    obtain ⟨hguard, heq⟩ := Option.ite_none_right_eq_some.mp hstep
    cases heq
    exact h.exit hguard.1
  | expire => exact (hok rfl).elim
  | read x n =>
    obtain ⟨hguard, heq⟩ := Option.ite_none_right_eq_some.mp hstep
    cases heq
    rw [h.take_eq hdecode]
    exact h.read n hreturned hguard.1
  | endOfFile x =>
    obtain ⟨hguard, heq⟩ := Option.ite_none_right_eq_some.mp hstep
    cases heq
    exact h.stop hdecode hreturned hguard.1 hguard.2.1 hguard.2.2
  | finish =>
    obtain ⟨hguard, heq⟩ := Option.ite_none_right_eq_some.mp hstep
    cases heq
    exact h.finish hguard.1 hguard.2.1 hguard.2.2

include hdecode in
theorem kept_of_reachable {exitCode : ℤ}
    (h : (machine codec capacity entry ⟨script, exitCode⟩).ReachableIf InTime s) :
    Kept codec capacity entry script s := by
  refine h.invariant (fun s hs => ?_) fun s e t hs hok hstep => kept_step hdecode hs hok hstep
  cases (hs : s = { script := script })
  exact kept_initial script

end Steps

section Progress

variable {codec : Codec} {capacity : ℕ} {entry : Entry} {script : List Action} {s t : State}

def Pipe.toGo (p : Pipe) : ℕ := p.buffer.length + (!p.done).toNat

/-- The steps that a run has left, at most: a byte is written once and read once. -/
def State.toGo (s : State) : ℕ :=
  2 * s.script.length + (s.pipes .stdout).toGo + (s.pipes .stderr).toGo + (!s.exited).toNat +
    (!s.returned).toNat

variable (codec capacity entry) in
def Progress (s : State) : Prop :=
  ∃ e t, InTime s e ∧ s.step codec capacity entry e = some t ∧ t.toGo < s.toGo

theorem toGo_setPipe (s : State) (x : Stream) (p : Pipe) :
    (s.setPipe x p).toGo + (s.pipes x).toGo = s.toGo + p.toGo := by
  cases x <;> simp only [State.toGo, State.setPipe, if_true, if_false, reduceCtorEq] <;> omega

theorem toGo_setPipe_lt {x : Stream} {p : Pipe} (h : p.toGo < (s.pipes x).toGo) :
    (s.setPipe x p).toGo < s.toGo := by
  have hgo := toGo_setPipe s x p
  omega

variable (hdecode : entry = .executeStreaming →
  ∃ text, codec.decode (written .stdout false script) = .ok text)

include hdecode in
/-- A pipe that is read and holds something, or is closed, can be read on. -/
theorem Kept.consume (h : Kept codec capacity entry script s) (hreturned : s.returned = false)
    {x : Stream} (hreads : s.reads entry x = true)
    (hready : (s.pipes x).buffer ≠ [] ∨ (s.pipes x).closed = true) : Progress codec capacity entry s := by
  have hopen : (s.pipes x).done = false := by simpa using (Bool.and_eq_true_iff.mp hreads).1
  by_cases hempty : (s.pipes x).buffer = []
  · have hclosed : (s.pipes x).closed = true := hready.resolve_left (absurd hempty)
    refine ⟨.endOfFile x, s.stop codec x, nofun, ?_, ?_⟩
    · simp [State.step, hreturned, hreads, hempty, hclosed]
    · have hgo := toGo_setPipe { s with stdoutText := (s.stop codec x).stdoutText } x
        { s.pipes x with done := true }
      change (s.stop codec x).toGo + _ = s.toGo + _ at hgo
      simp only [Pipe.toGo, hopen, Bool.not_true, Bool.not_false, Bool.toNat_true, Bool.toNat_false] at hgo
      omega
  · have hpos : 0 < (s.pipes x).buffer.length := List.length_pos_of_ne_nil hempty
    refine ⟨.read x (s.pipes x).buffer.length, s.take codec entry x (s.pipes x).buffer.length, nofun, ?_, ?_⟩
    · simp [State.step, hreturned, hreads, hpos]
    · rw [h.take_eq hdecode]
      refine toGo_setPipe_lt ?_
      simp only [Pipe.toGo, List.length_drop]
      omega

include hdecode in
theorem Kept.collect (h : Kept codec capacity entry script s) (hreturned : s.returned = false)
    (hexited : s.exited = true) : Progress codec capacity entry s := by
  have hclosed := (h.ended hexited).2
  cases hstdout : (s.pipes .stdout).done with
  | false =>
    exact h.consume hdecode hreturned (x := .stdout) (by cases entry <;> simp [State.reads, hstdout])
      (.inr (hclosed _))
  | true =>
    cases hstderr : (s.pipes .stderr).done with
    | false =>
      exact h.consume hdecode hreturned (x := .stderr)
        (by cases entry <;> simp [State.reads, hstdout, hstderr]) (.inr (hclosed _))
    | true =>
      refine ⟨.finish, { s with returned := true }, nofun, ?_, ?_⟩
      · simp [State.step, hreturned, hstdout, hstderr, hexited]
      · simp [State.toGo, hreturned]

include hdecode in
/-- A child that waits for room has a reader, unless what it writes early is more than the pipe holds. -/
theorem Kept.relieve (h : Kept codec capacity entry script s) (hpos : 0 < capacity)
    (hfits : entry = .executeStreaming → (early false false script).length ≤ capacity)
    (hreturned : s.returned = false) {x : Stream} {byte : UInt8} {rest : List Action}
    (hscript : s.script = .write x byte :: rest) (hopen : (s.pipes x).closed = false)
    (hfull : capacity ≤ (s.pipes x).buffer.length) : Progress codec capacity entry s := by
  have hdone : (s.pipes x).done = false := (h.pipes x).not_done hopen
  have hsome : (s.pipes x).buffer ≠ [] := by
    intro hempty
    rw [hempty] at hfull
    exact absurd hfull (Nat.not_le.mpr hpos)
  by_cases hreads : s.reads entry x = true
  · exact h.consume hdecode hreturned hreads (.inl hsome)
  · cases entry with
    | execute => simp [State.reads, hdone] at hreads
    | executeStreaming =>
      cases x with
      | stdout => simp [State.reads, hdone] at hreads
      | stderr =>
        have hstdout : (s.pipes .stdout).done = false := by simpa [State.reads, hdone] using hreads
        cases hclosed : (s.pipes .stdout).closed with
        | true =>
          exact h.consume hdecode hreturned (x := .stdout) (by simp [State.reads, hstdout]) (.inr hclosed)
        | false =>
          -- with `stdout` open the byte it waits to write is an early one, and the pipe holds the others
          have hle := (h.unread rfl hstdout).2.2 hclosed
          rw [hopen, hscript, early_write, List.length_cons] at hle
          have hcap := hfits rfl
          omega

include hdecode in
theorem Kept.progress (h : Kept codec capacity entry script s) (hpos : 0 < capacity)
    (hfits : entry = .executeStreaming → (early false false script).length ≤ capacity)
    (hreturned : s.returned = false) : Progress codec capacity entry s := by
  cases hscript : s.script with
  | nil =>
    cases hexited : s.exited with
    | true => exact h.collect hdecode hreturned hexited
    | false =>
      refine ⟨.exit, { s.closeAll with exited := true }, nofun, ?_, ?_⟩
      · simp [State.step, hreturned, hscript, hexited]
      · simp [State.toGo, State.closeAll, Pipe.toGo, hexited]
  | cons action rest =>
    cases action with
    | close x =>
      refine ⟨.act, ({ s with script := rest } : State).setPipe x { s.pipes x with closed := true },
        nofun, ?_, ?_⟩
      · simp [State.step, hreturned, State.act, hscript]
      · have hgo := toGo_setPipe { s with script := rest } x { s.pipes x with closed := true }
        simp only [Pipe.toGo, State.toGo, hscript, List.length_cons] at hgo ⊢
        omega
    | write x byte =>
      cases hclosed : (s.pipes x).closed with
      | true =>
        refine ⟨.act, { s with script := rest }, nofun, ?_, ?_⟩
        · simp [State.step, hreturned, State.act, hscript, hclosed]
        · simp only [State.toGo, hscript, List.length_cons]
          omega
      | false =>
        by_cases hroom : (s.pipes x).buffer.length < capacity
        · refine ⟨.act, ({ s with script := rest } : State).setPipe x
            { s.pipes x with buffer := (s.pipes x).buffer ++ [byte] }, nofun, ?_, ?_⟩
          · simp [State.step, hreturned, State.act, hscript, hclosed, hroom]
          · have hgo := toGo_setPipe { s with script := rest } x
              { s.pipes x with buffer := (s.pipes x).buffer ++ [byte] }
            simp only [Pipe.toGo, State.toGo, hscript, List.length_cons, List.length_append,
              List.length_nil] at hgo ⊢
            omega
        · exact h.relieve hdecode hpos hfits hreturned hscript hclosed (Nat.not_lt.mp hroom)

end Progress

section Agreement

variable {codec : Codec} {capacity timeout maxLines : ℕ} {onOutput : Bool} {entry : Entry} {child : Child}
  {script : List Action} {s : State}

def ascii : Codec where
  decode bytes :=
    if bytes.all (· < 128) then .ok (bytes.map fun byte => Char.ofNat byte.toNat)
    else .error "ordinal not in range(128)"
  fails bytes := !bytes.all (· < 128)
  lines bytes :=
    ((((bytes.takeWhile (· < 128)).map fun byte => Char.ofNat byte.toNat).reverse).dropWhile
      (· ≠ '\n')).reverse
  decode_of_fails a b h := by
    refine ⟨_, if_neg ?_⟩
    rw [List.all_append, (Bool.not_eq_true' _).mp h, Bool.false_and]
    exact Bool.false_ne_true

end Agreement

end Hill90.Agentbox.Execution
