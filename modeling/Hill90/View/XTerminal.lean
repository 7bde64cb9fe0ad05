import Mathlib.Logic.Function.Basic
import Hill90.Foundation.Machine

/-! # The sockets of a terminal pane

`XTerminal.tsx`: one component, whose effect calls `connect` and is cleaned up when the thread or the
session changes and at the end.  The handlers of the socket that `connect` creates are given to the
retries as they are, with that first socket in their closure.
-/

namespace Hill90.View.XTerminal

def maxReconnects : ℕ := 5

/-- The codes that end a session rather than interrupt one. -/
def terminalCloses : List ℕ := [4001, 4002, 4004]

def shouldReconnect (code : ℕ) : Bool := !terminalCloses.contains code && code != 1000

/-- What a call of `connect` waits for, or the socket it made, or its end without one. -/
inductive Phase where
  | imports
  | freshToken
  | wsBase
  | live (ws : ℕ)
  | stopped
  deriving DecidableEq

inductive ReadyState where
  | connecting
  | opened
  | closing
  | closed
  deriving DecidableEq

/-- The socket of a call that has come to its end. -/
def Phase.ws : Phase → Option ℕ
  | live ws => some ws
  | _ => none

/-- The call is not at its end. -/
def Phase.pending : Phase → Bool
  | imports => true
  | freshToken => true
  | wsBase => true
  | live _ => false
  | stopped => false

structure Socket where
  owner : ℕ
  retry : Bool
  state : ReadyState
  deriving DecidableEq

inductive Stage where
  | timer
  | freshToken
  | wsBase
  deriving DecidableEq

/-- A reconnection that has no socket yet. -/
structure Retry where
  owner : ℕ
  stage : Stage
  deriving DecidableEq

/-- `current` is the call of the effect that is not cleaned up; `ping` is the socket in the closure of
the interval in `pingRef`. -/
structure State where
  connections : ℕ → Option Phase := fun _ => none
  sockets : ℕ → Option Socket := fun _ => none
  retries : ℕ → Option Retry := fun _ => none
  current : Option ℕ := none
  ping : Option ℕ := none
  reconnects : ℕ := 0

/-- Calls, sockets and retries get a name that is new. -/
inductive Event where
  | effect (c : ℕ) (ready : Bool)
  | imported (c : ℕ) (ok : Bool)
  | fetchedToken (c : ℕ) (found : Bool)
  | fetchedBase (c ws : ℕ)
  | opened (ws : ℕ)
  | closed (ws code r : ℕ)
  | timeout (r : ℕ)
  | retryToken (r : ℕ) (found : Bool)
  | retryBase (r ws : ℕ)
  | cleanup

namespace State

variable (T : State)

def setPhase (c : ℕ) (p : Phase) : State :=
  { T with connections := Function.update T.connections c (some p) }

def setSocket (ws : ℕ) (s : Socket) : State :=
  { T with sockets := Function.update T.sockets ws (some s) }

def setRetry (r : ℕ) (x : Option Retry) : State :=
  { T with retries := Function.update T.retries r x }

/-- The socket that the handlers of a call have in their closure. -/
def firstSocket (c : ℕ) : Option ℕ := (T.connections c).bind Phase.ws

/-- `ws.onopen`; the interval is set for the socket in the closure. -/
def onopen (c : ℕ) : State :=
  { T with reconnects := 0, ping := T.firstSocket c }

def onclose (c code r : ℕ) : State :=
  if shouldReconnect code = true ∧ T.reconnects < maxReconnects then
    { T.setRetry r (some ⟨c, .timer⟩) with ping := none, reconnects := T.reconnects + 1 }
  else { T with ping := none }

/-- `ws.close()`, which does nothing to a socket that is closed. -/
def close (ws : ℕ) : State :=
  match T.sockets ws with
  | none => T
  | some s => if s.state = .closed then T else T.setSocket ws { s with state := .closing }

/-- The cleanup of the effect.  Only a call that has come to its end has handed over a function. -/
def cleanup (c : ℕ) : State :=
  match T.firstSocket c with
  | none => { T with current := none }
  | some ws => { T.close ws with current := none, ping := none }

/-- The socket that `handleResize` and `onopen` send the dimensions to. -/
def resized : Option ℕ := T.current.bind T.firstSocket

end State

def step (T : State) : Event → Option State
  | .effect c ready =>
    if T.current = none ∧ T.connections c = none then
      some { T.setPhase c (if ready then .imports else .stopped) with current := some c }
    else none
  | .imported c ok =>
    if T.connections c = some .imports then
      some (T.setPhase c (if ok then .freshToken else .stopped))
    else none
  | .fetchedToken c found =>
    if T.connections c = some .freshToken then
      some (T.setPhase c (if found then .wsBase else .stopped))
    else none
  | .fetchedBase c ws =>
    if T.connections c = some .wsBase ∧ T.sockets ws = none then
      some ((T.setPhase c (.live ws)).setSocket ws ⟨c, false, .connecting⟩)
    else none
  | .opened ws =>
    match T.sockets ws with
    | none => none
    | some s =>
      if s.state = .connecting then
        some ((T.setSocket ws { s with state := .opened }).onopen s.owner)
      else none
  | .closed ws code r =>
    match T.sockets ws with
    | none => none
    | some s =>
      if s.state ≠ .closed ∧ T.retries r = none then
        some ((T.setSocket ws { s with state := .closed }).onclose s.owner code r)
      else none
  | .timeout r =>
    match T.retries r with
    | none => none
    | some x =>
      if x.stage = .timer then some (T.setRetry r (some { x with stage := .freshToken })) else none
  | .retryToken r found =>
    match T.retries r with
    | none => none
    | some x =>
      if x.stage = .freshToken then
        some (T.setRetry r (if found then some { x with stage := .wsBase } else none))
      else none
  | .retryBase r ws =>
    match T.retries r with
    | none => none
    | some x =>
      if x.stage = .wsBase ∧ T.sockets ws = none then
        some ((T.setRetry r none).setSocket ws ⟨x.owner, true, .connecting⟩)
      else none
  | .cleanup =>
    match T.current with
    | none => none
    | some c => some (T.cleanup c)

def machine : Machine State Event where
  initial T := T = {}
  step := step

/-- The sockets are those of the mounted call: at most one is open, pings and dimensions go to it, and
no socket or retry of a call that is cleaned up can still open. -/
structure Owns (T : State) : Prop where
  single : ∀ ws ws' s s', T.sockets ws = some s → T.sockets ws' = some s' → s.state = .opened →
    s'.state = .opened → s'.owner = s.owner → ws' = ws
  reached : ∀ ws s, T.sockets ws = some s → s.state = .opened → T.current = some s.owner →
    T.ping = some ws ∧ T.resized = some ws
  silent : ∀ ws s, T.sockets ws = some s → T.current ≠ some s.owner →
    s.state ≠ .connecting ∧ s.state ≠ .opened
  withdrawn : ∀ r x, T.retries r = some x → T.current = some x.owner

/-- A reconnection of the call is on its way. -/
def State.Reconnecting (T : State) (c : ℕ) : Prop :=
  (∃ r x, T.retries r = some x ∧ x.owner = c) ∨
    ∃ ws s, T.sockets ws = some s ∧ s.owner = c ∧ s.retry = true ∧ s.state = .connecting

/-- No reconnection gets as far as its opening.  The cleanup finds the call at its end and no
reconnection on the way; a socket that closes after the cleanup of its call asks for none, and
no interval is running then. -/
def Orderly (T : State) : Event → Prop
  | .opened ws => ∀ s, T.sockets ws = some s → s.retry = false
  | .closed ws code _ => ∀ s, T.sockets ws = some s → T.current ≠ some s.owner →
      ¬(shouldReconnect code = true ∧ T.reconnects < maxReconnects) ∧ T.ping = none
  | .cleanup => ∀ c, T.current = some c →
      (∀ p, T.connections c = some p → p.pending = false) ∧ ¬T.Reconnecting c
  | _ => True

section Kept

variable {T : State} {c : ℕ}

/-- The call has made its socket, and that socket is closed. -/
def State.Ended (T : State) (c : ℕ) : Prop :=
  T.firstSocket c ≠ none ∧
    ∀ ws s, T.sockets ws = some s → s.owner = c → s.retry = false → s.state = .closed

structure Kept (T : State) : Prop where
  first : ∀ ws s, T.sockets ws = some s → s.retry = false → T.firstSocket s.owner = some ws
  retried : ∀ ws s, T.sockets ws = some s → s.retry = true → T.Ended s.owner ∧ s.state ≠ .opened
  retrying : ∀ r x, T.retries r = some x → T.Ended x.owner ∧ T.current = some x.owner
  pending : ∀ c p, T.connections c = some p → p.pending = true → T.current = some c
  active : ∀ ws s, T.sockets ws = some s → s.state = .connecting ∨ s.state = .opened →
    T.current = some s.owner
  pinged : ∀ ws s, T.sockets ws = some s → s.state = .opened → T.ping = some ws

theorem connections_setPhase (c : ℕ) (p : Phase) (c' : ℕ) :
    (T.setPhase c p).connections c' = if c' = c then some p else T.connections c' :=
  Function.update_apply _ _ _ _

theorem firstSocket_setPhase (c : ℕ) (p : Phase) (c' : ℕ) :
    (T.setPhase c p).firstSocket c' = if c' = c then p.ws else T.firstSocket c' := by
  unfold State.firstSocket
  rw [connections_setPhase]
  split <;> rfl

theorem setSocket_cases {ws ws' : ℕ} {s s' : Socket} (h : (T.setSocket ws s).sockets ws' = some s') :
    (ws' = ws ∧ s' = s) ∨ (ws' ≠ ws ∧ T.sockets ws' = some s') := by
  rw [show (T.setSocket ws s).sockets ws' = _ from Function.update_apply _ _ _ _] at h
  split at h
  · exact .inl ⟨‹_›, (Option.some.inj h).symm⟩
  · exact .inr ⟨‹_›, h⟩

theorem setRetry_cases {r r' : ℕ} {x : Option Retry} {x' : Retry}
    (h : (T.setRetry r x).retries r' = some x') : x = some x' ∨ T.retries r' = some x' := by
  rw [show (T.setRetry r x).retries r' = _ from Function.update_apply _ _ _ _] at h
  split at h
  · exact .inl h
  · exact .inr h

theorem firstSocket_of_pending {p : Phase} (h : T.connections c = some p)
    (hp : p.pending = true) : T.firstSocket c = none := by
  unfold State.firstSocket
  rw [h]
  cases p <;> first | rfl | cases hp

/-- After its end only a retry of the call can still open. -/
theorem State.Ended.not_active (h : T.Ended c) {ws : ℕ} {s : Socket} (hs : T.sockets ws = some s)
    (howner : s.owner = c) (hretry : s.retry = false) :
    ¬(s.state = .connecting ∨ s.state = .opened) := by
  rw [h.2 ws s hs howner hretry]
  decide

theorem State.Ended.setPhase {c' : ℕ} (h : T.Ended c') (hnone : T.firstSocket c = none)
    (p : Phase) : (T.setPhase c p).Ended c' := by
  have hne : c' ≠ c := by
    rintro rfl
    exact h.1 hnone
  refine ⟨?_, h.2⟩
  rw [firstSocket_setPhase, if_neg hne]
  exact h.1

theorem Kept.firstSocket_setPhase (h : Kept T) (hnone : T.firstSocket c = none) {ws : ℕ}
    {s : Socket} (hs : T.sockets ws = some s) (hr : s.retry = false) (p : Phase) :
    (T.setPhase c p).firstSocket s.owner = some ws := by
  have hlive := h.first ws s hs hr
  have hne : s.owner ≠ c := by
    intro heq
    rw [heq, hnone] at hlive
    cases hlive
  rwa [XTerminal.firstSocket_setPhase, if_neg hne]

theorem Kept.setPhase (h : Kept T) {p p' : Phase} (hp : T.connections c = some p)
    (hpending : p.pending = true) : Kept (T.setPhase c p') := by
  have hcurrent := h.pending c p hp hpending
  have hnone := firstSocket_of_pending hp hpending
  constructor
  · exact fun ws s hs hr => h.firstSocket_setPhase hnone hs hr p'
  · exact fun ws s hs hr => ⟨(h.retried ws s hs hr).1.setPhase hnone p', (h.retried ws s hs hr).2⟩
  · exact fun r x hx => ⟨(h.retrying r x hx).1.setPhase hnone p', (h.retrying r x hx).2⟩
  · intro c' q hq hqp
    rw [connections_setPhase] at hq
    split at hq
    · next heq => rw [heq]; exact hcurrent
    · exact h.pending c' q hq hqp
  · exact h.active
  · exact h.pinged

theorem Kept.effect (h : Kept T) (hcurrent : T.current = none) (hc : T.connections c = none)
    (p : Phase) : Kept { T.setPhase c p with current := some c } := by
  have hnone : T.firstSocket c = none := by
    rw [State.firstSocket, hc]
    rfl
  have hidle : ∀ c' : ℕ, T.current ≠ some c' := by
    intro c'
    rw [hcurrent]
    exact fun heq => by cases heq
  constructor
  · exact fun ws s hs hr => h.firstSocket_setPhase hnone hs hr p
  · exact fun ws s hs hr => ⟨(h.retried ws s hs hr).1.setPhase hnone p, (h.retried ws s hs hr).2⟩
  · exact fun r x hx => absurd (h.retrying r x hx).2 (hidle _)
  · intro c' q hq hqp
    change (T.setPhase c p).connections c' = some q at hq
    rw [connections_setPhase] at hq
    split at hq
    · next heq => rw [heq]
    · exact absurd (h.pending c' q hq hqp) (hidle c')
  · exact fun ws s hs hactive => absurd (h.active ws s hs hactive) (hidle _)
  · exact fun ws s hs hopen => absurd (h.active ws s hs (.inr hopen)) (hidle _)

/-- No reconnection of the call has begun. -/
def State.Alone (T : State) (c : ℕ) : Prop :=
  (∀ r x, T.retries r = some x → x.owner ≠ c) ∧
    ∀ ws s, T.sockets ws = some s → s.retry = true → s.owner ≠ c

theorem Kept.alone (h : Kept T) (hended : ¬T.Ended c) : T.Alone c := by
  constructor
  · rintro r x hx rfl
    exact hended (h.retrying r x hx).1
  · rintro ws s hs hr rfl
    exact hended (h.retried ws s hs hr).1

/-- A socket is made or changes its state, and the interval with it. -/
theorem Kept.setSocket (h : Kept T) {ws : ℕ} {s : Socket} {p : Option ℕ}
    (hfirst : s.retry = false → T.firstSocket s.owner = some ws)
    (hretried : s.retry = true → T.Ended s.owner ∧ s.state ≠ .opened)
    (halone : s.retry = false → s.state ≠ .closed → T.Alone s.owner)
    (hactive : s.state = .connecting ∨ s.state = .opened → T.current = some s.owner)
    (hpinged : s.state = .opened → p = some ws)
    (hothers : ∀ ws' s', T.sockets ws' = some s' → s'.state = .opened → ws' ≠ ws → p = some ws') :
    Kept { T.setSocket ws s with ping := p } := by
  have hended : ∀ c', (s.retry = false → s.state ≠ .closed → c' ≠ s.owner) → T.Ended c' →
      State.Ended { T.setSocket ws s with ping := p } c' := by
    intro c' hne he
    refine ⟨he.1, ?_⟩
    intro ws' s' hs' howner hr
    rcases setSocket_cases hs' with ⟨-, rfl⟩ | ⟨-, hs'⟩
    · by_contra hclosed
      exact hne hr hclosed howner.symm
    · exact he.2 ws' s' hs' howner hr
  constructor
  · intro ws' s' hs' hr
    rcases setSocket_cases hs' with ⟨rfl, rfl⟩ | ⟨-, hs'⟩
    · exact hfirst hr
    · exact h.first ws' s' hs' hr
  · intro ws' s' hs' hr
    rcases setSocket_cases hs' with ⟨-, rfl⟩ | ⟨-, hs'⟩
    · refine ⟨hended _ (fun hr' => ?_) (hretried hr).1, (hretried hr).2⟩
      rw [hr] at hr'
      cases hr'
    · obtain ⟨he, hopen⟩ := h.retried ws' s' hs' hr
      exact ⟨hended _ (fun hr' hclosed => (halone hr' hclosed).2 ws' s' hs' hr) he, hopen⟩
  · intro r x hx
    obtain ⟨he, hcurrent⟩ := h.retrying r x hx
    exact ⟨hended _ (fun hr hclosed => (halone hr hclosed).1 r x hx) he, hcurrent⟩
  · exact h.pending
  · intro ws' s' hs' ha
    rcases setSocket_cases hs' with ⟨-, rfl⟩ | ⟨-, hs'⟩
    · exact hactive ha
    · exact h.active ws' s' hs' ha
  · intro ws' s' hs' hopen
    rcases setSocket_cases hs' with ⟨rfl, rfl⟩ | ⟨hne, hs'⟩
    · exact hpinged hopen
    · exact hothers ws' s' hs' hopen hne

theorem Kept.fetchedBase (h : Kept T) (hbase : T.connections c = some .wsBase) (ws : ℕ) :
    Kept ((T.setPhase c (.live ws)).setSocket ws ⟨c, false, .connecting⟩) := by
  have hnone := firstSocket_of_pending hbase rfl
  have hlive : (T.setPhase c (.live ws)).firstSocket c = some ws := by
    rw [XTerminal.firstSocket_setPhase, if_pos rfl]
    rfl
  have hset : Kept (T.setPhase c (.live ws)) := h.setPhase hbase rfl
  exact hset.setSocket (fun _ => hlive) (fun hr => by cases hr)
    (fun _ _ => h.alone fun hended => hended.1 hnone) (fun _ => h.pending c _ hbase rfl)
    (fun hopen => by cases hopen) fun ws' s' hs' hopen _ => h.pinged ws' s' hs' hopen

/-- While the first socket of the mounted call is open or about to be, no other is open. -/
theorem Kept.eq_of_active (h : Kept T) {ws ws' : ℕ} {s s' : Socket} (hs : T.sockets ws = some s)
    (hs' : T.sockets ws' = some s') (hactive : s.state = .connecting ∨ s.state = .opened)
    (hretry : s.retry = false) (hopen : s'.state = .opened) : ws' = ws := by
  have hr' : s'.retry = false := by
    by_contra hr
    exact (h.retried ws' s' hs' (by simpa using hr)).2 hopen
  have howner : s'.owner = s.owner :=
    Option.some.inj ((h.active ws' s' hs' (.inr hopen)).symm.trans (h.active ws s hs hactive))
  have hfirst' := h.first ws' s' hs' hr'
  rw [howner, h.first ws s hs hretry] at hfirst'
  exact (Option.some.inj hfirst').symm

theorem Kept.setReconnects (h : Kept T) (n : ℕ) : Kept { T with reconnects := n } :=
  ⟨h.first, h.retried, h.retrying, h.pending, h.active, h.pinged⟩

theorem Kept.opened (h : Kept T) {ws : ℕ} {s : Socket} (hs : T.sockets ws = some s)
    (hconnecting : s.state = .connecting) (hretry : s.retry = false) :
    Kept ((T.setSocket ws { s with state := .opened }).onopen s.owner) := by
  have hfirst := h.first ws s hs hretry
  have hended : ¬T.Ended s.owner := fun he => he.not_active hs rfl hretry (.inl hconnecting)
  have hset : Kept { T.setSocket ws { s with state := .opened } with
      ping := T.firstSocket s.owner } := by
    apply h.setSocket
    · exact fun _ => hfirst
    · intro hr
      rw [hretry] at hr
      cases hr
    · exact fun _ _ => h.alone hended
    · exact fun _ => h.active ws s hs (.inl hconnecting)
    · exact fun _ => hfirst
    · intro ws' s' hs' hopen hne
      exact absurd (h.eq_of_active hs hs' (.inl hconnecting) hretry hopen) hne
  exact hset.setReconnects 0

theorem Kept.setRetry (h : Kept T) (r : ℕ) {x : Option Retry}
    (hx : ∀ y, x = some y → T.Ended y.owner ∧ T.current = some y.owner) : Kept (T.setRetry r x) := by
  refine ⟨h.first, h.retried, ?_, h.pending, h.active, h.pinged⟩
  intro r' y hy
  rcases setRetry_cases hy with hy | hy
  · exact hx y hy
  · exact h.retrying r' y hy

theorem Kept.retryBase (h : Kept T) (hended : T.Ended c) (hcurrent : T.current = some c) (ws : ℕ) :
    Kept (T.setSocket ws ⟨c, true, .connecting⟩) :=
  h.setSocket (fun hr => by cases hr) (fun _ => ⟨hended, fun hopen => by cases hopen⟩)
    (fun hr => by cases hr) (fun _ => hcurrent) (fun hopen => by cases hopen)
    fun ws' s' hs' hopen _ => h.pinged ws' s' hs' hopen

theorem Kept.retry_of_opened (h : Kept T) {ws : ℕ} {s : Socket} (hs : T.sockets ws = some s)
    (hopen : s.state = .opened) : s.retry = false := by
  by_contra hr
  exact (h.retried ws s hs (by simpa using hr)).2 hopen

/-- Two sockets of a call, one of which is not a retry: the other has ended, or they are one. -/
theorem Kept.closed_or_eq (h : Kept T) {ws ws' : ℕ} {s s' : Socket} (hs : T.sockets ws = some s)
    (hs' : T.sockets ws' = some s') (howner : s'.owner = s.owner) (hr' : s'.retry = false) :
    s'.state = .closed ∨ ws' = ws := by
  cases hr : s.retry with
  | true => exact .inl ((h.retried ws s hs hr).1.2 ws' s' hs' howner hr')
  | false =>
    right
    have hfirst' := h.first ws' s' hs' hr'
    rw [howner, h.first ws s hs hr] at hfirst'
    exact (Option.some.inj hfirst').symm

theorem Kept.firstSocket_ne_none (h : Kept T) {ws : ℕ} {s : Socket} (hs : T.sockets ws = some s) :
    T.firstSocket s.owner ≠ none := by
  cases hr : s.retry with
  | true => exact (h.retried ws s hs hr).1.1
  | false =>
    rw [h.first ws s hs hr]
    exact Option.some_ne_none ws

/-- A socket has closed, and with it the interval is gone. -/
def State.shut (T : State) (ws : ℕ) (s : Socket) : State :=
  { T.setSocket ws { s with state := .closed } with ping := none }

theorem Kept.shut (h : Kept T) {ws : ℕ} {s : Socket} (hs : T.sockets ws = some s)
    (hping : T.current ≠ some s.owner → T.ping = none) : Kept (T.shut ws s) := by
  apply h.setSocket
  · exact h.first ws s hs
  · exact fun hr => ⟨(h.retried ws s hs hr).1, fun hopen => by cases hopen⟩
  · exact fun _ hclosed => absurd rfl hclosed
  · rintro (hactive | hactive) <;> cases hactive
  · exact fun hopen => by cases hopen
  · intro ws' s' hs' hopen hne
    by_cases hcurrent : T.current = some s.owner
    · have howner : s'.owner = s.owner :=
        Option.some.inj ((h.active ws' s' hs' (.inr hopen)).symm.trans hcurrent)
      rcases h.closed_or_eq hs hs' howner (h.retry_of_opened hs' hopen) with hclosed | heq
      · rw [hclosed] at hopen
        cases hopen
      · exact absurd heq hne
    · rw [← hping hcurrent]
      exact h.pinged ws' s' hs' hopen

theorem Kept.ended_shut (h : Kept T) {ws : ℕ} {s : Socket} (hs : T.sockets ws = some s) :
    (T.shut ws s).Ended s.owner := by
  refine ⟨h.firstSocket_ne_none hs, ?_⟩
  intro ws' s' hs' howner hr
  rcases setSocket_cases hs' with ⟨-, rfl⟩ | ⟨hne, hs'⟩
  · rfl
  · exact (h.closed_or_eq hs hs' howner hr).resolve_right hne

theorem Kept.closed (h : Kept T) {ws code : ℕ} {s : Socket} (hs : T.sockets ws = some s)
    (hok : T.current ≠ some s.owner →
      ¬(shouldReconnect code = true ∧ T.reconnects < maxReconnects) ∧ T.ping = none) (r : ℕ) :
    Kept ((T.setSocket ws { s with state := .closed }).onclose s.owner code r) := by
  have hshut := h.shut hs fun hne => (hok hne).2
  unfold State.onclose
  split
  · next hretry =>
    have hcurrent : T.current = some s.owner := by
      by_contra hne
      exact (hok hne).1 hretry
    have hset := hshut.setRetry r (x := some ⟨s.owner, .timer⟩) fun y hy => by
      cases hy
      exact ⟨h.ended_shut hs, hcurrent⟩
    exact hset.setReconnects (T.reconnects + 1)
  · exact hshut

/-- A socket after `close` was there before; the one that is closed will not open. -/
theorem close_cases {ws ws' : ℕ} {s' : Socket} (h : (T.close ws).sockets ws' = some s') :
    ∃ s, T.sockets ws' = some s ∧ s'.owner = s.owner ∧ s'.retry = s.retry ∧
      (s.state = .closed → s'.state = .closed) ∧
      (s'.state = .connecting ∨ s'.state = .opened → s' = s ∧ ws' ≠ ws) := by
  unfold State.close at h
  split at h
  · next hnone =>
    refine ⟨s', h, rfl, rfl, id, fun _ => ⟨rfl, ?_⟩⟩
    rintro rfl
    rw [hnone] at h
    cases h
  · next s hs =>
    split at h
    · next hclosed =>
      refine ⟨s', h, rfl, rfl, id, fun hactive => ⟨rfl, ?_⟩⟩
      rintro rfl
      rw [hs] at h
      cases h
      rw [hclosed] at hactive
      rcases hactive with hactive | hactive <;> cases hactive
    · next hclosed =>
      rcases setSocket_cases h with ⟨rfl, rfl⟩ | ⟨hne, h⟩
      · refine ⟨s, hs, rfl, rfl, fun heq => absurd heq hclosed, fun hactive => ?_⟩
        rcases hactive with hactive | hactive <;> cases hactive
      · exact ⟨s', h, rfl, rfl, id, fun _ => ⟨rfl, hne⟩⟩

theorem connections_close (T : State) (ws : ℕ) :
    (T.close ws).connections = T.connections ∧ (T.close ws).retries = T.retries := by
  unfold State.close
  split
  · exact ⟨rfl, rfl⟩
  · split <;> exact ⟨rfl, rfl⟩

theorem cleanup_eq (T : State) (c : ℕ) : (T.cleanup c).current = none ∧
    (T.cleanup c).connections = T.connections ∧ (T.cleanup c).retries = T.retries := by
  unfold State.cleanup
  split
  · exact ⟨rfl, rfl, rfl⟩
  · exact ⟨rfl, connections_close T _⟩

theorem cleanup_cases {ws : ℕ} {s' : Socket} (h : (T.cleanup c).sockets ws = some s') :
    ∃ s, T.sockets ws = some s ∧ s'.owner = s.owner ∧ s'.retry = s.retry ∧
      (s.state = .closed → s'.state = .closed) ∧
      (s'.state = .connecting ∨ s'.state = .opened → s' = s ∧ T.firstSocket c ≠ some ws) := by
  unfold State.cleanup at h
  split at h
  · next hnone =>
    refine ⟨s', h, rfl, rfl, id, fun _ => ⟨rfl, ?_⟩⟩
    rw [hnone]
    exact fun heq => by cases heq
  · next ws' hfirst =>
    obtain ⟨s, hs, howner, hretry, hclosed, hactive⟩ := close_cases h
    refine ⟨s, hs, howner, hretry, hclosed, fun ha => ⟨(hactive ha).1, ?_⟩⟩
    rw [hfirst]
    exact fun heq => (hactive ha).2 (Option.some.inj heq).symm

theorem Kept.cleanup (h : Kept T) (hcurrent : T.current = some c)
    (hpending : ∀ p, T.connections c = some p → p.pending = false) (hnone : ¬T.Reconnecting c) :
    Kept (T.cleanup c) := by
  obtain ⟨-, hconnections, hretries⟩ := cleanup_eq T c
  have hfirst : ∀ c', (T.cleanup c).firstSocket c' = T.firstSocket c' := fun c' => by
    rw [State.firstSocket, hconnections, State.firstSocket]
  have hidle : ∀ ws s, (T.cleanup c).sockets ws = some s →
      ¬(s.state = .connecting ∨ s.state = .opened) := by
    intro ws s' hs' hactive
    obtain ⟨s, hs, -, -, -, hsame⟩ := cleanup_cases hs'
    obtain ⟨rfl, hother⟩ := hsame hactive
    have howner : s'.owner = c := Option.some.inj ((h.active ws s' hs hactive).symm.trans hcurrent)
    cases hr : s'.retry with
    | false => exact hother (howner ▸ h.first ws s' hs hr)
    | true =>
      rcases hactive with hconnecting | hopen
      · exact hnone (.inr ⟨ws, s', hs, howner, hr, hconnecting⟩)
      · exact (h.retried ws s' hs hr).2 hopen
  have hended : ∀ c', T.Ended c' → (T.cleanup c).Ended c' := by
    intro c' he
    refine ⟨by rw [hfirst]; exact he.1, ?_⟩
    intro ws s' hs' howner' hr'
    obtain ⟨s, hs, howner, hr, hclosed, -⟩ := cleanup_cases hs'
    exact hclosed (he.2 ws s hs (howner ▸ howner') (hr ▸ hr'))
  constructor
  · intro ws s' hs' hr'
    obtain ⟨s, hs, howner, hr, -⟩ := cleanup_cases hs'
    rw [hfirst, howner]
    exact h.first ws s hs (hr ▸ hr')
  · intro ws s' hs' hr'
    obtain ⟨s, hs, howner, hr, -⟩ := cleanup_cases hs'
    rw [howner]
    exact ⟨hended _ (h.retried ws s hs (hr ▸ hr')).1, fun hopen => hidle ws s' hs' (.inr hopen)⟩
  · intro r x hx
    rw [hretries] at hx
    have howner : x.owner = c := Option.some.inj ((h.retrying r x hx).2.symm.trans hcurrent)
    exact absurd (.inl ⟨r, x, hx, howner⟩) hnone
  · intro c' p hp hpp
    rw [hconnections] at hp
    obtain rfl : c' = c := Option.some.inj ((h.pending c' p hp hpp).symm.trans hcurrent)
    rw [hpending p hp] at hpp
    cases hpp
  · exact fun ws s hs hactive => absurd hactive (hidle ws s hs)
  · exact fun ws s hs hopen => absurd (.inr hopen) (hidle ws s hs)

theorem kept_initial : Kept {} := by
  constructor
  · exact fun ws s hs => by cases hs
  · exact fun ws s hs => by cases hs
  · exact fun r x hx => by cases hx
  · exact fun c p hp => by cases hp
  · exact fun ws s hs => by cases hs
  · exact fun ws s hs => by cases hs

/-- One event, taken as `Orderly` has it. -/
theorem Kept.step (h : Kept T) {e : Event} (hok : Orderly T e) {U : State}
    (hstep : step T e = some U) : Kept U := by
  cases e with
  | effect c ready =>
    obtain ⟨⟨hcurrent, hc⟩, hU⟩ := Option.ite_none_right_eq_some.mp hstep
    cases hU
    exact h.effect hcurrent hc _
  | imported c ok =>
    obtain ⟨hc, hU⟩ := Option.ite_none_right_eq_some.mp hstep
    cases hU
    exact h.setPhase hc rfl
  | fetchedToken c found =>
    obtain ⟨hc, hU⟩ := Option.ite_none_right_eq_some.mp hstep
    cases hU
    exact h.setPhase hc rfl
  | fetchedBase c ws =>
    obtain ⟨⟨hc, -⟩, hU⟩ := Option.ite_none_right_eq_some.mp hstep
    cases hU
    exact h.fetchedBase hc ws
  | opened ws =>
    cases hs : T.sockets ws with
    | none => simp [XTerminal.step, hs] at hstep
    | some s =>
      simp only [XTerminal.step, hs] at hstep
      obtain ⟨hconnecting, hU⟩ := Option.ite_none_right_eq_some.mp hstep
      cases hU
      exact h.opened hs hconnecting (hok s hs)
  | closed ws code r =>
    cases hs : T.sockets ws with
    | none => simp [XTerminal.step, hs] at hstep
    | some s =>
      simp only [XTerminal.step, hs] at hstep
      obtain ⟨-, hU⟩ := Option.ite_none_right_eq_some.mp hstep
      cases hU
      exact h.closed hs (hok s hs) r
  | timeout r =>
    cases hx : T.retries r with
    | none => simp [XTerminal.step, hx] at hstep
    | some x =>
      simp only [XTerminal.step, hx] at hstep
      obtain ⟨-, hU⟩ := Option.ite_none_right_eq_some.mp hstep
      cases hU
      refine h.setRetry r fun y hy => ?_
      cases hy
      exact h.retrying r x hx
  | retryToken r found =>
    cases hx : T.retries r with
    | none => simp [XTerminal.step, hx] at hstep
    | some x =>
      simp only [XTerminal.step, hx] at hstep
      obtain ⟨-, hU⟩ := Option.ite_none_right_eq_some.mp hstep
      cases hU
      refine h.setRetry r fun y hy => ?_
      obtain ⟨-, hy⟩ := Option.ite_none_right_eq_some.mp hy
      cases hy
      exact h.retrying r x hx
  | retryBase r ws =>
    cases hx : T.retries r with
    | none => simp [XTerminal.step, hx] at hstep
    | some x =>
      simp only [XTerminal.step, hx] at hstep
      obtain ⟨-, hU⟩ := Option.ite_none_right_eq_some.mp hstep
      cases hU
      obtain ⟨hended, hcurrent⟩ := h.retrying r x hx
      have hset := h.setRetry r (x := none) fun y hy => by cases hy
      exact hset.retryBase hended hcurrent ws
  | cleanup =>
    cases hcurrent : T.current with
    | none => simp [XTerminal.step, hcurrent] at hstep
    | some c =>
      simp only [XTerminal.step, hcurrent] at hstep
      cases hstep
      obtain ⟨hpending, hnone⟩ := hok c hcurrent
      exact h.cleanup hcurrent hpending hnone

theorem Kept.owns (h : Kept T) : Owns T := by
  constructor
  · intro ws ws' s s' hs hs' hopen hopen' _
    exact h.eq_of_active hs hs' (.inr hopen) (h.retry_of_opened hs hopen) hopen'
  · intro ws s hs hopen hcurrent
    refine ⟨h.pinged ws s hs hopen, ?_⟩
    rw [State.resized, hcurrent]
    exact h.first ws s hs (h.retry_of_opened hs hopen)
  · intro ws s hs hne
    exact ⟨fun hc => hne (h.active ws s hs (.inl hc)), fun ho => hne (h.active ws s hs (.inr ho))⟩
  · exact fun r x hx => (h.retrying r x hx).2

end Kept

/-- In a run whose steps are all orderly, the sockets are those of the mounted call. -/
theorem owns_of_orderly {T : State} (h : machine.ReachableIf Orderly T) : Owns T := by
  have hkept : Kept T := h.invariant (fun s hs => hs ▸ kept_initial)
    fun s e t hs hok hstep => hs.step hok hstep
  exact hkept.owns

/-- A check that stands for `Orderly`: the cleanup finds the first socket of the call not closed. -/
def calm (T : State) : Event → Bool
  | .opened ws => (T.sockets ws).all fun s => !s.retry
  | .closed ws code _ => (T.sockets ws).all fun s => decide (T.current = some s.owner) ||
      (!shouldReconnect code && decide (T.ping = none))
  | .cleanup => T.current.all fun c => ((T.firstSocket c).bind T.sockets).any fun s =>
      decide (s.owner = c ∧ s.retry = false ∧ s.state ≠ .closed)
  | _ => true

theorem Kept.not_reconnecting {T : State} {c ws : ℕ} {s : Socket} (h : Kept T)
    (hs : T.sockets ws = some s) (howner : s.owner = c) (hretry : s.retry = false)
    (hclosed : s.state ≠ .closed) : ¬T.Reconnecting c := by
  have hended : ¬T.Ended c := fun he => hclosed (he.2 ws s hs howner hretry)
  rintro (⟨r, x, hx, rfl⟩ | ⟨ws', s', hs', rfl, hr, -⟩)
  · exact hended (h.retrying r x hx).1
  · exact hended (h.retried ws' s' hs' hr).1

theorem orderly_of_calm {T : State} {e : Event} (h : Kept T) (hcalm : calm T e = true) :
    Orderly T e := by
  cases e with
  | opened ws =>
    intro s hs
    simpa [calm, hs] using hcalm
  | closed ws code r =>
    intro s hs hne
    simp only [calm, hs, Option.all_some, Bool.or_eq_true, Bool.and_eq_true] at hcalm
    rcases hcalm with hcalm | ⟨hcode, hping⟩
    · exact absurd (of_decide_eq_true hcalm) hne
    · refine ⟨fun hretry => ?_, of_decide_eq_true hping⟩
      rw [hretry.1] at hcode
      cases hcode
  | cleanup =>
    intro c hcurrent
    simp only [calm, hcurrent, Option.all_some] at hcalm
    obtain ⟨s, hs, hcalm⟩ := (Option.any_eq_true _ _).mp hcalm
    obtain ⟨ws, hfirst, hs⟩ := Option.bind_eq_some_iff.mp hs
    obtain ⟨howner, hretry, hclosed⟩ := of_decide_eq_true hcalm
    refine ⟨fun p hp => ?_, h.not_reconnecting hs howner hretry hclosed⟩
    by_contra hpending
    rw [firstSocket_of_pending hp (by simpa using hpending)] at hfirst
    cases hfirst
  | effect c ready => trivial
  | imported c ok => trivial
  | fetchedToken c found => trivial
  | fetchedBase c ws => trivial
  | timeout r => trivial
  | retryToken r found => trivial
  | retryBase r ws => trivial

/-- The call `c` is made, and its socket `ws` opens. -/
def connecting (c ws : ℕ) : List Event :=
  [.effect c true, .imported c true, .fetchedToken c true, .fetchedBase c ws, .opened ws]

/-- A thread is left with its socket open, which the server closes; the next one has its own. -/
def switched : List Event :=
  connecting 0 0 ++ [.cleanup, .closed 0 4001 0] ++ connecting 1 1

theorem owns_switched : Owns (machine.after {} switched) := by
  have hcalm : machine.accepts calm {} switched = true := by decide
  have hrun : machine.RunIf Orderly {} switched (machine.after {} switched) :=
    Machine.runIf_of_accepts (C := calm) (I := Kept) (fun _ _ h hcalm => orderly_of_calm h hcalm)
      (fun _ _ _ h hok hstep => h.step hok hstep) kept_initial hcalm
  exact owns_of_orderly ⟨{}, switched, rfl, hrun⟩

/-- The connection is lost, and the first retry opens. -/
def reconnected : List Event :=
  connecting 0 0 ++ [.closed 0 1006 0, .timeout 0, .retryToken 0 true, .retryBase 0 1, .opened 1]

/-- The pings go to the first socket, which is closed. -/
theorem reconnected_not_owned : ¬∀ T, machine.Reachable T → Owns T := by
  intro h
  have hrun : (machine.exec {} reconnected).isSome = true := by decide
  have howns := h _ ⟨{}, reconnected, rfl, Machine.run_after hrun⟩
  have hping := (howns.reached 1 ⟨0, true, .opened⟩ rfl rfl rfl).1
  cases hping

end Hill90.View.XTerminal
