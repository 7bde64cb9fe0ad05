import Mathlib.Algebra.Order.Ring.Int
import Hill90.Foundation.Machine

/-! # A terminal session

`terminal-proxy.ts` with `relay-backpressure.ts`: two sockets, the pumps between them, the ping, the
timer of the credential, and what ends them all.
-/

namespace Hill90.Terminal

inductive ReadyState where
  | connecting
  | open
  | closing
  | closed
  deriving DecidableEq

inductive Side where
  | client
  | agent
  deriving DecidableEq

def Side.other : Side → Side
  | client => agent
  | agent => client

def highWaterBytes : ℕ := 1024 * 1024

def hardCapBytes : ℕ := 8 * 1024 * 1024

def resumeThreshold : ℕ := highWaterBytes / 2

def maxTimeoutMs : ℤ := 2147483647

/-- A pump, named after the socket it reads from; `polling` says that its timer is armed. -/
structure Pump where
  paused : Bool := false
  polling : Bool := false
  overflowed : Bool := false
  deriving DecidableEq

/-- `late` counts the messages that are forwarded once `cleanupAll` has run. -/
structure Session where
  now : ℤ
  openedAt : ℤ
  expiresAt : ℤ
  ready : Side → ReadyState
  pump : Side → Pump := fun _ => {}
  pinging : Bool := true
  expiry : Option ℤ
  isAdmin : Bool
  rechecks : ℕ := 0
  cleaned : Bool := false
  late : ℕ := 0

/-- What happens to the session.  A message and a poll come with the bytes that are queued then. -/
inductive Event where
  | tick (d : ℕ)
  | agentOpen
  | unexpectedResponse
  | message (side : Side) (queued : ℕ)
  | poll (side : Side) (queued : ℕ)
  | ping
  | recheck (allowed : Bool)
  | expire
  | closing (side : Side)
  | closed (side : Side)
  | error (side : Side) (state : ReadyState)
  deriving DecidableEq

namespace Pump

def stop (p : Pump) : Pump := { p with polling := false }

def pauseSource (p : Pump) : Pump :=
  if p.paused then p else { p with paused := true, polling := true }

def resumeSource (p : Pump) : Pump := { p with paused := false, polling := false }

end Pump

namespace Session

def setReady (S : Session) (side : Side) (state : ReadyState) : Session :=
  { S with ready := fun s => if s = side then state else S.ready s }

def setPump (S : Session) (side : Side) (p : Pump) : Session :=
  { S with pump := fun s => if s = side then p else S.pump s }

def close (S : Session) (side : Side) : Session :=
  if S.ready side = .open then S.setReady side .closing else S

def cleanupAll (S : Session) : Session :=
  (({ S with pump := fun side => (S.pump side).stop
             expiry := none, pinging := false, cleaned := true } : Session).close .client).close .agent

def relay (S : Session) (side : Side) (queued : ℕ) : Session :=
  if (S.pump side).overflowed then S
  else if S.ready side.other ≠ .open then S
  else
    let S := if S.cleaned then { S with late := S.late + 1 } else S
    if hardCapBytes < queued then
      ((S.setPump side { (S.pump side).stop with overflowed := true }).close .client).cleanupAll
    else if highWaterBytes < queued then S.setPump side (S.pump side).pauseSource
    else S

/-- A timer that is due fires before more time passes. -/
def step (S : Session) : Event → Option Session
  | .tick d => if S.expiry.all fun t => S.now + d ≤ t then some { S with now := S.now + d } else none
  | .agentOpen => if S.ready .agent = .connecting then some (S.setReady .agent .open) else none
  | .unexpectedResponse => if S.ready .agent = .connecting then some (S.close .client) else none
  | .message side queued =>
    if S.ready side = .open ∨ S.ready side = .closing then some (S.relay side queued) else none
  | .poll side queued =>
    if (S.pump side).polling then
      some (if S.ready side.other ≠ .open ∨ queued ≤ resumeThreshold then
        S.setPump side (S.pump side).resumeSource else S)
    else none
  | .ping =>
    if S.pinging then some (if S.isAdmin then S else { S with rechecks := S.rechecks + 1 }) else none
  | .recheck allowed =>
    if 0 < S.rechecks then
      let S := { S with rechecks := S.rechecks - 1 }
      some (if allowed then S else (S.close .client).cleanupAll)
    else none
  | .expire => if S.expiry = some S.now then some ((S.close .client).cleanupAll) else none
  | .closing side => if S.ready side = .open then some (S.setReady side .closing) else none
  | .closed side => some (S.setReady side .closed).cleanupAll
  | .error side state =>
    if state = S.ready side ∨ state = .closing then some (S.setReady side state).cleanupAll else none

def opened (now expiresAt : ℤ) (isAdmin : Bool) : Session where
  now := now
  openedAt := now
  expiresAt := expiresAt
  ready := fun
    | .client => .open
    | .agent => .connecting
  expiry := some (max now (min expiresAt (now + maxTimeoutMs)))
  isAdmin := isAdmin

def machine : Machine Session Event where
  initial S := ∃ now expiresAt isAdmin, S = opened now expiresAt isAdmin
  step := step

/-- Once `cleanupAll` has run, no timer is armed, no socket is open and nothing is forwarded; and no
socket is open past the credential. -/
structure Ended (S : Session) : Prop where
  pinging : S.cleaned = true → S.pinging = false
  expiry : S.cleaned = true → S.expiry = none
  polling : S.cleaned = true → ∀ side, (S.pump side).polling = false
  ready : S.cleaned = true → ∀ side, S.ready side ≠ .open
  late : S.late = 0
  punctual : max S.expiresAt S.openedAt < S.now → ∀ side, S.ready side ≠ .open

/-- The upstream does not open once `cleanupAll` has run. -/
def Owned (S : Session) : Event → Prop
  | .agentOpen => S.cleaned = false
  | _ => True

/-- Until `cleanupAll` has run the timer of the credential is armed. -/
structure Armed (S : Session) : Prop where
  client : S.ready .client ≠ .connecting
  expiry : S.cleaned = false → ∃ t, S.expiry = some t ∧ S.now ≤ t ∧ t ≤ max S.expiresAt S.openedAt

variable {S T : Session} {side : Side} {queued : ℕ}

/-! ## The ends of a session -/

theorem close_eq (S : Session) (side : Side) :
    S.close side = S.setReady side (if S.ready side = .open then .closing else S.ready side) := by
  unfold close
  split
  · rfl
  · have hready : (fun s => if s = side then S.ready side else S.ready s) = S.ready := by
      funext s
      split
      · rename_i hs
        rw [hs]
      · rfl
    rw [setReady, hready]

theorem cleanupAll_ready (S : Session) (side : Side) :
    S.cleanupAll.ready side = if S.ready side = .open then .closing else S.ready side := by
  cases side <;> simp [cleanupAll, close_eq, setReady]

theorem cleanupAll_fields (S : Session) : S.cleanupAll.cleaned = true ∧ S.cleanupAll.pinging = false ∧
    S.cleanupAll.expiry = none ∧ (∀ side, (S.cleanupAll.pump side).polling = false) ∧
      S.cleanupAll.late = S.late := by
  simp [cleanupAll, close_eq, setReady, Pump.stop]

theorem not_open_cleanupAll (S : Session) (side : Side) : S.cleanupAll.ready side ≠ .open := by
  rw [cleanupAll_ready]
  split
  · exact nofun
  · assumption

theorem ended_cleanupAll (h : S.late = 0) : Ended S.cleanupAll := by
  obtain ⟨_, hping, hexpiry, hpolling, hlate⟩ := cleanupAll_fields S
  exact ⟨fun _ => hping, fun _ => hexpiry, fun _ => hpolling, fun _ => not_open_cleanupAll S,
    hlate.trans h, fun _ => not_open_cleanupAll S⟩

theorem armed_cleanupAll (h : S.ready .client ≠ .connecting) : Armed S.cleanupAll := by
  constructor
  · rw [cleanupAll_ready]
    split
    · exact nofun
    · exact h
  · intro hcleaned
    rw [(cleanupAll_fields S).1] at hcleaned
    cases hcleaned

/-! ## The other steps -/

/-- Nothing begins again: no socket opens, and a timer of a pump is armed only before the end. -/
structure Quieter (S T : Session) : Prop where
  cleaned : T.cleaned = S.cleaned
  pinging : T.pinging = S.pinging
  expiry : T.expiry = S.expiry
  late : T.late = S.late
  times : T.now = S.now ∧ T.expiresAt = S.expiresAt ∧ T.openedAt = S.openedAt
  ready : ∀ side, T.ready side = .open → S.ready side = .open
  client : T.ready .client = .connecting → S.ready .client = .connecting
  polling : ∀ side, S.cleaned = true → (T.pump side).polling = true → (S.pump side).polling = true

theorem Ended.quieter (h : Ended S) (hq : Quieter S T) : Ended T := by
  obtain ⟨hnow, hexpires, hopened⟩ := hq.times
  refine ⟨fun hT => ?_, fun hT => ?_, fun hT side => ?_, fun hT side hopen => ?_, ?_, fun hT side hopen => ?_⟩
  · rw [hq.pinging]
    exact h.pinging (hq.cleaned.symm.trans hT)
  · rw [hq.expiry]
    exact h.expiry (hq.cleaned.symm.trans hT)
  · have hS := hq.cleaned.symm.trans hT
    refine Bool.eq_false_iff.mpr fun hpolling => ?_
    have hpolled := hq.polling side hS hpolling
    rw [h.polling hS side] at hpolled
    cases hpolled
  · exact h.ready (hq.cleaned.symm.trans hT) side (hq.ready side hopen)
  · exact hq.late.trans h.late
  · rw [hnow, hexpires, hopened] at hT
    exact h.punctual hT side (hq.ready side hopen)

theorem Armed.quieter (h : Armed S) (hq : Quieter S T) : Armed T := by
  obtain ⟨hnow, hexpires, hopened⟩ := hq.times
  refine ⟨fun hT => h.client (hq.client hT), fun hT => ?_⟩
  rw [hq.expiry, hnow, hexpires, hopened]
  exact h.expiry (hq.cleaned.symm.trans hT)

theorem quieter_refl (S : Session) : Quieter S S :=
  ⟨rfl, rfl, rfl, rfl, ⟨rfl, rfl, rfl⟩, fun _ h => h, fun h => h, fun _ _ h => h⟩

theorem quieter_rechecks (S : Session) (n : ℕ) : Quieter S { S with rechecks := n } :=
  ⟨rfl, rfl, rfl, rfl, ⟨rfl, rfl, rfl⟩, fun _ h => h, id, fun _ _ h => h⟩

theorem quieter_setReady {state : ReadyState} (hopen : state = .open → S.ready side = .open)
    (hconnecting : state = .connecting → S.ready side = .connecting) : Quieter S (S.setReady side state) := by
  refine ⟨rfl, rfl, rfl, rfl, ⟨rfl, rfl, rfl⟩, fun s hs => ?_, fun hs => ?_, fun _ _ h => h⟩
  · simp only [setReady] at hs
    split at hs
    · rename_i hside
      rw [hside]
      exact hopen hs
    · exact hs
  · simp only [setReady] at hs
    split at hs
    · rename_i hside
      rw [hside]
      exact hconnecting hs
    · exact hs

theorem quieter_close (S : Session) (side : Side) : Quieter S (S.close side) := by
  rw [close_eq]
  apply quieter_setReady
  · split
    · exact nofun
    · exact id
  · split
    · exact nofun
    · exact id

theorem quieter_setPump (side : Side) {p : Pump} (hp : S.cleaned = true → p.polling = true → (S.pump side).polling = true) :
    Quieter S (S.setPump side p) := by
  refine ⟨rfl, rfl, rfl, rfl, ⟨rfl, rfl, rfl⟩, fun _ h => h, id, fun s hcleaned hs => ?_⟩
  simp only [setPump] at hs
  split at hs
  · rename_i hside
    rw [hside]
    exact hp hcleaned hs
  · exact hs

/-- `cleanupAll` has just run. -/
def Ends (S T : Session) : Prop :=
  ∃ U : Session, U.late = 0 ∧ (U.ready .client = .connecting → S.ready .client = .connecting) ∧
    T = U.cleanupAll

theorem ends_close (h : Ended S) (side : Side) : Ends S (S.close side).cleanupAll :=
  ⟨_, (quieter_close S side).late.trans h.late, (quieter_close S side).client, rfl⟩

theorem ends_setReady {state : ReadyState} (h : Ended S)
    (hconnecting : state = .connecting → S.ready side = .connecting) :
    Ends S (S.setReady side state).cleanupAll := by
  refine ⟨S.setReady side state, h.late, fun hclient => ?_, rfl⟩
  simp only [setReady] at hclient
  split at hclient
  · rename_i hside
    rw [hside]
    exact hconnecting hclient
  · exact hclient

/-- A message that is relayed ends the session or begins nothing. -/
theorem relay_cases (h : Ended S) (side : Side) (queued : ℕ) :
    Quieter S (S.relay side queued) ∨ Ends S (S.relay side queued) := by
  unfold relay
  split
  · exact .inl (quieter_refl S)
  · split
    · exact .inl (quieter_refl S)
    · rename_i hopen
      have hcleaned : S.cleaned = false :=
        Bool.eq_false_iff.mpr fun hcleaned => hopen (h.ready hcleaned side.other)
      simp only [hcleaned, Bool.false_eq_true, if_false]
      split
      · obtain ⟨U, hlate, hclient, hU⟩ := ends_close (h.quieter (quieter_setPump side
          (p := { (S.pump side).stop with overflowed := true }) fun _ hpolling => by cases hpolling)) .client
        exact .inr ⟨U, hlate, hclient, hU⟩
      · left
        split
        · exact quieter_setPump _ fun hcleaned' => by rw [hcleaned] at hcleaned'; cases hcleaned'
        · exact quieter_refl S

/-- What a step does that is no opening of the upstream: time passes, or the session ends, or nothing
begins. -/
theorem step_cases {a : Event} (h : Ended S) (hstep : S.step a = some T) :
    (∃ d : ℕ, a = .tick d ∧ (S.expiry.all fun t => S.now + d ≤ t) = true ∧ T = { S with now := S.now + d }) ∨
    (a = .agentOpen ∧ T = S.setReady .agent .open) ∨ a ≠ .agentOpen ∧ (Quieter S T ∨ Ends S T) := by
  cases a with
  | tick d =>
    obtain ⟨hdue, hT⟩ := Option.ite_none_right_eq_some.mp hstep
    exact .inl ⟨d, rfl, hdue, (Option.some.inj hT).symm⟩
  | agentOpen =>
    obtain ⟨_, hT⟩ := Option.ite_none_right_eq_some.mp hstep
    exact .inr (.inl ⟨rfl, (Option.some.inj hT).symm⟩)
  | unexpectedResponse =>
    obtain ⟨_, hT⟩ := Option.ite_none_right_eq_some.mp hstep
    cases hT
    exact .inr (.inr ⟨nofun, .inl (quieter_close S .client)⟩)
  | message side queued =>
    obtain ⟨_, hT⟩ := Option.ite_none_right_eq_some.mp hstep
    cases hT
    exact .inr (.inr ⟨nofun, relay_cases h side queued⟩)
  | poll side queued =>
    obtain ⟨_, hT⟩ := Option.ite_none_right_eq_some.mp hstep
    cases hT
    refine .inr (.inr ⟨nofun, .inl ?_⟩)
    split
    · exact quieter_setPump _ fun _ hpolling => by cases hpolling
    · exact quieter_refl S
  | ping =>
    obtain ⟨_, hT⟩ := Option.ite_none_right_eq_some.mp hstep
    cases hT
    refine .inr (.inr ⟨nofun, .inl ?_⟩)
    split
    · exact quieter_refl S
    · exact quieter_rechecks S _
  | recheck allowed =>
    obtain ⟨_, hT⟩ := Option.ite_none_right_eq_some.mp hstep
    cases hT
    cases allowed with
    | true => exact .inr (.inr ⟨nofun, .inl (quieter_rechecks S _)⟩)
    | false =>
      obtain ⟨U, hlate, hclient, hU⟩ := ends_close (h.quieter (quieter_rechecks S (S.rechecks - 1))) .client
      exact .inr (.inr ⟨nofun, .inr ⟨U, hlate, hclient, hU⟩⟩)
  | expire =>
    obtain ⟨_, hT⟩ := Option.ite_none_right_eq_some.mp hstep
    cases hT
    exact .inr (.inr ⟨nofun, .inr (ends_close h .client)⟩)
  | closing side =>
    obtain ⟨_, hT⟩ := Option.ite_none_right_eq_some.mp hstep
    cases hT
    exact .inr (.inr ⟨nofun, .inl (quieter_setReady nofun nofun)⟩)
  | closed side =>
    cases hstep
    exact .inr (.inr ⟨nofun, .inr (ends_setReady h nofun)⟩)
  | error side state =>
    obtain ⟨hstate, hT⟩ := Option.ite_none_right_eq_some.mp hstep
    cases hT
    refine .inr (.inr ⟨nofun, .inr (ends_setReady h ?_)⟩)
    obtain rfl | rfl := hstate
    · exact id
    · exact nofun

/-! ## Runs -/

theorem armed_close (h : Armed S) (side : Side) : Armed (S.close side) := h.quieter (quieter_close S side)

theorem armed_setPump (h : Armed S) (side : Side) (p : Pump) : Armed (S.setPump side p) :=
  ⟨h.client, h.expiry⟩

theorem armed_relay (h : Armed S) (side : Side) (queued : ℕ) : Armed (S.relay side queued) := by
  have hcounted : Armed (if S.cleaned then { S with late := S.late + 1 } else S) := by
    split
    · exact ⟨h.client, h.expiry⟩
    · exact h
  unfold relay
  split
  · exact h
  · split
    · exact h
    · dsimp only
      split
      · exact armed_cleanupAll (armed_close (armed_setPump hcounted side _) .client).client
      · split
        · exact armed_setPump hcounted side _
        · exact hcounted

theorem armed_setReady {state : ReadyState} (h : Armed S) (hstate : state ≠ .connecting) :
    Armed (S.setReady side state) := by
  refine ⟨fun hclient => ?_, h.expiry⟩
  simp only [setReady] at hclient
  split at hclient
  · exact hstate hclient
  · exact h.client hclient

theorem armed_step {a : Event} (h : Armed S) (hstep : S.step a = some T) : Armed T := by
  cases a with
  | tick d =>
    obtain ⟨hdue, hT⟩ := Option.ite_none_right_eq_some.mp hstep
    cases hT
    refine ⟨h.client, fun hcleaned => ?_⟩
    obtain ⟨t, ht, _, hmax⟩ := h.expiry hcleaned
    rw [ht] at hdue
    exact ⟨t, ht, of_decide_eq_true hdue, hmax⟩
  | agentOpen =>
    obtain ⟨_, hT⟩ := Option.ite_none_right_eq_some.mp hstep
    cases hT
    exact armed_setReady h nofun
  | unexpectedResponse =>
    obtain ⟨_, hT⟩ := Option.ite_none_right_eq_some.mp hstep
    cases hT
    exact armed_close h .client
  | message side queued =>
    obtain ⟨_, hT⟩ := Option.ite_none_right_eq_some.mp hstep
    cases hT
    exact armed_relay h side queued
  | poll side queued =>
    obtain ⟨_, hT⟩ := Option.ite_none_right_eq_some.mp hstep
    cases hT
    split
    · exact armed_setPump h side _
    · exact h
  | ping =>
    obtain ⟨_, hT⟩ := Option.ite_none_right_eq_some.mp hstep
    cases hT
    split
    · exact h
    · exact ⟨h.client, h.expiry⟩
  | recheck allowed =>
    obtain ⟨_, hT⟩ := Option.ite_none_right_eq_some.mp hstep
    cases hT
    cases allowed with
    | true => exact ⟨h.client, h.expiry⟩
    | false => exact armed_cleanupAll (armed_close (h.quieter (quieter_rechecks S _)) .client).client
  | expire =>
    obtain ⟨_, hT⟩ := Option.ite_none_right_eq_some.mp hstep
    cases hT
    exact armed_cleanupAll (armed_close h .client).client
  | closing side =>
    obtain ⟨_, hT⟩ := Option.ite_none_right_eq_some.mp hstep
    cases hT
    exact armed_setReady h nofun
  | closed side =>
    cases hstep
    have hclosed : Armed (S.setReady side .closed) := armed_setReady h nofun
    exact armed_cleanupAll hclosed.client
  | error side state =>
    obtain ⟨hstate, hT⟩ := Option.ite_none_right_eq_some.mp hstep
    cases hT
    refine armed_cleanupAll fun hclient => ?_
    simp only [setReady] at hclient
    obtain rfl | rfl := hstate
    · split at hclient
      · rename_i hside
        rw [← hside] at hclient
        exact h.client hclient
      · exact h.client hclient
    · split at hclient
      · cases hclient
      · exact h.client hclient

theorem ended_step {a : Event} (hA : Armed S) (h : Ended S) (hstep : S.step a = some T) :
    Ended T ↔ Owned S a := by
  have howned : ∀ {a}, a ≠ .agentOpen → Owned S a := by
    intro a ha
    cases a <;> trivial
  obtain ⟨d, rfl, hdue, rfl⟩ | ⟨rfl, rfl⟩ | ⟨hne, hq | ⟨U, hlate, _, rfl⟩⟩ := step_cases h hstep
  · refine iff_of_true ⟨h.pinging, h.expiry, h.polling, h.ready, h.late, fun hpast => ?_⟩ trivial
    cases hcleaned : S.cleaned with
    | true => exact h.ready hcleaned
    | false =>
      obtain ⟨t, ht, _, hmax⟩ := hA.expiry hcleaned
      rw [ht] at hdue
      exact absurd hpast (not_lt.mpr ((of_decide_eq_true hdue).trans hmax))
  · constructor
    · intro hT
      refine Bool.eq_false_iff.mpr fun hcleaned => hT.ready hcleaned .agent ?_
      simp [setReady]
    · intro (hcleaned : S.cleaned = false)
      obtain ⟨t, _, hnow, hmax⟩ := hA.expiry hcleaned
      refine ⟨fun hT => ?_, fun hT => ?_, fun hT => ?_, fun hT => ?_, h.late, fun hpast => ?_⟩
      · exact absurd (hcleaned.symm.trans hT) Bool.false_ne_true
      · exact absurd (hcleaned.symm.trans hT) Bool.false_ne_true
      · exact absurd (hcleaned.symm.trans hT) Bool.false_ne_true
      · exact absurd (hcleaned.symm.trans hT) Bool.false_ne_true
      · exact absurd hpast (not_lt.mpr (hnow.trans hmax))
  · exact iff_of_true (h.quieter hq) (howned hne)
  · exact iff_of_true (ended_cleanupAll hlate) (howned hne)

theorem armed_opened (now expiresAt : ℤ) (isAdmin : Bool) : Armed (opened now expiresAt isAdmin) := by
  refine ⟨nofun, fun _ => ⟨_, rfl, le_max_left _ _, ?_⟩⟩
  change max now (min expiresAt (now + maxTimeoutMs)) ≤ max expiresAt now
  exact max_le (le_max_right _ _) ((min_le_left _ _).trans (le_max_left _ _))

theorem ended_opened (now expiresAt : ℤ) (isAdmin : Bool) : Ended (opened now expiresAt isAdmin) := by
  refine ⟨nofun, nofun, nofun, nofun, rfl, fun hpast => ?_⟩
  exact absurd hpast (not_lt.mpr (le_max_right _ _))

/-- A session ends completely, all through a run, exactly where its upstream does not open once
`cleanupAll` has run. -/
theorem ended_iff {as : List Event} (hS : machine.initial S) (h : machine.Run S as T) :
    (∀ pre U, pre <+: as → machine.Run S pre U → Ended U) ↔ machine.RunIf Owned S as T := by
  obtain ⟨now, expiresAt, isAdmin, rfl⟩ := hS
  exact h.always_iff (I := Armed) (armed_opened _ _ _) (ended_opened _ _ _)
    (fun _ _ _ hA hstep => armed_step hA hstep) fun _ _ _ hA hE hstep => ended_step hA hE hstep

/-- The upstream opens, a message is relayed, and the credential expires. -/
def expired : List Event := [.agentOpen, .message .client 10, .tick 1000, .expire]

theorem ended_expired :
    (∀ pre U, pre <+: expired → machine.Run (opened 0 1000 false) pre U → Ended U) ↔
      machine.RunIf Owned (opened 0 1000 false) expired (machine.after (opened 0 1000 false) expired) :=
  ended_iff ⟨0, 1000, false, rfl⟩ (Machine.run_after (by decide))

/-- The client goes away while the upstream is connecting, which then opens and stays open. -/
theorem upstream_opens_late : ¬∀ S T as, machine.initial S → machine.Run S as T → Ended T := by
  intro h
  have hrun : machine.Run (opened 0 1000 false) [.closed .client, .agentOpen]
      (machine.after (opened 0 1000 false) [.closed .client, .agentOpen]) :=
    Machine.run_after (by decide)
  exact (h _ _ _ ⟨0, 1000, false, rfl⟩ hrun).ready rfl .agent rfl

end Session

end Hill90.Terminal
