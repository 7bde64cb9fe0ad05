import Hill90.Agents.Reconcile

/-! # Demotion needs two sightings

Beside the store stands what the last pass saw of each container, and a row recorded as running
with a container that is not is one that pass has seen so.
-/

namespace Hill90.Agents

open Chat (Uuid Failure)
open Program

/-- The store, and whether the last pass saw the container of an agent not running, with no
restart of the agent since. -/
structure Watched where
  store : Store
  sighted : Uuid → Bool

abbrev Ending := Log Statement Statement.Rows Store × Except Failure Response

/-- The agents a pass could not inspect, by its report. -/
def unverifiedBy (ending : Ending) : List String :=
  match ending.2 with
  | .ok (.passed (some result)) => result.unverified
  | _ => []

def isRunning (s : Store) (id : Uuid) : Bool := (s.agent? id).any fun a => a.status = .running

namespace Watched

variable (w : Watched)

/-- A pass notes what it saw; a restart, or a row that is not running, forgets it. -/
def note (q : Request) (ending : Ending) (id : Uuid) : Bool :=
  match q with
  | .pass => (w.store.agent? id).any fun a =>
    !(unverifiedBy ending).contains a.agentId && !Container.running (w.store.containers a.agentId)
  | .start started =>
    if started = id && ending.2 matches .ok (.status 200) then false
    else w.sighted id && isRunning w.store id && isRunning ending.1.store id
  | _ => w.sighted id && isRunning w.store id && isRunning ending.1.store id

variable (cfg : Config)

def step : Call Choice Failure Request Surroundings → Option Watched
  | .request q pattern =>
    let ending := (service cfg).serve {} w.store q pattern
    some ⟨ending.1.store, w.note q ending⟩
  | .environment x => (x.apply w.store).map fun store => { w with store }

end Watched

variable (cfg : Config)

def watched : Machine Watched (Call Choice Failure Request Surroundings) where
  initial w := w.store.Fresh ∧ w.sighted = fun _ => false
  step w := w.step cfg

def Statement.inspects : Statement → Bool
  | .inspect _ | .sweepSessions => true
  | _ => false

def Inspects (w : Watched) : Call Choice Failure Request Surroundings → Prop
  | .request .pass pattern =>
    ∀ st ∈ ((service cfg).serve {} w.store .pass pattern).1.failures, st.inspects = true
  | _ => True

/-! ## One row -/

section Row

variable (containers : String → Option Container) (verified : Uuid → Bool) (a : Agent)

/-- What a pass makes of a row. -/
theorem reconciled_cases :
    (verified a.id = false ∧ (reconciled containers verified a).status = a.status ∧
      (reconciled containers verified a).containerState = none) ∨
    (verified a.id = true ∧ Container.running (containers a.agentId) = true ∧
      (reconciled containers verified a).status = .running ∧
      (reconciled containers verified a).containerState = some .running) ∨
    (verified a.id = true ∧ Container.running (containers a.agentId) = false ∧ a.status = .running ∧
      (stateOf (containers a.agentId) = .absent ∨ ∃ c, a.containerState = some c ∧ c ≠ .running) ∧
      (reconciled containers verified a).status = .stopped ∧
      (reconciled containers verified a).containerState = some (stateOf (containers a.agentId))) ∨
    (verified a.id = true ∧ Container.running (containers a.agentId) = false ∧
      (a.status = .running → stateOf (containers a.agentId) ≠ .absent ∧
        ¬∃ c, a.containerState = some c ∧ c ≠ .running) ∧
      (reconciled containers verified a).status = a.status ∧
      (reconciled containers verified a).containerState = some (stateOf (containers a.agentId))) := by
  have hstate : Container.running (containers a.agentId) = true →
      stateOf (containers a.agentId) = .running := by
    intro h
    cases hc : containers a.agentId with
    | none =>
      rw [hc] at h
      cases h
    | some c =>
      rw [hc] at h
      exact of_decide_eq_true h
  have hany : (a.containerState.any fun c => !decide (c = .running)) = true ↔
      ∃ c, a.containerState = some c ∧ c ≠ .running := by
    cases a.containerState <;> simp
  unfold reconciled
  cases hv : verified a.id with
  | false =>
    refine .inl ⟨rfl, ?_⟩
    simp only [Bool.false_eq_true, if_false, reconcileRow]
    cases hs : a.containerState with
    | none => simp [hs]
    | some c => simp [AgentStatusPatch.apply]
  | true =>
    right
    simp only [if_true, reconcileRow]
    cases hrun : Container.running (containers a.agentId) with
    | true =>
      refine .inl ⟨trivial, rfl, ?_⟩
      have hrunning := hstate hrun
      by_cases hstatus : a.status = .running
      · by_cases hsame : a.containerState = some .running
        · simp [hstatus, hsame, hrunning]
        · simp [hstatus, hsame, hrunning, AgentStatusPatch.apply]
      · simp [hstatus, hrunning, AgentStatusPatch.apply]
    | false =>
      right
      by_cases hstatus : a.status = .running
      · by_cases hdown : stateOf (containers a.agentId) = .absent ∨
          ∃ c, a.containerState = some c ∧ c ≠ .running
        · refine .inl ⟨trivial, rfl, hstatus, hdown, ?_⟩
          rw [← hany] at hdown
          simp [hstatus, hdown, AgentStatusPatch.apply]
        · refine .inr ⟨trivial, rfl, fun _ => not_or.mp hdown, ?_⟩
          rw [← hany] at hdown
          simp [hstatus, hdown, AgentStatusPatch.apply]
      · refine .inr ⟨trivial, rfl, fun h => absurd h hstatus, ?_⟩
        by_cases hsame : a.containerState = some (stateOf (containers a.agentId))
        · simp [hstatus, hsame]
        · simp [hstatus, hsame, AgentStatusPatch.apply]

@[simp] theorem reconciled_id : (reconciled containers verified a).id = a.id := by
  unfold reconciled
  cases reconcileRow a _ <;> rfl

@[simp] theorem reconciled_agentId : (reconciled containers verified a).agentId = a.agentId := by
  unfold reconciled
  cases reconcileRow a _ <;> rfl

end Row

/-! ## One pass -/

variable {cfg} {w w' : Watched} {s : Store} {pattern : List (Outcome Choice Failure)}

/-- The end of a pass from a store. -/
abbrev passFrom (cfg : Config) (s : Store) (pattern : List (Outcome Choice Failure)) : Ending :=
  (service cfg).serve {} s .pass pattern

/-- The failures a pass goes on after. -/
def Inspected (cfg : Config) (s : Store) (pattern : List (Outcome Choice Failure)) : Prop :=
  ∀ st ∈ (passFrom cfg s pattern).1.failures, st.inspects = true

theorem pass_result (hok : Inspected cfg s pattern) :
    ∃ verified result, (passFrom cfg s pattern).2 = .ok (.passed (some result)) ∧
      Passed s verified result (passFrom cfg s pattern).1.store := by
  have hpass : ((service cfg).handler .pass).Always
      (Admitted (service cfg).run fun st => st.inspects = true)
      (fun response s' => ∃ verified result, response = .passed (some result) ∧
        Passed s verified result s') (fun _ _ => False) s := by
    have hbody : Always (Admitted Statement.run fun st => st.inspects = true) runReconcilePass _
        (fun _ _ => False) s := always_pass fun p h => by cases h
    apply hbody.mono _ fun _ _ h => h
    rintro response s' (⟨hread, _⟩ | ⟨verified, result, hresponse, hpassed, _⟩)
    · cases hread
    · exact ⟨verified, result, hresponse, hpassed⟩
  have hended := Service.ended_of_serve hpass hok
  revert hended
  change Program.Ended _ _ (passFrom cfg s pattern) → _
  generalize passFrom cfg s pattern = ending
  obtain ⟨t, answer⟩ := ending
  cases answer with
  | ok response =>
    rintro ⟨verified, result, rfl, hpassed⟩
    exact ⟨verified, result, rfl, hpassed⟩
  | error e => exact False.elim

/-- A row after a pass, by the report of the pass. -/
theorem row_after_pass (hok : Inspected cfg s pattern) (hnames : s.Named) (id : Uuid) :
    (passFrom cfg s pattern).1.store.agent? id = (s.agent? id).map fun a =>
      reconciled s.containers
        (fun _ => !(unverifiedBy (passFrom cfg s pattern)).contains a.agentId) a := by
  obtain ⟨verified, result, hresult, hpassed⟩ := pass_result hok
  have hreport : unverifiedBy (passFrom cfg s pattern) = result.unverified := by
    rw [unverifiedBy, hresult]
  rw [hpassed.agent?, hreport]
  cases hid : s.agent? id with
  | none => rfl
  | some a =>
    simp only [Option.map_some, reconciled,
      hpassed.verified_eq hnames (Table.mem_of_get? hid)]

theorem containers_after_pass (hok : Inspected cfg s pattern) :
    (passFrom cfg s pattern).1.store.containers = s.containers := by
  obtain ⟨verified, result, _, hpassed⟩ := pass_result hok
  exact hpassed.containers

theorem named_serve {q : Request} (hs : s.Named) : ((service cfg).serve {} s q pattern).1.store.Named :=
  Service.serve_of_always (V := service cfg)
    (show ((service cfg).handler q).Always (Admitted (service cfg).run fun _ => True) _ _ s from
      keeps_named _ s hs) fun _ _ => trivial

/-! ## The other requests -/

/-- A row recorded as running beside a container that is not. -/
def Doubted (a : Agent) : Prop := a.status = .running ∧ ∃ c, a.containerState = some c ∧ c ≠ .running

def OldDoubts (s s' : Store) : Prop :=
  ∀ id a', s'.agent? id = some a' → Doubted a' → ∃ a, s.agent? id = some a ∧ Doubted a

theorem oldDoubts_run {s₀ s s' : Store} {c : Choice} {st : Statement} {rows : st.Rows}
    (hst : ∀ p, st ≠ .patch p) (h : Statement.run s c st = .ok (rows, s')) (hs : OldDoubts s₀ s) :
    OldDoubts s₀ s' := by
  intro id a' ha' hdoubt
  obtain hsame | ⟨rid, f, hf, hrewrite, _, hstatus⟩ | ⟨rid, hdelete⟩ := agents_run h
  · rw [Store.agent?, hsame] at ha'
    exact hs id a' ha' hdoubt
  · rw [Store.agent?, hrewrite] at ha'
    change (s.rewrite rid f hf).agent? id = some a' at ha'
    rw [Store.agent?_rewrite, Option.map_eq_some_iff] at ha'
    obtain ⟨a, ha, rfl⟩ := ha'
    split at hdoubt
    · obtain ⟨hrunning, c, hc, hne⟩ := hdoubt
      obtain hup | ⟨hbefore, hsame⟩ := hstatus hst a hrunning
      · rw [hup] at hc
        cases hc
        exact absurd rfl hne
      · exact hs id a ha ⟨hbefore, c, hsame.symm.trans hc, hne⟩
    · exact hs id a ha hdoubt
  · rw [Store.agent?, hdelete] at ha'
    exact hs id a' (Table.get?_of_delete ha').1 hdoubt

theorem keeps_oldDoubts {α : Type} {good : Statement → Prop} {s₀ : Store} {p : Handler α}
    (hp : Only (fun st => ∀ p, st ≠ .patch p) p) :
    Keeps (Admitted Statement.run good) (OldDoubts s₀) p := by
  apply hp.keeps
  intro s st answer s' hs hst h
  cases h with
  | answered effect => exact oldDoubts_run hst effect hs
  | failed _ => exact hs
  | lost _ effect => exact oldDoubts_run hst effect hs

def Statement.reconciles : Statement → Bool
  | .selectAgents | .patch _ | .sweepSessions => true
  | _ => false

def Lifecycle {α : Type} (p : Handler α) : Prop := Only (fun st => st.reconciles = false) p

theorem lifecycle_of_docker {α : Type} {p : Handler α} (hp : Only (fun st => st.docker = true) p) :
    Lifecycle p := hp.mono fun st h => by cases st <;> first | rfl | cases h

theorem lifecycle_mintToken (kind : TokenKind) (id : Uuid) : Lifecycle (mintToken cfg kind id) :=
  only_ite (fun _ => only_tryCatch (only_ask (by rfl)) fun _ => only_pure _) fun _ => only_pure _

theorem lifecycle_storeMinted (kind : TokenKind) (id : Uuid) (minted : Option Credential) :
    Lifecycle (storeMinted kind id minted) := by
  cases minted with
  | none => exact only_pure _
  | some credential => exact only_best (only_ask (by rfl))

theorem lifecycle_installTools (agent : Agent) : Lifecycle (installRequiredTools agent) := by
  apply only_tryCatch (only_ask (by rfl))
  exact fun _ => only_bind (only_best (lifecycle_of_docker (only_stopAndRemove _))) fun _ => only_throw _

theorem lifecycle_launch (agent : Agent) : Lifecycle (launch cfg agent) := by
  apply only_bind (only_ask (by rfl))
  intro _
  apply only_bind (lifecycle_mintToken .akm agent.id)
  intro akm
  apply only_bind (lifecycle_mintToken .modelRouter agent.id)
  intro modelRouter
  apply only_bind (only_ask (by rfl))
  intro workToken
  apply only_bind (only_ask (by rfl))
  intro _
  apply only_bind (only_ask (by rfl))
  intro _
  apply only_bind (lifecycle_of_docker (only_createAndStart _))
  intro containerId
  apply only_bind (lifecycle_of_docker (only_readStartedAt _))
  intro startedAt
  apply only_bind (lifecycle_installTools agent)
  intro _
  apply only_bind (lifecycle_storeMinted .akm agent.id akm)
  intro _
  apply only_bind (lifecycle_storeMinted .modelRouter agent.id modelRouter)
  intro _
  apply only_bind (only_ask (by rfl))
  exact fun _ => only_bind (only_best (only_ask (by rfl))) fun _ => only_pure _

theorem lifecycle_start (id : Uuid) : Lifecycle (Agents.start cfg id) := by
  apply only_tryCatch
  · apply only_ite
    · exact fun _ => only_pure _
    · intro _
      apply only_bind (only_ask (by rfl))
      intro agent
      cases agent with
      | none => exact only_pure _
      | some agent => exact lifecycle_launch agent
  · intro e
    cases e with
    | _ => exact only_bind (only_best (only_ask (by rfl))) fun _ => only_pure _

theorem lifecycle_revokeToken (kind : TokenKind) (agent : Agent) :
    Lifecycle (revokeToken cfg kind agent) := by
  unfold Lifecycle revokeToken
  split
  · apply only_ite
    · intro _
      apply only_tryCatch
      · exact only_bind (only_ask (by rfl)) fun _ => only_pure _
      · exact fun _ => only_pure _
    · exact fun _ => only_pure _
  · exact only_pure _

theorem lifecycle_stop (id : Uuid) : Lifecycle (stop cfg id) := by
  apply only_tryCatch
  · apply only_bind (only_ask (by rfl))
    intro agent
    cases agent with
    | none => exact only_pure _
    | some agent =>
      apply only_bind (lifecycle_revokeToken .akm agent)
      intro akmKept
      apply only_bind (lifecycle_revokeToken .modelRouter agent)
      intro kept
      apply only_bind
      · apply only_tryCatch (lifecycle_of_docker (only_stopAndRemove _))
        exact fun _ => only_bind (only_best (only_ask (by rfl))) fun _ => only_throw _
      intro _
      apply only_bind (only_best (only_ask (by rfl)))
      intro _
      apply only_bind (only_best (only_ask (by rfl)))
      exact fun _ => only_bind (only_ask (by rfl)) fun _ => only_pure _
  · exact fun _ => only_pure _

theorem lifecycle_delete (id : Uuid) : Lifecycle (delete cfg id) := by
  apply only_tryCatch
  · apply only_bind (only_ask (by rfl))
    intro agent
    cases agent with
    | none => exact only_pure _
    | some agent =>
      apply only_bind (lifecycle_revokeToken .akm agent)
      intro _
      apply only_bind (lifecycle_revokeToken .modelRouter agent)
      intro _
      apply only_bind
      · apply only_ite
        · exact fun _ => only_best (lifecycle_of_docker (only_stopAndRemove _))
        · exact fun _ => only_pure _
      · exact fun _ => only_bind (only_ask (by rfl)) fun _ => only_pure _
  · exact fun _ => only_pure _

theorem lifecycle_refresh (sub : String ⊕ Uuid) (secret : Uuid) : Lifecycle (refresh sub secret) := by
  apply only_tryCatch
  · apply only_bind (only_ask (by rfl))
    intro agent
    cases agent with
    | none => exact only_pure _
    | some agent =>
      apply only_bind (only_ask (by rfl))
      intro minted
      cases minted with
      | none => exact only_throw _
      | some credential =>
        apply only_bind (only_ask (by rfl))
        intro _
        apply only_bind
        · unfold revokeReplaced
          split
          · exact only_best (only_ask (by rfl))
          · exact only_pure _
        · exact fun _ => only_pure _
  · exact fun _ => only_pure _

theorem lifecycle_handler {q : Request} (hq : q ≠ .pass) : Lifecycle (q.handler cfg) := by
  cases q with
  | start id => exact lifecycle_start id
  | stop id => exact lifecycle_stop id
  | delete id => exact lifecycle_delete id
  | refresh sub secret => exact lifecycle_refresh sub secret
  | pass => exact absurd rfl hq

theorem oldDoubts_serve {q : Request} (hq : q ≠ .pass) :
    OldDoubts s ((service cfg).serve {} s q pattern).1.store := by
  have hrefl : OldDoubts s s := fun _ a ha hdoubt => ⟨a, ha, hdoubt⟩
  have hunpatched : Only (fun st => ∀ p, st ≠ .patch p) (q.handler cfg) := by
    apply (lifecycle_handler hq).mono
    rintro st hst p rfl
    cases hst
  exact Service.serve_of_always (V := service cfg)
    (show ((service cfg).handler q).Always (Admitted (service cfg).run fun _ => True) _ _ s from
      keeps_oldDoubts hunpatched s hrefl) fun _ _ => trivial

def MarkedUp (id : Uuid) (s : Store) : Prop := ∀ a, s.agent? id = some a → ¬Doubted a

theorem always_true {α : Type} {good : Statement → Prop} (p : Handler α) (s : Store) :
    Always (Admitted Statement.run good) p (fun _ _ => True) (fun _ _ => True) s :=
  keeps_of_steady (P := fun _ => True) (fun _ _ _ _ _ _ => trivial) p s trivial

theorem MarkedUp.insertSession {id rid : Uuid} {startedAt : Option ℕ} {c : Choice} {s' : Store}
    {rows : (Statement.insertSession rid startedAt).Rows} (hs : MarkedUp id s)
    (h : Statement.run s c (.insertSession rid startedAt) = .ok (rows, s')) : MarkedUp id s' := by
  simp only [Statement.run] at h
  split at h
  · cases h
    exact hs
  · cases h

/-- A start that answers 200 has recorded the container as running. -/
theorem markedUp_launch {good : Statement → Prop} (agent : Agent) (s : Store) :
    Always (Admitted Statement.run good) (launch cfg agent)
      (fun response s' => response = .status 200 → MarkedUp agent.id s') (fun _ _ => True) s := by
  have hfrom : ∀ {α β : Type} (p : Handler α) (f : α → Handler β) (Q : β → Store → Prop) s,
      (∀ a s, Always (Admitted Statement.run good) (f a) Q (fun _ _ => True) s) →
      Always (Admitted Statement.run good) (p >>= f) Q (fun _ _ => True) s := by
    intro α β p f Q s hf
    exact always_then (fun _ _ => True) (always_true p s) fun a s _ => hf a s
  rw [launch]
  iterate 11
    apply hfrom
    intro _ _
  apply always_then (fun _ => MarkedUp agent.id)
  · apply always_query
    · intro _ s' h
      cases h with
      | answered effect =>
        cases effect
        intro a ha hdoubt
        rw [Store.agent?_rewrite, Option.map_eq_some_iff] at ha
        obtain ⟨b, hb, rfl⟩ := ha
        rw [if_pos (Table.key_of_get? hb)] at hdoubt
        obtain ⟨_, c, hc, hne⟩ := hdoubt
        cases hc
        exact hne rfl
    · exact fun _ _ _ => trivial
  · intro _ s hs
    apply always_then (fun _ => MarkedUp agent.id)
    · rw [best, always_tryCatch]
      apply always_query
      · intro _ s' h
        cases h with
        | answered effect => exact hs.insertSession effect
      · intro e s' h
        cases h with
        | failed _ => exact hs
        | lost _ effect => exact hs.insertSession effect
    · exact fun _ _ h _ => h

theorem markedUp_start {good : Statement → Prop} (id : Uuid) (s : Store) :
    Always (Admitted Statement.run good) (Agents.start cfg id)
      (fun response s' => response = .status 200 → MarkedUp id s') (fun _ _ => True) s := by
  have hfail : ∀ e s, Always (Admitted Statement.run good) (failStart id e)
      (fun response s' => response = .status 200 → MarkedUp id s') (fun _ _ => True) s := by
    intro e s
    cases e with
    | _ => exact always_then (fun _ _ => True) (always_true _ s) fun _ _ _ h => by cases h
  rw [Agents.start, always_tryCatch]
  apply always_ite
  · exact fun _ h => by cases h
  · intro _
    rw [always_bind]
    apply always_read (r := s.agent? id) fun _ => rfl
    · cases hagent : s.agent? id with
      | none => exact fun h => by cases h
      | some agent =>
        have hid : agent.id = id := Table.key_of_get? hagent
        subst hid
        exact (markedUp_launch agent s).mono (fun _ _ h => h) fun e s _ => hfail e s
    · exact fun e => hfail e s

theorem markedUp_serve {id : Uuid}
    (h : ((service cfg).serve {} s (.start id) pattern).2 = .ok (.status 200)) :
    MarkedUp id ((service cfg).serve {} s (.start id) pattern).1.store := by
  have hstart : ((service cfg).handler (.start id)).Always (Admitted (service cfg).run fun _ => True)
      (fun response s' => response = .status 200 → MarkedUp id s') (fun _ _ => True) s :=
    markedUp_start id s
  have hended : Program.Ended _ _ ((service cfg).serve {} s (.start id) pattern) :=
    Service.ended_of_serve hstart fun _ _ => trivial
  revert hended h
  generalize (service cfg).serve {} s (.start id) pattern = ending
  obtain ⟨t, answer⟩ := ending
  intro h hended
  cases h
  exact hended rfl

/-! ## All runs -/

/-- Every doubted row was seen by the last pass, and no two agents share a name. -/
structure Watched.Sound (w : Watched) : Prop where
  named : w.store.Named
  doubted : ∀ id a, w.store.agent? id = some a → Doubted a → w.sighted id = true

theorem doubted_isRunning {id : Uuid} {a : Agent} (ha : s.agent? id = some a) (h : Doubted a) :
    isRunning s id = true := by
  rw [isRunning, ha]
  exact decide_eq_true h.1

theorem Watched.Sound.request (hs : w.Sound) {q : Request} (hq : q ≠ .pass) :
    Watched.Sound ⟨((service cfg).serve {} w.store q pattern).1.store,
      w.note q ((service cfg).serve {} w.store q pattern)⟩ where
  named := named_serve hs.named
  doubted id a' ha' hdoubt := by
    obtain ⟨a, ha, hbefore⟩ := oldDoubts_serve hq id a' ha' hdoubt
    have hkept : (w.sighted id && isRunning w.store id &&
        isRunning ((service cfg).serve {} w.store q pattern).1.store id) = true := by
      rw [hs.doubted id a ha hbefore, doubted_isRunning ha hbefore, doubted_isRunning ha' hdoubt]
      rfl
    cases q with
    | pass => exact absurd rfl hq
    | start started =>
      simp only [Watched.note]
      split
      · rename_i hanswer
        by_cases hid : started = id
        · subst hid
          exact absurd hdoubt (markedUp_serve hanswer a' ha')
        · rw [if_neg (by simp [hid])]
          exact hkept
      · rw [if_neg (by simp)]
        exact hkept
    | stop | delete | refresh => exact hkept

theorem Watched.Sound.pass (hs : w.Sound) (hok : Inspected cfg w.store pattern) :
    Watched.Sound ⟨(passFrom cfg w.store pattern).1.store, w.note .pass (passFrom cfg w.store pattern)⟩ where
  named := named_serve hs.named
  doubted id a' ha' hdoubt := by
    change (passFrom cfg w.store pattern).1.store.agent? id = some a' at ha'
    rw [row_after_pass hok hs.named, Option.map_eq_some_iff] at ha'
    obtain ⟨a, ha, rfl⟩ := ha'
    obtain ⟨hrunning, c, hc, hne⟩ := hdoubt
    change (w.store.agent? id).any _ = true
    rw [ha, Option.any_some]
    obtain ⟨_, _, hnone⟩ | ⟨_, _, _, hup⟩ | ⟨_, _, _, _, hstopped, _⟩ | ⟨hv, hdown, _⟩ :=
      reconciled_cases w.store.containers
        (fun _ => !(unverifiedBy (passFrom cfg w.store pattern)).contains a.agentId) a
    · rw [hnone] at hc
      cases hc
    · rw [hup] at hc
      cases hc
      exact absurd rfl hne
    · rw [hstopped] at hrunning
      cases hrunning
    · rw [hv, hdown]
      rfl

theorem Watched.Sound.step {call : Call Choice Failure Request Surroundings} (hs : w.Sound)
    (hok : Inspects cfg w call) (hstep : (watched cfg).step w call = some w') : w'.Sound := by
  cases call with
  | environment x =>
    obtain ⟨store, hx, rfl⟩ := Option.map_eq_some_iff.mp hstep
    have hagents : store.agents = w.store.agents := by
      cases x with
      | tick d =>
        cases hx
        rfl
      | docker agentId container =>
        simp only [Surroundings.apply] at hx
        split at hx
        · cases hx
          rfl
        · cases hx
    constructor
    · have hnamed := hs.named
      unfold Store.Named at hnamed ⊢
      rwa [hagents]
    · intro id a ha
      rw [Store.agent?, hagents] at ha
      exact hs.doubted id a ha
  | request q pattern =>
    cases hstep
    by_cases hq : q = .pass
    · subst hq
      exact hs.pass hok
    · exact hs.request hq

theorem sound_of_reachable (h : (watched cfg).ReachableIf (Inspects cfg) w) : w.Sound := by
  apply h.invariant
  · intro w hw
    refine ⟨hw.1.names, fun id a ha hdoubt => ?_⟩
    have hcreated := of_decide_eq_true (hw.1.agents a (Table.mem_of_get? ha))
    rw [hcreated] at hdoubt
    cases hdoubt.1
  · exact fun w call w' hs hok hstep => hs.step hok hstep

/-- What the container of an agent is seen to be by a pass, if it is seen. -/
def sees (ending : Ending) (a : Agent) : Prop := a.agentId ∉ unverifiedBy ending

theorem verified_of_sees {ending : Ending} {a : Agent} :
    (!(unverifiedBy ending).contains a.agentId) = true ↔ sees ending a := by
  simp [sees]

def afterPass (cfg : Config) (s : Store) (pattern : List (Outcome Choice Failure)) : Store :=
  (passFrom cfg s pattern).1.store

theorem running_of_stateOf {k : Option Container} (h : stateOf k = .running) :
    Container.running k = true := by
  cases k with
  | none => cases h
  | some c => exact decide_eq_true h

/-- What the second of two passes over the same container may do that the first did not. -/
theorem second_pass (containers : String → Option Container) (v₁ v₂ : Bool) (a : Agent)
    (hv : v₂ = true → v₁ = true)
    (h : (reconciled containers (fun _ => v₂) (reconciled containers (fun _ => v₁) a)).status ≠
      (reconciled containers (fun _ => v₁) a).status) :
    (reconciled containers (fun _ => v₁) a).status = .running ∧
      (reconciled containers (fun _ => v₂) (reconciled containers (fun _ => v₁) a)).status = .stopped ∧
      a.status = .running ∧ v₂ = true ∧ stateOf (containers a.agentId) ≠ .absent ∧
      Container.running (containers a.agentId) = false ∧
      (reconciled containers (fun _ => v₁) a).containerState = some (stateOf (containers a.agentId)) ∧
      ∀ c, a.containerState = some c → c = .running := by
  have h₂ := reconciled_cases containers (fun _ => v₂) (reconciled containers (fun _ => v₁) a)
  rw [reconciled_agentId] at h₂
  obtain ⟨_, hsame, _⟩ | ⟨hv₂, hup, hstatus, _⟩ | ⟨hv₂, hdown, hrunning, _, hstopped, _⟩ |
    ⟨_, _, _, hsame, _⟩ := h₂
  · exact absurd hsame h
  · obtain ⟨hv₁, _⟩ | ⟨_, _, hstatus₁, _⟩ | ⟨_, hdown, _⟩ | ⟨_, hdown, _⟩ :=
      reconciled_cases containers (fun _ => v₁) a
    · cases (hv hv₂).symm.trans hv₁
    · exact absurd (hstatus.trans hstatus₁.symm) h
    · cases hup.symm.trans hdown
    · cases hup.symm.trans hdown
  · obtain ⟨hv₁, _⟩ | ⟨_, hup, _⟩ | ⟨_, _, _, _, hstopped₁, _⟩ | ⟨_, _, hfirst, hsame, hstate⟩ :=
      reconciled_cases containers (fun _ => v₁) a
    · cases (hv hv₂).symm.trans hv₁
    · cases hup.symm.trans hdown
    · cases hstopped₁.symm.trans hrunning
    · have hbefore : a.status = .running := hsame.symm.trans hrunning
      obtain ⟨hpresent, hunseen⟩ := hfirst hbefore
      refine ⟨hrunning, hstopped, hbefore, hv₂, hpresent, hdown, hstate, fun c hc => ?_⟩
      by_contra hne
      exact hunseen ⟨c, hc, hne⟩
  · exact absurd hsame h

/-- Nothing is left for a third pass. -/
theorem third_pass (containers : String → Option Container) (v₁ v₂ v₃ : Bool) (a : Agent)
    (h₁₂ : v₂ = true → v₁ = true) (h₂₃ : v₃ = true → v₂ = true) :
    (reconciled containers (fun _ => v₃)
      (reconciled containers (fun _ => v₂) (reconciled containers (fun _ => v₁) a))).status =
    (reconciled containers (fun _ => v₂) (reconciled containers (fun _ => v₁) a)).status := by
  by_contra h
  obtain ⟨_, _, hrunning, hv₃, _, hdown, _, hunseen⟩ := second_pass containers v₂ v₃ _ h₂₃ h
  rw [reconciled_agentId] at hdown
  have hstate : (reconciled containers (fun _ => v₁) a).containerState =
      some (stateOf (containers a.agentId)) := by
    obtain ⟨hv₁, _⟩ | ⟨_, hup, _⟩ | ⟨_, _, _, _, hstopped, _⟩ | ⟨_, _, _, _, hstate⟩ :=
      reconciled_cases containers (fun _ => v₁) a
    · cases (h₁₂ (h₂₃ hv₃)).symm.trans hv₁
    · cases hup.symm.trans hdown
    · cases hstopped.symm.trans hrunning
    · exact hstate
  have hup := running_of_stateOf (hunseen _ hstate)
  cases hup.symm.trans hdown

/-- In every run a pass demotes a row only over a container that it saw absent, or that it and
an earlier pass since the last restart saw not running; it records every container it sees
running; and over an unchanged world only the first sighting of a container is left to follow
up, by the second pass. -/
theorem demoted_twice_seen (cfg : Config) (w : Watched)
    (h : (watched cfg).ReachableIf (Inspects cfg) w) (p₁ p₂ p₃ : List (Outcome Choice Failure))
    (h₁ : Inspected cfg w.store p₁) (h₂ : Inspected cfg (afterPass cfg w.store p₁) p₂)
    (h₃ : Inspected cfg (afterPass cfg (afterPass cfg w.store p₁) p₂) p₃)
    (a : Agent) (ha : w.store.agent? a.id = some a) :
    ∃ a₁ a₂ a₃, (afterPass cfg w.store p₁).agent? a.id = some a₁ ∧
      (afterPass cfg (afterPass cfg w.store p₁) p₂).agent? a.id = some a₂ ∧
      (afterPass cfg (afterPass cfg (afterPass cfg w.store p₁) p₂) p₃).agent? a.id = some a₃ ∧
      (a.status = .running → a₁.status ≠ .running →
        a₁.status = .stopped ∧ sees (passFrom cfg w.store p₁) a ∧
          (stateOf (w.store.containers a.agentId) = .absent ∨
            (Container.running (w.store.containers a.agentId) = false ∧ w.sighted a.id = true))) ∧
      (sees (passFrom cfg w.store p₁) a → Container.running (w.store.containers a.agentId) = true →
        a₁.status = .running) ∧
      ((sees (passFrom cfg (afterPass cfg w.store p₁) p₂) a → sees (passFrom cfg w.store p₁) a) →
        a₂.status ≠ a₁.status →
        a₁.status = .running ∧ a₂.status = .stopped ∧ a.status = .running ∧
          stateOf (w.store.containers a.agentId) ≠ .absent ∧
          Container.running (w.store.containers a.agentId) = false ∧
          ∀ c, a.containerState = some c → c = .running) ∧
      ((sees (passFrom cfg (afterPass cfg w.store p₁) p₂) a → sees (passFrom cfg w.store p₁) a) →
        (sees (passFrom cfg (afterPass cfg (afterPass cfg w.store p₁) p₂) p₃) a →
          sees (passFrom cfg (afterPass cfg w.store p₁) p₂) a) → a₃.status = a₂.status) := by
  have hsound := sound_of_reachable h
  have hnamed₁ : (afterPass cfg w.store p₁).Named := named_serve hsound.named
  have hnamed₂ : (afterPass cfg (afterPass cfg w.store p₁) p₂).Named := named_serve hnamed₁
  have hrow₁ := row_after_pass h₁ hsound.named a.id
  have hrow₂ := row_after_pass h₂ hnamed₁ a.id
  have hrow₃ := row_after_pass h₃ hnamed₂ a.id
  have hcontainers₁ : (afterPass cfg w.store p₁).containers = w.store.containers :=
    containers_after_pass h₁
  have hcontainers₂ : (afterPass cfg (afterPass cfg w.store p₁) p₂).containers = w.store.containers :=
    (containers_after_pass h₂).trans hcontainers₁
  change (afterPass cfg w.store p₁).agent? a.id = _ at hrow₁
  change (afterPass cfg (afterPass cfg w.store p₁) p₂).agent? a.id = _ at hrow₂
  change (afterPass cfg (afterPass cfg (afterPass cfg w.store p₁) p₂) p₃).agent? a.id = _ at hrow₃
  rw [ha, Option.map_some] at hrow₁
  rw [hrow₁, Option.map_some, hcontainers₁, reconciled_agentId] at hrow₂
  rw [hrow₂, Option.map_some, hcontainers₂, reconciled_agentId, reconciled_agentId] at hrow₃
  refine ⟨_, _, _, hrow₁, hrow₂, hrow₃, ?_, ?_, ?_, ?_⟩
  · intro hrunning hdemoted
    obtain ⟨_, hsame, _⟩ | ⟨_, _, hup, _⟩ | ⟨hv, hdown, _, hseen, hstopped, _⟩ | ⟨_, _, _, hsame, _⟩ :=
      reconciled_cases w.store.containers
        (fun _ => !(unverifiedBy (passFrom cfg w.store p₁)).contains a.agentId) a
    · exact absurd (hsame.trans hrunning) hdemoted
    · exact absurd hup hdemoted
    · refine ⟨hstopped, verified_of_sees.mp hv, ?_⟩
      obtain habsent | ⟨c, hc, hne⟩ := hseen
      · exact .inl habsent
      · exact .inr ⟨hdown, hsound.doubted a.id a ha ⟨hrunning, c, hc, hne⟩⟩
    · exact absurd (hsame.trans hrunning) hdemoted
  · intro hsees hup
    obtain ⟨hv, _⟩ | ⟨_, _, hstatus, _⟩ | ⟨_, hdown, _⟩ | ⟨_, hdown, _⟩ :=
      reconciled_cases w.store.containers
        (fun _ => !(unverifiedBy (passFrom cfg w.store p₁)).contains a.agentId) a
    · cases hv.symm.trans (verified_of_sees.mpr hsees)
    · exact hstatus
    · cases hup.symm.trans hdown
    · cases hup.symm.trans hdown
  · intro hsees hchange
    obtain ⟨hrunning, hstopped, hbefore, _, hpresent, hdown, _, hunseen⟩ :=
      second_pass _ _ _ a (fun hv => verified_of_sees.mpr (hsees (verified_of_sees.mp hv))) hchange
    exact ⟨hrunning, hstopped, hbefore, hpresent, hdown, hunseen⟩
  · intro hsees₁ hsees₂
    exact third_pass _ _ _ _ a (fun hv => verified_of_sees.mpr (hsees₁ (verified_of_sees.mp hv)))
      fun hv => verified_of_sees.mpr (hsees₂ (verified_of_sees.mp hv))

/-- The container of a running agent ends. -/
def ended : List (Call Choice Failure Request Surroundings) :=
  [.request (.start 1) [], .environment (.tick 60),
    .environment (.docker "scout" (some ⟨15, .exited, some 0, some 50⟩))]

def inspectsCheck (w : Watched) : Call Choice Failure Request Surroundings → Bool
  | .request .pass pattern =>
    ((service {}).serve {} w.store .pass pattern).1.failures.all fun st => st.inspects
  | _ => true

theorem inspects_of_check {call : Call Choice Failure Request Surroundings}
    (h : inspectsCheck w call = true) : Inspects {} w call := by
  cases call with
  | environment x => exact trivial
  | request q pattern =>
    cases q with
    | pass => exact fun st hst => List.all_eq_true.mp h st hst
    | _ => exact trivial

def endedWatch : Watched := (watched {}).after ⟨oneAgent none, fun _ => false⟩ ended

theorem reachable_endedWatch : (watched {}).ReachableIf (Inspects {}) endedWatch :=
  Machine.reachableIf_of_accepts (C := inspectsCheck) (fun _ _ _ => inspects_of_check)
    ⟨fresh_oneAgent none rfl, rfl⟩ (by decide +kernel)

theorem inspected_of_all (h : ((passFrom cfg s pattern).1.failures.all fun st => st.inspects) = true) :
    Inspected cfg s pattern := fun st hst => List.all_eq_true.mp h st hst

theorem demoted_twice_seen_ended :
    ((afterPass {} (afterPass {} (afterPass {} endedWatch.store []) []) []).agent? 1).map (·.status) =
      ((afterPass {} (afterPass {} endedWatch.store []) []).agent? 1).map (·.status) := by
  obtain ⟨a, ha⟩ : ∃ a, endedWatch.store.agent? 1 = some a :=
    Option.isSome_iff_exists.mp (by decide +kernel)
  have hid : a.id = 1 := Table.key_of_get? ha
  have hagent : endedWatch.store.agent? a.id = some a := by
    rw [hid]
    exact ha
  have hseen : ∀ s, unverifiedBy (passFrom {} s []) = [] → sees (passFrom {} s []) a := by
    intro s hs
    rw [sees, hs]
    exact List.not_mem_nil
  obtain ⟨_, _, _, _, h₂, h₃, _, _, _, hthird⟩ :=
    demoted_twice_seen {} endedWatch reachable_endedWatch [] [] []
      (inspected_of_all (by decide +kernel)) (inspected_of_all (by decide +kernel))
      (inspected_of_all (by decide +kernel)) a hagent
  rw [hid] at h₂ h₃
  rw [h₂, h₃, Option.map_some, Option.map_some]
  exact congrArg some (hthird (fun _ => hseen _ (by decide +kernel)) fun _ => hseen _ (by decide +kernel))

theorem second_pass_demotes :
    ¬∀ (cfg : Config) (w : Watched), (watched cfg).ReachableIf (Inspects cfg) w →
      ∀ p₁ p₂, Inspected cfg w.store p₁ → Inspected cfg (afterPass cfg w.store p₁) p₂ →
        unverifiedBy (passFrom cfg w.store p₁) = unverifiedBy (passFrom cfg (afterPass cfg w.store p₁) p₂) →
        ∀ id, ((afterPass cfg (afterPass cfg w.store p₁) p₂).agent? id).map (·.status) =
          ((afterPass cfg w.store p₁).agent? id).map (·.status) := by
  intro h
  have hsame := h {} endedWatch reachable_endedWatch [] [] (inspected_of_all (by decide +kernel))
    (inspected_of_all (by decide +kernel)) (by decide +kernel) 1
  exact absurd hsame (by decide +kernel)

end Hill90.Agents
