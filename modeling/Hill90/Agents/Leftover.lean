import Hill90.Agents.Token

/-! # What a delete leaves of a container

A delete removes the container of an agent that is recorded as running.  A start or a stop
that fails half way records an error and may leave its container behind.
-/

namespace Hill90.Agents

open Chat (Uuid Failure)
open Program

variable {cfg : Config} {s s' : Store} {id : Uuid} {good : Statement → Prop}

theorem containers_of_admitted {st : Statement} {answer : Option st.Rows} (hst : st.docker = false)
    (h : Admitted Statement.run good s st answer s') : s'.containers = s.containers := by
  have hrun : ∀ {c : Choice} {rows : st.Rows} {s' : Store},
      Statement.run s c st = .ok (rows, s') → s'.containers = s.containers := by
    intro c rows s' heff
    cases st with
    | inspect | inspectStarted | stopContainer | removeContainer | checkLimits | createContainer
    | startContainer | inspectCreated => cases hst
    | mint =>
      simp only [Statement.run] at heff
      split at heff <;> cases heff <;> rfl
    | insertSession =>
      simp only [Statement.run] at heff
      split at heff
      · cases heff
        rfl
      · cases heff
    | _ =>
      cases heff
      rfl
  cases h with
  | answered heff => exact hrun heff
  | failed _ => rfl
  | lost _ heff => exact hrun heff

theorem keeps_containers {α : Type} {p : Handler α} (hp : Only (fun st => st.docker = false) p)
    (containers : String → Option Container) :
    Keeps (Admitted Statement.run good) (fun s => s.containers = containers) p :=
  hp.keeps fun _ _ _ _ ht hst hstep => (containers_of_admitted hst hstep).trans ht

theorem dockerless_revokeToken (kind : TokenKind) (agent : Agent) :
    Only (fun st => st.docker = false) (revokeToken cfg kind agent) := by
  unfold revokeToken
  split
  · split
    · exact only_tryCatch (only_bind (only_query rfl) fun _ => only_pure _) fun _ => only_pure _
    · exact only_pure _
  · exact only_pure _

/-- Where no call to Docker fails, the removal leaves no container of this name. -/
theorem gone_of_stopAndRemove (agentId : String) (hgood : ∀ st, good st → st.docker = false) :
    Always (Admitted Statement.run good) (stopAndRemoveContainer agentId)
      (fun _ s' => s'.containers agentId = none) (fun _ s' => s'.containers agentId = none) s := by
  unfold stopAndRemoveContainer
  refine always_then (fun info s' => s'.containers agentId = info) ⟨?_, ?_⟩ ?_
  · intro rows s' hstep
    cases hstep with
    | answered heff =>
      cases heff
      rfl
  · intro e s' hstep
    cases hstep with
    | failed h => cases hgood _ h
    | lost h _ => cases hgood _ h
  · intro info s₁ hinfo
    cases info with
    | none => exact hinfo
    | some c =>
      refine always_then (fun _ s' => s'.containers agentId ≠ none)
        ((always_tryCatch _ _).mpr (always_query _ ?_ ?_)) ?_
      · intro rows s' hstep
        cases hstep with
        | answered heff =>
          simp only [Statement.run, Store.withContainer, hinfo] at heff
          cases heff
          change Function.update s₁.containers agentId _ agentId ≠ none
          rw [Function.update_self]
          exact Option.some_ne_none _
      · intro e s' hstep
        cases hstep with
        | failed h => cases hgood _ h
        | lost h _ => cases hgood _ h
      · intro _ s₂ hsome
        refine always_query _ (fun rows s' hstep => ?_) fun e s' hstep => ?_
        · cases hstep with
          | answered heff =>
            obtain ⟨c', hc'⟩ := Option.ne_none_iff_exists'.mp hsome
            simp only [Statement.run, Store.withContainer, hc'] at heff
            cases heff
            exact Function.update_self _ _ _
        · cases hstep with
          | failed h => cases hgood _ h
          | lost h _ => cases hgood _ h

theorem removal_of_delete {a : Agent} (hgood : ∀ st, good st → st.docker = false)
    (containers : String → Option Container) (hs : s.containers = containers) :
    Always (Admitted Statement.run good) (removeRunning a)
      (fun _ s' => s'.containers a.agentId = none ↔
        a.status = .running ∨ containers a.agentId = none)
      (fun _ _ => False) s := by
  unfold removeRunning
  split
  · rename_i hrunning
    refine (always_tryCatch _ _).mpr ((gone_of_stopAndRemove a.agentId hgood).mono ?_ ?_)
    · exact fun _ s' hnone => iff_of_true hnone (.inl hrunning)
    · exact fun _ s' hnone => iff_of_true hnone (.inl hrunning)
  · rename_i hrunning
    change s.containers a.agentId = none ↔ _
    rw [hs]
    exact ⟨.inr, fun h => h.resolve_left hrunning⟩

theorem deleted_iff {a : Agent} (ha : s.agent? id = some a)
    (hgood : ∀ st, good st → st.docker = false) :
    Always (Admitted Statement.run good) (delete cfg id)
      (fun r s' => r = .status 200 → (s'.containers a.agentId = none ↔
        a.status = .running ∨ s.containers a.agentId = none)) (fun _ _ => True) s := by
  unfold Agents.delete
  refine (always_tryCatch _ _).mpr ?_
  have hfail : ∀ (e : Failure) (s' : Store), Always (Admitted Statement.run good)
      (pure (.status 500) : Handler Response) (fun r s' => r = .status 200 →
        (s'.containers a.agentId = none ↔ a.status = .running ∨ s.containers a.agentId = none))
      (fun _ _ => True) s' := by
    intro e s' h
    cases h
  refine always_then (fun found s' => found = some a ∧ s'.containers = s.containers) ⟨?_, ?_⟩ ?_
  · intro rows s' hstep
    cases hstep with
    | answered heff =>
      cases heff
      exact ⟨ha, rfl⟩
  · exact fun e s' _ => hfail e s'
  · rintro found s₁ ⟨rfl, hs₁⟩
    refine always_then (fun _ s' => s'.containers = s.containers)
      ((keeps_containers (dockerless_revokeToken .akm a) _ s₁ hs₁).mono (fun _ _ h => h)
        fun e s' _ => hfail e s') ?_
    intro _ s₂ hs₂
    refine always_then (fun _ s' => s'.containers = s.containers)
      ((keeps_containers (dockerless_revokeToken .modelRouter a) _ s₂ hs₂).mono (fun _ _ h => h)
        fun e s' _ => hfail e s') ?_
    intro _ s₃ hs₃
    refine always_then _ ((removal_of_delete hgood _ hs₃).mono (fun _ _ h => h)
      fun e s' _ => hfail e s') ?_
    intro _ s₄ hs₄
    refine ⟨fun rows s' hstep _ => ?_, fun e s' _ => hfail e s'⟩
    rwa [containers_of_admitted rfl hstep]

/-- A delete that succeeds, and in which no call to Docker fails, leaves no container of its
agent exactly where the agent was recorded as running or there was no container. -/
theorem container_gone_iff {a : Agent} {rest : Choice} {pattern : List (Outcome Choice Failure)}
    (ha : s.agent? id = some a)
    (hdeleted : ((service cfg).serve rest s (.delete id) pattern).2 = .ok (.status 200))
    (hdocker : ∀ st ∈ ((service cfg).serve rest s (.delete id) pattern).1.failures,
      st.docker = false) :
    ((service cfg).serve rest s (.delete id) pattern).1.store.containers a.agentId = none ↔
      a.status = .running ∨ s.containers a.agentId = none := by
  have hdelete : ((service cfg).handler (.delete id)).Always
      (Admitted (service cfg).run fun st => st.docker = false) _ _ s :=
    deleted_iff ha fun _ h => h
  have hended := Service.ended_of_serve hdelete hdocker
  revert hended hdeleted
  generalize (service cfg).serve rest s (.delete id) pattern = ending
  obtain ⟨t, result⟩ := ending
  rintro rfl hended
  exact hended rfl

/-- A start whose tools cannot be installed and whose container then cannot be inspected. -/
def brokenStart : List (Call Choice Failure Request Surroundings) :=
  [.request (.start 1) (List.replicate 13 (.answered {}) ++
    [.failed (.error "no such tool"), .failed (.error "socket hang up")])]

def brokenStore : Store := ((service {}).serial {}).after (oneAgent none) brokenStart

theorem container_gone_iff_broken :
    ((service {}).serve {} brokenStore (.delete 1) []).1.store.containers "scout" ≠ none := by
  obtain ⟨a, ha⟩ : ∃ a, brokenStore.agent? 1 = some a :=
    Option.isSome_iff_exists.mp (by decide +kernel)
  have hrow : (brokenStore.agent? 1).map (fun a => (a.agentId, a.status)) = some ("scout", .error) := by
    decide +kernel
  rw [ha] at hrow
  obtain ⟨hname, hstatus⟩ := Prod.mk.inj (Option.some.inj hrow)
  have hdeleted : ((service {}).serve {} brokenStore (.delete 1) []).2 = .ok (.status 200) := by
    decide +kernel
  have hiff := container_gone_iff ha hdeleted (by decide +kernel)
  rw [hname, hstatus] at hiff
  rw [Ne, hiff]
  decide +kernel

/-- After a start that failed half way, a delete in which every call succeeds leaves the
container running. -/
theorem failed_start_leaves_container :
    ¬∀ (cfg : Config) (s : Store), ((service cfg).serial {}).Reachable s →
      ∀ (id : Uuid) (a : Agent) (pattern : List (Outcome Choice Failure)), s.agent? id = some a →
        ((service cfg).serve {} s (.delete id) pattern).2 = .ok (.status 200) →
        (∀ st ∈ ((service cfg).serve {} s (.delete id) pattern).1.failures, st.docker = false) →
        ((service cfg).serve {} s (.delete id) pattern).1.store.containers a.agentId = none := by
  intro h
  have hreach : ((service {}).serial {}).Reachable brokenStore :=
    ⟨oneAgent none, brokenStart, fresh_oneAgent none rfl, Machine.run_after (by decide +kernel)⟩
  obtain ⟨a, ha⟩ : ∃ a, brokenStore.agent? 1 = some a :=
    Option.isSome_iff_exists.mp (by decide +kernel)
  have hname : (brokenStore.agent? 1).map (·.agentId) = some "scout" := by decide +kernel
  rw [ha] at hname
  have hgone := h {} brokenStore hreach 1 a [] ha (by decide +kernel) (by decide +kernel)
  rw [show a.agentId = "scout" from Option.some.inj hname] at hgone
  revert hgone
  decide +kernel

end Hill90.Agents
