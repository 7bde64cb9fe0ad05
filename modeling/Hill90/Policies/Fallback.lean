import Hill90.Policies.Routes

/-! # The fallback policy of the router

The router takes any row named `default` for the fallback, while names are unique for each owner
only.  It is the platform's own as long as no user's policy has that name.
-/

namespace Hill90.Policies

open Chat (Uuid Failure)

abbrev State := System Statement Statement.Rows Failure Request Response Store

abbrev PolicyMove := Move Failure Request Unit Surroundings

/-- No policy of a user gets the name of the fallback. -/
def LeavesDefault (S : State) (a : PolicyMove) : Prop :=
  match S.taking a with
  | some (.insertPolicy p, _) => p.name = "default" → p.createdBy = none
  | some (.updatePolicy id u, _) =>
    u.name = some "default" → ∀ p ∈ S.store.policies, p.id = id → p.createdBy = none
  | _ => True

def OwnDefault (s : Store) : Prop := ∀ p ∈ s.policies, p.name = "default" → p.createdBy = none

variable {s s' t : Store} {S T : State}

theorem policies_of_setPolicies {α : Type} {answer a : α} {policies : Table Policy.id} {nextId : Uuid}
    (h : s.setPolicies answer policies nextId = .ok (a, s')) : s'.policies = policies.rows := by
  unfold Store.setPolicies at h
  split at h
  · cases h
    rfl
  · cases h

/-- What a statement does to the policies. -/
theorem policies_run {c : Unit} {st : Statement} {rows : st.Rows}
    (h : Statement.run s c st = .ok (rows, s')) :
    (∀ p ∈ s'.policies, p ∈ s.policies) ∨
    (∃ p, st = .insertPolicy p ∧ ∀ p' ∈ s'.policies, p' ∈ s.policies ∨ p' = p.toPolicy s.nextId) ∨
    (∃ id u, st = .updatePolicy id u ∧ ∀ p' ∈ s'.policies, ∃ p ∈ s.policies,
      (p.id ≠ id ∧ p' = p) ∨ (p.id = id ∧ p' = u.apply p)) ∨
    ∃ name owner, st = .scrubModel name owner ∧ ∀ p' ∈ s'.policies, ∃ p ∈ s.policies,
      p' = p ∨ (p.createdBy = some owner ∧ name ∈ p.allowedModels ∧ p' = p.without name) := by
  cases st with
  | insertPolicy p =>
    simp only [Statement.run] at h
    split at h
    · rename_i policies hinsert
      refine .inr (.inl ⟨p, rfl, fun p' hp' => ?_⟩)
      rw [policies_of_setPolicies h] at hp'
      exact (Table.mem_of_insert hinsert).mp hp'
    · cases h
  | updatePolicy id u =>
    refine .inr (.inr (.inl ⟨id, u, rfl, fun p' hp' => ?_⟩))
    rw [policies_of_setPolicies h] at hp'
    obtain ⟨p, hp, ⟨hne, rfl⟩ | ⟨heq, i, _, _, rfl⟩⟩ := Table.mem_patchRows hp'
    · exact ⟨p', hp, .inl ⟨of_decide_eq_false hne, rfl⟩⟩
    · exact ⟨p, hp, .inr ⟨of_decide_eq_true heq, rfl⟩⟩
  | scrubModel name owner =>
    refine .inr (.inr (.inr ⟨name, owner, rfl, fun p' hp' => ?_⟩))
    rw [policies_of_setPolicies h] at hp'
    obtain ⟨p, hp, ⟨_, rfl⟩ | ⟨hmatch, i, _, _, rfl⟩⟩ := Table.mem_patchRows hp'
    · exact ⟨p', hp, .inl rfl⟩
    · obtain ⟨howner, hname⟩ := Bool.and_eq_true_iff.mp hmatch
      exact ⟨p, hp, .inr ⟨of_decide_eq_true howner, by simpa using hname, rfl⟩⟩
  | deletePolicy id owner =>
    simp only [Statement.run] at h
    split at h
    · cases h
    · left
      intro p hp
      rw [policies_of_setPolicies h] at hp
      exact (Table.mem_delete.mp hp).1
  | selectModel | selectPolicy | selectAssigned | deleteModel =>
    cases h
    exact .inl fun _ hp => hp

theorem ownDefault_run {a : PolicyMove} {c : Unit} {st : Statement} {rows : st.Rows}
    (hok : LeavesDefault S a) (htaking : S.taking a = some (st, c)) (hs : OwnDefault S.store)
    (h : Statement.run S.store c st = .ok (rows, s')) : OwnDefault s' := by
  unfold LeavesDefault at hok
  rw [htaking] at hok
  intro p' hp' hname
  obtain hsame | ⟨p, rfl, hnew⟩ | ⟨id, u, rfl, hupdated⟩ | ⟨name, owner, rfl, hscrubbed⟩ := policies_run h
  · exact hs p' (hsame p' hp') hname
  · obtain hold | rfl := hnew p' hp'
    · exact hs p' hold hname
    · exact hok hname
  · obtain ⟨p, hp, ⟨_, rfl⟩ | ⟨hid, rfl⟩⟩ := hupdated p' hp'
    · exact hs p' hp hname
    · change u.name.getD p.name = "default" at hname
      cases hu : u.name with
      | none =>
        rw [hu] at hname
        exact hs p hp hname
      | some given =>
        rw [hu] at hname
        cases hname
        exact hok hu p hp hid
  · obtain ⟨p, hp, rfl | ⟨_, _, rfl⟩⟩ := hscrubbed p' hp'
    · exact hs p' hp hname
    · exact hs p hp hname

theorem ownDefault_of_reachable (h : service.machine.ReachableIf LeavesDefault S) :
    OwnDefault S.store := by
  apply Service.store_invariant_if h
  · exact fun s hs p hp _ => hs p hp
  · exact fun S a st c rows s' hok htaking hs heff => ownDefault_run hok htaking hs heff
  · intro S x s' _ hs heff
    cases x with
    | assign agents =>
      cases heff
      exact hs
    | catalog models =>
      cases heff
      exact hs

theorem mem_of_fetchrow {order : ℕ} {rows : List Policy} {p : Policy}
    (h : fetchrow order rows = some p) : p ∈ rows := List.mem_of_getElem? h

theorem nil_of_fetchrow {order : ℕ} {rows : List Policy} (h : fetchrow order rows = none) :
    rows = [] := by
  by_contra hne
  have hlength : 0 < rows.length := List.length_pos_iff.mpr hne
  have hlt := Nat.mod_lt order hlength
  rw [fetchrow, List.getElem?_eq_none_iff] at h
  omega

/-- The policy of the platform with the name of the fallback, or deny-all. -/
def platformDefault (s : Store) : AgentPolicy :=
  ((s.policies.find? fun p => p.name = "default" && p.createdBy = none).map Policy.extract).getD {}

theorem platformDefault_of_mem {p : Policy} (hp : p ∈ s.policies) (hname : p.name = "default")
    (howner : p.createdBy = none) : platformDefault s = p.extract := by
  have hfound : s.policies.find? (fun p => p.name = "default" && p.createdBy = none) = some p := by
    cases hfind : s.policies.find? fun p => p.name = "default" && p.createdBy = none with
    | none =>
      have hnot := List.find?_eq_none.mp hfind p hp
      simp [hname, howner] at hnot
    | some q =>
      have hq := List.find?_some hfind
      simp only [Bool.and_eq_true, decide_eq_true_eq] at hq
      rw [s.eq_of_ownedName (List.mem_of_find?_eq_some hfind) hp (hq.1.trans hname.symm)
        (hq.2.trans howner.symm)]
  rw [platformDefault, hfound]
  rfl

theorem platformDefault_of_not (h : ∀ p ∈ s.policies, p.name = "default" → p.createdBy ≠ none) :
    platformDefault s = {} := by
  have hnone : s.policies.find? (fun p => p.name = "default" && p.createdBy = none) = none := by
    apply List.find?_eq_none.mpr
    intro p hp hboth
    simp only [Bool.and_eq_true, decide_eq_true_eq] at hboth
    exact h p hp hboth.1 hboth.2
  rw [platformDefault, hnone]
  rfl

theorem resolve_unassigned (hs : OwnDefault s) {agentId : String} (h : s.assignedPolicy agentId = none)
    (order : ℕ) : resolveAgentPolicy s order agentId = platformDefault s := by
  rw [resolveAgentPolicy, h]
  dsimp only
  cases hrow : fetchrow order (s.policies.filter fun p => p.name = "default") with
  | none =>
    have hnil := nil_of_fetchrow hrow
    rw [platformDefault_of_not]
    · rfl
    · intro p hp hname
      exact absurd hname (by simpa using List.filter_eq_nil_iff.mp hnil p hp)
  | some p =>
    obtain ⟨hp, hname⟩ := List.mem_filter.mp (mem_of_fetchrow hrow)
    have hname := of_decide_eq_true hname
    rw [platformDefault_of_mem hp hname (hs p hp hname)]
    rfl

/-- The platform's policies of one store are, but for their keys, those of the other. -/
def SamePlatform (s t : Store) : Prop :=
  ∀ name extract, (∃ p ∈ s.policies, p.createdBy = none ∧ p.name = name ∧ p.extract = extract) ↔
    ∃ p ∈ t.policies, p.createdBy = none ∧ p.name = name ∧ p.extract = extract

theorem platformDefault_congr (h : SamePlatform s t) : platformDefault s = platformDefault t := by
  by_cases hs : ∃ p ∈ s.policies, p.name = "default" ∧ p.createdBy = none
  · obtain ⟨p, hp, hname, howner⟩ := hs
    obtain ⟨q, hq, hqowner, hqname, hextract⟩ := (h "default" p.extract).mp ⟨p, hp, howner, hname, rfl⟩
    rw [platformDefault_of_mem hp hname howner, platformDefault_of_mem hq hqname hqowner, hextract]
  · have ht : ∀ q ∈ t.policies, q.name = "default" → q.createdBy ≠ none := by
      intro q hq hname howner
      obtain ⟨p, hp, hpowner, hpname, _⟩ := (h "default" q.extract).mpr ⟨q, hq, howner, hname, rfl⟩
      exact hs ⟨p, hp, hpname, hpowner⟩
    rw [platformDefault_of_not ht, platformDefault_of_not]
    exact fun p hp hname howner => hs ⟨p, hp, hname, howner⟩

/-- In every run that leaves the name of the fallback to the platform, an agent without a policy
is held to the platform's own, and to the same one in two runs that differ in users' policies. -/
theorem fallback_of_platform (S T : State) (hS : service.machine.ReachableIf LeavesDefault S)
    (hT : service.machine.ReachableIf LeavesDefault T) (hsame : SamePlatform S.store T.store)
    (agentId : String) (hSagent : S.store.assignedPolicy agentId = none)
    (hTagent : T.store.assignedPolicy agentId = none) (order order' : ℕ) :
    resolveAgentPolicy S.store order agentId = platformDefault S.store ∧
      resolveAgentPolicy S.store order agentId = resolveAgentPolicy T.store order' agentId := by
  have hsource := resolve_unassigned (ownDefault_of_reachable hS) hSagent order
  have htarget := resolve_unassigned (ownDefault_of_reachable hT) hTagent order'
  exact ⟨hsource, hsource.trans ((platformDefault_congr hsame).trans htarget.symm)⟩

/-- A store without policies. -/
def blank : Store where
  book := ⟨Table.empty, List.nodup_nil⟩
  models := ⟨[{ id := 1, name := "gpt", createdBy := none }], by decide⟩

def start : State := ⟨blank, fun _ => none, 0⟩

theorem initial_start : service.machine.initial start :=
  ⟨fun _ hp => absurd hp List.not_mem_nil, rfl, rfl⟩

def named (name : String) : List PolicyMove :=
  [.arrive (.create ⟨"eve", false⟩ { name := some name, allowedModels := some ["gpt"] }),
    .resume 0 (), .resume 0 ()]

def leavesDefaultCheck (S : State) (a : PolicyMove) : Bool :=
  match S.taking a with
  | some (.insertPolicy p, _) => p.name ≠ "default" || p.createdBy = none
  | some (.updatePolicy _ u, _) => u.name ≠ some "default"
  | _ => true

theorem leavesDefault_of_check {a : PolicyMove} (h : leavesDefaultCheck S a = true) :
    LeavesDefault S a := by
  unfold leavesDefaultCheck at h
  unfold LeavesDefault
  split at h
  · intro hname
    simpa [hname] using h
  · intro hname
    simp [hname] at h
  · exact trivial

/-- A store with the platform's fallback. -/
def seeded : Store where
  book := ⟨⟨[{ id := 0, name := "default", allowedModels := ["gpt"], createdBy := none }], by decide⟩,
    by decide⟩
  models := blank.models
  nextId := 2

def startSeeded : State := ⟨seeded, fun _ => none, 0⟩

theorem initial_startSeeded : service.machine.initial startSeeded := by
  refine ⟨fun p hp => ?_, rfl, rfl⟩
  rw [List.mem_singleton.mp hp]

theorem fallback_of_platform_named :
    resolveAgentPolicy (service.machine.after startSeeded (named "mine")).store 0 "scout" =
        platformDefault (service.machine.after startSeeded (named "mine")).store ∧
      resolveAgentPolicy (service.machine.after startSeeded (named "mine")).store 0 "scout" =
        resolveAgentPolicy startSeeded.store 5 "scout" := by
  have hreach : service.machine.ReachableIf LeavesDefault
      (service.machine.after startSeeded (named "mine")) :=
    Machine.reachableIf_of_accepts (C := leavesDefaultCheck) (fun _ _ _ => leavesDefault_of_check)
      initial_startSeeded (by decide +kernel)
  have hstart : service.machine.ReachableIf LeavesDefault startSeeded :=
    ⟨startSeeded, [], initial_startSeeded, .nil _⟩
  apply fallback_of_platform _ _ hreach hstart _ "scout" (by decide +kernel) (by decide +kernel)
  have hplatform : (service.machine.after startSeeded (named "mine")).store.policies.filter
      (fun p => p.createdBy = none) = startSeeded.store.policies := by decide +kernel
  intro name extract
  rw [← hplatform]
  simp only [List.mem_filter, decide_eq_true_eq]
  constructor
  · rintro ⟨p, hp, howner, hrest⟩
    exact ⟨p, ⟨hp, howner⟩, howner, hrest⟩
  · rintro ⟨p, ⟨hp, howner⟩, _, hrest⟩
    exact ⟨p, hp, howner, hrest⟩

theorem fallback_taken_by_user :
    ¬∀ S : State, service.machine.Reachable S → ∀ agentId order,
      S.store.assignedPolicy agentId = none →
      resolveAgentPolicy S.store order agentId = platformDefault S.store := by
  intro h
  have hreach : service.machine.Reachable (service.machine.after start (named "default")) :=
    ⟨start, _, initial_start, Machine.run_after (by decide +kernel)⟩
  have hsame := h _ hreach "scout" 0 (by decide +kernel)
  exact absurd hsame (by decide +kernel)

end Hill90.Policies
