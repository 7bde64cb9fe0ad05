import Hill90.Foundation.Recheck
import Hill90.Policies.Fallback

/-! # What a policy lists

The targets of a policy's aliases are among its models, and whoever writes a list of models lists
what the policy's owner can use.  Both depend on what else happens: the two columns are written
apart, the scrub changes one of them, and the models are checked for the caller, one at a time and
before the write.
-/

namespace Hill90.Policies

open Chat (Uuid Failure)
open Models (Owner)
open Program Service

def Aligned (aliases : Aliases) (models : List String) : Prop := ∀ x ∈ aliases, x.2 ∈ models

def Serves (models : Table ModelEntry.id) (owner : Owner) (name : String) : Prop :=
  ∃ m ∈ models.rows, m.name = name ∧ m.isActive = true ∧ (m.createdBy = owner ∨ m.createdBy = none)

def Request.user : Request → User
  | create user _ | update _ user _ | delete _ user | deleteModel _ user => user

def Statement.lists : Statement → List String
  | insertPolicy p => p.allowedModels
  | updatePolicy _ u => u.allowedModels.getD []
  | _ => []

def Statement.looksFor (name : String) (st : Statement) : Prop := ∃ user, st = selectModel name user

/-- The models that were found for the user, and whose names it may therefore list. -/
def listing (user : User) : Discipline Statement Statement.Rows Failure (Set String) where
  may found
    | .selectModel _ sub => sub = user.sub
    | .insertPolicy p => (∀ g ∈ p.allowedModels, g ∈ found) ∧ Aligned p.modelAliases p.allowedModels
    | .updatePolicy _ u => (∀ g ∈ u.allowedModels.getD [], g ∈ found) ∧
      ∀ models aliases, u.allowedModels = some models → u.modelAliases = some aliases →
        Aligned aliases models
    | _ => True
  returns _ _ := True
  returned found
    | .selectModel name _, rows => if rows then insert name found else ∅
    | _, _ => found
  rejected _ _ _ := ∅

/-- A request may come to list this name without another lookup of it. -/
abbrev MayList (name : String) (p : Handler Response) : Prop :=
  p.Reaches (fun _ _ => True) (Statement.looksFor name) fun st => name ∈ st.lists

section Handlers

variable {user : User} {found : Set String} {α : Type}

theorem aligned_of_aliasError {aliases : Aliases} {models : List String}
    (h : aliasError aliases models = none) : Aligned aliases models := by
  rw [aliasError, Option.map_eq_none_iff, List.find?_eq_none] at h
  intro x hx
  simpa using h x hx

theorem meets_validateAllowedModels (models : List String) :
    (validateAllowedModels models user.sub).Meets (listing user)
      (fun result found' => result = none → (∀ g ∈ found, g ∈ found') ∧ ∀ g ∈ models, g ∈ found')
      (fun _ _ => True) found := by
  induction models generalizing found with
  | nil => exact fun _ => ⟨fun _ hg => hg, fun _ hg => absurd hg List.not_mem_nil⟩
  | cons name rest ih =>
    apply meets_ask
    · rfl
    · intro rows _
      cases rows with
      | false => exact fun hnone => nomatch hnone
      | true =>
        apply (@ih (insert name found)).mono _ fun _ _ he => he
        intro result found' h hnone
        obtain ⟨hold, hrest⟩ := h hnone
        constructor
        · exact fun g hg => hold g (.inr hg)
        · intro g hg
          obtain rfl | hg := List.mem_cons.mp hg
          · exact hold g (.inl rfl)
          · exact hrest g hg
    · exact fun _ => trivial

theorem meets_orConflict {text : String} {p : Handler Response}
    (h : p.Meets (listing user) (fun _ _ => True) (fun _ _ => True) found) :
    (orConflict text p).Meets (listing user) (fun _ _ => True) (fun _ _ => True) found := by
  rw [orConflict, meets_tryCatch]
  apply h.mono fun _ _ hr => hr
  intro e _ _
  split <;> trivial

theorem meets_insertValidated {body : PolicyBody} {name : String} {models : List String}
    (haligned : Aligned (body.modelAliases.getD []) models) :
    (insertValidated user body name models).Meets (listing user) (fun _ _ => True) (fun _ _ => True)
      found := by
  apply meets_then _ (meets_validateAllowedModels models)
  intro result found' h
  cases result with
  | some text => trivial
  | none =>
    apply meets_ask
    · exact ⟨(h rfl).2, haligned⟩
    · exact fun _ _ => trivial
    · exact fun _ => trivial

theorem meets_create (body : PolicyBody) :
    (create user body).Meets (listing user) (fun _ _ => True) (fun _ _ => True) found := by
  apply meets_orConflict
  split
  · trivial
  · trivial
  · apply meets_ite
    · exact fun _ => trivial
    · intro _
      split
      · trivial
      · exact meets_insertValidated (aligned_of_aliasError ‹_›)

theorem meets_validateGiven (models : Option (List String)) :
    (validateGiven user models).Meets (listing user)
      (fun result found' => result = none → ∀ g ∈ models.getD [], g ∈ found') (fun _ _ => True)
      found := by
  cases models with
  | none => exact fun _ _ hg => absurd hg List.not_mem_nil
  | some models =>
    apply (meets_validateAllowedModels models).mono _ fun _ _ he => he
    exact fun _ _ h hnone => (h hnone).2

theorem meets_updateExisting (id : Uuid) (body : PolicyBody) (existing : List String) :
    (updateExisting id user body existing).Meets (listing user) (fun _ _ => True) (fun _ _ => True)
      found := by
  apply meets_ite
  · exact fun _ => trivial
  · intro _
    split
    · trivial
    · rename_i haliases
      apply meets_then _ (meets_validateGiven body.allowedModels)
      intro result found' h
      cases result with
      | some text => trivial
      | none =>
        apply meets_ask
        · refine ⟨h rfl, fun models aliases hmodels hgiven => ?_⟩
          apply aligned_of_aliasError
          change body.allowedModels = some models at hmodels
          change body.modelAliases = some aliases at hgiven
          rwa [updateAliasError, hgiven, hmodels] at haliases
        · exact fun _ _ => trivial
        · exact fun _ => trivial

theorem meets_listing (q : Request) :
    q.handler.Meets (listing q.user) (fun _ _ => True) (fun _ _ => True) ∅ := by
  cases q with
  | create user body => exact meets_create body
  | update id user body =>
    apply meets_orConflict
    apply meets_ask
    · trivial
    · intro existing _
      cases existing with
      | none => trivial
      | some existing => exact meets_updateExisting id body existing
    · exact fun _ => trivial
  | delete id user =>
    change Meets _ (tryCatch _ _) _ _ _
    rw [meets_tryCatch]
    apply meets_ask
    · trivial
    · intro assigned _
      cases assigned with
      | true => trivial
      | false =>
        apply meets_ask
        · trivial
        · intro count _
          split <;> trivial
        · exact fun _ => trivial
    · exact fun _ => trivial
  | deleteModel id user =>
    apply meets_ask
    · trivial
    · intro deleted _
      obtain _ | ⟨name, _ | owner⟩ := deleted
      · trivial
      · trivial
      · apply meets_then (fun _ _ => True)
        · change Meets _ (tryCatch (ask _) _) _ _ _
          rw [meets_tryCatch]
          exact ⟨trivial, fun _ _ => trivial, fun _ => trivial⟩
        · exact fun _ _ _ => trivial
    · exact fun _ => trivial

end Handlers

def Statement.leaves (models : Table ModelEntry.id) : Statement → Table ModelEntry.id
  | deleteModel id owner => models.delete fun m => m.id = id && inScope owner m.createdBy
  | _ => models

def modelsAfter (S : State) : PolicyMove → Table ModelEntry.id
  | .environment (.catalog models) => models
  | a => ((S.taking a).map fun taken => taken.1.leaves S.store.models).getD S.store.models

/-- The write keeps the columns of a policy together, and lists for its owner what was checked for
the caller. -/
structure KeepsPolicies (S : State) (a : PolicyMove) : Prop where
  /-- A new list without new aliases has the targets of the old ones. -/
  listed : ∀ id u c models, S.taking a = some (.updatePolicy id u, c) → u.allowedModels = some models →
    u.modelAliases = none → ∀ p ∈ S.store.policies, p.id = id → Aligned p.modelAliases models
  /-- The list that new aliases were checked against is still the policy's. -/
  aliased : ∀ id u c aliases, S.taking a = some (.updatePolicy id u, c) → u.allowedModels = none →
    u.modelAliases = some aliases → ∀ p ∈ S.store.policies, p.id = id → Aligned aliases p.allowedModels
  /-- No alias goes to the model that is scrubbed. -/
  scrubbed : ∀ name owner c, S.taking a = some (.scrubModel name owner, c) →
    ∀ p ∈ S.store.policies, p.createdBy = some owner → ∀ x ∈ p.modelAliases, x.2 ≠ name
  /-- What an admin lists for another owner is not a model of the admin's own only. -/
  created : ∀ i q p np c, a.subject = some i → S.requests i = some (q, p) →
    S.taking a = some (.insertPolicy np, c) → ∀ g ∈ np.allowedModels,
      (∃ m ∈ S.store.models.rows, m.name = g ∧ m.isActive = true ∧ m.createdBy = some q.user.sub) →
      Serves S.store.models np.createdBy g
  updated : ∀ i q p id u c models, a.subject = some i → S.requests i = some (q, p) →
    S.taking a = some (.updatePolicy id u, c) → u.allowedModels = some models →
    ∀ row ∈ S.store.policies, row.id = id → ∀ g ∈ models,
      (∃ m ∈ S.store.models.rows, m.name = g ∧ m.isActive = true ∧ m.createdBy = some q.user.sub) →
      Serves S.store.models row.createdBy g
  /-- An update that gives no list finds one whose models are still there. -/
  unlisted : ∀ id u c, S.taking a = some (.updatePolicy id u, c) → u.allowedModels = none →
    ∀ p ∈ S.store.policies, p.id = id → ∀ g ∈ p.allowedModels, Serves S.store.models p.createdBy g
  /-- No model goes while a request of one who uses it may still list it without another lookup. -/
  current : ∀ i q p g, S.requests i = some (q, p) → MayList g p →
    Serves S.store.models (some q.user.sub) g → Serves (modelsAfter S a) (some q.user.sub) g

variable {S T : State} {s s' : Store} {a : PolicyMove}

theorem models_of_run {st : Statement} {c : Unit} {rows : st.Rows}
    (h : Statement.run s c st = .ok (rows, s')) : s'.models = st.leaves s.models := by
  have hset : ∀ {α : Type} {answer b : α} {policies : Table Policy.id} {nextId : Uuid},
      s.setPolicies answer policies nextId = .ok (b, s') → s'.models = s.models := by
    intro α answer b policies nextId h
    unfold Store.setPolicies at h
    split at h <;> cases h
    rfl
  cases st with
  | insertPolicy p =>
    simp only [Statement.run] at h
    split at h
    · exact hset h
    · cases h
  | updatePolicy id u => exact hset h
  | scrubModel name owner => exact hset h
  | deletePolicy id owner =>
    simp only [Statement.run] at h
    split at h
    · cases h
    · exact hset h
  | selectModel | selectPolicy | selectAssigned | deleteModel =>
    cases h
    rfl

theorem modelsAfter_of_taking {st : Statement} {c : Unit} (h : S.taking a = some (st, c)) :
    modelsAfter S a = st.leaves S.store.models := by
  cases a with
  | environment x => cases h
  | arrive | resume | reject | lose =>
    rw [modelsAfter, h]
    · rfl
    · exact fun _ hx => nomatch hx

theorem rechecks_listing : service.Rechecks (fun q => listing q.user) KeepsPolicies
    Statement.looksFor (fun g st => g ∈ st.lists) (fun found g => g ∈ found)
    (fun g q s => Serves s.models (some q.user.sub) g) where
  handler _ q _ := ⟨∅, meets_listing q, fun _ => id⟩
  acts q found st g hmay hact := by
    cases st with
    | insertPolicy p => exact hmay.1 g hact
    | updatePolicy id u => exact hmay.1 g hact
    | _ => cases hact
  returned q found st rows g hlook hknows := by
    cases st with
    | selectModel name user =>
      cases rows with
      | false => exact hknows.elim
      | true =>
        obtain rfl | hg := hknows
        · exact absurd ⟨user, rfl⟩ hlook
        · exact hg
    | _ => exact hknows
  rejected q found st e g hknows := hknows.elim
  credible _ _ _ _ _ _ _ _ := trivial
  looked S a c q found st rows s' g _ _ _ hmay hrun hlook hknows := by
    obtain ⟨user, rfl⟩ := hlook
    obtain rfl : user = q.user.sub := hmay
    cases hrun
    change g ∈ (if (S.store.models.rows.any fun m => m.usableBy g q.user.sub) then insert g found else ∅)
      at hknows
    split at hknows
    · rename_i hany
      obtain ⟨m, hm, husable⟩ := List.any_eq_true.mp hany
      simp only [ModelEntry.usableBy, Bool.and_eq_true, Bool.or_eq_true, decide_eq_true_eq] at husable
      exact ⟨m, hm, husable.1.1, husable.2, husable.1.2⟩
    · exact hknows.elim
  kept S a st c rows s' hok htaking hrun i q p g hi hrelies hserves := by
    rw [models_of_run (c := c) hrun, ← modelsAfter_of_taking htaking]
    exact hok.current i q p g hi hrelies hserves
  around S x s' hok hx i q p g hi hrelies hserves := by
    cases x with
    | assign agents =>
      cases hx
      exact hserves
    | catalog models =>
      cases hx
      exact hok.current i q p g hi hrelies hserves

/-- Each policy's aliases go to models it lists. -/
def AllAligned (s : Store) : Prop := ∀ p ∈ s.policies, Aligned p.modelAliases p.allowedModels

theorem aligned_apply {id : Uuid} {u : PolicyUpdate} {c : Unit} {user : User} {found : Set String}
    (hok : KeepsPolicies S a) (htaking : S.taking a = some (.updatePolicy id u, c))
    (hmay : (listing user).may found (.updatePolicy id u)) {p : Policy} (hp : p ∈ S.store.policies)
    (hid : p.id = id) (haligned : Aligned p.modelAliases p.allowedModels) :
    Aligned (u.apply p).modelAliases (u.apply p).allowedModels := by
  change Aligned (u.modelAliases.getD p.modelAliases) (u.allowedModels.getD p.allowedModels)
  cases hmodels : u.allowedModels with
  | none =>
    cases haliases : u.modelAliases with
    | none => exact haligned
    | some aliases => exact hok.aliased id u c aliases htaking hmodels haliases p hp hid
  | some models =>
    cases haliases : u.modelAliases with
    | none => exact hok.listed id u c models htaking hmodels haliases p hp hid
    | some aliases => exact hmay.2 models aliases hmodels haliases

theorem allAligned_of_run {S₀ : State} {moves : List PolicyMove} (hS₀ : service.machine.initial S₀)
    (haligned : AllAligned S₀.store) (hS : service.machine.RunIf KeepsPolicies S₀ moves S) :
    AllAligned S.store := by
  apply rechecks_listing.store_of_run ⟨S₀, [], hS₀, .nil S₀⟩ haligned hS
  · intro S a q found st c rows s' hok htaking hmay _ hs hrun p' hp'
    obtain hsame | ⟨p, rfl, hnew⟩ | ⟨id, u, rfl, hupdated⟩ | ⟨name, owner, rfl, hscrubbed⟩ :=
      policies_run (c := c) hrun
    · exact hs p' (hsame p' hp')
    · obtain hold | rfl := hnew p' hp'
      · exact hs p' hold
      · exact hmay.2
    · obtain ⟨p, hp, ⟨_, rfl⟩ | ⟨hid, rfl⟩⟩ := hupdated p' hp'
      · exact hs p' hp
      · exact aligned_apply hok htaking hmay hp hid (hs p hp)
    · obtain ⟨p, hp, rfl | ⟨howner, _, rfl⟩⟩ := hscrubbed p' hp'
      · exact hs p' hp
      · intro x hx
        have hne := hok.scrubbed name owner c htaking p hp howner x hx
        exact List.mem_filter.mpr ⟨hs p hp x hx, decide_eq_true hne⟩
  · intro S x s' _ hs hx
    cases x with
    | assign agents =>
      cases hx
      exact hs
    | catalog models =>
      cases hx
      exact hs

inductive Accepts (S : State) (a : PolicyMove) (s' : Store) : Policy → Prop where
  | created {p : NewPolicy} {c : Unit} {id : Uuid} (taking : S.taking a = some (.insertPolicy p, c))
    (effect : Statement.run S.store c (.insertPolicy p) = .ok (id, s')) :
    Accepts S a s' (p.toPolicy S.store.nextId)
  | updated {id : Uuid} {u : PolicyUpdate} {c : Unit} {count : ℕ} {p : Policy}
    (taking : S.taking a = some (.updatePolicy id u, c))
    (effect : Statement.run S.store c (.updatePolicy id u) = .ok (count, s'))
    (stored : p ∈ S.store.policies) (key : p.id = id) : Accepts S a s' (u.apply p)

/-- What the caller can use and does not own alone, another owner can use too. -/
theorem serves_of_caller {models : Table ModelEntry.id} {caller : String} {owner : Owner} {name : String}
    (h : Serves models (some caller) name)
    (hown : (∃ m ∈ models.rows, m.name = name ∧ m.isActive = true ∧ m.createdBy = some caller) →
      Serves models owner name) : Serves models owner name := by
  obtain ⟨m, hm, hname, hactive, hcaller | hplatform⟩ := h
  · exact hown ⟨m, hm, hname, hactive, hcaller⟩
  · exact ⟨m, hm, hname, hactive, .inr hplatform⟩

/-- In every run whose moves keep the policies, from policies whose aliases go to models they list,
no alias goes to a model its policy does not list, and each accepted create and update leaves a policy
whose models its owner can use. -/
theorem policies_wellFormed (S₀ S : State) (moves : List PolicyMove)
    (hS₀ : service.machine.initial S₀) (haligned : AllAligned S₀.store)
    (hrun : service.machine.RunIf KeepsPolicies S₀ moves S) :
    (∀ p ∈ S.store.policies, Aligned p.modelAliases p.allowedModels) ∧
      ∀ a s' p, KeepsPolicies S a → Accepts S a s' p →
        ∀ g ∈ p.allowedModels, Serves s'.models p.createdBy g := by
  have hS : service.machine.ReachableIf KeepsPolicies S := ⟨S₀, moves, hS₀, hrun⟩
  refine ⟨allAligned_of_run hS₀ haligned hrun, fun a s' p hok haccepts g hg => ?_⟩
  cases haccepts with
  | @created np c id htaking hrun =>
    obtain ⟨i, q, r, found, hsubject, hi, _, hserves⟩ := rechecks_listing.taken hS htaking
    rw [models_of_run hrun]
    exact serves_of_caller (hserves g hg) (hok.created i q r np c hsubject hi htaking g hg)
  | @updated id u c count p htaking hrun hp hid =>
    rw [models_of_run hrun]
    change g ∈ u.allowedModels.getD p.allowedModels at hg
    cases hlist : u.allowedModels with
    | none =>
      rw [hlist] at hg
      exact hok.unlisted id u c htaking hlist p hp hid g hg
    | some models =>
      rw [hlist] at hg
      obtain ⟨i, q, r, found, hsubject, hi, _, hserves⟩ := rechecks_listing.taken hS htaking
      have hlisted : g ∈ (Statement.updatePolicy id u).lists := by
        rw [Statement.lists, hlist]
        exact hg
      exact serves_of_caller (hserves g hlisted)
        (hok.updated i q r id u c models hsubject hi htaking hlist p hp hid g hg)

/-- The platform's own policy, with an alias. -/
def defaultPolicy : Policy where
  id := 9
  name := "default"
  description := ""
  allowedModels := ["gpt"]
  modelAliases := [("fast", "gpt")]
  maxRequestsPerMinute := none
  maxTokensPerDay := none
  createdBy := none

def shelf : Store where
  book := ⟨⟨[defaultPolicy], List.nodup_singleton _⟩, List.nodup_singleton _⟩
  models := ⟨[{ id := 1, name := "gpt", createdBy := none }, { id := 2, name := "own", createdBy := some "eve" },
    { id := 3, name := "glm", createdBy := none }], by decide⟩

def shelved : State := ⟨shelf, fun _ => none, 0⟩

theorem initial_shelved : service.machine.initial shelved :=
  ⟨fun p hp => by rw [List.mem_singleton.mp hp]; rfl, rfl, rfl⟩

theorem aligned_shelved : AllAligned shelved.store := by
  intro p hp x hx
  rw [List.mem_singleton.mp hp] at hx ⊢
  rw [List.mem_singleton.mp hx]
  exact List.mem_singleton_self _

def listBody : PolicyBody where
  name := some "mine"
  allowedModels := some ["own"]

/-- A user lists a model of their own. -/
def ownList : List PolicyMove := [.arrive (.create ⟨"eve", false⟩ listBody), .resume 0 ()]

def ownPolicy : NewPolicy where
  name := "mine"
  description := ""
  allowedModels := ["own"]
  modelAliases := []
  maxRequestsPerMinute := none
  maxTokensPerDay := none
  createdBy := some "eve"

/-- Nothing is updated or taken away, and what is created lists what its owner can use. -/
def keepsNow (S : State) : PolicyMove → Bool
  | .environment _ => false
  | a =>
    match S.taking a with
    | some (.insertPolicy p, _) => p.allowedModels.all fun g =>
      S.store.models.rows.any fun m => m.name = g && m.isActive && m.createdBy = p.createdBy
    | some (.updatePolicy .., _) | some (.scrubModel .., _) | some (.deleteModel .., _) => false
    | _ => true

theorem modelsAfter_of_keepsNow (h : keepsNow S a = true) : modelsAfter S a = S.store.models := by
  cases htaking : S.taking a with
  | none =>
    cases a with
    | environment x => cases h
    | arrive | resume | reject | lose =>
      rw [modelsAfter, htaking]
      · rfl
      · exact fun _ hx => nomatch hx
  | some taken =>
    obtain ⟨st, c⟩ := taken
    rw [modelsAfter_of_taking htaking]
    cases a with
    | environment x => cases h
    | arrive | resume | reject | lose =>
      cases st <;> first | rfl | simp [keepsNow, htaking] at h

theorem keepsPolicies_of_keepsNow (h : keepsNow S a = true) : KeepsPolicies S a := by
  have hquiet : ∀ st c, S.taking a = some (st, c) →
      (∀ id u, st ≠ .updatePolicy id u) ∧ (∀ name owner, st ≠ .scrubModel name owner) ∧
        ∀ p, st = .insertPolicy p → ∀ g ∈ p.allowedModels, Serves S.store.models p.createdBy g := by
    intro st c htaking
    cases a with
    | environment x => cases h
    | arrive | resume | reject | lose =>
      cases st with
      | insertPolicy p =>
        refine ⟨fun _ _ => nofun, fun _ _ => nofun, ?_⟩
        rintro _ ⟨⟩ g hg
        simp only [keepsNow, htaking, List.all_eq_true, List.any_eq_true, Bool.and_eq_true,
          decide_eq_true_eq] at h
        obtain ⟨m, hm, ⟨hname, hactive⟩, howner⟩ := h g hg
        exact ⟨m, hm, hname, hactive, .inl howner⟩
      | updatePolicy | scrubModel => simp [keepsNow, htaking] at h
      | _ => exact ⟨fun _ _ => nofun, fun _ _ => nofun, fun _ => nofun⟩
  constructor
  · exact fun id u c _ htaking => absurd rfl ((hquiet _ c htaking).1 id u)
  · exact fun id u c _ htaking => absurd rfl ((hquiet _ c htaking).1 id u)
  · exact fun name owner c htaking => absurd rfl ((hquiet _ c htaking).2.1 name owner)
  · exact fun i q p np c _ _ htaking g hg _ => (hquiet _ c htaking).2.2 np rfl g hg
  · exact fun i q p id u c _ _ _ htaking => absurd rfl ((hquiet _ c htaking).1 id u)
  · exact fun id u c htaking => absurd rfl ((hquiet _ c htaking).1 id u)
  · intro i q p g _ _ hserves
    rwa [modelsAfter_of_keepsNow h]

/-- A user's policy lists a model of their own, beside the platform's. -/
theorem policies_wellFormed_own :
    (∀ p ∈ (service.machine.after shelved ownList).store.policies, Aligned p.modelAliases p.allowedModels) ∧
    ∃ s', Accepts (service.machine.after shelved ownList) (.resume 0 ()) s' (ownPolicy.toPolicy 0) ∧
      ∀ g ∈ ["own"], Serves s'.models (some "eve") g := by
  have hruns : service.machine.RunIf KeepsPolicies shelved ownList (service.machine.after shelved ownList) :=
    Machine.runIf_of_accepts (C := keepsNow) (I := fun _ => True)
      (fun _ _ _ => keepsPolicies_of_keepsNow) (fun _ _ _ _ _ _ => trivial) trivial (by decide +kernel)
  have hwell := policies_wellFormed shelved _ ownList initial_shelved aligned_shelved hruns
  have htaking : (service.machine.after shelved ownList).taking (.resume 0 () : PolicyMove) =
      some (.insertPolicy ownPolicy, ()) := by decide +kernel
  have hok : KeepsPolicies (service.machine.after shelved ownList) (.resume 0 ()) :=
    keepsPolicies_of_keepsNow (by decide +kernel)
  have hinserted : ((Statement.run (service.machine.after shelved ownList).store ()
      (.insertPolicy ownPolicy)).toOption.map Prod.fst) = some 0 := by decide +kernel
  cases hrun : Statement.run (service.machine.after shelved ownList).store () (.insertPolicy ownPolicy) with
  | error e =>
    rw [hrun] at hinserted
    cases hinserted
  | ok result =>
    have haccepts : Accepts _ _ result.2 (ownPolicy.toPolicy 0) := .created htaking hrun
    exact ⟨hwell.1, result.2, haccepts, hwell.2 _ _ _ hok haccepts⟩

def gptPolicy : PolicyBody where
  name := some "fast"
  allowedModels := some ["gpt"]
  modelAliases := some [("quick", "gpt")]

/-- An admin writes a policy with an alias, and then another list alone. -/
def listAlone : List PolicyMove :=
  [.arrive (.create ⟨"root", true⟩ gptPolicy), .resume 0 (), .resume 0 (),
    .arrive (.update 0 ⟨"root", true⟩ { allowedModels := some ["glm"] }),
    .resume 1 (), .resume 1 (), .resume 1 ()]

/-- The list written alone leaves the alias with a target outside it. -/
theorem alias_outlives_target :
    ¬∀ S : State, service.machine.Reachable S →
      (∀ p ∈ S.store.policies, Aligned p.modelAliases p.allowedModels) ∧
        ∀ a s' p, Accepts S a s' p → ∀ g ∈ p.allowedModels, Serves s'.models p.createdBy g := by
  intro h
  have hreach : service.machine.Reachable (service.machine.after shelved listAlone) :=
    ⟨shelved, _, initial_shelved, Machine.run_after (by decide +kernel)⟩
  have haligned := (h _ hreach).1
  have hstale : ∃ p ∈ (service.machine.after shelved listAlone).store.policies,
      p.modelAliases = [("quick", "gpt")] ∧ p.allowedModels = ["glm"] := by decide +kernel
  obtain ⟨p, hp, haliases, hmodels⟩ := hstale
  have htarget := haligned p hp ("quick", "gpt") (by simp [haliases])
  rw [hmodels] at htarget
  exact absurd htarget (by decide)

end Hill90.Policies
