import Hill90.Models.Record

/-! # Admission and resolution of model names

The API admits a model name for an agent's owner; the router later resolves it for a
request of the agent.  Both read the same tables, each with queries of its own.
-/

namespace Hill90.Models

def accessible (c : Catalog) (name owner : String) : Bool :=
  c.models.rows.any fun m =>
    m.name = name && (m.createdBy = some owner || m.createdBy = none) && m.isActive

def validateModelNames (c : Catalog) (ownerSub : String) : List String → Option String
  | [] => none
  | modelName :: rest =>
    if accessible c modelName ownerSub then validateModelNames c ownerSub rest
    else some ("Model '" ++ modelName ++ "' not found in user models for agent owner")

/-- `allowedModels` are those of the policy row; a policy that is not there passes. -/
def validatePolicyEligibility (c : Catalog) (allowedModels : Option (List String))
    (agentOwnerSub : String) : Option String :=
  match allowedModels with
  | none => none
  | some names =>
    let inaccessible := names.filter fun name => !accessible c name agentOwnerSub
    if inaccessible.isEmpty then none
    else some ("Policy contains models not accessible to agent owner: " ++
      ", ".intercalate inaccessible)

structure UserModelInfo where
  litellmModel : String
  apiKeyEncrypted : List UInt8
  apiKeyNonce : List UInt8
  apiBaseUrl : Option String
  deriving DecidableEq, Repr

def Connection.info (conn : Connection) (litellmModel : String) : UserModelInfo :=
  ⟨litellmModel, conn.apiKeyEncrypted, conn.apiKeyNonce, conn.apiBaseUrl⟩

/-- The row `user_models` has for a name among the active ones of an owner. -/
def activeModel (c : Catalog) (name : String) (owner : Owner) : Option UserModel :=
  c.models.rows.find? fun m => m.name = name && m.createdBy = owner && m.isActive

/-- The join of an owner's active single model with its connection; the platform's
models are joined the same way. -/
def resolveSingle (c : Catalog) (name : String) (owner : Owner) : Option UserModelInfo :=
  c.models.rows.findSome? fun m =>
    match m.kind with
    | .single cid litellmModel =>
      if m.name = name && m.createdBy = owner && m.isActive then
        (c.connections.get? cid).map fun conn => conn.info litellmModel
      else none
    | .router _ => none

def resolveUserModel (c : Catalog) (name owner : String) : Option UserModelInfo :=
  resolveSingle c name (some owner)

def resolvePlatformModel (c : Catalog) (name : String) : Option UserModelInfo :=
  resolveSingle c name none

def resolveRouterModel (c : Catalog) (name owner : String) : Option RoutingConfig :=
  c.models.rows.findSome? fun m =>
    match m.kind with
    | .router config =>
      if m.name = name && m.createdBy = some owner && m.isActive then some config else none
    | .single .. => none

def selectRoute (router : RoutingConfig) (taskType : Option String) : Option Route :=
  let byTask := match taskType with
    | some task =>
      if router.strategy = "task_routing" && !task.isEmpty then
        router.routes.find? fun route => task ∈ route.taskTypes.getD []
      else none
    | none => none
  (byTask <|> router.routes.find? fun route => route.key = some router.defaultRoute) <|>
    router.routes.head?

def resolveRouteCredentials (c : Catalog) (route : Route) (owner : String) :
    Option UserModelInfo :=
  match route.connectionId, route.litellmModel with
  | some cid, some litellmModel =>
    if litellmModel.isEmpty then none
    else
      (c.connections.rows.find? fun conn =>
        conn.id = cid.uuid && conn.createdBy = some owner).map fun conn => conn.info litellmModel
  | _, _ => none

inductive Denial where
  | agentNotFound
  | noRoute
  | routeCredentialsUnavailable (key : String)
  | modelNotFound
  deriving DecidableEq, Repr

def resolveByok (c : Catalog) (owner : Option String) (name : String) (taskType : Option String) :
    Except Denial UserModelInfo :=
  match owner with
  | none => throw .agentNotFound
  | some owner =>
    match resolveUserModel c name owner with
    | some model => pure model
    | none =>
      match resolveRouterModel c name owner with
      | some router =>
        match selectRoute router taskType with
        | none => throw .noRoute
        | some route =>
          match resolveRouteCredentials c route owner with
          | none => throw (.routeCredentialsUnavailable (route.key.getD "unknown"))
          | some creds => pure creds
      | none =>
        match resolvePlatformModel c name with
        | some model => pure model
        | none => throw .modelNotFound

/-! What the lookups find is the one active row of a name and an owner. -/

section Lookup

variable {c : Catalog} {name : String} {owner : Owner} {m : UserModel}

theorem activeModel_spec (h : activeModel c name owner = some m) :
    m ∈ c.models.rows ∧ m.name = name ∧ m.createdBy = owner ∧ m.isActive = true := by
  have hm := List.find?_some h
  simp only [Bool.and_eq_true, decide_eq_true_eq] at hm
  exact ⟨List.mem_of_find?_eq_some h, hm.1.1, hm.1.2, hm.2⟩

/-- No two rows answer to one name and owner. -/
theorem eq_of_active (h : activeModel c name owner = some m) {n : UserModel}
    (hn : n ∈ c.models.rows) (hmatch : (n.name = name && n.createdBy = owner && n.isActive) = true) :
    n = m := by
  obtain ⟨hm, hname, howner, _⟩ := activeModel_spec h
  simp only [Bool.and_eq_true, decide_eq_true_eq] at hmatch
  exact c.eq_of_ownedName hn hm (hmatch.1.1.trans hname.symm) (hmatch.1.2.trans howner.symm)

theorem findSome?_of_unique {α β : Type} {f : α → Option β} {xs : List α} {x : α} (hx : x ∈ xs)
    (h : ∀ y ∈ xs, y ≠ x → f y = none) : xs.findSome? f = f x := by
  induction xs with
  | nil => cases hx
  | cons y xs ih =>
    rw [List.findSome?_cons]
    by_cases hyx : y = x
    · subst hyx
      cases hf : f y with
      | some b => rfl
      | none =>
        refine List.findSome?_eq_none_iff.mpr fun z hz => ?_
        by_cases hzy : z = y
        · rw [hzy, hf]
        · exact h z (List.mem_cons_of_mem y hz) hzy
    · rw [h y List.mem_cons_self hyx]
      refine ih ?_ fun z hz => h z (List.mem_cons_of_mem y hz)
      exact (List.mem_cons.mp hx).resolve_left fun heq => hyx heq.symm

theorem resolveSingle_eq (c : Catalog) (name : String) (owner : Owner) :
    resolveSingle c name owner = (activeModel c name owner).bind fun m =>
      match m.kind with
      | .single cid litellmModel =>
        (c.connections.get? cid).map fun conn => conn.info litellmModel
      | .router _ => none := by
  unfold resolveSingle
  cases h : activeModel c name owner with
  | none =>
    refine List.findSome?_eq_none_iff.mpr fun m hm => ?_
    have hnone := List.find?_eq_none.mp h m hm
    cases hkind : m.kind <;> simp_all
  | some m =>
    obtain ⟨hm, hname, howner, hactive⟩ := activeModel_spec h
    rw [findSome?_of_unique hm]
    · cases hkind : m.kind <;> simp [hkind, hname, howner, hactive]
    · intro n hn hne
      have hno : (n.name = name && n.createdBy = owner && n.isActive) = false :=
        eq_false_of_ne_true fun hmatch => hne (eq_of_active h hn hmatch)
      cases n.kind <;> simp [hno]

theorem resolveRouterModel_eq (c : Catalog) (name owner : String) :
    resolveRouterModel c name owner = (activeModel c name (some owner)).bind fun m =>
      match m.kind with
      | .router config => some config
      | .single .. => none := by
  unfold resolveRouterModel
  cases h : activeModel c name (some owner) with
  | none =>
    refine List.findSome?_eq_none_iff.mpr fun m hm => ?_
    have hnone := List.find?_eq_none.mp h m hm
    cases hkind : m.kind <;> simp_all
  | some m =>
    obtain ⟨hm, hname, howner, hactive⟩ := activeModel_spec h
    rw [findSome?_of_unique hm]
    · cases hkind : m.kind <;> simp [hkind, hname, howner, hactive]
    · intro n hn hne
      have hno : (n.name = name && n.createdBy = some owner && n.isActive) = false :=
        eq_false_of_ne_true fun hmatch => hne (eq_of_active h hn hmatch)
      cases n.kind <;> simp [hno]

end Lookup

theorem accessible_iff (c : Catalog) (name owner : String) : accessible c name owner = true ↔
    (activeModel c name (some owner)).isSome = true ∨ (activeModel c name none).isSome = true := by
  simp only [accessible, activeModel, List.any_eq_true, List.find?_isSome, Bool.and_eq_true,
    Bool.or_eq_true, decide_eq_true_eq]
  constructor
  · rintro ⟨m, hm, ⟨hname, howner | howner⟩, hactive⟩
    · exact .inl ⟨m, hm, ⟨hname, howner⟩, hactive⟩
    · exact .inr ⟨m, hm, ⟨hname, howner⟩, hactive⟩
  · rintro (⟨m, hm, ⟨hname, howner⟩, hactive⟩ | ⟨m, hm, ⟨hname, howner⟩, hactive⟩)
    · exact ⟨m, hm, ⟨hname, .inl howner⟩, hactive⟩
    · exact ⟨m, hm, ⟨hname, .inr howner⟩, hactive⟩

theorem validateModelNames_eq_none (c : Catalog) (owner : String) (names : List String) :
    validateModelNames c owner names = none ↔ ∀ name ∈ names, accessible c name owner = true := by
  induction names with
  | nil => simp [validateModelNames]
  | cons name names ih =>
    rw [validateModelNames, List.forall_mem_cons]
    split
    · rename_i h
      rw [ih]
      exact ⟨fun hrest => ⟨h, hrest⟩, And.right⟩
    · rename_i h
      constructor
      · intro hnone
        cases hnone
      · intro hall
        exact absurd hall.1 h

/-- The route a request selects names a connection its owner has. -/
def Usable (c : Catalog) (owner : String) (config : RoutingConfig) (taskType : Option String) :
    Prop :=
  ∃ route cid litellmModel, selectRoute config taskType = some route ∧
    route.connectionId = some cid ∧ route.litellmModel = some litellmModel ∧
    litellmModel.isEmpty = false ∧
    ∃ conn ∈ c.connections.rows, conn.id = cid.uuid ∧ conn.createdBy = some owner

/-- The row that answers for the name is a single model, or a router model of the owner
with a usable route: a router model of the platform is resolved by no query. -/
def Served (c : Catalog) (owner name : String) (taskType : Option String) : Prop :=
  match activeModel c name (some owner), activeModel c name none with
  | some m, _ => ∀ config, m.kind = .router config → Usable c owner config taskType
  | none, some m => ∀ config, m.kind ≠ .router config
  | none, none => True

theorem resolveRouteCredentials_isSome {c : Catalog} {owner : String} {route : Route} :
    (resolveRouteCredentials c route owner).isSome = true ↔
      ∃ cid litellmModel, route.connectionId = some cid ∧
        route.litellmModel = some litellmModel ∧ litellmModel.isEmpty = false ∧
        ∃ conn ∈ c.connections.rows, conn.id = cid.uuid ∧ conn.createdBy = some owner := by
  unfold resolveRouteCredentials
  cases hcid : route.connectionId with
  | none => simp
  | some cid =>
    cases hmodel : route.litellmModel with
    | none => simp
    | some litellmModel =>
      cases hempty : litellmModel.isEmpty with
      | true => simp_all
      | false =>
        have hne : litellmModel ≠ "" := by
          rintro rfl
          cases hempty
        simp [hne, Option.isSome_map, List.find?_isSome]

theorem isSome_connection {c : Catalog} {m : UserModel} {cid : Chat.Uuid} {litellmModel : String}
    (hm : m ∈ c.models.rows) (hkind : m.kind = .single cid litellmModel) :
    ∃ conn, c.connections.get? cid = some conn := by
  obtain ⟨conn, hconn, rfl⟩ := c.linked m hm cid litellmModel hkind
  exact ⟨conn, Table.mem_iff_get?.mp hconn⟩

/-- The router finds credentials exactly when the row that answers for the name is there
and can be served. -/
theorem resolveByok_isOk (c : Catalog) (owner name : String) (taskType : Option String) :
    (resolveByok c (some owner) name taskType).isOk = true ↔
      accessible c name owner = true ∧ Served c owner name taskType := by
  rw [accessible_iff, Served]
  simp only [resolveByok, resolveUserModel, resolvePlatformModel, resolveSingle_eq,
    resolveRouterModel_eq]
  cases hown : activeModel c name (some owner) with
  | some m =>
    obtain ⟨hm, _⟩ := activeModel_spec hown
    cases hkind : m.kind with
    | single cid litellmModel =>
      obtain ⟨conn, hconn⟩ := isSome_connection hm hkind
      simp [hkind, hconn, Except.isOk, Except.toBool, pure, Except.pure]
    | router config =>
      have hroute : Usable c owner config taskType ↔ ∃ route, selectRoute config taskType = some route ∧
          (resolveRouteCredentials c route owner).isSome = true := by
        simp only [Usable, resolveRouteCredentials_isSome]
        constructor
        · rintro ⟨route, cid, litellmModel, hroute, hrest⟩
          exact ⟨route, hroute, cid, litellmModel, hrest⟩
        · rintro ⟨route, hroute, cid, litellmModel, hrest⟩
          exact ⟨route, cid, litellmModel, hroute, hrest⟩
      cases hselect : selectRoute config taskType with
      | none => simp [hkind, hroute, hselect, Except.isOk, Except.toBool, throw, throwThe,
          MonadExceptOf.throw]
      | some route =>
        cases hcreds : resolveRouteCredentials c route owner with
        | none => simp [hkind, hroute, hselect, hcreds, Except.isOk, Except.toBool, throw,
            throwThe, MonadExceptOf.throw]
        | some creds => simp [hkind, hroute, hselect, hcreds, Except.isOk, Except.toBool, pure,
            Except.pure]
  | none =>
    cases hplatform : activeModel c name none with
    | none => simp [Except.isOk, Except.toBool, throw, throwThe, MonadExceptOf.throw]
    | some m =>
      obtain ⟨hm, _⟩ := activeModel_spec hplatform
      cases hkind : m.kind with
      | single cid litellmModel =>
        obtain ⟨conn, hconn⟩ := isSome_connection hm hkind
        simp [hkind, hconn, Except.isOk, Except.toBool, pure, Except.pure]
      | router config => simp [hkind, Except.isOk, Except.toBool, throw, throwThe,
          MonadExceptOf.throw]

/-- What the API's check says of a name is what the router does with it. -/
def Agrees (c : Catalog) (owner name : String) (taskType : Option String) : Prop :=
  (validateModelNames c owner [name] = none →
    (resolveByok c (some owner) name taskType).isOk = true) ∧
  (validateModelNames c owner [name] ≠ none →
    (resolveByok c (some owner) name taskType).isOk = false)

theorem admission_agrees (c : Catalog) (owner name : String) (taskType : Option String) :
    Agrees c owner name taskType ↔ Served c owner name taskType := by
  have hcheck : validateModelNames c owner [name] = none ↔ accessible c name owner = true := by
    simp [validateModelNames_eq_none]
  rw [Agrees, Ne, hcheck, ← Bool.not_eq_true, resolveByok_isOk]
  constructor
  · rintro ⟨haccept, _⟩
    by_cases haccessible : accessible c name owner = true
    · exact (haccept haccessible).2
    · -- A name that is not accessible has no row that could fail to be served.
      rw [accessible_iff] at haccessible
      simp only [not_or, Option.not_isSome_iff_eq_none] at haccessible
      simp [Served, haccessible.1, haccessible.2]
  · intro hserved
    exact ⟨fun h => ⟨h, hserved⟩, fun h hok => h hok.1⟩

namespace Sample

def platformConnection : Connection :=
  { id := 1, apiKeyEncrypted := [1], apiKeyNonce := [2], createdBy := none }

def platformRouter : UserModel :=
  { id := 2, name := "smart", createdBy := none
    kind := .router
      { defaultRoute := "a"
        routes := [{ key := some "a", connectionId := some ⟨1, 0⟩
                     litellmModel := some "openai/gpt-4o" }] } }

def platformCatalog : Catalog where
  models := ⟨[platformRouter], by decide⟩
  connections := ⟨[platformConnection], by decide⟩
  named := by decide
  linked := by
    intro m hm cid litellmModel hkind
    obtain rfl : m = platformRouter := by simpa using hm
    cases hkind

end Sample

/-- The check admits a router model of the platform; the router refuses it. -/
theorem platform_router_refused :
    ¬Agrees Sample.platformCatalog "user" "smart" none := by
  rintro ⟨haccept, _⟩
  have hok := haccept (by decide +kernel)
  revert hok
  decide +kernel

end Hill90.Models
