import Hill90.Foundation.Interleaving
import Hill90.Models.Resolution
import Hill90.Chat.Statement

/-! # The router's cache of agent owners

`get_agent_owner` and `_resolve_byok` of the AI service.  The owner of an agent is looked up in
a cache of the process first, and nothing that happens to the agent's row reaches the cache.
-/

namespace Hill90.Models

namespace OwnerCache

open Chat (Failure)

def ttl : ℕ := 60000

/-- What is resolved for a request, and the owner of the connection it is of. -/
structure Credentials where
  info : UserModelInfo
  createdBy : Owner
  deriving DecidableEq, Repr

/-- `resolveSingle`, with the owner of the connection. -/
def singleCredentials (c : Catalog) (name : String) (owner : Owner) : Option Credentials :=
  c.models.rows.findSome? fun m =>
    match m.kind with
    | .single cid litellmModel =>
      if m.name = name && m.createdBy = owner && m.isActive then
        (c.connections.get? cid).map fun conn => ⟨conn.info litellmModel, conn.createdBy⟩
      else none
    | .router _ => none

/-- `resolveRouteCredentials`, with the owner of the connection. -/
def routeCredentials (c : Catalog) (route : Route) (owner : String) : Option Credentials :=
  match route.connectionId, route.litellmModel with
  | some cid, some litellmModel =>
    if litellmModel.isEmpty then none
    else
      (c.connections.rows.find? fun conn =>
        conn.id = cid.uuid && conn.createdBy = some owner).map fun conn =>
          ⟨conn.info litellmModel, conn.createdBy⟩
  | _, _ => none

theorem info_singleCredentials (c : Catalog) (name : String) (owner : Owner) :
    (singleCredentials c name owner).map Credentials.info = resolveSingle c name owner := by
  rw [singleCredentials, resolveSingle, List.map_findSome?]
  congr 1
  funext m
  simp only [Function.comp_apply]
  cases m.kind with
  | single cid litellmModel =>
    dsimp only
    split
    · rw [Option.map_map]
      rfl
    · rfl
  | router config => rfl

theorem info_routeCredentials (c : Catalog) (route : Route) (owner : String) :
    (routeCredentials c route owner).map Credentials.info = resolveRouteCredentials c route owner := by
  unfold routeCredentials resolveRouteCredentials
  cases route.connectionId with
  | none => rfl
  | some cid =>
    cases route.litellmModel with
    | none => rfl
    | some litellmModel =>
      dsimp only
      split
      · rfl
      · rw [Option.map_map]
        rfl

/-- The API links a connection of the caller's own to a single model: of the model's owner, or of an
admin who changes a user's model.  The platform's models use connections of the platform. -/
def owned (admin : String → Bool) (c : Catalog) : Bool :=
  c.models.rows.all fun m =>
    match m.kind with
    | .single cid _ => (c.connections.get? cid).all fun conn =>
      conn.createdBy = m.createdBy || (m.createdBy.isSome && conn.createdBy.any admin)
    | .router _ => true

/-- An agent's row was read with this owner at this time. -/
structure Sighting where
  agentId : String
  owner : String
  time : ℕ
  deriving DecidableEq, Repr

structure Store where
  agents : String → Option String := fun _ => none
  catalog : Catalog
  cache : String → Option (String × ℕ) := fun _ => none
  now : ℕ := 0
  sightings : List Sighting := []

inductive Statement where
  | readCache (agentId : String)
  | selectOwner (agentId : String)
  | writeCache (agentId owner : String) (expiresAt : ℕ)
  | selectUserModel (name owner : String)
  | selectRouterModel (name owner : String)
  | selectRoute (route : Route) (owner : String)
  | selectPlatformModel (name : String)
  deriving DecidableEq, Repr

abbrev Statement.Rows : Statement → Type
  | readCache _ => ℕ × Option String
  | selectOwner _ => Option String
  | writeCache .. => Unit
  | selectUserModel .. | selectRoute .. | selectPlatformModel _ => Option Credentials
  | selectRouterModel .. => Option RoutingConfig

abbrev Handler (α : Type) := Program Statement Statement.Rows Failure α

def ask (s : Statement) : Handler s.Rows := Program.query s

def Statement.run (s : Store) (_ : Unit) : (st : Statement) → Except Failure (st.Rows × Store)
  | .readCache agentId =>
    .ok ((s.now, (s.cache agentId).bind fun entry => if s.now < entry.2 then some entry.1 else none), s)
  | .selectOwner agentId =>
    match s.agents agentId with
    | none => .ok (none, s)
    | some owner =>
      .ok (some owner, { s with sightings := ⟨agentId, owner, s.now⟩ :: s.sightings })
  | .writeCache agentId owner expiresAt =>
    .ok ((), { s with cache := Function.update s.cache agentId (some (owner, expiresAt)) })
  | .selectUserModel name owner => .ok (singleCredentials s.catalog name (some owner), s)
  | .selectRouterModel name owner => .ok (resolveRouterModel s.catalog name owner, s)
  | .selectRoute route owner => .ok (routeCredentials s.catalog route owner, s)
  | .selectPlatformModel name => .ok (singleCredentials s.catalog name none, s)

/-- `get_agent_owner`, with the time it began at. -/
def getAgentOwner (agentId : String) : Handler (ℕ × Option String) := do
  let cached : ℕ × Option String ← ask (.readCache agentId)
  match cached with
  | (now, some owner) => pure (now, some owner)
  | (now, none) => do
    let row : Option String ← ask (.selectOwner agentId)
    match row with
    | none => pure (now, none)
    | some owner => do
      ask (.writeCache agentId owner (now + ttl))
      pure (now, some owner)

/-- The owner, and what was resolved for the model; `now` is when the owner was looked up. -/
structure Resolved where
  owner : String
  now : ℕ
  credentials : Credentials
  deriving DecidableEq, Repr

abbrev Response := Except Denial Resolved

def routed (router : RoutingConfig) (owner : String) (now : ℕ) (taskType : Option String) :
    Handler Response :=
  match Models.selectRoute router taskType with
  | none => pure (.error .noRoute)
  | some route => do
    let creds : Option Credentials ← ask (.selectRoute route owner)
    match creds with
    | none => pure (.error (.routeCredentialsUnavailable (route.key.getD "unknown")))
    | some creds => pure (.ok ⟨owner, now, creds⟩)

def platform (name owner : String) (now : ℕ) : Handler Response := do
  let creds : Option Credentials ← ask (.selectPlatformModel name)
  match creds with
  | none => pure (.error .modelNotFound)
  | some creds => pure (.ok ⟨owner, now, creds⟩)

def resolveFor (name owner : String) (now : ℕ) (taskType : Option String) : Handler Response := do
  let model : Option Credentials ← ask (.selectUserModel name owner)
  match model with
  | some creds => pure (.ok ⟨owner, now, creds⟩)
  | none => do
    let router : Option RoutingConfig ← ask (.selectRouterModel name owner)
    match router with
    | some router => routed router owner now taskType
    | none => platform name owner now

structure Request where
  agentId : String
  model : String
  taskType : Option String := none
  deriving DecidableEq, Repr

def resolveByok (q : Request) : Handler Response := do
  let looked ← getAgentOwner q.agentId
  match looked with
  | (_, none) => pure (.error .agentNotFound)
  | (now, some owner) => resolveFor q.model owner now q.taskType

inductive Surroundings where
  | tick (d : ℕ)
  | create (agentId owner : String)
  | delete (agentId : String)
  | catalog (c : Catalog)

section Service

-- `admin` is who is an admin or has been one
variable (admin : String → Bool)

/-- `agent_id` is unique. -/
def Surroundings.apply (s : Store) : Surroundings → Option Store
  | tick d => some { s with now := s.now + d }
  | create agentId owner =>
    if (s.agents agentId).isNone then
      some { s with agents := Function.update s.agents agentId (some owner) }
    else none
  | delete agentId => some { s with agents := Function.update s.agents agentId none }
  | catalog c => if owned admin c then some { s with catalog := c } else none

def service : Service Statement Statement.Rows Failure Request Response Store Unit Surroundings where
  fresh s := owned admin s.catalog = true ∧ s.cache = (fun _ => none) ∧ s.sightings = []
  handler := resolveByok
  run := Statement.run
  environment := Surroundings.apply admin

/-- The connection is the owner's, or one that an admin has linked to a model of the owner. -/
def Serves (owner : String) (createdBy : Owner) : Prop :=
  createdBy = some owner ∨ ∃ a, createdBy = some a ∧ admin a = true

end Service

/-! ## What a request knows -/

inductive Mode where
  | idle
  | missed (agentId : String) (now : ℕ)
  | fetched (agentId : String) (now : ℕ) (owner : String)
  | known (agentId : String) (now : ℕ) (owner : String)

/-- An owner that the agent's row had when the lookup began, or less than a lifetime before. -/
def Recent (s : Store) (agentId : String) (now : ℕ) (owner : String) : Prop :=
  ∃ t, ⟨agentId, owner, t⟩ ∈ s.sightings ∧ now < t + ttl

def Fits (s : Store) : Mode → Prop
  | .idle => True
  | .missed _ now => now ≤ s.now
  | .fetched agentId now owner => ∃ t, ⟨agentId, owner, t⟩ ∈ s.sightings ∧ now ≤ t
  | .known agentId now owner => Recent s agentId now owner

/-- Every entry of the cache expires within a lifetime of a sighting. -/
structure Sound (admin : String → Bool) (s : Store) : Prop where
  owned : owned admin s.catalog = true
  entries : ∀ agentId owner expiresAt, s.cache agentId = some (owner, expiresAt) →
    ∃ t, ⟨agentId, owner, t⟩ ∈ s.sightings ∧ expiresAt ≤ t + ttl

def lookups (admin : String → Bool) : Discipline Statement Statement.Rows Failure Mode where
  may m st :=
    match st with
    | .readCache _ => m = .idle
    | .selectOwner agentId => ∃ now, m = .missed agentId now
    | .writeCache agentId owner expiresAt =>
      ∃ now, m = .fetched agentId now owner ∧ expiresAt = now + ttl
    | .selectUserModel _ owner | .selectRouterModel _ owner | .selectRoute _ owner =>
      ∃ agentId now, m = .known agentId now owner
    | .selectPlatformModel _ => ∃ agentId now owner, m = .known agentId now owner
  returns st rows :=
    match st with
    | .selectUserModel _ owner | .selectRoute _ owner =>
      ∀ creds, rows = some creds → Serves admin owner creds.createdBy
    | .selectPlatformModel _ => ∀ creds, rows = some creds → creds.createdBy = none
    | _ => True
  returned m st rows :=
    match st with
    | .readCache agentId =>
      match rows with
      | (now, some owner) => .known agentId now owner
      | (now, none) => .missed agentId now
    | .selectOwner _ =>
      match m, rows with
      | .missed agentId now, some owner => .fetched agentId now owner
      | _, _ => .idle
    | .writeCache .. =>
      match m with
      | .fetched agentId now owner => .known agentId now owner
      | _ => .idle
    | _ => m
  rejected _ _ _ := .idle

def answers (admin : String → Bool) (q : Request) (response : Response) (m : Mode) : Prop :=
  ∀ r, response = .ok r → m = .known q.agentId r.now r.owner ∧
    (Serves admin r.owner r.credentials.createdBy ∨ r.credentials.createdBy = none)

open Program (Meets meets_ask meets_then)

variable {admin : String → Bool}

abbrev State := System Statement Statement.Rows Failure Request Response Store

theorem Fits.mono {s s' : Store} (hnow : s.now ≤ s'.now) (hseen : s.sightings ⊆ s'.sightings) {m : Mode}
    (h : Fits s m) : Fits s' m := by
  cases m with
  | idle => exact trivial
  | missed agentId now => exact le_trans h hnow
  | fetched agentId now owner =>
    obtain ⟨t, ht, hle⟩ := h
    exact ⟨t, hseen ht, hle⟩
  | known agentId now owner =>
    obtain ⟨t, ht, hlt⟩ := h
    exact ⟨t, hseen ht, hlt⟩

theorem grows_run {s s' : Store} {c : Unit} {st : Statement} {rows : st.Rows}
    (h : Statement.run s c st = .ok (rows, s')) : s.now ≤ s'.now ∧ s.sightings ⊆ s'.sightings := by
  cases st with
  | selectOwner agentId =>
    simp only [Statement.run] at h
    split at h
    · cases h
      exact ⟨le_refl _, fun _ h => h⟩
    · cases h
      exact ⟨le_refl _, fun _ h => List.mem_cons_of_mem _ h⟩
  | _ =>
    cases h
    exact ⟨le_refl _, fun _ h => h⟩

/-- The reply of a request, once there is one. -/
def replied (S : State) (i : ℕ) : Option (Request × Resolved) :=
  match S.requests i with
  | some (q, .reply (.ok r)) => some (q, r)
  | _ => none

def annConnection : Connection := ⟨7, [1], [2], none, some "ann"⟩

def annModel : UserModel :=
  { id := 8, name := "gpt", kind := .single 7 "openai/gpt", createdBy := some "ann" }

def annCatalog : Catalog where
  models := ⟨[annModel], by decide⟩
  connections := ⟨[annConnection], by decide⟩
  named := by decide
  linked := by
    intro m hm cid litellm hkind
    obtain rfl := List.mem_singleton.mp hm
    cases hkind
    exact ⟨annConnection, List.mem_singleton_self _, rfl⟩

end OwnerCache

end Hill90.Models
