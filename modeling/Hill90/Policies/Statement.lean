import Hill90.Foundation.Program
import Hill90.Chat.Statement
import Hill90.Policies.Record

/-! # The statements on policies

The SQL of `routes/model-policies.ts`, and of the DELETE of a user model with its scrub of the
owner's policies.
-/

namespace Hill90.Policies

open Chat (Uuid Failure)
open Models (Owner)

structure NewPolicy where
  name : String
  description : String
  allowedModels : List String
  modelAliases : Aliases
  maxRequestsPerMinute : Option ℤ
  maxTokensPerDay : Option ℤ
  createdBy : Owner
  deriving DecidableEq, Repr

structure PolicyUpdate where
  name : Option String := none
  description : Option String := none
  allowedModels : Option (List String) := none
  maxRequestsPerMinute : Option (Option ℤ) := none
  maxTokensPerDay : Option (Option ℤ) := none
  modelAliases : Option Aliases := none
  deriving DecidableEq, Repr

def PolicyUpdate.apply (u : PolicyUpdate) (p : Policy) : Policy :=
  { p with
    name := u.name.getD p.name, description := u.description.getD p.description
    allowedModels := u.allowedModels.getD p.allowedModels
    maxRequestsPerMinute := u.maxRequestsPerMinute.getD p.maxRequestsPerMinute
    maxTokensPerDay := u.maxTokensPerDay.getD p.maxTokensPerDay
    modelAliases := u.modelAliases.getD p.modelAliases }

theorem PolicyUpdate.apply_id (u : PolicyUpdate) (p : Policy) : (u.apply p).id = p.id := rfl

inductive Statement where
  | selectModel (name user : String)
  | insertPolicy (p : NewPolicy)
  | selectPolicy (id : Uuid) (owner : Option String)
  | updatePolicy (id : Uuid) (update : PolicyUpdate)
  | selectAssigned (id : Uuid)
  | deletePolicy (id : Uuid) (owner : Option String)
  | deleteModel (id : Uuid) (owner : Option String)
  | scrubModel (name owner : String)
  deriving DecidableEq, Repr

namespace Statement

abbrev Rows : Statement → Type
  | selectModel .. | selectAssigned _ => Bool
  | insertPolicy _ => Uuid
  | selectPolicy .. => Option (List String)
  | updatePolicy .. | deletePolicy .. => ℕ
  | deleteModel .. => Option (String × Owner)
  | scrubModel .. => Unit

end Statement

abbrev Handler (α : Type) := Program Statement Statement.Rows Failure α

def ask (s : Statement) : Handler s.Rows := Program.query s

def inScope (owner : Option String) (createdBy : Owner) : Bool :=
  owner.all fun owner => createdBy = some owner

def Policy.without (name : String) (p : Policy) : Policy :=
  { p with allowedModels := p.allowedModels.filter fun m => m ≠ name }

/-- The table of a statement's effect, if the unique index admits it. -/
def Store.setPolicies {α : Type} (s : Store) (answer : α) (policies : Table Policy.id)
    (nextId : Uuid) : Except Failure (α × Store) :=
  if h : (policies.rows.map Policy.ownedName).Nodup then
    .ok (answer, { s with book := ⟨policies, h⟩, nextId })
  else .error (.uniqueViolation "idx_model_policies_name_owner")

def Store.assigned (s : Store) (id : Uuid) : Bool :=
  s.agents.rows.any fun a => a.modelPolicyId = some id

def NewPolicy.toPolicy (p : NewPolicy) (id : Uuid) : Policy :=
  { id, name := p.name, description := p.description, allowedModels := p.allowedModels
    modelAliases := p.modelAliases, maxRequestsPerMinute := p.maxRequestsPerMinute
    maxTokensPerDay := p.maxTokensPerDay, createdBy := p.createdBy }

def Statement.run (s : Store) (_ : Unit) : (st : Statement) → Except Failure (st.Rows × Store)
  | .selectModel name user => .ok (s.models.rows.any fun m => m.usableBy name user, s)
  | .insertPolicy p =>
    match s.book.policies.insert (p.toPolicy s.nextId) with
    | some policies => s.setPolicies s.nextId policies (s.nextId + 1)
    | none => .error (.uniqueViolation "model_policies_pkey")
  | .selectPolicy id owner =>
    .ok ((s.policies.find? fun p => p.id = id && inScope owner p.createdBy).map
      Policy.allowedModels, s)
  | .updatePolicy id update =>
    s.setPolicies (s.book.policies.count fun p => p.id = id)
      (s.book.policies.patch (fun p => p.id = id) (fun _ => update.apply) 0 fun _ => update.apply_id)
      s.nextId
  | .selectAssigned id => .ok (s.assigned id, s)
  | .deletePolicy id owner =>
    if s.policies.any fun p => p.id = id && inScope owner p.createdBy && s.assigned p.id then
      .error .foreignKeyViolation
    else s.setPolicies (s.book.policies.count fun p => p.id = id && inScope owner p.createdBy)
      (s.book.policies.delete fun p => p.id = id && inScope owner p.createdBy) s.nextId
  | .deleteModel id owner =>
    .ok ((s.models.rows.find? fun m => m.id = id && inScope owner m.createdBy).map
        fun m => (m.name, m.createdBy),
      { s with models := s.models.delete fun m => m.id = id && inScope owner m.createdBy })
  | .scrubModel name owner =>
    s.setPolicies ()
      (s.book.policies.patch (fun p => p.createdBy = some owner && p.allowedModels.contains name)
        (fun _ => Policy.without name) 0 fun _ _ => rfl) s.nextId

end Hill90.Policies
