import Mathlib.Data.Int.Basic
import Hill90.Foundation.Table
import Hill90.Chat.Record

/-! # The model catalog

`user_models` and `provider_connections`.  The CHECK that separates single from router
models is the type of their fields; the unique index on names and the foreign key of
single models are fields of the catalog.
-/

namespace Hill90.Models

open Chat (Uuid)

/-- A text PostgreSQL accepts for a UUID.  Spelling 0 is the canonical one it prints;
upper case, braces and the like are other spellings. -/
structure UuidText where
  uuid : Uuid
  spelling : ℕ := 0
  deriving DecidableEq, Repr

abbrev Owner := Option String

structure Route where
  key : Option String := none
  connectionId : Option UuidText := none
  litellmModel : Option String := none
  taskTypes : Option (List String) := none
  priority : ℤ := 0
  deriving DecidableEq, Repr

structure RoutingConfig where
  strategy : String := "fallback"
  defaultRoute : String := ""
  routes : List Route := []
  deriving DecidableEq, Repr

inductive Kind where
  | single (connectionId : Uuid) (litellmModel : String)
  | router (config : RoutingConfig)
  deriving DecidableEq, Repr

structure UserModel where
  id : Uuid
  name : String
  kind : Kind
  isActive : Bool := true
  createdBy : Owner
  deriving DecidableEq, Repr

structure Connection where
  id : Uuid
  apiKeyEncrypted : List UInt8
  apiKeyNonce : List UInt8
  apiBaseUrl : Option String := none
  createdBy : Owner
  deriving DecidableEq, Repr

/-- The key of `user_models_name_owner_unique`. -/
def UserModel.ownedName (m : UserModel) : String × String :=
  (m.name, m.createdBy.getD "__platform__")

structure Catalog where
  models : Table UserModel.id
  connections : Table Connection.id
  named : (models.rows.map UserModel.ownedName).Nodup
  linked : ∀ m ∈ models.rows, ∀ cid litellm, m.kind = .single cid litellm →
    ∃ c ∈ connections.rows, c.id = cid

namespace Catalog

variable {c : Catalog} {m n : UserModel}

theorem eq_of_ownedName (hm : m ∈ c.models.rows) (hn : n ∈ c.models.rows) (hname : m.name = n.name)
    (howner : m.createdBy = n.createdBy) : m = n := by
  apply List.inj_on_of_nodup_map c.named hm hn
  simp [UserModel.ownedName, hname, howner]

end Catalog

end Hill90.Models
