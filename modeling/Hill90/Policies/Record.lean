import Mathlib.Data.Int.Basic
import Hill90.Models.Record

/-! # Model policies

The rows of `model_policies` under their unique index, the names of `user_models` that a policy
may list, and the policy each agent is assigned.
-/

namespace Hill90.Policies

open Chat (Uuid)
open Models (Owner)

abbrev Aliases := List (String × String)

structure Policy where
  id : Uuid
  name : String
  description : String := ""
  allowedModels : List String
  modelAliases : Aliases := []
  maxRequestsPerMinute : Option ℤ := none
  maxTokensPerDay : Option ℤ := none
  createdBy : Owner
  deriving DecidableEq, Repr

def Policy.ownedName (p : Policy) : String × String := (p.name, p.createdBy.getD "__platform__")

structure ModelEntry where
  id : Uuid
  name : String
  isActive : Bool := true
  createdBy : Owner
  deriving DecidableEq, Repr

def ModelEntry.usableBy (m : ModelEntry) (name user : String) : Bool :=
  m.name = name && (m.createdBy = some user || m.createdBy = none) && m.isActive

structure Assignee where
  agentId : String
  modelPolicyId : Option Uuid := none
  deriving DecidableEq, Repr

structure Book where
  policies : Table Policy.id
  named : (policies.rows.map Policy.ownedName).Nodup

structure Store where
  book : Book
  models : Table ModelEntry.id := Table.empty
  agents : Table Assignee.agentId := Table.empty
  nextId : Uuid := 0

namespace Store

variable (s : Store)

def policies : List Policy := s.book.policies.rows

theorem eq_of_ownedName {p q : Policy} (hp : p ∈ s.policies) (hq : q ∈ s.policies)
    (hname : p.name = q.name) (howner : p.createdBy = q.createdBy) : p = q := by
  apply List.inj_on_of_nodup_map s.book.named hp hq
  simp [Policy.ownedName, hname, howner]

end Store

end Hill90.Policies
