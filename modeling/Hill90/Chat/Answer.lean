import Hill90.Chat.Effect
import Hill90.Chat.Conduct

/-! # What the database can answer

Some answers are credible whatever the tables contain: the agents of a thread are
distinct, a row that is selected by its id has it.  What the helpers of the routes make of
credible answers holds in every interleaving.
-/

namespace Hill90.Chat

open Program

/-- What the database can answer to a statement, whatever it contains. -/
def credible : (st : Statement) → st.Rows → Prop
  | .getThreadAgents _, (rows : List Uuid) => rows.Nodup
  | .resolveAgentSlugs .., (rows : List (String × Uuid)) => (rows.map (·.2)).Nodup
  | .getAgentForDispatch id, (row : Option Agent) => ∀ agent ∈ row, agent.id = id
  | .createThread _ _ _ _ agentUuids _ _, _ => agentUuids.Nodup
  | _, _ => True

section Run

variable {s s' : Store}

theorem fresh_of_addParticipants {ps : List Participant} {t t' : Table Participant.key}
    (h : Store.addParticipants ps t = some t') : ∀ p ∈ ps, ∀ q ∈ t.rows, q.key ≠ p.key := by
  induction ps generalizing t with
  | nil => simp
  | cons p ps ih =>
    obtain ⟨t₁, hinsert, hrest⟩ := Option.bind_eq_some_iff.mp h
    intro p' hp' q hq
    obtain rfl | hp' := List.mem_cons.mp hp'
    · exact Table.get?_eq_none_iff.mp (Table.fresh_of_insert hinsert) q hq
    · exact ih hrest p' hp' q ((Table.mem_of_insert hinsert).mpr (.inl hq))

theorem nodup_of_addParticipants {ps : List Participant} {t t' : Table Participant.key}
    (h : Store.addParticipants ps t = some t') : (ps.map Participant.key).Nodup := by
  induction ps generalizing t with
  | nil => exact List.nodup_nil
  | cons p ps ih =>
    obtain ⟨t₁, hinsert, hrest⟩ := Option.bind_eq_some_iff.mp h
    rw [List.map_cons, List.nodup_cons]
    constructor
    · intro hmem
      obtain ⟨p', hp', heq⟩ := List.mem_map.mp hmem
      have hp : p ∈ t₁.rows := (Table.mem_of_insert hinsert).mpr (.inr rfl)
      exact fresh_of_addParticipants hrest p' hp' p hp heq.symm
    · exact ih hrest

theorem filterMap_values {α β : Type} {f : α → Option (β × α)}
    (hf : ∀ a e, f a = some e → e.2 = a) (as : List α) :
    ((as.filterMap f).map (·.2)).Sublist as := by
  induction as with
  | nil => exact List.nil_sublist _
  | cons a as ih =>
    cases ha : f a with
    | none =>
      rw [List.filterMap_cons_none ha]
      exact ih.cons a
    | some e =>
      rw [List.filterMap_cons_some ha, List.map_cons, hf a e ha]
      exact ih.cons_cons a

theorem credible_of_run {c : Choice} {st : Statement} {rows : st.Rows}
    (h : st.run s c = .ok (rows, s')) : credible st rows := by
  cases st
  case getThreadAgents threadId =>
    cases h
    exact s.activeAgents_nodup threadId
  case resolveAgentSlugs threadId slugs =>
    cases h
    apply List.Nodup.sublist (filterMap_values _ _) (s.activeAgents_nodup threadId)
    intro id e he
    obtain ⟨a, _, he⟩ := Option.bind_eq_some_iff.mp he
    split at he <;> cases he
    rfl
  case getAgentForDispatch id =>
    cases h
    intro agent hagent
    exact Table.key_of_get? hagent
  case createThread type title createdBy lead agentUuids content key =>
    obtain ⟨thread, row⟩ := rows
    obtain ⟨_, _, _, _, hparticipants, _⟩ := addThread_ok h
    have hkeys := (List.nodup_cons.mp (nodup_of_addParticipants hparticipants)).2
    rw [List.map_map] at hkeys
    exact List.Nodup.of_map _ hkeys
  all_goals trivial

end Run

section ToMap

variable {κ β : Type} [DecidableEq κ]

theorem mem_of_mem_toMap {rows : List (κ × β)} {e : κ × β} (h : e ∈ toMap rows) : e ∈ rows := by
  induction rows with
  | nil => cases h
  | cons row rows ih =>
    rw [toMap] at h
    split at h
    · rename_i e' hfind
      obtain rfl | hrest := List.mem_cons.mp h
      · exact List.mem_cons_of_mem row (ih (List.mem_of_find?_eq_some hfind))
      · exact List.mem_cons_of_mem row (ih (List.mem_filter.mp hrest).1)
    · obtain rfl | hrest := List.mem_cons.mp h
      · exact List.mem_cons_self
      · exact List.mem_cons_of_mem row (ih hrest)

theorem toMap_keys (rows : List (κ × β)) : ((toMap rows).map (·.1)).Nodup := by
  induction rows with
  | nil => exact List.nodup_nil
  | cons row rows ih =>
    rw [toMap]
    split
    · rename_i e hfind
      have hkey : e.1 = row.1 := by simpa using List.find?_some hfind
      rw [List.map_cons, List.nodup_cons]
      constructor
      · intro hmem
        obtain ⟨e', he', heq⟩ := List.mem_map.mp hmem
        have hne : e'.1 ≠ row.1 := by simpa using (List.mem_filter.mp he').2
        exact hne (heq.trans hkey)
      · exact ih.sublist (List.filter_sublist.map _)
    · rename_i hfind
      rw [List.map_cons, List.nodup_cons]
      constructor
      · intro hmem
        obtain ⟨e, he, heq⟩ := List.mem_map.mp hmem
        exact absurd heq (by simpa using List.find?_eq_none.mp hfind e he)
      · exact ih

theorem toMap_values {rows : List (κ × β)} (h : (rows.map (·.2)).Nodup) :
    ((toMap rows).map (·.2)).Nodup := by
  apply List.Nodup.map_on
  · intro e he e' he' heq
    exact List.inj_on_of_nodup_map h (mem_of_mem_toMap he) (mem_of_mem_toMap he') heq
  · exact List.Nodup.of_map _ (toMap_keys rows)

end ToMap

section Helpers

theorem yields_loadAgents (uuids : List Uuid) :
    (loadAgents uuids).Yields credible fun loaded =>
      ∀ agents, loaded = .ok agents → agents.map (·.id) = uuids := by
  induction uuids with
  | nil =>
    intro agents hagents
    cases hagents
    rfl
  | cons uuid uuids ih =>
    apply yields_ask
    intro (agent : Option Agent) hagent
    cases agent with
    | none => exact fun _ h => nomatch h
    | some agent =>
      obtain rfl : agent.id = uuid := hagent agent rfl
      apply yields_then ih
      intro loaded hloaded agents hagents
      cases loaded with
      | error => cases hagents
      | ok rest =>
        cases hagents
        rw [List.map_cons, hloaded rest rfl]

theorem yields_loadKnownAgents (uuids : List Uuid) :
    (loadKnownAgents uuids).Yields credible fun agents => (agents.map (·.id)).Sublist uuids := by
  induction uuids with
  | nil => exact List.nil_sublist _
  | cons uuid uuids ih =>
    apply yields_ask
    intro (agent : Option Agent) hagent
    apply yields_then ih
    intro rest hsub
    cases agent with
    | none => exact hsub.cons uuid
    | some agent =>
      obtain rfl : agent.id = uuid := hagent agent rfl
      exact hsub.cons_cons agent.id

theorem yields_resolveAgentSlugs (threadId : Uuid) (slugs : List String) :
    (resolveAgentSlugs threadId slugs).Yields credible
      fun resolved => (resolved.map (·.2)).Nodup := by
  unfold resolveAgentSlugs
  split
  · exact List.nodup_nil
  · apply yields_ask
    intro (rows : List (String × Uuid)) hrows
    exact toMap_values hrows

theorem yields_classifyAgents (threadId : Uuid) (agents : List Agent) :
    (classifyAgents threadId agents).Yields credible fun result => result.1.Sublist agents := by
  induction agents with
  | nil => exact List.Sublist.refl []
  | cons agent agents ih =>
    rw [classifyAgents]
    split
    · apply yields_ask
      intro (pending : Bool) _
      apply yields_then ih
      intro result hsub
      cases pending with
      | true => exact hsub.cons agent
      | false => exact hsub.cons_cons agent
    · apply yields_then ih
      intro result hsub
      exact hsub.cons agent

theorem yields_eligibleAgents (threadId : Uuid) (uuids : List Uuid) :
    (eligibleAgents threadId uuids).Yields credible fun agents =>
      (agents.map (·.id)).Sublist uuids := by
  induction uuids with
  | nil => exact List.nil_sublist _
  | cons uuid uuids ih =>
    have hskip : (eligibleAgents threadId uuids).Yields credible fun agents =>
        (agents.map (·.id)).Sublist (uuid :: uuids) := ih.mono fun _ hsub => hsub.cons uuid
    apply yields_ask
    intro (scope : Option String) _
    cases scope with
    | some scope => exact hskip
    | none =>
      apply yields_ask
      intro (agent : Option Agent) hagent
      cases agent with
      | none => exact hskip
      | some agent =>
        obtain rfl : agent.id = uuid := hagent agent rfl
        simp only []
        split
        · apply yields_ask
          intro (pending : Bool) _
          apply yields_then ih
          intro rest hsub
          cases pending with
          | true => exact hsub.cons agent.id
          | false => exact hsub.cons_cons agent.id
        · exact hskip

theorem sublist_onlyLead (lead : Option Uuid) (agents : List Agent) :
    (onlyLead lead agents).Sublist agents := by
  cases lead with
  | none => exact List.Sublist.refl agents
  | some lead => exact List.filter_sublist

end Helpers

end Hill90.Chat
