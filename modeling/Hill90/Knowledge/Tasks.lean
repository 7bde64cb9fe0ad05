import Mathlib.Data.Prod.Lex
import Hill90.Foundation.Fate
import Hill90.Foundation.Keyset
import Hill90.Foundation.Machine

/-! # The tasks of agents

`task_store.py` and its two routers: agents see and change their own tasks, the API service those of
all.  A request of an agent reads the task first and changes it in a later query, with any number of
other requests in between.
-/

namespace Hill90.Knowledge.Tasks

structure Task where
  id : ℕ
  agentId : String
  title : String
  description : String
  status : String
  priority : ℤ
  sortOrder : ℤ
  tags : List String
  createdBy : String
  createdAt : ℕ
  updatedAt : ℕ
  deriving DecidableEq

def validStatuses : List String := ["backlog", "todo", "in_progress", "review", "done", "cancelled"]

inductive Who where
  | agent (sub : String)
  | service
  deriving DecidableEq

structure CreateTaskRequest where
  title : String
  description : String := ""
  status : String := "backlog"
  priority : ℤ := 3
  tags : List String := []
  deriving DecidableEq

structure UpdateTaskRequest where
  title : Option String := none
  description : Option String := none
  status : Option String := none
  priority : Option ℤ := none
  tags : Option (List String) := none
  deriving DecidableEq

inductive Change where
  | update (body : UpdateTaskRequest)
  | transition (status : String)
  deriving DecidableEq

inductive Reply where
  | task (t : Task)
  | tasks (page : List Task) (total : ℕ)
  | refused (status : ℕ) (detail : String)
  deriving DecidableEq

def taskNotFound : Reply := .refused 404 "task not found"

def serverError : Reply := .refused 500 "Internal Server Error"

section Store

def statusError (status : String) : Option String :=
  if status ∈ validStatuses then none else some ("invalid status '" ++ status ++ "'")

def priorityError (priority : ℤ) : Option String :=
  if 1 ≤ priority ∧ priority ≤ 4 then none else some ("invalid priority " ++ toString priority)

def CreateTaskRequest.error (body : CreateTaskRequest) : Option String :=
  statusError body.status <|> priorityError body.priority

namespace Change

def isEmpty : Change → Bool
  | update body => body = {}
  | transition _ => false

def error : Change → Option String
  | update body => body.status.bind statusError <|> body.priority.bind priorityError
  | transition status => statusError status

def apply (now : ℕ) (t : Task) : Change → Task
  | update body =>
    { t with
      title := body.title.getD t.title
      description := body.description.getD t.description
      status := body.status.getD t.status
      priority := body.priority.getD t.priority
      tags := body.tags.getD t.tags
      updatedAt := now }
  | transition status => { t with status := status, updatedAt := now }

end Change

def sortKey (t : Task) : ℤ ×ₗ ℕᵒᵈ ×ₗ ℕᵒᵈ :=
  toLex (t.sortOrder, toLex (OrderDual.toDual t.updatedAt, OrderDual.toDual t.id))

/-- An empty filter is no filter. -/
def selected (rows : List Task) (agentId status : Option String) : List Task :=
  rows.filter fun t => (agentId.filter (· ≠ "")).all (t.agentId = ·) &&
    (status.filter (· ≠ "")).all (t.status = ·)

def listTasks (rows : List Task) (agentId status : Option String) (limit offset : ℕ) :
    List Task × ℕ :=
  let found := selected rows agentId status
  (((Keyset.ordered sortKey found).drop offset).take limit, found.length)

def getTask (rows : List Task) (taskId : ℕ) : Option Task := rows.find? fun t => t.id = taskId

end Store

def Who.Speaks (agentId : String) : Who → Prop
  | .agent sub => agentId = sub
  | .service => True

instance (who : Who) (agentId : String) : Decidable (who.Speaks agentId) := by
  cases who <;> unfold Who.Speaks <;> infer_instance

def Who.owns (who : Who) (t : Task) : Bool := who.Speaks t.agentId

def Who.lists (agentId : Option String) : Who → Bool
  | .agent sub => agentId = some sub
  | .service => true

inductive Stage where
  | begun
  /-- The task has been read, and it is the agent's. -/
  | found
  deriving DecidableEq

structure Call where
  who : Who
  taskId : ℕ
  change : Change
  stage : Stage
  deriving DecidableEq

/-- A listing whose page has been read and whose tasks have not been counted. -/
structure Listing where
  who : Who
  agentId : Option String
  status : Option String
  allowed : who.lists agentId = true
  page : List Task

structure State where
  rows : List Task
  ids : (rows.map Task.id).Nodup
  calls : ℕ → Option Call := fun _ => none
  listings : ℕ → Option Listing := fun _ => none
  replies : List (Who × Reply) := []

abbrev Fate := Outcome Unit Unit

inductive Event where
  /-- `agentId` and `createdBy` are the subject of the token, if an agent asks. -/
  | create (who : Who) (agentId createdBy : String) (body : CreateTaskRequest) (id now : ℕ) (fate : Fate)
  | get (who : Who) (taskId : ℕ) (fate : Fate)
  /-- The query of the page. -/
  | list (who : Who) (i : ℕ) (agentId status : Option String) (limit offset : ℕ) (fate : Fate)
  | count (who : Who) (i : ℕ) (fate : Fate)
  | arrive (who : Who) (i : ℕ) (taskId : ℕ) (change : Change)
  | select (who : Who) (i : ℕ) (fate : Fate)
  | write (who : Who) (i : ℕ) (now : ℕ) (fate : Fate)

def Event.who : Event → Who
  | create who .. | get who .. | list who .. | count who .. | arrive who .. | select who ..
  | write who .. => who

namespace State

variable (s : State)

def setCall (i : ℕ) (call : Option Call) : State :=
  { s with calls := Function.update s.calls i call }

def setListing (i : ℕ) (listing : Option Listing) : State :=
  { s with listings := Function.update s.listings i listing }

def reply (who : Who) (r : Reply) : State := { s with replies := s.replies ++ [(who, r)] }

def rewritten (taskId : ℕ) (f : Task → Task) : List Task :=
  s.rows.map fun t => if t.id = taskId then f t else t

theorem rewritten_ids (taskId : ℕ) (change : Change) (now : ℕ) :
    (s.rewritten taskId fun t => change.apply now t).map Task.id = s.rows.map Task.id := by
  unfold rewritten
  rw [List.map_map]
  apply List.map_congr_left
  intro t _
  simp only [Function.comp_apply]
  split
  · cases change <;> rfl
  · rfl

def rewrite (taskId : ℕ) (change : Change) (now : ℕ) : State :=
  { s with
    rows := s.rewritten taskId fun t => change.apply now t
    ids := (s.rewritten_ids taskId change now).symm ▸ s.ids }

def insert (t : Task) (h : t.id ∉ s.rows.map Task.id) : State :=
  { s with
    rows := s.rows ++ [t]
    ids := by
      rw [List.map_append]
      exact s.ids.append (List.nodup_singleton _) (by simpa using h) }

def replyIf (who : Who) (fate : Fate) (r : Reply) : State :=
  s.reply who (if fate.isAnswered then r else serverError)

def inserted (t : Task) (h : t.id ∉ s.rows.map Task.id) (fate : Fate) : State :=
  if fate.takesEffect then s.insert t h else s

def answerOf (found : Option Task) : Reply := found.elim taskNotFound .task

def answer (who : Who) (taskId : ℕ) (fate : Fate) : State :=
  s.replyIf who fate (answerOf (getTask s.rows taskId))

def applied (call : Call) (now : ℕ) (fate : Fate) : State :=
  if fate.takesEffect then s.rewrite call.taskId call.change now else s

def write (i : ℕ) (call : Call) (now : ℕ) (fate : Fate) : State :=
  let s' := s.setCall i none
  match call.change.error with
  | some detail => s'.reply call.who (.refused 400 detail)
  | none =>
    if call.change.isEmpty then s'.answer call.who call.taskId fate
    else (s'.applied call now fate).answer call.who call.taskId fate

def step : Event → Option State
  | .create who agentId createdBy body id now fate =>
    if who.Speaks agentId ∧ who.Speaks createdBy then
      match body.error with
      | some detail => some (s.reply who (.refused 400 detail))
      | none =>
        let t := ⟨id, agentId, body.title, body.description, body.status, body.priority, 0, body.tags,
          createdBy, now, now⟩
        if h : id ∈ s.rows.map Task.id then none
        else some ((s.inserted t h fate).replyIf who fate (.task t))
    else none
  | .get who taskId fate =>
    some (s.replyIf who fate (answerOf ((getTask s.rows taskId).filter who.owns)))
  | .list who i agentId status limit offset fate =>
    match s.listings i with
    | some _ => none
    | none =>
      if h : who.lists agentId then
        if fate.isAnswered then
          some (s.setListing i
            (some ⟨who, agentId, status, h, (listTasks s.rows agentId status limit offset).1⟩))
        else some (s.reply who serverError)
      else none
  | .count who i fate =>
    match s.listings i with
    | some l =>
      if l.who = who then
        some ((s.setListing i none).replyIf who fate
          (.tasks l.page (selected s.rows l.agentId l.status).length))
      else none
    | none => none
  | .arrive who i taskId change =>
    match s.calls i with
    | some _ => none
    | none => some (s.setCall i (some ⟨who, taskId, change, if who = .service then .found else .begun⟩))
  | .select who i fate =>
    match s.calls i with
    | some call =>
      if call.who = who ∧ call.stage = .begun then
        if !fate.isAnswered then some ((s.setCall i none).reply who serverError)
        else if ((getTask s.rows call.taskId).filter who.owns).isSome then
          some (s.setCall i (some { call with stage := .found }))
        else some ((s.setCall i none).reply who taskNotFound)
      else none
    | none => none
  | .write who i now fate =>
    match s.calls i with
    | some call =>
      if call.who = who ∧ call.stage = .found then some (s.write i call now fate) else none
    | none => none

end State

def machine : Machine State Event where
  initial s := s.calls = (fun _ => none) ∧ s.listings = (fun _ => none) ∧ s.replies = []
  step := State.step

section Rows

variable {s : State} {a : String} {rows : List Task} {taskId : ℕ} {change : Change} {now : ℕ} {t : Task}

def own (a : String) (rows : List Task) : List Task := rows.filter fun t => t.agentId = a

theorem apply_kept (change : Change) (now : ℕ) (t : Task) :
    (change.apply now t).id = t.id ∧ (change.apply now t).agentId = t.agentId ∧
      (change.apply now t).createdBy = t.createdBy ∧ (change.apply now t).createdAt = t.createdAt := by
  cases change <;> exact ⟨rfl, rfl, rfl, rfl⟩

theorem mem_rewrite : t ∈ (s.rewrite taskId change now).rows ↔
    ∃ t₀ ∈ s.rows, t = if t₀.id = taskId then change.apply now t₀ else t₀ := by
  change t ∈ s.rows.map _ ↔ _
  rw [List.mem_map]
  exact exists_congr fun t₀ => and_congr_right fun _ => eq_comm

theorem exists_rewrite (taskId : ℕ) (change : Change) (now : ℕ) (ht : t ∈ s.rows) :
    ∃ t' ∈ (s.rewrite taskId change now).rows, t'.id = t.id ∧ t'.agentId = t.agentId := by
  refine ⟨_, mem_rewrite.mpr ⟨t, ht, rfl⟩, ?_⟩
  split
  · exact ⟨(apply_kept change now t).1, (apply_kept change now t).2.1⟩
  · exact ⟨rfl, rfl⟩

theorem own_rewrite : own a (s.rewrite taskId change now).rows =
    (own a s.rows).map fun t => if t.id = taskId then change.apply now t else t := by
  unfold own
  change (s.rows.map _).filter _ = _
  rw [List.filter_map]
  congr 1
  apply List.filter_congr
  intro t _
  simp only [Function.comp_apply]
  split
  · rw [(apply_kept change now t).2.1]
  · rfl

theorem own_rewrite_of_ne (h : ∀ t ∈ s.rows, t.id = taskId → t.agentId ≠ a) :
    own a (s.rewrite taskId change now).rows = own a s.rows := by
  rw [own_rewrite]
  nth_rewrite 2 [← List.map_id (own a s.rows)]
  apply List.map_congr_left
  intro t ht
  obtain ⟨hmem, hagent⟩ := List.mem_filter.mp ht
  rw [if_neg fun hid => h t hmem hid (of_decide_eq_true hagent)]
  rfl

theorem eq_of_id_eq {t' : Task} (ht : t ∈ s.rows) (ht' : t' ∈ s.rows) (hid : t.id = t'.id) : t = t' :=
  List.inj_on_of_nodup_map s.ids ht ht' hid

theorem owns_agent (a : String) (t : Task) : (Who.agent a).owns t = decide (t.agentId = a) :=
  decide_eq_decide.mpr Iff.rfl

/-- The query of an agent's own task by its id, from the tasks of the agent alone. -/
theorem getTask_own (hids : (rows.map Task.id).Nodup) (a : String) (taskId : ℕ) :
    (getTask rows taskId).filter (Who.agent a).owns = (own a rows).find? fun t => t.id = taskId := by
  induction rows with
  | nil => rfl
  | cons t rows ih =>
    rw [List.map_cons, List.nodup_cons] at hids
    unfold getTask own
    by_cases hid : t.id = taskId
    · by_cases hagent : t.agentId = a
      · simp [hid, hagent, owns_agent]
      · -- the only row of the id is another agent's
        rw [List.find?_cons_of_pos (by simpa using hid), Option.filter_some,
          if_neg (by simpa [owns_agent] using hagent), List.filter_cons_of_neg (by simpa using hagent),
          eq_comm, List.find?_eq_none]
        intro x hx
        have hne : x.id ≠ taskId := by
          intro hxid
          exact hids.1 (hid.trans hxid.symm ▸ List.mem_map_of_mem (List.mem_of_mem_filter hx))
        simpa using hne
    · have hrest := ih hids.2
      unfold getTask own at hrest
      by_cases hagent : t.agentId = a
      · simpa [hid, hagent] using hrest
      · simpa [hid, hagent] using hrest

theorem selected_own (ha : a ≠ "") (rows : List Task) (status : Option String) :
    selected rows (some a) status =
      (own a rows).filter fun t => (status.filter (· ≠ "")).all (t.status = ·) := by
  unfold selected own
  rw [List.filter_filter]
  apply List.filter_congr
  intro t _
  rw [Option.filter_some, if_pos (by simpa using ha), Option.all_some, Bool.and_comm]

end Rows

section Views

/-- The events of this one may be seen by the agent. -/
def Who.visible (a : String) : Who → Bool
  | .agent sub => sub = a
  | .service => true

/-- A call that goes on to its second query has a task of its agent, or is of the API service. -/
def Kept (s : State) : Prop :=
  ∀ i call, s.calls i = some call →
    (call.who = .service → call.stage = .found) ∧
      (call.stage = .found → ∀ sub, call.who = .agent sub →
        ∃ t ∈ s.rows, t.id = call.taskId ∧ t.agentId = sub)

/-- What the agent sees of a listing, which is nothing of one of the API service. -/
def Listing.seen (a : String) (l : Listing) : Listing :=
  if l.who = .agent a then l else { l with page := [] }

/-- To agent `a`, the second state is as the first; it is what is left without the other agents. -/
structure View (a : String) (s s' : State) : Prop where
  own : own a s'.rows = own a s.rows
  owned : ∀ t' ∈ s'.rows, ∃ t ∈ s.rows, t.id = t'.id ∧ t.agentId = t'.agentId
  calls : ∀ i, s'.calls i = (s.calls i).filter fun c => c.who.visible a
  listings : ∀ i, (s'.listings i).map (Listing.seen a) =
    ((s.listings i).filter fun l => l.who.visible a).map (Listing.seen a)
  replies : (s'.replies.filter fun r => r.1 = .agent a) = s.replies.filter fun r => r.1 = .agent a

variable {a : String} {s s' t t' : State} {who : Who} {i : ℕ} {call : Call}

theorem View.refl (h : ∀ i, s.calls i = none) (h' : ∀ i, s.listings i = none) : View a s s :=
  ⟨rfl, fun t ht => ⟨t, ht, rfl, rfl⟩, fun i => by rw [h i]; rfl, fun i => by rw [h' i]; rfl, rfl⟩

theorem View.reply (h : View a s s') {r r' : Reply} (hr : who = .agent a → r' = r) :
    View a (s.reply who r) (s'.reply who r') := by
  refine ⟨h.own, h.owned, h.calls, h.listings, ?_⟩
  change (s'.replies ++ [(who, r')]).filter _ = (s.replies ++ [(who, r)]).filter _
  rw [List.filter_append, List.filter_append, h.replies]
  obtain hwho | hwho := eq_or_ne who (.agent a)
  · rw [hr hwho]
  · simp [hwho]

theorem View.hiddenReply (h : View a s s') {r : Reply} (hwho : who ≠ .agent a) :
    View a (s.reply who r) s' := by
  refine ⟨h.own, h.owned, h.calls, h.listings, ?_⟩
  change _ = (s.replies ++ [(who, r)]).filter _
  rw [List.filter_append, h.replies]
  simp [hwho]

theorem View.replyIf (h : View a s s') {r r' : Reply} (fate : Fate) (hr : who = .agent a → r' = r) :
    View a (s.replyIf who fate r) (s'.replyIf who fate r') :=
  h.reply fun heq => by rw [hr heq]

theorem View.setListing (h : View a s s') {l l' : Option Listing}
    (hl : l'.map (Listing.seen a) = (l.filter fun l => l.who.visible a).map (Listing.seen a)) :
    View a (s.setListing i l) (s'.setListing i l') := by
  refine ⟨h.own, h.owned, h.calls, fun j => ?_, h.replies⟩
  change (Function.update s'.listings i l' j).map _ =
    ((Function.update s.listings i l j).filter _).map _
  obtain rfl | hj := eq_or_ne j i
  · rw [Function.update_self, Function.update_self]
    exact hl
  · rw [Function.update_of_ne hj, Function.update_of_ne hj]
    exact h.listings j

theorem View.hiddenListing (h : View a s s') {l : Option Listing}
    (hold : ∀ x, s.listings i = some x → x.who.visible a = false)
    (hnew : ∀ x, l = some x → x.who.visible a = false) : View a (s.setListing i l) s' := by
  have hfilter : ∀ {o : Option Listing}, (∀ x, o = some x → x.who.visible a = false) →
      (o.filter fun x => x.who.visible a) = none := by
    intro o ho
    cases o with
    | none => rfl
    | some x => simp [ho x rfl]
  refine ⟨h.own, h.owned, h.calls, fun j => ?_, h.replies⟩
  change _ = ((Function.update s.listings i l j).filter _).map _
  obtain rfl | hj := eq_or_ne j i
  · rw [Function.update_self, hfilter hnew, h.listings, hfilter hold]
  · rw [Function.update_of_ne hj]
    exact h.listings j

theorem seen_who (l : Listing) : (l.seen a).who = l.who ∧ (l.seen a).agentId = l.agentId ∧
    (l.seen a).status = l.status := by
  unfold Listing.seen
  split <;> exact ⟨rfl, rfl, rfl⟩

theorem seen_agent {l : Listing} (hl : l.who = .agent a) : l.seen a = l := if_pos hl

theorem View.listing (h : View a s s') {l : Listing} (hl : s.listings i = some l)
    (hwho : l.who.visible a) : ∃ l', s'.listings i = some l' ∧ l'.seen a = l.seen a := by
  have hlisting := h.listings i
  rw [hl, Option.filter_some, if_pos hwho] at hlisting
  exact Option.map_eq_some_iff.mp hlisting

theorem View.setCall (h : View a s s') {c : Option Call} (hc : ∀ call, c = some call → call.who.visible a) :
    View a (s.setCall i c) (s'.setCall i c) := by
  refine ⟨h.own, h.owned, fun j => ?_, h.listings, h.replies⟩
  change Function.update s'.calls i c j = (Function.update s.calls i c j).filter _
  obtain rfl | hj := eq_or_ne j i
  · rw [Function.update_self, Function.update_self]
    cases c with
    | none => rfl
    | some call => rw [Option.filter_some, if_pos (hc call rfl)]
  · rw [Function.update_of_ne hj, Function.update_of_ne hj]
    exact h.calls j

theorem View.hiddenCall (h : View a s s') {c : Option Call}
    (hold : ∀ call, s.calls i = some call → call.who.visible a = false)
    (hnew : ∀ call, c = some call → call.who.visible a = false) : View a (s.setCall i c) s' := by
  have hfilter : ∀ {o : Option Call}, (∀ call, o = some call → call.who.visible a = false) →
      (o.filter fun c => c.who.visible a) = none := by
    intro o ho
    cases o with
    | none => rfl
    | some call => simp [ho call rfl]
  refine ⟨h.own, h.owned, fun j => ?_, h.listings, h.replies⟩
  change _ = (Function.update s.calls i c j).filter _
  obtain rfl | hj := eq_or_ne j i
  · rw [Function.update_self, hfilter hnew, h.calls, hfilter hold]
  · rw [Function.update_of_ne hj]
    exact h.calls j

theorem View.insert (h : View a s s') {x : Task} (hs : x.id ∉ s.rows.map Task.id)
    (hs' : x.id ∉ s'.rows.map Task.id) : View a (s.insert x hs) (s'.insert x hs') := by
  refine ⟨?_, ?_, h.calls, h.listings, h.replies⟩
  · change (s'.rows ++ [x]).filter _ = (s.rows ++ [x]).filter _
    rw [List.filter_append, List.filter_append]
    exact congrArg (· ++ _) h.own
  · intro y hy
    obtain hy | hy := List.mem_append.mp hy
    · obtain ⟨t, ht, hid⟩ := h.owned y hy
      exact ⟨t, List.mem_append_left _ ht, hid⟩
    · exact ⟨y, List.mem_append_right _ hy, rfl, rfl⟩

theorem View.hiddenInsert (h : View a s s') {x : Task} (hs : x.id ∉ s.rows.map Task.id)
    (hx : x.agentId ≠ a) : View a (s.insert x hs) s' := by
  refine ⟨?_, ?_, h.calls, h.listings, h.replies⟩
  · change _ = (s.rows ++ [x]).filter _
    rw [List.filter_append, List.filter_singleton, decide_eq_false hx]
    exact h.own.trans (List.append_nil _).symm
  · intro y hy
    obtain ⟨t, ht, hid⟩ := h.owned y hy
    exact ⟨t, List.mem_append_left _ ht, hid⟩

theorem View.rewrite (h : View a s s') (taskId : ℕ) (change : Change) (now : ℕ) :
    View a (s.rewrite taskId change now) (s'.rewrite taskId change now) := by
  refine ⟨?_, ?_, h.calls, h.listings, h.replies⟩
  · rw [own_rewrite, own_rewrite, h.own]
  · intro y hy
    obtain ⟨y₀, hy₀, rfl⟩ := mem_rewrite.mp hy
    obtain ⟨t, ht, hid, hagent⟩ := h.owned y₀ hy₀
    obtain ⟨t', ht', hid', hagent'⟩ := exists_rewrite taskId change now ht
    refine ⟨t', ht', ?_⟩
    split
    · rw [(apply_kept change now y₀).1, (apply_kept change now y₀).2.1]
      exact ⟨hid'.trans hid, hagent'.trans hagent⟩
    · exact ⟨hid'.trans hid, hagent'.trans hagent⟩

theorem View.hiddenRewrite (h : View a s s') {taskId : ℕ} {change : Change} {now : ℕ}
    (hne : ∀ t ∈ s.rows, t.id = taskId → t.agentId ≠ a) : View a (s.rewrite taskId change now) s' := by
  refine ⟨?_, ?_, h.calls, h.listings, h.replies⟩
  · rw [own_rewrite_of_ne hne, h.own]
  · intro y hy
    obtain ⟨t, ht, hid, hagent⟩ := h.owned y hy
    obtain ⟨t', ht', hid', hagent'⟩ := exists_rewrite taskId change now ht
    exact ⟨t', ht', hid'.trans hid, hagent'.trans hagent⟩

theorem View.getTask_filter (h : View a s s') (taskId : ℕ) :
    (getTask s'.rows taskId).filter (Who.agent a).owns =
      (getTask s.rows taskId).filter (Who.agent a).owns := by
  rw [getTask_own s'.ids, getTask_own s.ids, h.own]

theorem View.getTask_eq (h : View a s s') {taskId : ℕ}
    (hown : ∃ t ∈ s.rows, t.id = taskId ∧ t.agentId = a) :
    getTask s'.rows taskId = getTask s.rows taskId := by
  obtain ⟨x, hx, hid, hagent⟩ := hown
  have hget : getTask s.rows taskId = some x := by
    cases hfind : getTask s.rows taskId with
    | none => exact absurd hid (by simpa using List.find?_eq_none.mp hfind x hx)
    | some y =>
      have hyid : y.id = taskId := by simpa using List.find?_some hfind
      rw [eq_of_id_eq (List.mem_of_find?_eq_some hfind) hx (hyid.trans hid.symm)]
  have howns : (Who.agent a).owns x = true := by simpa [owns_agent] using hagent
  have hfilter := h.getTask_filter taskId
  rw [hget, Option.filter_some, if_pos howns] at hfilter
  rw [hget]
  exact (Option.filter_eq_some_iff.mp hfilter).1

end Views

section Keeping

variable {s t : State} {e : Event}

def Grows (s t : State) : Prop :=
  ∀ x ∈ s.rows, ∃ y ∈ t.rows, y.id = x.id ∧ y.agentId = x.agentId

theorem Kept.grow (h : Kept s) (hgrows : Grows s t)
    (hcalls : ∀ i call, t.calls i = some call → s.calls i = some call) : Kept t := by
  intro i call hcall
  obtain ⟨hservice, hfound⟩ := h i call (hcalls i call hcall)
  refine ⟨hservice, fun hstage sub hsub => ?_⟩
  obtain ⟨x, hx, hid, hagent⟩ := hfound hstage sub hsub
  obtain ⟨y, hy, hyid, hyagent⟩ := hgrows x hx
  exact ⟨y, hy, hyid.trans hid, hyagent.trans hagent⟩

theorem Kept.setCall (h : Kept s) {i : ℕ} {c : Option Call}
    (hc : ∀ call, c = some call → (call.who = .service → call.stage = .found) ∧
      (call.stage = .found → ∀ sub, call.who = .agent sub →
        ∃ t ∈ s.rows, t.id = call.taskId ∧ t.agentId = sub)) : Kept (s.setCall i c) := by
  intro j call hcall
  change Function.update s.calls i c j = some call at hcall
  obtain rfl | hj := eq_or_ne j i
  · rw [Function.update_self] at hcall
    exact hc call hcall
  · rw [Function.update_of_ne hj] at hcall
    exact h j call hcall

theorem Kept.drop (h : Kept s) (i : ℕ) : Kept (s.setCall i none) := h.setCall fun _ hc => by cases hc

theorem Kept.rewrite (h : Kept s) (taskId : ℕ) (change : Change) (now : ℕ) :
    Kept (s.rewrite taskId change now) :=
  h.grow (fun _ hx => exists_rewrite taskId change now hx) fun _ _ hcall => hcall

theorem Kept.applied (h : Kept s) (call : Call) (now : ℕ) (fate : Fate) :
    Kept (s.applied call now fate) := by
  unfold State.applied
  split
  · exact h.rewrite _ _ _
  · exact h

theorem Kept.answer (h : Kept s) (who : Who) (taskId : ℕ) (fate : Fate) :
    Kept (s.answer who taskId fate) := by
  exact h

theorem Kept.inserted (h : Kept s) {x : Task} (hx : x.id ∉ s.rows.map Task.id) (fate : Fate) :
    Kept (s.inserted x hx fate) := by
  unfold State.inserted
  split
  · exact h.grow (fun y hy => ⟨y, List.mem_append_left _ hy, rfl, rfl⟩) fun _ _ hcall => hcall
  · exact h

theorem Kept.write (h : Kept s) (i : ℕ) (call : Call) (now : ℕ) (fate : Fate) :
    Kept (s.write i call now fate) := by
  have hdrop := h.drop i
  unfold State.write
  split
  · exact hdrop
  · split
    · exact hdrop.answer _ _ _
    · exact (hdrop.applied _ _ _).answer _ _ _

theorem exists_own_of_isSome {rows : List Task} {taskId : ℕ} {sub : String}
    (h : ((getTask rows taskId).filter (Who.agent sub).owns).isSome) :
    ∃ t ∈ rows, t.id = taskId ∧ t.agentId = sub := by
  obtain ⟨x, hx⟩ := Option.isSome_iff_exists.mp h
  obtain ⟨hget, howns⟩ := Option.filter_eq_some_iff.mp hx
  refine ⟨x, List.mem_of_find?_eq_some hget, by simpa using List.find?_some hget, ?_⟩
  simpa [owns_agent] using howns

theorem Kept.step (h : Kept s) (hstep : s.step e = some t) : Kept t := by
  cases e with
  | create who agentId createdBy body id now fate =>
    simp only [State.step] at hstep
    split at hstep
    · split at hstep
      · cases hstep
        exact h
      · split at hstep
        · cases hstep
        · cases hstep
          exact h.inserted _ _
    · cases hstep
  | get who taskId fate =>
    cases hstep
    exact h
  | list who i agentId status limit offset fate =>
    simp only [State.step] at hstep
    split at hstep
    · cases hstep
    · split at hstep
      · split at hstep <;> cases hstep <;> exact h
      · cases hstep
  | count who i fate =>
    simp only [State.step] at hstep
    split at hstep
    · split at hstep
      · cases hstep
        exact h
      · cases hstep
    · cases hstep
  | arrive who i taskId change =>
    simp only [State.step] at hstep
    split at hstep
    · cases hstep
    · cases hstep
      refine h.setCall fun call hcall => ?_
      cases hcall
      refine ⟨fun hservice => if_pos hservice, fun hfound sub hsub => ?_⟩
      cases (hsub : who = .agent sub)
      cases hfound
  | select who i fate =>
    simp only [State.step] at hstep
    split at hstep
    · rename_i call hcall
      split at hstep
      · rename_i hbegun
        split at hstep
        · cases hstep
          exact h.drop i
        · split at hstep
          · rename_i hsome
            cases hstep
            refine h.setCall fun call' hcall' => ?_
            cases hcall'
            refine ⟨fun _ => rfl, fun _ sub hsub => ?_⟩
            rw [← hbegun.1, (hsub : call.who = .agent sub)] at hsome
            exact exists_own_of_isSome hsome
          · cases hstep
            exact h.drop i
      · cases hstep
    · cases hstep
  | write who i now fate =>
    simp only [State.step] at hstep
    split at hstep
    · split at hstep
      · cases hstep
        exact h.write _ _ _ _
      · cases hstep
    · cases hstep

end Keeping

section Stepping

variable {a : String} {s s' t : State} {e : Event}

theorem View.answer (h : View a s s') {who : Who} {taskId : ℕ}
    (hown : who = .agent a → ∃ t ∈ s.rows, t.id = taskId ∧ t.agentId = a) (fate : Fate) :
    View a (s.answer who taskId fate) (s'.answer who taskId fate) :=
  h.replyIf fate fun heq => congrArg State.answerOf (h.getTask_eq (hown heq))

theorem View.hiddenAnswer (h : View a s s') {who : Who} (hwho : who ≠ .agent a) (taskId : ℕ)
    (fate : Fate) : View a (s.answer who taskId fate) s' :=
  h.hiddenReply hwho

theorem View.applied (h : View a s s') (call : Call) (now : ℕ) (fate : Fate) :
    View a (s.applied call now fate) (s'.applied call now fate) := by
  unfold State.applied
  split
  · exact h.rewrite _ _ _
  · exact h

theorem exists_applied {x : Task} (hx : x ∈ s.rows) (call : Call) (now : ℕ) (fate : Fate) :
    ∃ y ∈ (s.applied call now fate).rows, y.id = x.id ∧ y.agentId = x.agentId := by
  unfold State.applied
  split
  · exact exists_rewrite _ _ _ hx
  · exact ⟨x, hx, rfl, rfl⟩

theorem View.write (h : View a s s') {i : ℕ} {call : Call} (hcall : s.calls i = some call)
    (hstage : call.stage = .found) (hkept : Kept s) (now : ℕ) (fate : Fate) :
    View a (s.write i call now fate) (s'.write i call now fate) := by
  have hdrop : View a (s.setCall i none) (s'.setCall i none) := h.setCall fun _ hc => by cases hc
  have hown : call.who = .agent a → ∃ t ∈ (s.setCall i none).rows, t.id = call.taskId ∧ t.agentId = a :=
    fun heq => (hkept i call hcall).2 hstage a heq
  unfold State.write
  split
  · exact hdrop.reply fun _ => rfl
  · split
    · exact hdrop.answer hown fate
    · refine (hdrop.applied call now fate).answer (fun heq => ?_) fate
      obtain ⟨x, hx, hid, hagent⟩ := hown heq
      obtain ⟨y, hy, hyid, hyagent⟩ := exists_applied hx call now fate
      exact ⟨y, hy, hyid.trans hid, hyagent.trans hagent⟩

theorem View.hiddenWrite (h : View a s s') {i : ℕ} {call : Call} (hcall : s.calls i = some call)
    (hstage : call.stage = .found) (hkept : Kept s) {sub : String} (hwho : call.who = .agent sub)
    (hsub : sub ≠ a) (now : ℕ) (fate : Fate) : View a (s.write i call now fate) s' := by
  have hne : call.who ≠ .agent a := by
    rw [hwho]
    exact fun heq => hsub (Who.agent.inj heq)
  have hdrop : View a (s.setCall i none) s' := by
    refine h.hiddenCall (fun call' hcall' => ?_) fun _ hc => by cases hc
    cases hcall.symm.trans hcall'
    rw [hwho]
    exact decide_eq_false hsub
  have hforeign : ∀ t ∈ s.rows, t.id = call.taskId → t.agentId ≠ a := by
    intro t ht hid
    obtain ⟨x, hx, hxid, hagent⟩ := (hkept i call hcall).2 hstage sub hwho
    rw [eq_of_id_eq ht hx (hid.trans hxid.symm), hagent]
    exact hsub
  unfold State.write
  split
  · exact hdrop.hiddenReply hne
  · split
    · exact hdrop.hiddenAnswer hne _ fate
    · refine View.hiddenAnswer ?_ hne _ fate
      unfold State.applied
      split
      · exact hdrop.hiddenRewrite hforeign
      · exact hdrop

theorem View.call (h : View a s s') {i : ℕ} {call : Call} (hcall : s.calls i = some call)
    (hwho : call.who.visible a) : s'.calls i = some call := by
  rw [h.calls, hcall, Option.filter_some, if_pos hwho]

/-- An event of the agent, or of the API service, goes the same way without the others. -/
theorem View.visible (h : View a s s') (ha : a ≠ "") (hkept : Kept s) (hwho : e.who.visible a)
    (hstep : s.step e = some t) : ∃ t', s'.step e = some t' ∧ View a t t' := by
  cases e with
  | create who agentId createdBy body id now fate =>
    simp only [State.step] at hstep ⊢
    split at hstep
    · rename_i hspeaks
      rw [if_pos hspeaks]
      split at hstep
      · cases hstep
        exact ⟨_, rfl, h.reply fun _ => rfl⟩
      · split at hstep
        · cases hstep
        · rename_i hfresh
          cases hstep
          have hfresh' : id ∉ s'.rows.map Task.id := by
            intro hmem
            obtain ⟨x', hx', hid'⟩ := List.mem_map.mp hmem
            obtain ⟨x, hx, hid, -⟩ := h.owned x' hx'
            exact hfresh (List.mem_map.mpr ⟨x, hx, hid.trans hid'⟩)
          rw [dif_neg hfresh']
          refine ⟨_, rfl, View.replyIf ?_ fate fun _ => rfl⟩
          unfold State.inserted
          split
          · exact h.insert hfresh hfresh'
          · exact h
    · cases hstep
  | get who taskId fate =>
    cases hstep
    refine ⟨_, rfl, h.replyIf fate fun heq => congrArg State.answerOf ?_⟩
    rw [heq]
    exact h.getTask_filter taskId
  | list who i agentId status limit offset fate =>
    simp only [State.step] at hstep ⊢
    split at hstep
    · cases hstep
    · rename_i hnone
      have hnone' : s'.listings i = none := by
        have hlisting := h.listings i
        rw [hnone] at hlisting
        exact Option.map_eq_none_iff.mp hlisting
      rw [hnone']
      dsimp only
      split at hstep
      · rename_i hlists
        rw [dif_pos hlists]
        split at hstep
        · cases hstep
          rw [if_pos ‹_›]
          refine ⟨_, rfl, h.setListing ?_⟩
          have hvisible : who.visible a = true := hwho
          rw [Option.filter_some, if_pos hvisible]
          refine congrArg some ?_
          obtain heq | hne := eq_or_ne who (.agent a)
          · rw [heq] at hlists
            have hagent : agentId = some a := of_decide_eq_true hlists
            subst hagent
            simp only [listTasks, selected_own ha, h.own]
          · rw [Listing.seen, Listing.seen, if_neg hne, if_neg hne]
        · cases hstep
          rw [if_neg ‹_›]
          exact ⟨_, rfl, h.reply fun _ => rfl⟩
      · cases hstep
  | count who i fate =>
    simp only [State.step] at hstep ⊢
    split at hstep
    · rename_i l hl
      split at hstep
      · rename_i hlwho
        cases hstep
        have hvisible : l.who.visible a := hlwho.symm ▸ hwho
        obtain ⟨l', hl', hseen⟩ := h.listing hl hvisible
        have hwho' : l'.who = who := by
          rw [← (seen_who l').1, hseen, (seen_who l).1, hlwho]
        rw [hl']
        dsimp only
        rw [if_pos hwho']
        refine ⟨_, rfl, View.replyIf (h.setListing rfl) fate fun heq => ?_⟩
        rw [seen_agent (hwho'.trans heq), seen_agent (hlwho.trans heq)] at hseen
        have hagent : l.agentId = some a := by
          have hallowed := l.allowed
          rw [hlwho, heq] at hallowed
          exact of_decide_eq_true hallowed
        rw [hseen, hagent, selected_own ha, selected_own ha]
        exact congrArg (fun rows => Reply.tasks l.page (List.filter _ rows).length) h.own
      · cases hstep
    · cases hstep
  | arrive who i taskId change =>
    simp only [State.step] at hstep ⊢
    split at hstep
    · cases hstep
    · rename_i hnone
      cases hstep
      have hnone' : s'.calls i = none := by rw [h.calls, hnone, Option.filter_none]
      rw [hnone']
      refine ⟨_, rfl, h.setCall fun call hcall => ?_⟩
      cases hcall
      exact hwho
  | select who i fate =>
    simp only [State.step] at hstep ⊢
    split at hstep
    · rename_i call hcall
      split at hstep
      · rename_i hbegun
        have hvisible : call.who.visible a := hbegun.1.symm ▸ hwho
        rw [h.call hcall hvisible]
        dsimp only
        rw [if_pos hbegun]
        have hagent : who = .agent a := by
          cases hwho' : who with
          | service =>
            have hfound := (hkept i call hcall).1 (hbegun.1.trans hwho')
            rw [hbegun.2] at hfound
            cases hfound
          | agent sub =>
            rw [hwho'] at hwho
            rw [of_decide_eq_true hwho]
        rw [hagent, h.getTask_filter, ← hagent]
        split at hstep
        · rename_i hfailed
          cases hstep
          rw [if_pos hfailed]
          exact ⟨_, rfl, (h.setCall fun _ hc => by cases hc).reply fun _ => rfl⟩
        · rename_i hfailed
          rw [if_neg hfailed]
          split at hstep
          · rename_i hsome
            cases hstep
            rw [if_pos hsome]
            refine ⟨_, rfl, h.setCall fun call' hcall' => ?_⟩
            cases hcall'
            exact hvisible
          · rename_i hsome
            cases hstep
            rw [if_neg hsome]
            exact ⟨_, rfl, (h.setCall fun _ hc => by cases hc).reply fun _ => rfl⟩
      · cases hstep
    · cases hstep
  | write who i now fate =>
    simp only [State.step] at hstep ⊢
    split at hstep
    · rename_i call hcall
      split at hstep
      · rename_i hfound
        cases hstep
        rw [h.call hcall (hfound.1.symm ▸ hwho)]
        dsimp only
        rw [if_pos hfound]
        exact ⟨_, rfl, h.write hcall hfound.2 hkept now fate⟩
      · cases hstep
    · cases hstep

/-- An event of another agent changes nothing that this one sees. -/
theorem View.hidden (h : View a s s') (hkept : Kept s) (hwho : e.who.visible a = false)
    (hstep : s.step e = some t) : View a t s' := by
  obtain ⟨sub, hsub, hne⟩ : ∃ sub, e.who = .agent sub ∧ sub ≠ a := by
    cases hcase : e.who with
    | service =>
      rw [hcase] at hwho
      cases hwho
    | agent sub =>
      rw [hcase] at hwho
      exact ⟨sub, rfl, of_decide_eq_false hwho⟩
  have hother : e.who ≠ .agent a := by
    rw [hsub]
    exact fun heq => hne (Who.agent.inj heq)
  cases e with
  | create who agentId createdBy body id now fate =>
    cases (hsub : who = .agent sub)
    simp only [State.step] at hstep
    split at hstep
    · rename_i hspeaks
      split at hstep
      · cases hstep
        exact h.hiddenReply hother
      · split at hstep
        · cases hstep
        · rename_i hfresh
          cases hstep
          refine View.hiddenReply ?_ hother
          unfold State.inserted
          split
          · apply h.hiddenInsert hfresh
            rw [(hspeaks.1 : agentId = sub)]
            exact hne
          · exact h
    · cases hstep
  | get who taskId fate =>
    cases hstep
    exact h.hiddenReply hother
  | list who i agentId status limit offset fate =>
    simp only [State.step] at hstep
    split at hstep
    · cases hstep
    · rename_i hnone
      split at hstep
      · split at hstep
        · cases hstep
          refine h.hiddenListing (fun l hl => ?_) fun l hl => ?_
          · cases hnone.symm.trans hl
          · cases hl
            exact hwho
        · cases hstep
          exact h.hiddenReply hother
      · cases hstep
  | count who i fate =>
    simp only [State.step] at hstep
    split at hstep
    · rename_i l hl
      split at hstep
      · rename_i hlwho
        cases hstep
        refine View.hiddenReply (h.hiddenListing (fun x hx => ?_) fun _ hx => by cases hx) hother
        cases hl.symm.trans hx
        rw [hlwho]
        exact hwho
      · cases hstep
    · cases hstep
  | arrive who i taskId change =>
    simp only [State.step] at hstep
    split at hstep
    · cases hstep
    · rename_i hnone
      cases hstep
      refine h.hiddenCall (fun call hcall => ?_) fun call hcall => ?_
      · cases hnone.symm.trans hcall
      · cases hcall
        exact hwho
  | select who i fate =>
    simp only [State.step] at hstep
    split at hstep
    · rename_i call hcall
      split at hstep
      · rename_i hbegun
        have hold : ∀ call', s.calls i = some call' → call'.who.visible a = false := by
          intro call' hcall'
          cases hcall.symm.trans hcall'
          rw [hbegun.1]
          exact hwho
        split at hstep
        · cases hstep
          exact (h.hiddenCall hold fun _ hc => by cases hc).hiddenReply hother
        · split at hstep
          · cases hstep
            refine h.hiddenCall hold fun call' hcall' => ?_
            cases hcall'
            exact hold call hcall
          · cases hstep
            exact (h.hiddenCall hold fun _ hc => by cases hc).hiddenReply hother
      · cases hstep
    · cases hstep
  | write who i now fate =>
    simp only [State.step] at hstep
    split at hstep
    · rename_i call hcall
      split at hstep
      · rename_i hfound
        cases hstep
        exact h.hiddenWrite hcall hfound.2 hkept (hfound.1.trans hsub) hne now fate
      · cases hstep
    · cases hstep

end Stepping

section Runs

variable {a : String} {s t : State} {es : List Event}

theorem kept_of_initial (h : machine.initial s) : Kept s := by
  intro i call hcall
  rw [h.1] at hcall
  cases hcall

/-- In any run, an agent's tasks and the answers it gets are those of the run without the requests of
the other agents: what they do, and in what order, neither changes its tasks nor shows in an answer. -/
theorem run_without_others (ha : a ≠ "") (hs : machine.initial s) (h : machine.Run s es t) :
    ∃ t', machine.Run s (es.filter fun e => e.who.visible a) t' ∧ own a t'.rows = own a t.rows ∧
      (t'.replies.filter fun r => r.1 = .agent a) = t.replies.filter fun r => r.1 = .agent a := by
  have hruns : ∀ {s t : State} {es : List Event}, machine.Run s es t → ∀ s', Kept s → View a s s' →
      ∃ t', machine.Run s' (es.filter fun e => e.who.visible a) t' ∧ View a t t' := by
    intro s t es h
    induction h with
    | nil s => exact fun s' _ hview => ⟨s', .nil s', hview⟩
    | @cons s u t e es _ move rest ih =>
      intro s' hkept hview
      cases hwho : e.who.visible a with
      | true =>
        obtain ⟨u', hu', hview'⟩ := hview.visible ha hkept hwho move
        obtain ⟨t', hrun, hend⟩ := ih u' (hkept.step move) hview'
        rw [List.filter_cons, if_pos hwho]
        exact ⟨t', .cons trivial hu' hrun, hend⟩
      | false =>
        rw [List.filter_cons, if_neg (by simp [hwho])]
        exact ih s' (hkept.step move) (hview.hidden hkept hwho move)
  obtain ⟨t', hrun, hend⟩ := hruns h s (kept_of_initial hs) 
    (View.refl (fun i => by rw [hs.1]) fun i => by rw [hs.2.1])
  exact ⟨t', hrun, hend.own, hend.replies⟩

/-- A task of ada, one of bob, and requests of both and of the API service, in between each other. -/
def sampleStart : State where
  rows := [⟨1, "ada", "read", "", "todo", 3, 0, [], "ada", 5, 5⟩,
    ⟨2, "bob", "write", "", "todo", 2, 0, [], "api", 6, 6⟩]
  ids := by decide

def sampleEvents : List Event :=
  [.arrive (.agent "bob") 0 1 (.transition "done"), .arrive (.agent "ada") 1 1 (.transition "review"),
    .list (.agent "ada") 0 (some "ada") none 500 0 (.answered ()),
    .select (.agent "ada") 1 (.answered ()), .select (.agent "bob") 0 (.answered ()), .arrive .service 2 2 (.update { priority := some 1 }),
    .write .service 2 8 (.answered ()), .write (.agent "ada") 1 9 (.answered ()),
    .create (.agent "bob") "bob" "bob" { title := "third" } 3 10 (.lost () ()),
    .count (.agent "ada") 0 (.answered ()), .get (.agent "bob") 1 (.answered ())]

theorem run_without_others_sample : ∃ t',
    machine.Run sampleStart (sampleEvents.filter fun e => e.who.visible "ada") t' ∧
      own "ada" t'.rows = own "ada" (machine.after sampleStart sampleEvents).rows ∧
      (t'.replies.filter fun r => r.1 = .agent "ada") =
        (machine.after sampleStart sampleEvents).replies.filter fun r => r.1 = .agent "ada" :=
  run_without_others (by decide) ⟨rfl, rfl, rfl⟩ (Machine.run_after (by decide))

end Runs

section Lasting

variable {s t u : State} {es : List Event}

/-- What the checks of `task_store.py` and of the table let in. -/
def Task.Valid (t : Task) : Prop := t.status ∈ validStatuses ∧ 1 ≤ t.priority ∧ t.priority ≤ 4

/-- Every task is still there, of its agent and its maker, and those that are new are valid, as are
those that were. -/
structure Lasts (s t : State) : Prop where
  there : ∀ x ∈ s.rows, ∃ y ∈ t.rows, y.id = x.id ∧ y.agentId = x.agentId ∧
    y.createdBy = x.createdBy ∧ y.createdAt = x.createdAt
  valid : (∀ x ∈ s.rows, x.Valid) → ∀ y ∈ t.rows, y.Valid

theorem Lasts.refl (s : State) : Lasts s s := ⟨fun x hx => ⟨x, hx, rfl, rfl, rfl, rfl⟩, fun h => h⟩

theorem Lasts.trans (h : Lasts s t) (h' : Lasts t u) : Lasts s u := by
  refine ⟨fun x hx => ?_, fun hvalid => h'.valid (h.valid hvalid)⟩
  obtain ⟨y, hy, hid, hagent, hby, hat⟩ := h.there x hx
  obtain ⟨z, hz, hid', hagent', hby', hat'⟩ := h'.there y hy
  exact ⟨z, hz, hid'.trans hid, hagent'.trans hagent, hby'.trans hby, hat'.trans hat⟩

theorem lasts_of_rows (h : t.rows = s.rows) : Lasts s t := by
  refine ⟨fun x hx => ⟨x, h ▸ hx, rfl, rfl, rfl, rfl⟩, fun hvalid => ?_⟩
  rw [h]
  exact hvalid

theorem mem_of_statusError {status : String} (h : statusError status = none) :
    status ∈ validStatuses := by
  unfold statusError at h
  split at h
  · assumption
  · cases h

theorem between_of_priorityError {priority : ℤ} (h : priorityError priority = none) :
    1 ≤ priority ∧ priority ≤ 4 := by
  unfold priorityError at h
  split at h
  · assumption
  · cases h

theorem valid_apply {change : Change} (herror : change.error = none) (now : ℕ) {x : Task}
    (hx : x.Valid) : (change.apply now x).Valid := by
  cases change with
  | transition status => exact ⟨mem_of_statusError herror, hx.2⟩
  | update body =>
    obtain ⟨hstatus, hpriority⟩ := (Option.orElse_eq_none _ _).mp herror
    constructor
    · cases hbody : body.status with
      | none => simpa [Change.apply, hbody] using hx.1
      | some status =>
        rw [hbody] at hstatus
        simpa [Change.apply, hbody] using mem_of_statusError hstatus
    · cases hbody : body.priority with
      | none => simpa [Change.apply, hbody] using hx.2
      | some priority =>
        rw [hbody] at hpriority
        simpa [Change.apply, hbody] using between_of_priorityError hpriority

theorem lasts_rewrite {change : Change} (herror : change.error = none) (taskId now : ℕ) :
    Lasts s (s.rewrite taskId change now) := by
  constructor
  · intro x hx
    refine ⟨_, mem_rewrite.mpr ⟨x, hx, rfl⟩, ?_⟩
    split
    · exact apply_kept change now x
    · exact ⟨rfl, rfl, rfl, rfl⟩
  · intro hvalid y hy
    obtain ⟨x, hx, rfl⟩ := mem_rewrite.mp hy
    split
    · exact valid_apply herror now (hvalid x hx)
    · exact hvalid x hx

theorem lasts_write (i : ℕ) (call : Call) (now : ℕ) (fate : Fate) :
    Lasts s (s.write i call now fate) := by
  have hanswer : ∀ (s : State) who taskId, (s.answer who taskId fate).rows = s.rows :=
    fun _ _ _ => rfl
  unfold State.write
  split
  · exact lasts_of_rows rfl
  · rename_i herror
    split
    · exact lasts_of_rows (hanswer _ _ _)
    · refine Lasts.trans ?_ (lasts_of_rows (hanswer _ _ _))
      unfold State.applied
      split
      · have hdrop : Lasts s (s.setCall i none) := lasts_of_rows rfl
        exact hdrop.trans (lasts_rewrite herror call.taskId now)
      · exact lasts_of_rows rfl

theorem lasts_inserted {x : Task} (h : x.id ∉ s.rows.map Task.id) (fate : Fate) (hx : x.Valid) :
    Lasts s (s.inserted x h fate) := by
  unfold State.inserted
  split
  · refine ⟨fun y hy => ⟨y, List.mem_append_left _ hy, rfl, rfl, rfl, rfl⟩, fun hvalid y hy => ?_⟩
    obtain hy | hy := List.mem_append.mp hy
    · exact hvalid y hy
    · rw [List.mem_singleton.mp hy]
      exact hx
  · exact lasts_of_rows rfl

theorem lasts_step {e : Event} (hstep : s.step e = some t) : Lasts s t := by
  cases e with
  | create who agentId createdBy body id now fate =>
    simp only [State.step] at hstep
    split at hstep
    · split at hstep
      · cases hstep
        exact lasts_of_rows rfl
      · rename_i herror
        split at hstep
        · cases hstep
        · cases hstep
          obtain ⟨hstatus, hpriority⟩ := (Option.orElse_eq_none _ _).mp herror
          refine Lasts.trans (lasts_inserted _ fate ?_) (lasts_of_rows rfl)
          exact ⟨mem_of_statusError hstatus, between_of_priorityError hpriority⟩
    · cases hstep
  | get who taskId fate =>
    cases hstep
    exact lasts_of_rows rfl
  | list who i agentId status limit offset fate =>
    simp only [State.step] at hstep
    split at hstep
    · cases hstep
    · split at hstep
      · split at hstep <;> cases hstep <;> exact lasts_of_rows rfl
      · cases hstep
  | count who i fate =>
    simp only [State.step] at hstep
    split at hstep
    · split at hstep
      · cases hstep
        exact lasts_of_rows rfl
      · cases hstep
    · cases hstep
  | arrive who i taskId change =>
    simp only [State.step] at hstep
    split at hstep
    · cases hstep
    · cases hstep
      exact lasts_of_rows rfl
  | select who i fate =>
    simp only [State.step] at hstep
    split at hstep
    · split at hstep
      · split at hstep
        · cases hstep
          exact lasts_of_rows rfl
        · split at hstep <;> cases hstep <;> exact lasts_of_rows rfl
      · cases hstep
    · cases hstep
  | write who i now fate =>
    simp only [State.step] at hstep
    split at hstep
    · split at hstep
      · cases hstep
        exact lasts_write _ _ _ _
      · cases hstep
    · cases hstep

/-- Over any run no task is lost, none changes its agent, its maker or the time it was made, and the
tasks stay valid. -/
theorem tasks_last (h : machine.Run s es t) : Lasts s t :=
  h.relates (I := fun _ => True) trivial (fun _ _ _ _ _ _ => trivial) Lasts.refl
    (fun _ _ _ => Lasts.trans) fun _ _ _ _ _ hstep => lasts_step hstep

theorem tasks_last_sample : Lasts sampleStart (machine.after sampleStart sampleEvents) :=
  tasks_last (Machine.run_after (by decide))

end Lasting

section Pages

variable {rows : List Task} {agentId status : Option String} {limit : ℕ}

theorem flatMap_pages {α : Type} (xs : List α) (limit n : ℕ) :
    (List.range n).flatMap (fun k => (xs.drop (k * limit)).take limit) = xs.take (n * limit) := by
  induction n with
  | zero => simp
  | succ n ih =>
    rw [List.range_succ, List.flatMap_append, ih, Nat.succ_mul, List.take_add]
    simp

/-- Pages of any size, one after the other, hold every task of the query exactly once, in one order;
each of them comes with the number of tasks that there are. -/
theorem listTasks_pages (hids : (rows.map Task.id).Nodup) (n : ℕ)
    (hn : (listTasks rows agentId status limit 0).2 ≤ n * limit) :
    ((List.range n).flatMap fun k => (listTasks rows agentId status limit (k * limit)).1).Perm
        (selected rows agentId status) ∧
      ((List.range n).flatMap fun k =>
        (listTasks rows agentId status limit (k * limit)).1).Pairwise
          (fun x y => sortKey x < sortKey y) ∧
      ∀ offset, (listTasks rows agentId status limit offset).2 =
        (selected rows agentId status).length := by
  have hperm : (Keyset.ordered sortKey (selected rows agentId status)).Perm
      (selected rows agentId status) := List.perm_insertionSort _ _
  have hall : ((List.range n).flatMap fun k => (listTasks rows agentId status limit (k * limit)).1) =
      Keyset.ordered sortKey (selected rows agentId status) := by
    refine (flatMap_pages _ limit n).trans (List.take_of_length_le ?_)
    rw [hperm.length_eq]
    exact hn
  rw [hall]
  refine ⟨hperm, Keyset.ordered_sorted ?_, fun _ => rfl⟩
  have hpairs : rows.Pairwise fun x y => x.id ≠ y.id := List.pairwise_map.mp hids
  refine Keyset.Distinct.filter (hpairs.imp fun hne heq => hne ?_) _
  have hinner := congrArg (fun k => (ofLex (ofLex k).2).2) heq
  exact OrderDual.toDual_inj.mp hinner

theorem listTasks_pages_sample :
    ((List.range 2).flatMap fun k => (listTasks sampleStart.rows none none 1 (k * 1)).1).Perm
        (selected sampleStart.rows none none) ∧
      ((List.range 2).flatMap fun k => (listTasks sampleStart.rows none none 1 (k * 1)).1).Pairwise
        (fun x y => sortKey x < sortKey y) ∧
      ∀ offset, (listTasks sampleStart.rows none none 1 offset).2 =
        (selected sampleStart.rows none none).length :=
  listTasks_pages sampleStart.ids 2 (by decide)

end Pages

end Hill90.Knowledge.Tasks
