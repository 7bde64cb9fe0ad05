import Hill90.Foundation.Fate
import Hill90.Foundation.Machine
import Hill90.Models.Record

/-! # The validation of provider connections

`PUT /:id`, `POST /:id/validate` and `POST /validate-all` of `routes/provider-connections.ts`, any
number of them, one statement at a time.  The answers of the AI service are kept on record.
-/

namespace Hill90.Models.Validation

open Chat (Uuid)

structure Triple where
  provider : String
  apiKey : String
  apiBaseUrl : Option String
  deriving DecidableEq

/-- A row of `provider_connections`, with the key that its encrypted columns hold. -/
structure Row where
  id : Uuid
  name : String
  provider : String
  apiKey : String
  apiBaseUrl : Option String := none
  isValid : Option Bool := none
  createdBy : Owner
  deriving DecidableEq

def Row.triple (r : Row) : Triple := ⟨r.provider, r.apiKey, r.apiBaseUrl⟩

structure Body where
  name : Option String := none
  provider : Option String := none
  apiKey : Option String := none
  apiBaseUrl : Option (Option String) := none
  deriving DecidableEq

/-- The SET clauses.  Only a new key resets the status. -/
def Body.apply (b : Body) (r : Row) : Row :=
  { r with
    name := b.name.getD r.name
    provider := b.provider.getD r.provider
    apiKey := b.apiKey.getD r.apiKey
    isValid := if b.apiKey.isSome then none else r.isValid
    apiBaseUrl := (b.apiBaseUrl.map fun u => u.filter (· ≠ "")).getD r.apiBaseUrl }

theorem Body.apply_id (b : Body) (r : Row) : (b.apply r).id = r.id := rfl

structure User where
  sub : String
  admin : Bool := false
  deriving DecidableEq

inductive Stage where
  /-- A PUT has found the connection. -/
  | updating (id : Uuid) (body : Body)
  /-- The first row is with the AI service. -/
  | asking (row : Row) (rest : List Row)
  /-- The verdict is to be written; `caught` in the `catch`. -/
  | recording (row : Row) (verdict caught : Bool) (rest : List Row)
  deriving DecidableEq

structure State where
  connections : Table Row.id := Table.empty
  requests : ℕ → Option Stage := fun _ => none
  /-- What the AI service has reported valid. -/
  reported : List Triple := []

abbrev Fate := Outcome Unit Unit

inductive Event where
  | create (row : Row)
  | delete (id : Uuid)
  | put (i : ℕ) (id : Uuid) (user : User) (body : Body)
  | update (i : ℕ) (fate : Fate)
  | validate (i : ℕ) (id : Uuid) (user : User)
  | validateAll (i : ℕ) (user : User)
  /-- `none` where the call to the AI service fails. -/
  | answer (i : ℕ) (valid : Option Bool)
  | record (i : ℕ) (fate : Fate)
  | drop (i : ℕ)

namespace State

variable (s : State)

def fetchOwnedConnection (id : Uuid) (user : User) : Option Row :=
  (s.connections.get? id).filter fun r => user.admin || r.createdBy = some user.sub

def own (user : User) : List Row :=
  (s.connections.rows.filter fun r => r.createdBy = some user.sub).reverse

def setRequest (i : ℕ) (stage : Option Stage) : State :=
  { s with requests := Function.update s.requests i stage }

def rewrite (fate : Fate) (id : Uuid) (f : Row → Row) (hf : ∀ r, (f r).id = r.id) : State :=
  if fate.takesEffect then
    { s with connections := s.connections.patch (fun r => r.id = id) (fun _ => f) 0 fun _ => hf }
  else s

def next : List Row → Option Stage
  | [] => none
  | row :: rest => some (.asking row rest)

/-- After the write of a verdict: a failure of the first one is caught, and written as such. -/
def recorded (fate : Fate) (row : Row) (caught : Bool) (rest : List Row) : Option Stage :=
  if fate.isAnswered then next rest
  else if caught then none
  else some (.recording row false true rest)

def setValid (verdict : Bool) (r : Row) : Row := { r with isValid := some verdict }

def step : Event → Option State
  | .create row =>
    (s.connections.insert { row with isValid := none }).map fun connections => { s with connections }
  | .delete id => some { s with connections := s.connections.delete fun r => r.id = id }
  | .put i id user body =>
    if s.requests i = none ∧ (s.fetchOwnedConnection id user).isSome ∧ body ≠ {} then
      some (s.setRequest i (some (.updating id body)))
    else none
  | .update i fate =>
    match s.requests i with
    | some (.updating id body) => some ((s.rewrite fate id body.apply body.apply_id).setRequest i none)
    | _ => none
  | .validate i id user =>
    match s.requests i, s.fetchOwnedConnection id user with
    | none, some row => some (s.setRequest i (some (.asking row [])))
    | _, _ => none
  | .validateAll i user =>
    match s.requests i with
    | none => some (s.setRequest i (next (s.own user)))
    | some _ => none
  | .answer i valid =>
    match s.requests i with
    | some (.asking row rest) =>
      some { s.setRequest i (some (.recording row (valid = some true) valid.isNone rest)) with
        reported := if valid = some true then row.triple :: s.reported else s.reported }
    | _ => none
  | .record i fate =>
    match s.requests i with
    | some (.recording row verdict caught rest) =>
      some ((s.rewrite fate row.id (setValid verdict) fun _ => rfl).setRequest i
        (recorded fate row caught rest))
    | _ => none
  | .drop i => some (s.setRequest i none)

/-- A connection that is marked valid is one that has been reported so. -/
def Described : Prop := ∀ r ∈ s.connections.rows, r.isValid = some true → r.triple ∈ s.reported

instance : Decidable s.Described :=
  inferInstanceAs (Decidable (∀ r ∈ s.connections.rows, r.isValid = some true → r.triple ∈ s.reported))

/-- An update of a row that is marked valid gives a new key or leaves provider and URL alone, and
nothing that a validation has found valid has changed in between. -/
def Orderly : Event → Prop
  | .update i fate => ∀ id body, s.requests i = some (.updating id body) → fate.takesEffect = true →
      ∀ r ∈ s.connections.rows, r.id = id → r.isValid = some true → body.apiKey = none →
        (body.apply r).triple = r.triple
  | .record i fate => ∀ row caught rest, s.requests i = some (.recording row true caught rest) →
      fate.takesEffect = true → ∀ r ∈ s.connections.rows, r.id = row.id → r.triple = row.triple
  | _ => True

end State

def machine : Machine State Event where
  initial s := s.requests = (fun _ => none) ∧ s.Described
  step := State.step

section Runs

variable {s t : State} {e : Event} {i : ℕ}

structure State.Kept (s : State) : Prop where
  described : s.Described
  verdicts : ∀ i row caught rest, s.requests i = some (.recording row true caught rest) →
    row.triple ∈ s.reported

theorem State.Kept.setRequest (h : s.Kept) {stage : Option Stage}
    (hstage : ∀ row caught rest, stage = some (.recording row true caught rest) →
      row.triple ∈ s.reported) : (s.setRequest i stage).Kept := by
  constructor
  · exact h.described
  · intro j row caught rest hj
    simp only [State.setRequest] at hj
    by_cases hij : j = i
    · rw [hij, Function.update_self] at hj
      exact hstage row caught rest hj
    · rw [Function.update_of_ne hij] at hj
      exact h.verdicts j row caught rest hj

theorem State.Kept.rewrite (h : s.Kept) {fate : Fate} {id : Uuid} {f : Row → Row}
    {hf : ∀ r, (f r).id = r.id}
    (hrows : fate.takesEffect = true → ∀ r ∈ s.connections.rows, r.id = id →
      (f r).isValid = some true → (f r).triple ∈ s.reported) :
    (s.rewrite fate id f hf).Kept := by
  unfold State.rewrite
  split
  · rename_i heffect
    constructor
    · intro r' hr' hvalid
      have hpatch : r' ∈ (s.connections.patch (fun r => r.id = id) (fun _ => f) 0 fun _ => hf).rows :=
        hr'
      obtain ⟨r, hr, ⟨-, rfl⟩ | ⟨hid, -, -, -, rfl⟩⟩ := Table.mem_patch hpatch
      · exact h.described r' hr hvalid
      · exact hrows heffect r hr (of_decide_eq_true hid) hvalid
    · exact h.verdicts
  · exact h

theorem next_ne_recording {rows rest : List Row} {row : Row} {verdict caught : Bool} :
    State.next rows ≠ some (.recording row verdict caught rest) := by
  cases rows <;> simp [State.next]

theorem kept_step (h : s.Kept) (hok : s.Orderly e) (hstep : machine.step s e = some t) : t.Kept := by
  cases e with
  | create row =>
    obtain ⟨connections, hinsert, rfl⟩ := Option.map_eq_some_iff.mp hstep
    constructor
    · intro r hr hvalid
      obtain hr | rfl := (Table.mem_of_insert hinsert).mp hr
      · exact h.described r hr hvalid
      · cases hvalid
    · exact h.verdicts
  | delete id =>
    cases hstep
    exact ⟨fun r hr => h.described r (Table.mem_delete.mp hr).1, h.verdicts⟩
  | put i id user body =>
    simp only [machine, State.step] at hstep
    split at hstep
    · cases hstep
      exact h.setRequest (by rintro row caught rest ⟨⟩)
    · cases hstep
  | update i fate =>
    simp only [machine, State.step] at hstep
    split at hstep
    · rename_i id body hrequest
      cases hstep
      apply State.Kept.setRequest _ (by rintro row caught rest ⟨⟩)
      apply h.rewrite
      intro heffect r hr hid hvalid
      cases hkey : body.apiKey with
      | some key => simp [Body.apply, hkey] at hvalid
      | none =>
        have hold : r.isValid = some true := by simpa [Body.apply, hkey] using hvalid
        rw [hok id body hrequest heffect r hr hid hold hkey]
        exact h.described r hr hold
    · cases hstep
  | validate i id user =>
    simp only [machine, State.step] at hstep
    split at hstep
    · cases hstep
      exact h.setRequest (by rintro row caught rest ⟨⟩)
    · cases hstep
  | validateAll i user =>
    simp only [machine, State.step] at hstep
    split at hstep
    · cases hstep
      exact h.setRequest fun row caught rest hnext => (next_ne_recording hnext).elim
    · cases hstep
  | answer i valid =>
    simp only [machine, State.step] at hstep
    split at hstep
    · rename_i row rest hrequest
      cases hstep
      have hmono : ∀ x ∈ s.reported,
          x ∈ (if valid = some true then row.triple :: s.reported else s.reported) := by
        intro x hx
        split
        · exact List.mem_cons_of_mem _ hx
        · exact hx
      constructor
      · intro r hr hvalid
        exact hmono _ (h.described r hr hvalid)
      · intro j row' caught rest' hj
        simp only [State.setRequest] at hj
        by_cases hij : j = i
        · rw [hij, Function.update_self] at hj
          simp only [Option.some.injEq, Stage.recording.injEq, decide_eq_true_eq] at hj
          obtain ⟨rfl, hvalid, -, -⟩ := hj
          rw [if_pos hvalid]
          exact List.mem_cons_self
        · rw [Function.update_of_ne hij] at hj
          exact hmono _ (h.verdicts j row' caught rest' hj)
    · cases hstep
  | record i fate =>
    simp only [machine, State.step] at hstep
    split at hstep
    · rename_i row verdict caught rest hrequest
      cases hstep
      apply State.Kept.setRequest
      · apply h.rewrite
        intro heffect r hr hid hvalid
        simp only [State.setValid, Option.some.injEq] at hvalid
        subst hvalid
        have htriple := hok row caught rest hrequest heffect r hr hid
        change r.triple ∈ s.reported
        rw [htriple]
        exact h.verdicts i row caught rest hrequest
      · intro row' caught' rest' hstage
        unfold State.recorded at hstage
        split at hstage
        · exact (next_ne_recording hstage).elim
        · split at hstage <;> cases hstage
    · cases hstep
  | drop i =>
    cases hstep
    exact h.setRequest (by rintro row caught rest ⟨⟩)

/-- In every orderly run each connection that is marked valid has been reported so as it is. -/
theorem described_of_orderly (h : machine.ReachableIf State.Orderly s) : s.Described := by
  have hkept : s.Kept := by
    apply h.invariant (I := State.Kept)
    · rintro s ⟨hrequests, hdescribed⟩
      refine ⟨hdescribed, ?_⟩
      intro i row caught rest hi
      rw [hrequests] at hi
      cases hi
    · intro s e t hs hok hstep
      exact kept_step hs hok hstep
  exact hkept.described

end Runs

section Instances

def ann : User := ⟨"ann", false⟩

def openai : Row :=
  { id := 1, name := "mine", provider := "openai", apiKey := "k1", createdBy := some "ann" }

/-- A connection that has been found valid is given another URL. -/
def moved : List Event :=
  [.create openai, .validate 0 1 ann, .answer 0 (some true), .record 0 (.answered ()),
    .put 1 1 ann { apiBaseUrl := some (some "https://other") }, .update 1 (.answered ())]

/-- A key is replaced while the old one is validated. -/
def replaced : List Event :=
  [.create openai, .validateAll 0 ann, .put 1 1 ann { apiKey := some "k2" }, .answer 0 (some true),
    .update 1 (.answered ()), .record 0 (.answered ())]

theorem initial_empty : machine.initial {} := ⟨rfl, by rintro r ⟨⟩⟩

theorem moved_not_described :
    (machine.Reachable (machine.after {} moved) ∧ ¬(machine.after {} moved).Described) ∧
      machine.Reachable (machine.after {} replaced) ∧ ¬(machine.after {} replaced).Described :=
  ⟨⟨⟨{}, moved, initial_empty, Machine.run_after (by decide)⟩, by decide⟩,
    ⟨{}, replaced, initial_empty, Machine.run_after (by decide)⟩, by decide⟩

def State.orderlyCheck (s : State) : Event → Bool
  | .update i _ =>
    match s.requests i with
    | some (.updating id body) => s.connections.rows.all fun r =>
      r.id ≠ id || r.isValid ≠ some true || body.apiKey.isSome || (body.apply r).triple = r.triple
    | _ => true
  | .record i _ =>
    match s.requests i with
    | some (.recording row true _ _) =>
      s.connections.rows.all fun r => r.id ≠ row.id || r.triple = row.triple
    | _ => true
  | _ => true

theorem orderly_of_check {s : State} {e : Event} (h : s.orderlyCheck e = true) : s.Orderly e := by
  cases e with
  | update i fate =>
    intro id body hrequest _ r hr hid hvalid hkey
    simp only [State.orderlyCheck, hrequest, List.all_eq_true] at h
    simpa [hid, hvalid, hkey] using h r hr
  | record i fate =>
    intro row caught rest hrequest _ r hr hid
    simp only [State.orderlyCheck, hrequest, List.all_eq_true] at h
    simpa [hid] using h r hr
  | _ => trivial

/-- The key is replaced when the old one has been found valid, and the new one is validated. -/
def renewed : List Event :=
  [.create openai, .validate 0 1 ann, .answer 0 (some true), .record 0 (.answered ()),
    .put 1 1 ann { name := some "new", apiKey := some "k2" }, .update 1 (.answered ()),
    .validateAll 2 ann, .answer 2 (some true), .record 2 (.answered ())]

theorem renewed_described : (machine.after {} renewed).Described :=
  described_of_orderly (Machine.reachableIf_of_accepts (C := State.orderlyCheck)
    (fun _ _ _ h => orderly_of_check h) initial_empty (by decide))

end Instances

end Hill90.Models.Validation
