import Hill90.Foundation.Fate
import Hill90.Foundation.Machine
import Hill90.Foundation.Pairs

/-! # The environment variables of an agent

`PUT /:id` of `routes/agents.ts` as far as it is about `env_vars_set` and `env_vars_unset`: the row
is read, other queries follow, and a transaction writes what was computed from the row.  Many
requests are in flight, one query at a time.
-/

namespace Hill90.Agents.Environment

abbrev EnvVars := List (String × String)

structure Crypt (Buffer : Type) where
  encrypt : ℕ → EnvVars → Buffer × Buffer
  decrypt : Buffer → Buffer → Option EnvVars
  decrypt_encrypt : ∀ n m, decrypt (encrypt n m).1 (encrypt n m).2 = some m

/-- The two columns of the row. -/
structure Columns (Buffer : Type) where
  encrypted : Option Buffer := none
  nonce : Option Buffer := none
  deriving DecidableEq

structure Body where
  set : Option EnvVars := none
  unset : Option (List String) := none
  deriving DecidableEq

namespace Body

variable (b : Body)

def given : Bool := b.set.isSome || b.unset.isSome

/-- The keys that are unset go first, so that a key in both is set. -/
def apply (m : EnvVars) : EnvVars :=
  Pairs.putAll ((b.unset.getD []).foldl (fun m key => Pairs.without key m) m) (b.set.getD [])

def gives (key : String) : Option String := Pairs.value (b.set.getD []) key

def Touches (key : String) : Prop := (b.gives key).isSome ∨ key ∈ b.unset.getD []

end Body

variable {Buffer : Type} (crypt : Crypt Buffer)

/-- `null` where the columns do not decrypt. -/
def decryptEnvVars (columns : Columns Buffer) : Option EnvVars :=
  match columns.encrypted, columns.nonce with
  | some encrypted, some nonce => crypt.decrypt encrypted nonce
  | _, _ => some []

inductive Stage (Buffer : Type) where
  /-- The row has been read. -/
  | read (columns : Columns Buffer) (body : Body)
  /-- The transaction has been committed. -/
  | committed (body : Body)

structure State (Buffer : Type) where
  columns : Columns Buffer
  calls : ℕ → Option (Stage Buffer) := fun _ => none
  /-- The bodies whose transactions took effect, the last one first. -/
  written : List Body := []
  accepted : List Body := []

abbrev Fate := Outcome Unit Unit

inductive Event where
  | select (i : ℕ) (body : Body)
  | transact (i : ℕ) (nonce : ℕ) (fate : Fate)
  | answer (i : ℕ)
  /-- A check refuses the request, a query fails or the connection is lost. -/
  | drop (i : ℕ)

namespace State

variable (s : State Buffer)

def setCall (i : ℕ) (stage : Option (Stage Buffer)) : State Buffer :=
  { s with calls := Function.update s.calls i stage }

/-- `COALESCE($14, env_vars_encrypted)`, `COALESCE($15, env_vars_nonce)` -/
def write (nonce : ℕ) (body : Body) (vars : EnvVars) : State Buffer :=
  let sealed := crypt.encrypt nonce (body.apply vars)
  { s with
    columns := if body.given then ⟨some sealed.1, some sealed.2⟩ else s.columns
    written := body :: s.written }

def step : Event → Option (State Buffer)
  | .select i body =>
    match s.calls i with
    | none => some (s.setCall i (some (.read s.columns body)))
    | some _ => none
  | .transact i nonce fate =>
    match s.calls i with
    | some (.read columns body) =>
      match decryptEnvVars crypt columns with
      | none => some (s.setCall i none)
      | some vars =>
        let s' := if fate.takesEffect then s.write crypt nonce body vars else s
        some (s'.setCall i (if fate.isAnswered then some (.committed body) else none))
    | _ => none
  | .answer i =>
    match s.calls i with
    | some (.committed body) => some { s.setCall i none with accepted := body :: s.accepted }
    | _ => none
  | .drop i => some (s.setCall i none)

/-- A transaction with a change of the variables is computed from what the row still holds. -/
def Orderly : Event → Prop
  | .transact i _ fate => ∀ columns body, s.calls i = some (.read columns body) →
      fate.takesEffect = true → body.given = true →
        decryptEnvVars crypt columns = decryptEnvVars crypt s.columns
  | _ => True

end State

def machine : Machine (State Buffer) Event where
  initial s := s.calls = (fun _ => none) ∧ s.written = [] ∧ s.accepted = [] ∧
    (decryptEnvVars crypt s.columns).isSome
  step := State.step crypt

structure Applied (bodies : List Body) (old new : EnvVars) : Prop where
  changed : ∀ b ∈ bodies, ∀ key, b.Touches key → Pairs.value new key = b.gives key
  kept : ∀ key, (∀ b ∈ bodies, ¬b.Touches key) → Pairs.value new key = Pairs.value old key

def Disjoint (bodies : List Body) : Prop :=
  bodies.Pairwise fun b c => ∀ key, b.Touches key → ¬c.Touches key

section Deltas

variable {b : Body} {bodies : List Body} {m : EnvVars} {key : String}

theorem value_unset (keys : List String) (m : EnvVars) (key : String) :
    Pairs.value (keys.foldl (fun m key => Pairs.without key m) m) key =
      if key ∈ keys then none else Pairs.value m key := by
  induction keys generalizing m with
  | nil => rfl
  | cons k keys ih =>
    rw [List.foldl_cons, ih]
    by_cases hkeys : key ∈ keys
    · rw [if_pos hkeys, if_pos (List.mem_cons_of_mem _ hkeys)]
    · rw [if_neg hkeys]
      by_cases hk : k = key
      · subst hk
        rw [Pairs.value_without_self, if_pos List.mem_cons_self]
      · rw [Pairs.value_without_of_ne hk, if_neg]
        rw [List.mem_cons, not_or]
        exact ⟨Ne.symm hk, hkeys⟩

/-- The old variables without the unset keys, overridden by the set ones. -/
theorem value_apply (b : Body) (m : EnvVars) (key : String) :
    Pairs.value (b.apply m) key =
      (b.gives key <|> if key ∈ b.unset.getD [] then none else Pairs.value m key) := by
  rw [Body.apply, Pairs.value_putAll, value_unset]
  rfl

theorem value_of_touches (h : b.Touches key) : Pairs.value (b.apply m) key = b.gives key := by
  rw [value_apply]
  cases hgives : b.gives key with
  | some value => rfl
  | none =>
    obtain h | h := h
    · rw [hgives] at h
      cases h
    · rw [if_pos h]
      rfl

theorem value_of_not_touches (h : ¬b.Touches key) :
    Pairs.value (b.apply m) key = Pairs.value m key := by
  rw [Body.Touches, not_or, Option.not_isSome_iff_eq_none] at h
  rw [value_apply, h.1, if_neg h.2]
  rfl

theorem apply_of_not_given (h : b.given = false) : b.apply m = m := by
  rw [Body.given, Bool.or_eq_false_iff, Option.isSome_eq_false_iff, Option.isSome_eq_false_iff,
    Option.isNone_iff_eq_none, Option.isNone_iff_eq_none] at h
  rw [Body.apply, h.1, h.2]
  rfl

theorem applied_foldr (h : Disjoint bodies) : Applied bodies m (bodies.foldr Body.apply m) := by
  induction bodies with
  | nil => exact ⟨by rintro b ⟨⟩, fun key _ => rfl⟩
  | cons c bodies ih =>
    obtain ⟨hhead, htail⟩ := List.pairwise_cons.mp h
    obtain ⟨hchanged, hkept⟩ := ih htail
    constructor
    · intro b hb key hkey
      obtain rfl | hb := List.mem_cons.mp hb
      · exact value_of_touches hkey
      · have hnot : ¬c.Touches key := fun hc => hhead b hb key hc hkey
        rw [List.foldr_cons, value_of_not_touches hnot]
        exact hchanged b hb key hkey
    · intro key hkey
      rw [List.foldr_cons, value_of_not_touches (hkey c List.mem_cons_self)]
      exact hkept key fun b hb => hkey b (List.mem_cons_of_mem _ hb)

end Deltas

section Runs

variable {crypt} {s t : State Buffer} {e : Event} {i : ℕ} {m : EnvVars}

/-- The row holds the old variables with every change that was written. -/
structure State.Holds (crypt : Crypt Buffer) (m : EnvVars) (s : State Buffer) : Prop where
  holds : decryptEnvVars crypt s.columns = some (s.written.foldr Body.apply m)
  committed : ∀ i body, s.calls i = some (.committed body) → body ∈ s.written
  accepted : ∀ body ∈ s.accepted, body ∈ s.written

theorem State.Holds.setCall (h : s.Holds crypt m) {stage : Option (Stage Buffer)}
    (hstage : ∀ body, stage = some (.committed body) → body ∈ s.written) :
    (s.setCall i stage).Holds crypt m := by
  refine ⟨h.holds, ?_, h.accepted⟩
  intro j body hj
  simp only [State.setCall] at hj
  by_cases hij : j = i
  · rw [hij, Function.update_self] at hj
    exact hstage body hj
  · rw [Function.update_of_ne hij] at hj
    exact h.committed j body hj

theorem decryptEnvVars_write (nonce : ℕ) (body : Body) (vars : EnvVars) (hgiven : body.given = true) :
    decryptEnvVars crypt (s.write crypt nonce body vars).columns = some (body.apply vars) := by
  unfold State.write
  dsimp only
  rw [if_pos hgiven]
  exact crypt.decrypt_encrypt nonce (body.apply vars)

theorem State.Holds.write (h : s.Holds crypt m) (nonce : ℕ) {body : Body} {vars : EnvVars}
    (hvars : body.given = true → decryptEnvVars crypt s.columns = some vars) :
    (s.write crypt nonce body vars).Holds crypt m := by
  refine ⟨?_, ?_, ?_⟩
  · change _ = some (body.apply (s.written.foldr Body.apply m))
    cases hgiven : body.given with
    | true =>
      have hold := (hvars hgiven).symm.trans h.holds
      rw [decryptEnvVars_write nonce body vars hgiven, Option.some.inj hold]
    | false =>
      rw [apply_of_not_given hgiven, ← h.holds, State.write]
      dsimp only
      rw [hgiven]
      rfl
  · intro j b hj
    exact List.mem_cons_of_mem _ (h.committed j b hj)
  · intro b hb
    exact List.mem_cons_of_mem _ (h.accepted b hb)

theorem holds_step (h : s.Holds crypt m) (hok : s.Orderly crypt e)
    (hstep : (machine crypt).step s e = some t) : t.Holds crypt m := by
  cases e with
  | select i body =>
    simp only [machine, State.step] at hstep
    split at hstep
    · cases hstep
      exact h.setCall (by rintro body ⟨⟩)
    · cases hstep
  | transact i nonce fate =>
    simp only [machine, State.step] at hstep
    split at hstep
    · rename_i columns body hcall
      split at hstep
      · cases hstep
        exact h.setCall (by rintro body ⟨⟩)
      · rename_i vars hvars
        cases hstep
        cases fate with
        | failed _ => exact h.setCall (by rintro body ⟨⟩)
        | answered _ =>
          apply (h.write nonce fun hgiven => (hok columns body hcall rfl hgiven).symm.trans hvars).setCall
          rintro body' ⟨⟩
          exact List.mem_cons_self
        | lost _ _ =>
          apply (h.write nonce fun hgiven => (hok columns body hcall rfl hgiven).symm.trans hvars).setCall
          rintro body' ⟨⟩
    · cases hstep
  | answer i =>
    simp only [machine, State.step] at hstep
    split at hstep
    · rename_i body hcall
      cases hstep
      have hset : (s.setCall i none).Holds _ _ := h.setCall (by rintro body ⟨⟩)
      refine ⟨hset.holds, hset.committed, ?_⟩
      intro b hb
      obtain rfl | hb := List.mem_cons.mp hb
      · exact h.committed i b hcall
      · exact h.accepted b hb
    · cases hstep
  | drop i =>
    cases hstep
    exact h.setCall (by rintro body ⟨⟩)

theorem holds_of_runIf {es : List Event} (hinitial : (machine crypt).initial s)
    (hrun : (machine crypt).RunIf (State.Orderly crypt) s es t) :
    ∃ old, decryptEnvVars crypt s.columns = some old ∧ t.Holds crypt old := by
  obtain ⟨hcalls, hwritten, haccepted, hsome⟩ := hinitial
  obtain ⟨old, hold⟩ := Option.isSome_iff_exists.mp hsome
  refine ⟨old, hold, hrun.invariant (I := State.Holds crypt old) ?_ fun _ _ _ hs hok hstep =>
    holds_step hs hok hstep⟩
  constructor
  · rw [hwritten]
    exact hold
  · intro i body hi
    rw [hcalls] at hi
    cases hi
  · rw [haccepted]
    rintro body ⟨⟩

/-- In every orderly run the row ends with all the changes that were written, and of a single one it
has exactly that. -/
theorem applied_of_orderly {es : List Event} (hinitial : (machine crypt).initial s)
    (hrun : (machine crypt).RunIf (State.Orderly crypt) s es t) :
    ∃ old new, decryptEnvVars crypt s.columns = some old ∧ decryptEnvVars crypt t.columns = some new ∧
      (∀ b ∈ t.accepted, b ∈ t.written) ∧ (Disjoint t.written → Applied t.written old new) ∧
        ∀ b, t.written = [b] → ∀ key, Pairs.value new key =
          (b.gives key <|> if key ∈ b.unset.getD [] then none else Pairs.value old key) := by
  obtain ⟨old, hold, h⟩ := holds_of_runIf hinitial hrun
  refine ⟨old, _, hold, h.holds, h.accepted, fun hdisjoint => applied_foldr hdisjoint, ?_⟩
  intro b hb key
  rw [hb]
  exact value_apply b old key

end Runs

section Instances

/-- A cipher that is no secret. -/
def plain : Crypt (EnvVars × ℕ) where
  encrypt n m := ((m, n), ([], n))
  decrypt encrypted _ := some encrypted.1
  decrypt_encrypt _ _ := rfl

def stored : State (EnvVars × ℕ) where
  columns := ⟨some ([("A", "1")], 0), some ([], 0)⟩

def setB : Body := { set := some [("B", "2")] }

def setC : Body := { set := some [("C", "3")], unset := some ["A"] }

theorem initial_stored : (machine plain).initial stored := ⟨rfl, rfl, rfl, rfl⟩

theorem disjoint_setC_setB : Disjoint [setC, setB] := by
  unfold Disjoint
  rw [List.pairwise_pair]
  rintro key (hC | hC) hB
  · have hkeyC : "C" = key := by
      by_contra hne
      simp [Body.gives, setC, Pairs.value, hne] at hC
    subst hkeyC
    revert hB
    simp [Body.Touches, Body.gives, setB, Pairs.value]
  · have hkeyA : key = "A" := by simpa [setC] using hC
    subst hkeyA
    revert hB
    simp [Body.Touches, Body.gives, setB, Pairs.value]

/-- Both requests read the row before either writes it. -/
def crossed : List Event :=
  [.select 0 setB, .select 1 setC, .transact 0 1 (.answered ()), .transact 1 2 (.answered ()),
    .answer 0, .answer 1]

theorem crossed_not_applied :
    (machine plain).initial stored ∧
      (machine plain).Run stored crossed ((machine plain).after stored crossed) ∧
      ((machine plain).after stored crossed).accepted = [setC, setB] ∧ Disjoint [setC, setB] ∧
        ∀ old new, decryptEnvVars plain ((machine plain).after stored crossed).columns = some new →
          ¬Applied [setC, setB] old new := by
  refine ⟨initial_stored, Machine.run_after (by decide), rfl, disjoint_setC_setB, ?_⟩
  intro old new hnew happlied
  have htouches : setB.Touches "B" := .inl rfl
  have hvalue := happlied.changed setB (by decide) "B" htouches
  have hlost : decryptEnvVars plain ((machine plain).after stored crossed).columns =
      some [("C", "3")] := rfl
  rw [hlost] at hnew
  cases hnew
  revert hvalue
  decide

def successive : List Event :=
  [.select 0 setB, .transact 0 1 (.answered ()), .select 1 setC, .answer 0,
    .transact 1 2 (.answered ()), .answer 1]

def State.orderlyCheck (s : State (EnvVars × ℕ)) : Event → Bool
  | .transact i _ _ =>
    match s.calls i with
    | some (.read columns _) => decryptEnvVars plain columns = decryptEnvVars plain s.columns
    | _ => true
  | _ => true

theorem orderly_of_check {s : State (EnvVars × ℕ)} {e : Event} (h : s.orderlyCheck e = true) :
    s.Orderly plain e := by
  cases e with
  | transact i nonce fate =>
    intro columns body hcall _ _
    simpa [State.orderlyCheck, hcall] using h
  | _ => trivial

theorem applied_successive :
    ∃ old new, decryptEnvVars plain stored.columns = some old ∧
      decryptEnvVars plain ((machine plain).after stored successive).columns = some new ∧
      (∀ b ∈ ((machine plain).after stored successive).accepted,
        b ∈ ((machine plain).after stored successive).written) ∧
      (Disjoint ((machine plain).after stored successive).written →
        Applied ((machine plain).after stored successive).written old new) ∧
      ∀ b, ((machine plain).after stored successive).written = [b] → ∀ key, Pairs.value new key =
        (b.gives key <|> if key ∈ b.unset.getD [] then none else Pairs.value old key) :=
  applied_of_orderly initial_stored (Machine.runIf_of_accepts (I := fun _ => True)
    (C := State.orderlyCheck) (fun _ _ _ h => orderly_of_check h) (fun _ _ _ _ _ _ => trivial) trivial
    (by decide))

end Instances

end Hill90.Agents.Environment
