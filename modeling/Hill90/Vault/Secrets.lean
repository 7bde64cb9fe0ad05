import Hill90.Foundation.Fate
import Hill90.Foundation.Machine
import Hill90.Foundation.Pairs

/-! # The secrets of the vault

`PUT` and `DELETE /admin/secrets/kv` of `routes/secrets.ts` over `helpers/vault-client.ts`: the keys of
a path are read, and the path is written anew from what was read.  Many requests are in flight, one
call to the vault at a time.  The requests name plain paths: what `fetch` makes of the others is left
out.
-/

namespace Hill90.Vault

abbrev Data := List (String × String)

inductive Op where
  | put (path key value : String)
  | delete (path key : String)
  deriving DecidableEq

namespace Op

def path : Op → String
  | put path _ _ | delete path _ => path

def key : Op → String
  | put _ key _ | delete _ key => key

def result : Op → Option String
  | put _ _ value => some value
  | delete _ _ => none

/-- `data[key] = value` on a plain object: where `__proto__` is no key of its own, a string that is
assigned to it is dropped. -/
def apply (data : Data) : Op → Data
  | put _ key value =>
    if key = "__proto__" ∧ Pairs.value data key = none then data else Pairs.put (key, value) data
  | delete _ key => Pairs.without key data

def Stores (data : Data) : Op → Prop
  | put _ key _ => key = "__proto__" → (Pairs.value data key).isSome
  | delete _ _ => True

end Op

/-- The keys that `key in data` finds in every object. -/
def inherited : List String :=
  ["constructor", "__defineGetter__", "__defineSetter__", "hasOwnProperty", "__lookupGetter__",
    "__lookupSetter__", "isPrototypeOf", "propertyIsEnumerable", "toString", "valueOf", "__proto__",
    "toLocaleString"]

structure Response where
  status : ℕ
  error : Option String
  detail : Option String := none
  deriving DecidableEq

inductive Method where
  | put
  | delete
  deriving DecidableEq

structure Request where
  method : Method
  path : Option String
  key : Option String
  value : Option String := none
  deriving DecidableEq

def normalizedPath (secretPath : String) : String :=
  if "secret/".toList.isPrefixOf secretPath.toList then String.ofList (secretPath.toList.drop 7)
  else secretPath

def segments : List Char → List (List Char)
  | [] => [[]]
  | '/' :: cs => [] :: segments cs
  | c :: cs =>
    match segments cs with
    | [] => [[c]]
    | segment :: rest => (c :: segment) :: rest

/-- A path that a URL can hold as it is: no segment is empty or made of dots, and none has a character
that `fetch` takes for something else. -/
def plain (path : String) : Bool :=
  (segments path.toList).all fun segment =>
    segment ≠ [] && segment ≠ ['.'] && segment ≠ ['.', '.'] &&
      segment.all fun c => c.isAlphanum || c = '-' || c = '_' || c = '.'

def Request.check (configured : Bool) (req : Request) : Except Response Op :=
  if !configured then .error ⟨503, some "Vault token not configured", none⟩
  else
    match req.method, req.path.filter (· ≠ ""), req.key.filter (· ≠ ""), req.value with
    | .put, some path, some key, some value => .ok (.put (normalizedPath path) key value)
    | .put, _, _, _ => .error ⟨400, some "path, key, and value are required", none⟩
    | .delete, some path, some key, _ => .ok (.delete (normalizedPath path) key)
    | .delete, _, _, _ => .error ⟨400, some "path and key are required", none⟩

inductive Stage where
  | reading (op : Op)
  | writing (op : Op) (existing : Option Data)
  deriving DecidableEq

structure State where
  paths : String → Option Data
  calls : ℕ → Option Stage := fun _ => none
  answers : List (ℕ × Response) := []
  written : List Op := []
  accepted : List Op := []

abbrev Fate := Outcome Unit String

def Fate.message : Fate → String
  | .answered _ => ""
  | .failed message | .lost _ message => message

inductive Event where
  | arrive (i : ℕ) (configured : Bool) (req : Request)
  | read (i : ℕ) (fate : Fate)
  | write (i : ℕ) (fate : Fate)

namespace State

variable (s : State)

def setCall (i : ℕ) (stage : Option Stage) : State :=
  { s with calls := Function.update s.calls i stage }

def answer (i : ℕ) (r : Response) : State :=
  { s with
    calls := Function.update s.calls i none
    answers := s.answers ++ [(i, r)] }

def failedWith (op : Op) (message : String) : Response :=
  match op with
  | .put .. => ⟨502, some "Vault write failed", some message⟩
  | .delete .. => ⟨502, some "Vault delete failed", some message⟩

/-- What `kvPut` and `kvDeleteKey` do with what they have read. -/
def next (op : Op) (existing : Option Data) : Except String Stage :=
  match op, existing with
  | .put .., _ => .ok (.writing op existing)
  | .delete path _, none => .error ("Path not found: " ++ path)
  | .delete path key, some data =>
    if (Pairs.value data key).isSome ∨ key ∈ inherited then .ok (.writing op existing)
    else .error ("Key not found: " ++ key ++ " in " ++ path)

/-- The path as the last call leaves it: a deletion that leaves no key takes the whole path. -/
def contents (op : Op) (existing : Option Data) : Option Data :=
  let data := op.apply (existing.getD [])
  match op with
  | .put .. => some data
  | .delete .. => if data = [] then none else some data

def store (op : Op) (existing : Option Data) : State :=
  { s with
    paths := Function.update s.paths op.path (contents op existing)
    written := op :: s.written }

def step : Event → Option State
  | .arrive i configured req =>
    match s.calls i with
    | some _ => none
    | none =>
      match req.check configured with
      | .error r => some (s.answer i r)
      | .ok op => if plain op.path then some (s.setCall i (some (.reading op))) else none
  | .read i fate =>
    match s.calls i with
    | some (.reading op) =>
      if fate.isAnswered then
        match next op (s.paths op.path) with
        | .error message => some (s.answer i (failedWith op message))
        | .ok stage => some (s.setCall i (some stage))
      else some (s.answer i (failedWith op (Fate.message fate)))
    | _ => none
  | .write i fate =>
    match s.calls i with
    | some (.writing op existing) =>
      let s' := if fate.takesEffect then s.store op existing else s
      if fate.isAnswered then some { s'.answer i ⟨200, none, none⟩ with accepted := op :: s.accepted }
      else some (s'.answer i (failedWith op (Fate.message fate)))
    | _ => none

def look (path key : String) : Option String := (s.paths path).bind fun data => Pairs.value data key

/-- A write that takes effect is computed from what the other keys of its path still hold, and its own
key can be stored. -/
def Current : Event → Prop
  | .write i fate => ∀ op existing, s.calls i = some (.writing op existing) →
      fate.takesEffect = true → op.Stores (existing.getD []) ∧ ∀ key, key ≠ op.key →
        Pairs.value (existing.getD []) key = s.look op.path key
  | _ => True

end State

def machine : Machine State Event where
  initial s := s.calls = (fun _ => none) ∧ s.written = [] ∧ s.accepted = []
  step := State.step

/-- What a key should hold: what the last write of it has made of it, or what it held at first. -/
def expected (s₀ : State) (path key : String) : List Op → Option String
  | [] => s₀.look path key
  | op :: ops => if op.path = path ∧ op.key = key then op.result else expected s₀ path key ops

/-- No write has been undone by another one. -/
def InSync (s₀ s : State) : Prop := ∀ path key, s.look path key = expected s₀ path key s.written

section Writing

variable {s s₀ t : State} {e : Event} {i : ℕ} {op : Op} {existing : Option Data} {fate : Fate}

theorem value_apply_of_ne (op : Op) (data : Data) {key : String} (hkey : op.key ≠ key) :
    Pairs.value (op.apply data) key = Pairs.value data key := by
  cases op with
  | put path key' value =>
    rw [Op.apply]
    split
    · rfl
    · rw [Pairs.value_put, if_neg]
      exact hkey
  | delete path key' => exact Pairs.value_without_of_ne hkey data

theorem value_apply_key (op : Op) (data : Data) :
    Pairs.value (op.apply data) op.key = op.result ↔ op.Stores data := by
  cases op with
  | put path key value =>
    change Pairs.value (Op.apply data (.put path key value)) key = some value ↔
      (key = "__proto__" → (Pairs.value data key).isSome)
    rw [Op.apply]
    split
    · rename_i hdropped
      rw [hdropped.2]
      simp [hdropped.1]
    · rename_i hkept
      refine iff_of_true (by rw [Pairs.value_put, if_pos rfl]) fun hproto => ?_
      exact Option.isSome_iff_ne_none.mpr fun hnone => hkept ⟨hproto, hnone⟩
  | delete path key => exact iff_of_true (Pairs.value_without_self key data) trivial

/-- Whether or not the path goes with its last key, its keys hold what was computed. -/
theorem value_contents (op : Op) (existing : Option Data) (key : String) :
    (State.contents op existing).bind (fun data => Pairs.value data key) =
      Pairs.value (op.apply (existing.getD [])) key := by
  unfold State.contents
  generalize op.apply (existing.getD []) = data
  cases op with
  | put path key' value => rfl
  | delete path key' =>
    obtain rfl | hnil := eq_or_ne data []
    · rfl
    · simp only [if_neg hnil, Option.bind_some]

theorem look_store (path key : String) : (s.store op existing).look path key =
    if op.path = path then Pairs.value (op.apply (existing.getD [])) key else s.look path key := by
  change (Function.update s.paths op.path _ path).bind _ = _
  obtain rfl | hpath := eq_or_ne op.path path
  · rw [Function.update_self, value_contents, if_pos rfl]
  · rw [Function.update_of_ne hpath.symm, if_neg hpath]
    rfl

/-- A write keeps the vault in step with its writes exactly if it is computed from what is there and
stores its key. -/
theorem inSync_store (h : InSync s₀ s) : InSync s₀ (s.store op existing) ↔
    op.Stores (existing.getD []) ∧
      ∀ key, key ≠ op.key → Pairs.value (existing.getD []) key = s.look op.path key := by
  have hwritten : (s.store op existing).written = op :: s.written := rfl
  constructor
  · intro hsync
    constructor
    · have hlook := hsync op.path op.key
      rw [look_store, if_pos rfl, hwritten, expected, if_pos ⟨rfl, rfl⟩] at hlook
      exact (value_apply_key op _).mp hlook
    · intro key hkey
      have hlook := hsync op.path key
      rw [look_store, if_pos rfl, value_apply_of_ne op _ hkey.symm, hwritten, expected,
        if_neg fun hboth => hkey hboth.2.symm, ← h] at hlook
      exact hlook
  · rintro ⟨hstores, hcurrent⟩ path key
    rw [look_store, hwritten, expected]
    obtain rfl | hpath := eq_or_ne op.path path
    · rw [if_pos rfl]
      obtain rfl | hkey := eq_or_ne op.key key
      · rw [if_pos ⟨rfl, rfl⟩]
        exact (value_apply_key op _).mpr hstores
      · rw [if_neg fun hboth => hkey hboth.2, ← h, value_apply_of_ne op _ hkey]
        exact hcurrent key hkey.symm
    · rw [if_neg hpath, if_neg fun hboth => hpath hboth.1]
      exact h path key

theorem stored_of_step (hstep : s.step e = some t) :
    (t.paths = s.paths ∧ t.written = s.written ∧
        ∀ i fate op existing, e = .write i fate → s.calls i = some (.writing op existing) →
          fate.takesEffect = false) ∨
      ∃ i fate op existing, e = .write i fate ∧ s.calls i = some (.writing op existing) ∧
        fate.takesEffect = true ∧ t.paths = (s.store op existing).paths ∧
          t.written = (s.store op existing).written := by
  cases e with
  | arrive i configured req =>
    refine .inl ?_
    simp only [State.step] at hstep
    split at hstep
    · cases hstep
    · split at hstep
      · cases hstep
        exact ⟨rfl, rfl, fun _ _ _ _ h => by cases h⟩
      · split at hstep <;> cases hstep
        exact ⟨rfl, rfl, fun _ _ _ _ h => by cases h⟩
  | read i fate =>
    refine .inl ?_
    simp only [State.step] at hstep
    split at hstep
    · split at hstep
      · split at hstep <;> cases hstep <;> exact ⟨rfl, rfl, fun _ _ _ _ h => by cases h⟩
      · cases hstep
        exact ⟨rfl, rfl, fun _ _ _ _ h => by cases h⟩
    · cases hstep
  | write i fate =>
    simp only [State.step] at hstep
    split at hstep
    · rename_i op existing hcall
      cases heffect : fate.takesEffect with
      | true =>
        rw [heffect] at hstep
        refine .inr ⟨i, fate, op, existing, rfl, hcall, heffect, ?_⟩
        split at hstep <;> cases hstep <;> exact ⟨rfl, rfl⟩
      | false =>
        rw [heffect] at hstep
        refine .inl ?_
        have hnone : ∀ j f o d, Event.write i fate = .write j f →
            s.calls j = some (.writing o d) → f.takesEffect = false := by
          intro j f o d heq _
          cases heq
          exact heffect
        split at hstep <;> cases hstep <;> exact ⟨rfl, rfl, hnone⟩
    · cases hstep

theorem inSync_congr (hpaths : t.paths = s.paths) (hwritten : t.written = s.written) :
    InSync s₀ t ↔ InSync s₀ s := by
  unfold InSync State.look
  rw [hpaths, hwritten]

theorem inSync_step (h : InSync s₀ s) (hstep : s.step e = some t) : InSync s₀ t ↔ s.Current e := by
  obtain ⟨hpaths, hwritten, hquiet⟩ | ⟨i, fate, op, existing, rfl, hcall, heffect, hpaths, hwritten⟩ :=
    stored_of_step hstep
  · rw [inSync_congr hpaths hwritten]
    refine iff_of_true h ?_
    cases e with
    | write i fate =>
      intro op existing hcall heffect
      rw [hquiet i fate op existing rfl hcall] at heffect
      cases heffect
    | _ => trivial
  · rw [inSync_congr (s := s.store op existing) hpaths hwritten, inSync_store h]
    constructor
    · intro hcurrent op' existing' hcall' _
      cases hcall.symm.trans hcall'
      exact hcurrent
    · exact fun hcurrent => hcurrent op existing hcall heffect

/-- Through a whole run each key holds what its last write has made of it, exactly if each write was
computed from what the other keys of its path still held and could store its own. -/
theorem no_write_undone_iff {es : List Event} (hs : machine.initial s) (h : machine.Run s es t) :
    (∀ pre u, pre <+: es → machine.Run s pre u → InSync s u) ↔
      machine.RunIf State.Current s es t := by
  have hstart : InSync s s := by
    intro path key
    rw [hs.2.1]
    rfl
  exact h.always_iff (I := fun _ => True) trivial hstart (fun _ _ _ _ _ => trivial)
    fun _ _ _ _ hsync hstep => inSync_step hsync hstep

end Writing

section Separate

variable {s s₀ t : State} {e : Event} {es : List Event}

/-- A path is not read while another request has read it and has yet to write it, and no key is
`__proto__`. -/
def State.Separate (s : State) : Event → Prop
  | .read i _ => ∀ op, s.calls i = some (.reading op) → op.key ≠ "__proto__" ∧ ∀ j op' existing,
      s.calls j = some (.writing op' existing) → op'.path ≠ op.path
  | _ => True

/-- What the requests that have yet to write have read. -/
structure Fresh (s : State) : Prop where
  stored : ∀ i op existing, s.calls i = some (.writing op existing) → op.key ≠ "__proto__"
  held : ∀ i op existing, s.calls i = some (.writing op existing) → existing = s.paths op.path
  apart : ∀ i j op op' existing existing', s.calls i = some (.writing op existing) →
    s.calls j = some (.writing op' existing') → op.path = op'.path → i = j

theorem calls_update {calls : ℕ → Option Stage} {i j : ℕ} {c : Option Stage} {stage : Stage}
    (h : Function.update calls i c j = some stage) :
    (j = i ∧ c = some stage) ∨ (j ≠ i ∧ calls j = some stage) := by
  obtain rfl | hji := eq_or_ne j i
  · rw [Function.update_self] at h
    exact .inl ⟨rfl, h⟩
  · rw [Function.update_of_ne hji] at h
    exact .inr ⟨hji, h⟩

theorem Fresh.drop (h : Fresh s) {i : ℕ} {stage : Option Stage}
    (hstage : ∀ op existing, stage ≠ some (.writing op existing)) (hpaths : t.paths = s.paths)
    (hcalls : t.calls = Function.update s.calls i stage) : Fresh t := by
  have hold : ∀ j op existing, t.calls j = some (.writing op existing) →
      s.calls j = some (.writing op existing) := by
    intro j op existing hj
    rw [hcalls] at hj
    obtain ⟨-, hj⟩ | ⟨-, hj⟩ := calls_update hj
    · exact absurd hj (hstage op existing)
    · exact hj
  constructor
  · intro j op existing hj
    exact h.stored j op existing (hold j op existing hj)
  · intro j op existing hj
    rw [hpaths]
    exact h.held j op existing (hold j op existing hj)
  · intro j k op op' existing existing' hj hk
    exact h.apart j k op op' existing existing' (hold _ _ _ hj) (hold _ _ _ hk)

theorem Fresh.hold (h : Fresh s) {i : ℕ} {op : Op} (hkey : op.key ≠ "__proto__")
    (hfree : ∀ j op' existing, s.calls j = some (.writing op' existing) → op'.path ≠ op.path) :
    Fresh (s.setCall i (some (.writing op (s.paths op.path)))) := by
  have hcase : ∀ j op' existing,
      (s.setCall i (some (.writing op (s.paths op.path)))).calls j = some (.writing op' existing) →
      (j = i ∧ op' = op ∧ existing = s.paths op.path) ∨
        (j ≠ i ∧ s.calls j = some (.writing op' existing)) := by
    intro j op' existing hj
    obtain ⟨hji, hj⟩ | hold := calls_update hj
    · cases hj
      exact .inl ⟨hji, rfl, rfl⟩
    · exact .inr hold
  constructor
  · intro j op' existing hj
    obtain ⟨-, rfl, -⟩ | ⟨-, hj⟩ := hcase j op' existing hj
    · exact hkey
    · exact h.stored j op' existing hj
  · intro j op' existing hj
    obtain ⟨-, rfl, rfl⟩ | ⟨-, hj⟩ := hcase j op' existing hj
    · rfl
    · exact h.held j op' existing hj
  · intro j k op₁ op₂ existing₁ existing₂ hj hk hpath
    obtain ⟨hji, hop₁, -⟩ | ⟨-, hj'⟩ := hcase j op₁ existing₁ hj
    · obtain ⟨hki, -, -⟩ | ⟨-, hk'⟩ := hcase k op₂ existing₂ hk
      · rw [hji, hki]
      · exact absurd (hop₁ ▸ hpath.symm) (hfree k op₂ existing₂ hk')
    · obtain ⟨-, hop₂, -⟩ | ⟨-, hk'⟩ := hcase k op₂ existing₂ hk
      · exact absurd (hop₂ ▸ hpath) (hfree j op₁ existing₁ hj')
      · exact h.apart j k op₁ op₂ existing₁ existing₂ hj' hk' hpath

theorem Fresh.store (h : Fresh s) {i : ℕ} {op : Op} {existing : Option Data}
    (hcall : s.calls i = some (.writing op existing))
    (hpaths : t.paths = (s.store op existing).paths)
    (hcalls : t.calls = Function.update s.calls i none) : Fresh t := by
  have hold : ∀ j op' existing', t.calls j = some (.writing op' existing') →
      j ≠ i ∧ s.calls j = some (.writing op' existing') := by
    intro j op' existing' hj
    rw [hcalls] at hj
    obtain ⟨-, hj⟩ | hold := calls_update hj
    · cases hj
    · exact hold
  constructor
  · intro j op' existing' hj
    exact h.stored j op' existing' (hold _ _ _ hj).2
  · intro j op' existing' hj
    obtain ⟨hji, hj⟩ := hold j op' existing' hj
    have hne : op'.path ≠ op.path := fun hpath =>
      hji (h.apart j i op' op existing' existing hj hcall hpath)
    rw [hpaths]
    change _ = Function.update s.paths op.path _ op'.path
    rw [Function.update_of_ne hne]
    exact h.held j op' existing' hj
  · intro j k op₁ op₂ existing₁ existing₂ hj hk
    exact h.apart j k op₁ op₂ existing₁ existing₂ (hold _ _ _ hj).2 (hold _ _ _ hk).2

theorem stage_of_next {op : Op} {existing : Option Data} {stage : Stage}
    (h : State.next op existing = .ok stage) : stage = .writing op existing := by
  unfold State.next at h
  split at h
  · cases h
    rfl
  · cases h
  · split at h
    · cases h
      rfl
    · cases h

theorem Fresh.step (h : Fresh s) (hok : s.Separate e) (hstep : s.step e = some t) : Fresh t := by
  cases e with
  | arrive i configured req =>
    simp only [State.step] at hstep
    split at hstep
    · cases hstep
    · split at hstep
      · cases hstep
        exact h.drop (i := i) (fun _ _ hstage => by cases hstage) rfl rfl
      · split at hstep <;> cases hstep
        exact h.drop (i := i) (fun _ _ hstage => by cases hstage) rfl rfl
  | read i fate =>
    simp only [State.step] at hstep
    split at hstep
    · rename_i op hcall
      split at hstep
      · split at hstep
        · cases hstep
          exact h.drop (i := i) (fun _ _ hstage => by cases hstage) rfl rfl
        · rename_i stage hnext
          cases hstep
          rw [stage_of_next hnext]
          obtain ⟨hkey, hfree⟩ := hok op hcall
          exact h.hold hkey hfree
      · cases hstep
        exact h.drop (i := i) (fun _ _ hstage => by cases hstage) rfl rfl
    · cases hstep
  | write i fate =>
    simp only [State.step] at hstep
    split at hstep
    · rename_i op existing hcall
      cases heffect : fate.takesEffect with
      | true =>
        rw [heffect] at hstep
        split at hstep <;> cases hstep <;> exact h.store hcall rfl rfl
      | false =>
        rw [heffect] at hstep
        split at hstep <;> cases hstep <;>
          exact h.drop (i := i) (fun _ _ hstage => by cases hstage) rfl rfl
    · cases hstep

theorem current_of_separate (h : Fresh s) (e : Event) : s.Current e := by
  cases e with
  | write i fate =>
    intro op existing hcall _
    constructor
    · have hkey := h.stored i op existing hcall
      cases op with
      | put path key value => exact fun hproto => absurd hproto hkey
      | delete path key => trivial
    · intro key _
      rw [h.held i op existing hcall, State.look]
      cases s.paths op.path <;> rfl
  | _ => trivial

theorem accepted_step (h : ∀ op ∈ s.accepted, op ∈ s.written) (hstep : s.step e = some t) :
    ∀ op ∈ t.accepted, op ∈ t.written := by
  cases e with
  | arrive i configured req =>
    simp only [State.step] at hstep
    split at hstep
    · cases hstep
    · split at hstep
      · cases hstep
        exact h
      · split at hstep <;> cases hstep
        exact h
  | read i fate =>
    simp only [State.step] at hstep
    split at hstep
    · split at hstep
      · split at hstep <;> cases hstep <;> exact h
      · cases hstep
        exact h
    · cases hstep
  | write i fate =>
    simp only [State.step] at hstep
    split at hstep
    · rename_i op existing hcall
      cases fate with
      | answered =>
        cases hstep
        intro op' hop'
        obtain rfl | hop' := List.mem_cons.mp hop'
        · exact List.mem_cons_self
        · exact List.mem_cons_of_mem _ (h op' hop')
      | failed =>
        cases hstep
        exact h
      | lost =>
        cases hstep
        exact fun op' hop' => List.mem_cons_of_mem _ (h op' hop')
    · cases hstep

/-- If no path is read while another request is about to write it, and no key is `__proto__`, each key
holds what its last write has made of it, and each request that was answered with 200 is among the
writes. -/
theorem in_sync_of_separate (hs : machine.initial s) (h : machine.RunIf State.Separate s es t) :
    InSync s t ∧ ∀ op ∈ t.accepted, op ∈ t.written := by
  have hfresh : Fresh s := by
    constructor
    · intro i op existing hcall
      rw [hs.1] at hcall
      cases hcall
    · intro i op existing hcall
      rw [hs.1] at hcall
      cases hcall
    · intro i j op op' existing existing' hcall
      rw [hs.1] at hcall
      cases hcall
  have hstart : InSync s s := by
    intro path key
    rw [hs.2.1]
    rfl
  have hall := h.invariant (I := fun u => Fresh u ∧ InSync s u ∧ ∀ op ∈ u.accepted, op ∈ u.written)
    ⟨hfresh, hstart, by rw [hs.2.2]; simp⟩ ?_
  · exact hall.2
  · rintro u e v ⟨hu, hsync, haccepted⟩ hok hstep
    exact ⟨hu.step hok hstep, (inSync_step hsync hstep).mpr (current_of_separate hu e),
      accepted_step haccepted hstep⟩

end Separate

section Samples

def emptyVault : State where
  paths _ := none

def putKey (key : String) : Request := ⟨.put, some "secret/shared/db", some key, some key⟩

/-- Two keys of one path, each read before the other is written. -/
def crossed : List Event :=
  [.arrive 0 true (putKey "user"), .arrive 1 true (putKey "password"), .read 0 (.answered ()),
    .read 1 (.answered ()), .write 0 (.answered ()), .write 1 (.answered ())]

def successive : List Event :=
  [.arrive 0 true (putKey "user"), .arrive 1 true (putKey "password"), .read 0 (.answered ()),
    .write 0 (.answered ()), .read 1 (.answered ()), .write 1 (.answered ()),
    .arrive 2 true ⟨.delete, some "shared/db", some "user", none⟩, .read 2 (.answered ()),
    .write 2 (.answered ())]

/-- The deletion of an inherited key is answered with success, as is the `PUT` that stores nothing. -/
example : (machine.after emptyVault [.arrive 0 true (putKey "user"), .read 0 (.answered ()),
    .write 0 (.answered ()), .arrive 1 true ⟨.delete, some "shared/db", some "toString", none⟩,
    .read 1 (.answered ()), .write 1 (.answered ()), .arrive 2 true (putKey "__proto__"),
    .read 2 (.answered ()), .write 2 (.answered ())]).answers.map (fun p => p.2.status) =
      [200, 200, 200] := by decide

example : (machine.after emptyVault crossed).look "shared/db" "user" = none ∧
    (machine.after emptyVault crossed).accepted.length = 2 := by decide

theorem no_write_undone_iff_crossed :
    (∀ pre u, pre <+: crossed → machine.Run emptyVault pre u → InSync emptyVault u) ↔
      machine.RunIf State.Current emptyVault crossed (machine.after emptyVault crossed) :=
  no_write_undone_iff ⟨rfl, rfl, rfl⟩ (Machine.run_after (by decide))

def Event.index : Event → ℕ
  | .arrive i _ _ | .read i _ | .write i _ => i

def separateCheck (s : State) (e : Event) : Bool :=
  e.index < 3 &&
    match e with
    | .read i _ =>
      match s.calls i with
      | some (.reading op) => op.key ≠ "__proto__" && (List.range 3).all fun j =>
        match s.calls j with
        | some (.writing op' _) => op'.path ≠ op.path
        | _ => true
      | _ => true
    | _ => true

theorem separate_of_check {s : State} {e : Event} (hbound : ∀ j, 3 ≤ j → s.calls j = none)
    (h : separateCheck s e = true) : s.Separate e ∧ e.index < 3 := by
  obtain ⟨hindex, hcheck⟩ := Bool.and_eq_true_iff.mp h
  refine ⟨?_, of_decide_eq_true hindex⟩
  cases e with
  | read i fate =>
    intro op hcall
    simp only [hcall, Bool.and_eq_true, decide_eq_true_eq, List.all_eq_true, List.mem_range] at hcheck
    obtain ⟨hkey, hcheck⟩ := hcheck
    refine ⟨hkey, fun j op' existing hj => ?_⟩
    have hlt : j < 3 := by
      by_contra hge
      rw [hbound j (by omega)] at hj
      cases hj
    have hne := hcheck j hlt
    rw [hj] at hne
    simpa using hne
  | _ => trivial

theorem calls_of_step {s t : State} {e : Event} (h : s.step e = some t) {j : ℕ} (hj : j ≠ e.index) :
    t.calls j = s.calls j := by
  have hupdate : ∃ stage, t.calls = Function.update s.calls e.index stage := by
    cases e with
    | arrive i configured req =>
      simp only [State.step] at h
      split at h
      · cases h
      · split at h
        · cases h
          exact ⟨_, rfl⟩
        · split at h <;> cases h
          exact ⟨_, rfl⟩
    | read i fate =>
      simp only [State.step] at h
      split at h
      · split at h
        · split at h <;> cases h <;> exact ⟨_, rfl⟩
        · cases h
          exact ⟨_, rfl⟩
      · cases h
    | write i fate =>
      simp only [State.step] at h
      split at h
      · cases fate <;> cases h <;> exact ⟨_, rfl⟩
      · cases h
  obtain ⟨stage, hcalls⟩ := hupdate
  rw [hcalls, Function.update_of_ne hj]

theorem successive_separate :
    machine.RunIf State.Separate emptyVault successive (machine.after emptyVault successive) := by
  have hrun := Machine.runIf_of_accepts (M := machine) (C := separateCheck)
    (I := fun s => ∀ j, 3 ≤ j → s.calls j = none) (fun _ _ => separate_of_check) ?_ (s := emptyVault)
    (fun _ _ => rfl) (by decide : machine.accepts separateCheck emptyVault successive = true)
  · exact hrun.weaken fun _ _ hok => hok.1
  · intro s e t hs hok hstep j hj
    rw [calls_of_step hstep (by omega)]
    exact hs j hj

theorem in_sync_of_separate_successive :
    InSync emptyVault (machine.after emptyVault successive) ∧
      ∀ op ∈ (machine.after emptyVault successive).accepted,
        op ∈ (machine.after emptyVault successive).written :=
  in_sync_of_separate ⟨rfl, rfl, rfl⟩ successive_separate

end Samples

end Hill90.Vault
