import Hill90.Foundation.Machine
import Hill90.Knowledge.Store
import Hill90.Knowledge.Wrapping

/-! # The journal of a day

`append_journal` of `routes/journal.py` and its twin of `routes/internal_admin.py`, one statement at a
time: the journal is read, a section is added to what was read, and the whole is written.
-/

namespace Hill90.Knowledge.Journal

/-- A call through the agent's route or through the internal one, which do the same. -/
structure Append where
  now : String
  content : String
  deriving DecidableEq

def Append.text (q : Append) : String := s!"\n\n## {q.now}\n\n{q.content}"

inductive Phase where
  | asked
  | composed (base : Option String) (title : String)
  | stored
  deriving DecidableEq

/-- A call in flight; `before` are the calls that had been answered when it arrived. -/
structure Call where
  request : Append
  before : List ℕ
  phase : Phase
  deriving DecidableEq

/-- A write that took effect. -/
structure Logged where
  id : ℕ
  request : Append
  before : List ℕ
  deriving DecidableEq

/-- The table with the calls in flight.  `start` is the body at first, `log` the writes in their
order and `acknowledged` the calls that were answered 201. -/
structure State where
  start : Option String
  entries : Entries
  calls : ℕ → Option Call := fun _ => none
  arrivals : ℕ := 0
  log : List Logged := []
  acknowledged : List ℕ := []

inductive Event where
  | arrive (q : Append)
  | read (i : ℕ)
  | write (i : ℕ)
  | unheard (i : ℕ)
  | answer (i : ℕ)
  | drop (i : ℕ)
  | archive
  deriving DecidableEq

section Source

variable (lib : Loader) (today : String) (k : Key)

def compose (base : Option String) (q : Append) : String :=
  match base with
  | some body => body ++ q.text
  | none => journalDocument today q.now q.content

def body (t : Entries) : Option String := (t k).map Entry.body

def store (t : Entries) (base : Option String) (content title : String) : Option Entries :=
  match base with
  | some _ => updateEntry t k content title
  | none => insertEntry t k content title

namespace State

variable (s : State)

def setCall (i : ℕ) (call : Option Call) : State :=
  { s with calls := Function.update s.calls i call }

def written (i : ℕ) (call : Call) (entries : Entries) : State :=
  { s with
    entries := entries
    log := s.log ++ [⟨i, call.request, call.before⟩] }

/-- The write of a call; one that finds no row to update, or the key taken, ends the call. -/
def writes (i : ℕ) (heard : Bool) : Option State :=
  match s.calls i with
  | some ⟨q, before, .composed base title⟩ =>
    match store k s.entries base (compose today base q) title with
    | none => some (s.setCall i none)
    | some entries =>
      some ((s.written i ⟨q, before, .stored⟩ entries).setCall i
        (if heard then some ⟨q, before, .stored⟩ else none))
  | _ => none

def step : Event → Option State
  | .arrive q =>
    some { s.setCall s.arrivals (some ⟨q, s.acknowledged, .asked⟩) with arrivals := s.arrivals + 1 }
  | .read i =>
    match s.calls i with
    | some ⟨q, before, .asked⟩ =>
      let base := (selectEntry s.entries k).map Entry.body
      match rowTitle lib (compose today base q) with
      | .error _ => some (s.setCall i none)
      | .ok title => some (s.setCall i (some ⟨q, before, .composed base title⟩))
    | _ => none
  | .write i => s.writes today k i true
  | .unheard i => s.writes today k i false
  | .answer i =>
    match s.calls i with
    | some ⟨_, _, .stored⟩ => some { s.setCall i none with acknowledged := i :: s.acknowledged }
    | _ => none
  | .drop i => (s.calls i).map fun _ => s.setCall i none
  | .archive => (archiveEntry s.entries k).map fun entries => { s with entries }

end State

def machine : Machine State Event where
  initial s := ∃ entries, s = { start := body k entries, entries }
  step := State.step lib today k

def journalOf (start : Option String) (qs : List Append) : Option String :=
  qs.foldl (fun base q => some (compose today base q)) start

/-- The body is that of all writes in their order, every answered call is among them, none is there
twice, and a call that was answered before another arrived precedes it. -/
structure State.Complete (s : State) : Prop where
  body : body k s.entries = journalOf today s.start (s.log.map Logged.request)
  acknowledged : ∀ i ∈ s.acknowledged, i ∈ s.log.map Logged.id
  once : (s.log.map Logged.id).Nodup
  ordered : ∀ pre x post, s.log = pre ++ x :: post → ∀ i ∈ x.before, i ∈ pre.map Logged.id

/-- An update finds the body that its call has read. -/
def State.Orderly (s : State) : Event → Prop
  | .write i | .unheard i =>
    ∀ q before base title, s.calls i = some ⟨q, before, .composed (some base) title⟩ →
      ∀ e, selectEntry s.entries k = some e → e.body = base
  | _ => True

end Source

section Invariant

variable {lib : Loader} {today : String} {k : Key} {s t : State} {i : ℕ} {call : Call} {e : Event}

def State.ids (s : State) : List ℕ := s.log.map Logged.id

/-- A call in flight has been written once or not at all, and what precedes it has. -/
structure State.Holds (s : State) (i : ℕ) (call : Call) : Prop where
  bound : i < s.arrivals
  written : call.phase = .stored ↔ i ∈ s.ids
  before : ∀ j ∈ call.before, j ∈ s.ids

structure State.Kept (today : String) (k : Key) (s : State) : Prop extends s.Complete today k where
  bound : ∀ i ∈ s.ids, i < s.arrivals
  calls : ∀ i call, s.calls i = some call → s.Holds i call

theorem calls_setCall (s : State) (i j : ℕ) (call : Option Call) :
    (s.setCall i call).calls j = if j = i then call else s.calls j :=
  Function.update_apply _ _ _ _

theorem setCall_ids (s : State) (i : ℕ) (call : Option Call) : (s.setCall i call).ids = s.ids := rfl

theorem State.Kept.setCall (h : s.Kept today k) {new : Option Call}
    (hnew : ∀ call, new = some call → s.Holds i call) : (s.setCall i new).Kept today k where
  body := h.body
  acknowledged := h.acknowledged
  once := h.once
  ordered := h.ordered
  bound := h.bound
  calls j call hcall := by
    rw [calls_setCall] at hcall
    split at hcall
    · rename_i hj
      subst hj
      obtain ⟨hbound, hwritten, hbefore⟩ := hnew call hcall
      exact ⟨hbound, hwritten, hbefore⟩
    · obtain ⟨hbound, hwritten, hbefore⟩ := h.calls j call hcall
      exact ⟨hbound, hwritten, hbefore⟩

theorem State.Kept.end (h : s.Kept today k) : (s.setCall i none).Kept today k :=
  h.setCall fun _ hcall => by cases hcall

theorem store_body {u u' : Entries} {base : Option String} {content title : String}
    (h : store k u base content title = some u') : body k u' = some content := by
  cases base with
  | none =>
    obtain ⟨-, rfl⟩ := insertEntry_eq_some h
    simp [body]
  | some b =>
    obtain ⟨e, -, -, rfl⟩ := updateEntry_eq_some h
    simp [body]

/-- What a write takes the place of: no row at all, or the active one. -/
theorem store_base {u u' : Entries} {base : Option String} {content title : String}
    (h : store k u base content title = some u')
    (hbase : ∀ b, base = some b → ∀ e, selectEntry u k = some e → e.body = b) :
    body k u = base := by
  cases base with
  | none =>
    obtain ⟨hfree, -⟩ := insertEntry_eq_some h
    simp [body, hfree]
  | some b =>
    obtain ⟨e, hrow, hactive, -⟩ := updateEntry_eq_some h
    have hb := hbase b rfl e (selectEntry_eq_some.mpr ⟨hrow, hactive⟩)
    simp [body, hrow, hb]

theorem journalOf_append (start : Option String) (qs : List Append) (q : Append) :
    journalOf today start (qs ++ [q]) = some (compose today (journalOf today start qs) q) := by
  simp [journalOf]

theorem State.Kept.written (h : s.Kept today k) {q : Append} {before : List ℕ} {phase : Phase}
    (hcall : s.calls i = some ⟨q, before, phase⟩) (hphase : phase ≠ .stored)
    {u : Entries} {base : Option String} {title : String}
    (hstore : store k s.entries base (compose today base q) title = some u)
    (hbase : body k s.entries = base) {new : Option Call}
    (hnew : ∀ call, new = some call → call = ⟨q, before, .stored⟩) :
    ((s.written i ⟨q, before, .stored⟩ u).setCall i new).Kept today k := by
  obtain ⟨hbound, hunwritten, hbefore⟩ := h.calls i _ hcall
  have hi : i ∉ s.ids := fun hmem => hphase (hunwritten.mpr hmem)
  have hids : (s.written i ⟨q, before, .stored⟩ u).ids = s.ids ++ [i] := by
    simp [State.ids, State.written]
  have hmem : ∀ j ∈ s.ids, j ∈ (s.written i ⟨q, before, .stored⟩ u).ids := by
    intro j hj
    rw [hids]
    exact List.mem_append_left _ hj
  constructor
  · constructor
    · change body k u = journalOf today s.start ((s.log ++ [_]).map Logged.request)
      rw [store_body hstore, List.map_append, List.map_singleton, journalOf_append, ← h.body, hbase]
    · exact fun j hj => hmem j (h.acknowledged j hj)
    · change ((s.log ++ [_]).map Logged.id).Nodup
      rw [List.map_append, List.nodup_append]
      exact ⟨h.once, by simp, by simpa [State.ids] using hi⟩
    · intro pre x post hlog j hj
      change s.log ++ [⟨i, q, before⟩] = pre ++ x :: post at hlog
      obtain rfl | ⟨post, y, rfl⟩ := List.eq_nil_or_concat post
      · obtain ⟨rfl, hx⟩ := List.append_inj' hlog rfl
        cases hx
        exact hbefore j hj
      · rw [List.concat_eq_append, ← List.cons_append, ← List.append_assoc] at hlog
        obtain ⟨hpre, -⟩ := List.append_inj' hlog rfl
        exact h.ordered pre x post hpre j hj
  · intro j hj
    rw [setCall_ids, hids, List.mem_append, List.mem_singleton] at hj
    obtain hj | rfl := hj
    · exact h.bound j hj
    · exact hbound
  · intro j call hj
    rw [calls_setCall] at hj
    split at hj
    · rename_i hji
      subst hji
      obtain rfl := hnew call hj
      refine ⟨hbound, ?_, fun m hm => hmem m (hbefore m hm)⟩
      rw [setCall_ids, hids]
      simp
    · rename_i hne
      obtain ⟨hjbound, hjwritten, hjbefore⟩ := h.calls j call hj
      refine ⟨hjbound, ?_, fun m hm => hmem m (hjbefore m hm)⟩
      rw [hjwritten, setCall_ids, hids, List.mem_append, List.mem_singleton, or_iff_left hne]

theorem State.Kept.grow (h : s.Kept today k) :
    ({ s with arrivals := s.arrivals + 1 } : State).Kept today k where
  body := h.body
  acknowledged := h.acknowledged
  once := h.once
  ordered := h.ordered
  bound j hj := Nat.lt_succ_of_lt (h.bound j hj)
  calls j call hj := by
    obtain ⟨hbound, hwritten, hbefore⟩ := h.calls j call hj
    exact ⟨Nat.lt_succ_of_lt hbound, hwritten, hbefore⟩

theorem kept_writes (h : s.Kept today k) {heard : Bool}
    (hok : ∀ q before base title, s.calls i = some ⟨q, before, .composed (some base) title⟩ →
      ∀ e, selectEntry s.entries k = some e → e.body = base)
    (hstep : s.writes today k i heard = some t) : t.Kept today k := by
  unfold State.writes at hstep
  split at hstep
  · rename_i q before base title hcall
    split at hstep
    · cases hstep
      exact h.end
    · rename_i u hstore
      cases hstep
      have hbase : body k s.entries = base := by
        apply store_base hstore
        rintro b rfl
        exact hok q before b title hcall
      apply h.written hcall (by simp) hstore hbase
      intro call hcall'
      cases heard <;> cases hcall'
      rfl
  · cases hstep

theorem kept_step (h : s.Kept today k) (hok : s.Orderly k e)
    (hstep : (machine lib today k).step s e = some t) : t.Kept today k := by
  cases e with
  | arrive q =>
    cases hstep
    apply h.grow.setCall
    rintro call ⟨⟩
    refine ⟨Nat.lt_succ_self _, ?_, h.acknowledged⟩
    constructor
    · rintro ⟨⟩
    · intro hmem
      exact absurd (h.bound _ hmem) (Nat.lt_irrefl _)
  | read i =>
    simp only [machine, State.step] at hstep
    split at hstep
    · rename_i q before hcall
      split at hstep
      · cases hstep
        exact h.end
      · cases hstep
        apply h.setCall
        rintro call ⟨⟩
        obtain ⟨hbound, hwritten, hbefore⟩ := h.calls i _ hcall
        refine ⟨hbound, ?_, hbefore⟩
        rw [← hwritten]
        simp
    · cases hstep
  | write i => exact kept_writes h hok hstep
  | unheard i => exact kept_writes h hok hstep
  | answer i =>
    simp only [machine, State.step] at hstep
    split at hstep
    · rename_i q before hcall
      cases hstep
      have hi : i ∈ s.ids := (h.calls i _ hcall).written.mp rfl
      have hend := h.end (i := i)
      refine ⟨⟨hend.body, ?_, hend.once, hend.ordered⟩, hend.bound, ?_⟩
      · intro j hj
        obtain rfl | hj := List.mem_cons.mp hj
        · exact hi
        · exact h.acknowledged j hj
      · intro j call hj
        obtain ⟨hbound, hwritten, hbefore⟩ := hend.calls j call hj
        exact ⟨hbound, hwritten, hbefore⟩
    · cases hstep
  | drop i =>
    obtain ⟨call, -, rfl⟩ := Option.map_eq_some_iff.mp hstep
    exact h.end
  | archive =>
    obtain ⟨u, harchive, rfl⟩ := Option.map_eq_some_iff.mp hstep
    obtain ⟨e, hrow, -, rfl⟩ := archiveEntry_eq_some harchive
    refine ⟨⟨?_, h.acknowledged, h.once, h.ordered⟩, h.bound, ?_⟩
    · rw [← h.body]
      simp [body, hrow]
    · intro j call hj
      obtain ⟨hbound, hwritten, hbefore⟩ := h.calls j call hj
      exact ⟨hbound, hwritten, hbefore⟩

theorem kept_initial (h : (machine lib today k).initial s) : s.Kept today k := by
  obtain ⟨u, rfl⟩ := h
  refine ⟨⟨rfl, ?_, List.nodup_nil, ?_⟩, ?_, ?_⟩
  · rintro i ⟨⟩
  · intro pre x post hlog
    simp at hlog
  · rintro i ⟨⟩
  · rintro i call ⟨⟩

/-- If every update finds what its call has read, no append is lost. -/
theorem complete_of_orderly (h : (machine lib today k).ReachableIf (State.Orderly k) s) :
    s.Complete today k := by
  have hkept : s.Kept today k :=
    h.invariant (I := State.Kept today k) (fun _ => kept_initial) fun _ _ _ hs hok hstep =>
      kept_step hs hok hstep
  exact hkept.toComplete

end Invariant

section Runs

def journalKey : Key := ("agent", "journal/2026-08-01.md")

def oldJournal : State where
  start := some "---\ntitle: J\ntype: journal\n---\n"
  entries := Function.update (fun _ => none) journalKey
    (some ⟨"---\ntitle: J\ntype: journal\n---\n", "J", .active, .synced, 0⟩)

def first : Append := ⟨"1", "a"⟩

def second : Append := ⟨"2", "b"⟩

/-- Both calls read before either of them writes. -/
def overlapping : List Event :=
  [.arrive first, .arrive second, .read 0, .read 1, .write 0, .write 1, .answer 0, .answer 1]

def successive : List Event :=
  [.arrive first, .read 0, .write 0, .answer 0, .arrive second, .read 1, .write 1, .answer 1]

theorem initial_oldJournal : (machine loader "2026-08-01" journalKey).initial oldJournal :=
  ⟨oldJournal.entries, by simp [oldJournal, body]⟩

/-- The section of the call that writes first is lost, though both are answered 201. -/
theorem overlapping_not_complete :
    (machine loader "2026-08-01" journalKey).Reachable
        ((machine loader "2026-08-01" journalKey).after oldJournal overlapping) ∧
      ¬((machine loader "2026-08-01" journalKey).after oldJournal overlapping).Complete "2026-08-01"
        journalKey := by
  refine ⟨⟨oldJournal, overlapping, initial_oldJournal, Machine.run_after (by decide)⟩, ?_⟩
  intro h
  exact absurd h.body (by decide)

def orderlyCheck (s : State) : Event → Bool
  | .write i | .unheard i =>
    match s.calls i with
    | some ⟨_, _, .composed (some base) _⟩ =>
      (selectEntry s.entries journalKey).all fun e => e.body = base
    | _ => true
  | _ => true

theorem orderly_of_check {s : State} {e : Event} (h : orderlyCheck s e = true) :
    s.Orderly journalKey e := by
  cases e with
  | write i | unheard i =>
    intro q before base title hcall e he
    simpa [orderlyCheck, hcall, he] using h
  | _ => trivial

theorem complete_successive :
    ((machine loader "2026-08-01" journalKey).after oldJournal successive).Complete "2026-08-01"
      journalKey := by
  apply @complete_of_orderly loader
  exact Machine.reachableIf_of_accepts (C := orderlyCheck) (fun _ _ _ h => orderly_of_check h)
    initial_oldJournal (by decide)

end Runs

end Hill90.Knowledge.Journal
