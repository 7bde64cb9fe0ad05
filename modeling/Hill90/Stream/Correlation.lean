import Hill90.Stream.Connection

/-! # Events of a thread

`GET /threads/:id/events` while it follows the logs of the agents: the ids of the thread's messages
are read when the stream opens and then, by a timer, above a watermark.  An event is sent if its
message is known when its line arrives.
-/

namespace Hill90.Stream

open Chat (Message Uuid)

/-- What is read of an event: `correlation_id` and `metadata.message_id`. -/
structure LoggedEvent where
  correlationId : Option Uuid := none
  messageId : Option Uuid := none
  deriving DecidableEq

def LoggedEvent.cid (e : LoggedEvent) : Option Uuid := e.correlationId.or e.messageId

/-- A line that is no JSON is skipped; `null` makes the listener throw. -/
inductive LogLine where
  | malformed
  | null
  | event (e : LoggedEvent)
  deriving DecidableEq

/-- A query of the refresh, asked above the watermark of its time. -/
inductive Refresh where
  | asked (since : ℤ)
  | answered (rows : List Message)

/-- An event that has arrived about a message: whether the message was there, and whether it was
sent on. -/
structure Arrival where
  cid : Uuid
  inserted : Bool
  forwarded : Bool
  deriving DecidableEq

structure Correlation where
  messages : Messages
  threadId : Uuid
  threadMessageIds : List Uuid
  lastSeenSeq : ℤ
  refreshes : ℕ → Option Refresh
  live : Bool := true
  arrived : List Arrival := []

inductive CorrelationMove where
  | act (a : Ledger.Action Message)
  | tick (j : ℕ)
  | execute (j : ℕ)
  | resume (j : ℕ)
  | fail (j : ℕ)
  | line (x : LogLine)

def threadRows (l : Messages) (threadId : Uuid) : List Message :=
  l.select fun m => m.threadId = threadId

/-- The watermark after rows, whatever their order. -/
def watermark (lastSeenSeq : ℤ) (rows : List Message) : ℤ :=
  rows.foldl (fun high r => if (r.seq : ℤ) > high then r.seq else high) lastSeenSeq

namespace Correlation

variable (S : Correlation)

def Inserted (id : Uuid) : Prop := ∃ v ∈ S.messages.log, v.threadId = S.threadId ∧ v.id = id

instance (id : Uuid) : Decidable (S.Inserted id) :=
  inferInstanceAs (Decidable (∃ v ∈ S.messages.log, v.threadId = S.threadId ∧ v.id = id))

def setRefresh (j : ℕ) (r : Option Refresh) : Correlation :=
  { S with refreshes := Function.update S.refreshes j r }

def handle (e : LoggedEvent) : Correlation :=
  match e.cid with
  | none => S
  | some cid =>
    { S with arrived := S.arrived ++ [⟨cid, decide (S.Inserted cid), decide (cid ∈ S.threadMessageIds)⟩] }

def learn (rows : List Message) : Correlation :=
  { S with
    threadMessageIds := S.threadMessageIds ++ rows.map Message.id
    lastSeenSeq := watermark S.lastSeenSeq rows }

def step : CorrelationMove → Option Correlation
  | .act a => (S.messages.act a).map fun messages => { S with messages }
  | .tick j =>
    match S.refreshes j with
    | none => some (S.setRefresh j (some (.asked S.lastSeenSeq)))
    | some _ => none
  | .execute j =>
    match S.refreshes j with
    | some (.asked since) =>
      some (S.setRefresh j (some (.answered (pollRows S.messages S.threadId since))))
    | _ => none
  | .resume j =>
    match S.refreshes j with
    | some (.answered rows) => some ((S.setRefresh j none).learn rows)
    | _ => none
  | .fail j => (S.refreshes j).map fun _ => S.setRefresh j none
  | .line x =>
    if S.live then
      match x with
      | .malformed => some S
      | .null => some { S with live := false }
      | .event e => some (S.handle e)
    else none

def opened (messages : Messages) (threadId : Uuid) : Correlation where
  messages := messages
  threadId := threadId
  threadMessageIds := (threadRows messages threadId).map Message.id
  lastSeenSeq := watermark 0 (threadRows messages threadId)
  refreshes := fun _ => none

def machine : Machine Correlation CorrelationMove where
  initial S := ∃ messages threadId, S = opened messages threadId
  step := step

def Correlated : Prop := ∀ x ∈ S.arrived, x.inserted = true → x.forwarded = true

/-- A version above the watermark and above all that is being read. -/
def Ahead (v : Message) : Prop :=
  S.lastSeenSeq < v.seq ∧ ∀ j rows, S.refreshes j = some (.answered rows) → ∀ r ∈ rows, r.seq < v.seq

/-- A transaction shows no unknown message below the watermark, and an event about a message arrives
when the watermark has reached it. -/
def Timely : CorrelationMove → Prop
  | .act a => ∀ v ∈ S.messages.shown a, v.threadId = S.threadId → v.id ∈ S.threadMessageIds ∨ S.Ahead v
  | .line (.event e) => ∀ cid, e.cid = some cid → S.Inserted cid →
    ∃ v ∈ S.messages.log, v.threadId = S.threadId ∧ v.id = cid ∧ v.seq ≤ S.lastSeenSeq
  | _ => True

/-- What a refresh in flight will have left out is known. -/
def Reads : Refresh → Prop
  | .asked since => since ≤ S.lastSeenSeq
  | .answered rows => ∀ v ∈ S.messages.log, v.threadId = S.threadId → (∃ r ∈ rows, v.seq ≤ r.seq) →
    v.id ∈ S.threadMessageIds ∨ v.id ∈ rows.map Message.id

structure Tracked : Prop where
  known : ∀ v ∈ S.messages.log, v.threadId = S.threadId → v.seq ≤ S.lastSeenSeq →
    v.id ∈ S.threadMessageIds
  reads : ∀ j r, S.refreshes j = some r → S.Reads r
  correlated : S.Correlated

variable {S}

theorem le_watermark_iff {n high : ℤ} {rows : List Message} :
    n ≤ watermark high rows ↔ n ≤ high ∨ ∃ r ∈ rows, n ≤ (r.seq : ℤ) := by
  induction rows generalizing high with
  | nil => simp [watermark]
  | cons r rows ih =>
    have hfold : watermark high (r :: rows) = watermark (if (r.seq : ℤ) > high then r.seq else high) rows := rfl
    simp only [hfold, ih, List.mem_cons, exists_eq_or_imp, ← or_assoc]
    refine or_congr_left ?_
    split <;> omega

/-- A message of the thread above `since` is read, in its last version. -/
theorem exists_mem_pollRows {l : Messages} {threadId : Uuid} {since : ℤ} {v : Message} (hv : v ∈ l.log)
    (hthread : v.threadId = threadId) (hsince : since < v.seq) :
    ∃ w ∈ pollRows l threadId since, w.id = v.id := by
  obtain ⟨w, hw, hkey, _⟩ := Ledger.exists_mem_select (q := fun m => m.threadId = threadId && since < m.seq)
    hv fun w hkey hle => by
      have hw : w.threadId = v.threadId := congrArg Prod.fst hkey
      simp only [Bool.and_eq_true, decide_eq_true_eq]
      exact ⟨hw.trans hthread, by omega⟩
  exact ⟨w, hw, congrArg Prod.snd hkey⟩

theorem Tracked.setRefresh (h : S.Tracked) (j : ℕ) {r : Option Refresh}
    (hr : ∀ r', r = some r' → S.Reads r') : (S.setRefresh j r).Tracked := by
  refine ⟨h.known, fun i r' hi => ?_, h.correlated⟩
  have hi' : Function.update S.refreshes j r i = some r' := hi
  rw [Function.update_apply] at hi'
  split at hi'
  · exact hr r' hi'
  · exact h.reads i r' hi'

theorem Tracked.grow {messages : Messages} {new : List Message} (h : S.Tracked)
    (hlog : messages.log = S.messages.log ++ new)
    (hnew : ∀ v ∈ new, v.threadId = S.threadId → v.id ∈ S.threadMessageIds ∨ S.Ahead v) :
    ({ S with messages } : Correlation).Tracked := by
  refine ⟨fun v hv hthread hle => ?_, fun j r hj => ?_, h.correlated⟩
  · change v ∈ messages.log at hv
    rw [hlog] at hv
    obtain hv | hv := List.mem_append.mp hv
    · exact h.known v hv hthread hle
    · obtain hknown | hahead := hnew v hv hthread
      · exact hknown
      · exact absurd hle (not_le.mpr hahead.1)
  · have hreads := h.reads j r hj
    cases r with
    | asked since => exact hreads
    | answered rows =>
      intro v hv hthread hbelow
      change v ∈ messages.log at hv
      rw [hlog] at hv
      obtain hv | hv := List.mem_append.mp hv
      · exact hreads v hv hthread hbelow
      · obtain hknown | hahead := hnew v hv hthread
        · exact .inl hknown
        · obtain ⟨r, hr, hle⟩ := hbelow
          exact absurd hle (not_le.mpr (hahead.2 j rows hj r hr))

theorem reads_pollRows {since : ℤ} (h : S.Tracked) (hsince : since ≤ S.lastSeenSeq) :
    S.Reads (.answered (pollRows S.messages S.threadId since)) := by
  intro v hv hthread _
  by_cases hle : (v.seq : ℤ) ≤ since
  · exact .inl (h.known v hv hthread (hle.trans hsince))
  · obtain ⟨w, hw, hid⟩ := exists_mem_pollRows hv hthread (not_le.mp hle)
    exact .inr (List.mem_map.mpr ⟨w, hw, hid⟩)

/-- The watermark passes what the rows make known. -/
theorem Tracked.learn {rows : List Message} (h : S.Tracked) (hrows : S.Reads (.answered rows)) :
    (S.learn rows).Tracked := by
  have hgrows : ∀ id ∈ S.threadMessageIds, id ∈ (S.learn rows).threadMessageIds := fun id hid =>
    List.mem_append_left _ hid
  refine ⟨fun v hv hthread hle => ?_, fun j r hj => ?_, h.correlated⟩
  · obtain hle | ⟨r, hr, hle⟩ := le_watermark_iff.mp hle
    · exact hgrows _ (h.known v hv hthread hle)
    · exact List.mem_append.mpr (hrows v hv hthread ⟨r, hr, by exact_mod_cast hle⟩)
  · have hreads := h.reads j r hj
    cases r with
    | asked since => exact le_watermark_iff.mpr (.inl hreads)
    | answered rows' =>
      exact fun v hv hthread hbelow => (hreads v hv hthread hbelow).imp_left (hgrows v.id)

theorem Tracked.handle {e : LoggedEvent} (h : S.Tracked) (ht : S.Timely (.line (.event e))) :
    (S.handle e).Tracked := by
  unfold Correlation.handle
  split
  · exact h
  · rename_i cid hcid
    refine ⟨h.known, h.reads, fun x hx hinserted => ?_⟩
    obtain hx | hx := List.mem_append.mp hx
    · exact h.correlated x hx hinserted
    · obtain rfl := List.mem_singleton.mp hx
      obtain ⟨v, hv, hthread, rfl, hle⟩ := ht cid hcid (of_decide_eq_true hinserted)
      exact decide_eq_true (h.known v hv hthread hle)

theorem Tracked.step {T : Correlation} {a : CorrelationMove} (h : S.Tracked) (ht : S.Timely a)
    (hstep : S.step a = some T) : T.Tracked := by
  cases a with
  | act a =>
    obtain ⟨messages, hact, rfl⟩ := Option.map_eq_some_iff.mp hstep
    exact h.grow (Ledger.log_of_act hact) ht
  | tick j =>
    simp only [Correlation.step] at hstep
    split at hstep
    · cases hstep
      refine h.setRefresh j fun r hr => ?_
      cases hr
      exact le_refl S.lastSeenSeq
    · cases hstep
  | execute j =>
    simp only [Correlation.step] at hstep
    split at hstep
    · rename_i since hj
      cases hstep
      refine h.setRefresh j fun r hr => ?_
      cases hr
      exact reads_pollRows h (h.reads j _ hj)
    · cases hstep
  | resume j =>
    simp only [Correlation.step] at hstep
    split at hstep
    · rename_i rows hj
      cases hstep
      exact (h.setRefresh j (by simp)).learn (h.reads j _ hj)
    · cases hstep
  | fail j =>
    obtain ⟨_, _, rfl⟩ := Option.map_eq_some_iff.mp hstep
    exact h.setRefresh j (by simp)
  | line x =>
    obtain ⟨_, hx⟩ := Option.ite_none_right_eq_some.mp hstep
    cases x with
    | malformed =>
      cases hx
      exact h
    | null =>
      cases hx
      exact ⟨h.known, h.reads, h.correlated⟩
    | event e =>
      cases hx
      exact h.handle ht

theorem tracked_opened (messages : Messages) (threadId : Uuid) : (opened messages threadId).Tracked := by
  refine ⟨fun v hv hthread _ => ?_, (fun j r hj => by cases hj), nofun⟩
  obtain ⟨w, hw, hkey, _⟩ := Ledger.exists_mem_select (q := fun m : Message => decide (m.threadId = threadId))
    hv fun w hkey _ => decide_eq_true ((congrArg Prod.fst hkey).trans hthread)
  exact List.mem_map.mpr ⟨w, hw, congrArg Prod.snd hkey⟩

/-- An event about a message of the thread is sent on, in every schedule in which the message comes
in order and the event not before the watermark has reached it. -/
theorem events_forwarded (h : machine.ReachableIf Timely S) : S.Correlated := by
  have htracked : S.Tracked := by
    apply h.invariant
    · rintro S ⟨messages, threadId, rfl⟩
      exact tracked_opened messages threadId
    · exact fun S a T hS ht hstep => hS.step ht hstep
  exact htracked.correlated

/-- The moves pass, as a check on a state. -/
def timelyNow (S : Correlation) : CorrelationMove → Bool
  | .act _ => false
  | .line (.event e) => e.cid.all fun cid => S.messages.log.any fun v =>
    v.threadId = S.threadId && v.id = cid && decide ((v.seq : ℤ) ≤ S.lastSeenSeq)
  | _ => true

theorem timely_of_check {a : CorrelationMove} (h : S.timelyNow a = true) : S.Timely a := by
  cases a with
  | act a => cases h
  | line x =>
    cases x with
    | malformed | null => trivial
    | event e =>
      intro cid hcid _
      have hall : e.cid.all (fun cid => S.messages.log.any fun v =>
        v.threadId = S.threadId && v.id = cid && decide ((v.seq : ℤ) ≤ S.lastSeenSeq)) = true := h
      rw [hcid] at hall
      obtain ⟨v, hv, hrest⟩ := List.any_eq_true.mp hall
      simp only [Bool.and_eq_true, decide_eq_true_eq] at hrest
      exact ⟨v, hv, hrest.1.1, hrest.1.2, hrest.2⟩
  | tick | execute | resume | fail => trivial

def greeting : Message :=
  { id := 7, seq := 1, threadId := 1, authorId := 3, authorType := .human, role := .user
    content := "hi", status := .complete, createdAt := 0, updatedAt := 0 }

def greeted : Messages := ((Ledger.empty.write 0 greeting).getD Ledger.empty).commit 0

/-- A second message, written and shown while the stream is open. -/
def inserts : List CorrelationMove := [.act (.write 1 { greeting with id := 8, seq := 2 }), .act (.commit 1)]

def answered : List CorrelationMove :=
  [.tick 0, .execute 0, .resume 0, .line (.event { correlationId := some 7 }),
    .line (.event { correlationId := some 8 })]

theorem timely_act {a : Ledger.Action Message} (hnone : ∀ j, S.refreshes j = none)
    (h : ∀ v ∈ S.messages.shown a, S.lastSeenSeq < v.seq) : S.Timely (.act a) := by
  refine fun v hv _ => .inr ⟨h v hv, fun j rows hj => ?_⟩
  rw [hnone j] at hj
  cases hj

theorem events_forwarded_greeted :
    (machine.after (machine.after (opened greeted 1) inserts) answered).Correlated := by
  have hinserts : machine.ReachableIf Timely (machine.after (opened greeted 1) inserts) := by
    refine ⟨opened greeted 1, inserts, ⟨greeted, 1, rfl⟩, ?_⟩
    have hwrite : machine.RunIf Timely (opened greeted 1) [.act (.write 1 { greeting with id := 8, seq := 2 })]
        (machine.after (opened greeted 1) [.act (.write 1 { greeting with id := 8, seq := 2 })]) :=
      .single (timely_act (fun _ => rfl) (by decide +kernel))
        (@Machine.step_after _ _ machine _ [] _ (by decide +kernel))
    exact hwrite.append (.single (timely_act (fun _ => rfl) (by decide +kernel))
      (@Machine.step_after _ _ machine _ [_] _ (by decide +kernel)))
  have hrun : machine.RunIf Timely (machine.after (opened greeted 1) inserts) answered
      (machine.after (machine.after (opened greeted 1) inserts) answered) :=
    Machine.runIf_of_accepts (I := fun _ => True) (fun _ _ _ hc => timely_of_check hc)
      (fun _ _ _ _ _ _ => trivial) trivial (by decide +kernel)
  exact events_forwarded (hinserts.trans hrun)

/-- The agent answers a message before the next refresh: its event is dropped. -/
theorem early_event_dropped : ¬∀ S, machine.Reachable S → S.Correlated := by
  intro h
  have hreach : machine.Reachable (machine.after (opened Ledger.empty 1)
      [.act (.write 0 greeting), .act (.commit 0), .line (.event { correlationId := some 7 })]) :=
    ⟨_, _, ⟨Ledger.empty, 1, rfl⟩, Machine.run_after (by decide +kernel)⟩
  have hcorrelated := h _ hreach ⟨7, true, false⟩ (by decide +kernel) rfl
  cases hcorrelated

end Correlation

end Hill90.Stream
