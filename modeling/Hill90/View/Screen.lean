import Mathlib.Data.List.Nodup
import Hill90.Foundation.Machine

/-! # The messages a chat view shows

`ChatView.tsx`: the listeners of the event stream, Load older, and the change of the thread, as
updates of one list of messages.
-/

namespace Hill90.View

structure Message where
  id : String
  seq : ℤ
  deriving DecidableEq

structure Backfill where
  oldestSeqSent : Option ℤ
  hasOlder : Bool
  deriving DecidableEq

structure Fetch where
  threadId : String
  beforeSeq : ℤ
  deriving DecidableEq

/-- The answer to such a request; an error of any kind is ignored. -/
inductive Reply where
  | failed
  | page (messages : List Message) (hasOlder : Bool)
  deriving DecidableEq

/-- The mounted component.  `streamed` is the thread whose stream is open, and `delivered` what has
arrived since the thread is shown. -/
structure ChatView where
  threadId : String
  streamed : String
  messages : List Message := []
  backfill : Option Backfill := none
  loadingOlder : Bool := false
  fetches : List Fetch := []
  delivered : List Message := []
  deriving DecidableEq

inductive Event where
  | message (data : Option Message)
  | backfill (data : Option Backfill)
  | reconnect
  | loadOlder
  | response (i : ℕ) (reply : Reply)
  | prop (threadId : String)
  | effect
  deriving DecidableEq

def merge (prev : List Message) (msg : Message) : List Message :=
  match prev.findIdx? fun m => m.id = msg.id with
  | some idx => prev.set idx msg
  | none => prev ++ [msg]

def prepend (older prev : List Message) : List Message :=
  older.filter (fun m => m.id ∉ prev.map Message.id) ++ prev

def Reply.messages : Reply → List Message
  | failed => []
  | page messages _ => messages

/-- A page holds messages of the thread it was asked for, below the cursor. -/
def Fetch.answeredBy (threadOf : String → String) (f : Fetch) (reply : Reply) : Bool :=
  reply.messages.all (fun m => threadOf m.id = f.threadId && decide (m.seq < f.beforeSeq)) &&
    decide (reply.messages.map Message.id).Nodup

namespace ChatView

def receive (V : ChatView) (msg : Message) : ChatView :=
  { V with messages := merge V.messages msg, delivered := V.delivered ++ [msg] }

/-- `loadOlder`, up to its request. -/
def loadOlder (V : ChatView) : ChatView :=
  match V.backfill.bind Backfill.oldestSeqSent with
  | none => V
  | some oldest =>
    if V.loadingOlder then V
    else { V with loadingOlder := true, fetches := V.fetches ++ [⟨V.threadId, oldest⟩] }

def respond (V : ChatView) : Reply → ChatView
  | .failed => { V with loadingOlder := false }
  | .page [] _ =>
    { V with
      backfill := V.backfill.map fun b => { b with hasOlder := false }
      loadingOlder := false }
  | .page (m :: older) hasOlder =>
    { V with
      messages := prepend (m :: older) V.messages
      backfill := V.backfill.map fun _ => ⟨some m.seq, hasOlder⟩
      loadingOlder := false
      delivered := V.delivered ++ m :: older }

variable (threadOf : String → String)

/-- A stream sends messages of its thread.  Neither a click nor a new thread overtakes the effects of
the last one, which close its stream and open that of the thread that is shown. -/
def step (V : ChatView) : Event → Option ChatView
  | .message none | .backfill none | .reconnect => some V
  | .message (some msg) => if threadOf msg.id = V.streamed then some (V.receive msg) else none
  | .backfill (some b) => some { V with backfill := some b }
  | .loadOlder => if V.streamed = V.threadId then some V.loadOlder else none
  | .response i reply =>
    match V.fetches[i]? with
    | some f =>
      if f.answeredBy threadOf reply then
        some ({ V with fetches := V.fetches.eraseIdx i }.respond reply)
      else none
    | none => none
  | .prop threadId =>
    if V.streamed = V.threadId ∧ threadId ≠ V.threadId then some { V with threadId, delivered := [] }
    else none
  | .effect =>
    if V.streamed = V.threadId then none
    else some { V with streamed := V.threadId, backfill := none }

def mounted (threadId : String) : ChatView := { threadId, streamed := threadId }

end ChatView

def machine (threadOf : String → String) : Machine ChatView Event where
  initial V := ∃ threadId, V = .mounted threadId
  step := ChatView.step threadOf

/-- Each message is shown once, in the thread it belongs to, and in the newest version that has been
delivered. -/
structure Showing (threadOf : String → String) (V : ChatView) : Prop where
  distinct : (V.messages.map Message.id).Nodup
  own : ∀ m ∈ V.messages, threadOf m.id = V.threadId
  real : ∀ m ∈ V.messages, m ∈ V.delivered
  newest : ∀ m ∈ V.messages, ∀ d ∈ V.delivered, d.id = m.id → d.seq ≤ m.seq
  shown : ∀ d ∈ V.delivered, threadOf d.id = V.threadId → ∃ m ∈ V.messages, m.id = d.id

/-- A frame arrives on the stream of the thread that is shown, with no older version than the one
shown.  A page with a message that is not shown arrives for the thread that is shown, and no page
has a newer version than the one shown.  The thread changes while no message is shown. -/
def Steady (V : ChatView) : Event → Prop
  | .message (some msg) =>
    V.streamed = V.threadId ∧ ∀ m ∈ V.messages, m.id = msg.id → m.seq ≤ msg.seq
  | .response i reply =>
    ∀ f, V.fetches[i]? = some f → ∀ d ∈ reply.messages,
      (d.id ∉ V.messages.map Message.id → f.threadId = V.threadId) ∧
        ∀ m ∈ V.messages, d.id = m.id → d.seq ≤ m.seq
  | .prop _ => V.messages = []
  | _ => True

section Updates

variable {prev older : List Message} {msg m : Message}

/-- The listener replaces the message it finds, or appends. -/
theorem merge_splits (prev : List Message) (msg : Message) :
    (∃ l₁ x l₂, prev = l₁ ++ x :: l₂ ∧ x.id = msg.id ∧ merge prev msg = l₁ ++ msg :: l₂) ∨
      (∀ m ∈ prev, m.id ≠ msg.id) ∧ merge prev msg = prev ++ [msg] := by
  unfold merge
  cases hidx : prev.findIdx? fun m => m.id = msg.id with
  | none =>
    right
    refine ⟨fun m hm => ?_, rfl⟩
    simpa using List.findIdx?_eq_none_iff.mp hidx m hm
  | some idx =>
    left
    obtain ⟨hlt, hid, _⟩ := List.findIdx?_eq_some_iff_getElem.mp hidx
    refine ⟨prev.take idx, prev[idx], prev.drop (idx + 1), ?_, by simpa using hid, ?_⟩
    · simp
    · change prev.set idx msg = _
      rw [List.set_eq_take_append_cons_drop, if_pos hlt]

theorem mem_merge (hnodup : (prev.map Message.id).Nodup) :
    m ∈ merge prev msg ↔ m = msg ∨ m ∈ prev ∧ m.id ≠ msg.id := by
  obtain ⟨l₁, x, l₂, rfl, hx, hmerge⟩ | ⟨hnew, hmerge⟩ := merge_splits prev msg
  · have hout : ∀ y, y ∈ l₁ ∨ y ∈ l₂ → y.id ≠ msg.id := by
      intro y hy hid
      rw [List.map_append, List.map_cons, List.nodup_middle, List.nodup_cons] at hnodup
      refine hnodup.1 (List.mem_append.mpr ?_)
      rw [hx, ← hid]
      exact hy.imp List.mem_map_of_mem List.mem_map_of_mem
    rw [hmerge]
    simp only [List.mem_append, List.mem_cons]
    constructor
    · rintro (hm | rfl | hm)
      · exact .inr ⟨.inl hm, hout m (.inl hm)⟩
      · exact .inl rfl
      · exact .inr ⟨.inr (.inr hm), hout m (.inr hm)⟩
    · rintro (rfl | ⟨hm | rfl | hm, hid⟩)
      · exact .inr (.inl rfl)
      · exact .inl hm
      · exact absurd hx hid
      · exact .inr (.inr hm)
  · rw [hmerge, List.mem_append, List.mem_singleton]
    constructor
    · rintro (hm | rfl)
      · exact .inr ⟨hm, hnew m hm⟩
      · exact .inl rfl
    · rintro (rfl | ⟨hm, _⟩)
      · exact .inr rfl
      · exact .inl hm

theorem nodup_merge (hnodup : (prev.map Message.id).Nodup) : ((merge prev msg).map Message.id).Nodup := by
  obtain ⟨l₁, x, l₂, rfl, hx, hmerge⟩ | ⟨hnew, hmerge⟩ := merge_splits prev msg
  · rw [hmerge]
    simpa [hx] using hnodup
  · rw [hmerge, List.map_append, List.map_singleton]
    refine hnodup.append (List.nodup_singleton _) ?_
    rintro id hid hid'
    obtain ⟨y, hy, rfl⟩ := List.mem_map.mp hid
    exact hnew y hy (List.mem_singleton.mp hid')

theorem mem_prepend : m ∈ prepend older prev ↔ m ∈ prev ∨ m ∈ older ∧ m.id ∉ prev.map Message.id := by
  unfold prepend
  rw [List.mem_append, List.mem_filter, decide_eq_true_eq]
  exact or_comm

theorem nodup_prepend (hprev : (prev.map Message.id).Nodup) (holder : (older.map Message.id).Nodup) :
    ((prepend older prev).map Message.id).Nodup := by
  unfold prepend
  rw [List.map_append]
  refine List.Nodup.append (holder.sublist (List.filter_sublist.map _)) hprev ?_
  rintro id hid hid'
  obtain ⟨y, hy, rfl⟩ := List.mem_map.mp hid
  exact of_decide_eq_true (List.mem_filter.mp hy).2 hid'

end Updates

section Steps

variable {threadOf : String → String} {V W : ChatView} {msg : Message} {rows : List Message}

/-- What is not part of the list does not matter. -/
theorem Showing.congr (h : Showing threadOf V) (hthread : W.threadId = V.threadId)
    (hmessages : W.messages = V.messages) (hdelivered : W.delivered = V.delivered) :
    Showing threadOf W where
  distinct := by rw [hmessages]; exact h.distinct
  own := by rw [hmessages, hthread]; exact h.own
  real := by rw [hmessages, hdelivered]; exact h.real
  newest := by rw [hmessages, hdelivered]; exact h.newest
  shown := by rw [hmessages, hdelivered, hthread]; exact h.shown

theorem showing_receive (h : Showing threadOf V) (hmsg : threadOf msg.id = V.streamed) :
    Showing threadOf (V.receive msg) ↔
      V.streamed = V.threadId ∧ ∀ m ∈ V.messages, m.id = msg.id → m.seq ≤ msg.seq := by
  have hmem : ∀ m, m ∈ (V.receive msg).messages ↔ m = msg ∨ m ∈ V.messages ∧ m.id ≠ msg.id :=
    fun m => mem_merge h.distinct
  have hdelivered : ∀ d, d ∈ (V.receive msg).delivered ↔ d ∈ V.delivered ∨ d = msg := by
    simp [ChatView.receive]
  constructor
  · intro hW
    refine ⟨hmsg.symm.trans (hW.own msg ((hmem msg).mpr (.inl rfl))), fun m hm hid => ?_⟩
    exact hW.newest msg ((hmem msg).mpr (.inl rfl)) m ((hdelivered m).mpr (.inl (h.real m hm))) hid
  · rintro ⟨hthread, hseq⟩
    refine ⟨nodup_merge h.distinct, fun m hm => ?_, fun m hm => ?_, fun m hm d hd hid => ?_,
      fun d hd hown => ?_⟩
    · obtain rfl | ⟨hm, _⟩ := (hmem m).mp hm
      · exact hmsg.trans hthread
      · exact h.own m hm
    · obtain rfl | ⟨hm, _⟩ := (hmem m).mp hm
      · exact (hdelivered m).mpr (.inr rfl)
      · exact (hdelivered m).mpr (.inl (h.real m hm))
    · obtain rfl | ⟨hm, hne⟩ := (hmem m).mp hm
      · obtain hd | rfl := (hdelivered d).mp hd
        · -- an older version of the message is shown already
          obtain ⟨m', hm', hid'⟩ := h.shown d hd (by rw [hid]; exact hmsg.trans hthread)
          exact Int.le_trans (h.newest m' hm' d hd hid'.symm) (hseq m' hm' (hid'.trans hid))
        · exact Int.le_refl _
      · obtain hd | rfl := (hdelivered d).mp hd
        · exact h.newest m hm d hd hid
        · exact absurd hid.symm hne
    · by_cases hid : d.id = msg.id
      · exact ⟨msg, (hmem msg).mpr (.inl rfl), hid.symm⟩
      · obtain hd | rfl := (hdelivered d).mp hd
        · obtain ⟨m, hm, hmid⟩ := h.shown d hd hown
          exact ⟨m, (hmem m).mpr (.inr ⟨hm, by rwa [hmid]⟩), hmid⟩
        · exact absurd rfl hid

theorem showing_prepend {threadId : String} (h : Showing threadOf V)
    (hrows : ∀ d ∈ rows, threadOf d.id = threadId) (hnodup : (rows.map Message.id).Nodup)
    (hthread : W.threadId = V.threadId) (hmessages : W.messages = prepend rows V.messages)
    (hdelivered : W.delivered = V.delivered ++ rows) :
    Showing threadOf W ↔ ∀ d ∈ rows, (d.id ∉ V.messages.map Message.id → threadId = V.threadId) ∧
      ∀ m ∈ V.messages, d.id = m.id → d.seq ≤ m.seq := by
  have hmem : ∀ m, m ∈ W.messages ↔ m ∈ V.messages ∨ m ∈ rows ∧ m.id ∉ V.messages.map Message.id := by
    intro m
    rw [hmessages]
    exact mem_prepend
  have hmemd : ∀ d, d ∈ W.delivered ↔ d ∈ V.delivered ∨ d ∈ rows := by
    intro d
    rw [hdelivered]
    exact List.mem_append
  constructor
  · intro hW d hd
    refine ⟨fun hnew => ?_, fun m hm hid => ?_⟩
    · rw [← hrows d hd, hW.own d ((hmem d).mpr (.inr ⟨hd, hnew⟩)), hthread]
    · exact hW.newest m ((hmem m).mpr (.inl hm)) d ((hmemd d).mpr (.inr hd)) hid
  · intro hsteady
    refine ⟨?_, fun m hm => ?_, fun m hm => ?_, fun m hm d hd hid => ?_, fun d hd hown => ?_⟩
    · rw [hmessages]
      exact nodup_prepend h.distinct hnodup
    · obtain hm | ⟨hm, hnew⟩ := (hmem m).mp hm
      · rw [hthread]
        exact h.own m hm
      · rw [hrows m hm, hthread]
        exact (hsteady m hm).1 hnew
    · obtain hm | ⟨hm, _⟩ := (hmem m).mp hm
      · exact (hmemd m).mpr (.inl (h.real m hm))
      · exact (hmemd m).mpr (.inr hm)
    · obtain hm | ⟨hm, hnew⟩ := (hmem m).mp hm
      · obtain hd | hd := (hmemd d).mp hd
        · exact h.newest m hm d hd hid
        · exact (hsteady d hd).2 m hm hid
      · obtain hd | hd := (hmemd d).mp hd
        · -- what has been delivered of the thread is shown
          have hown : threadOf d.id = V.threadId := by rw [hid, hrows m hm, (hsteady m hm).1 hnew]
          obtain ⟨m', hm', hid'⟩ := h.shown d hd hown
          exact absurd (List.mem_map.mpr ⟨m', hm', hid'.trans hid⟩) hnew
        · obtain rfl := List.inj_on_of_nodup_map hnodup hd hm hid
          exact Int.le_refl _
    · rw [hthread] at hown
      obtain hd | hd := (hmemd d).mp hd
      · obtain ⟨m, hm, hid⟩ := h.shown d hd hown
        exact ⟨m, (hmem m).mpr (.inl hm), hid⟩
      · by_cases hshown : d.id ∈ V.messages.map Message.id
        · obtain ⟨m, hm, hid⟩ := List.mem_map.mp hshown
          exact ⟨m, (hmem m).mpr (.inl hm), hid⟩
        · exact ⟨d, (hmem d).mpr (.inr ⟨hd, hshown⟩), rfl⟩

theorem showing_respond {f : Fetch} {i : ℕ} {reply : Reply} (h : Showing threadOf V)
    (hf : V.fetches[i]? = some f) (hreply : f.answeredBy threadOf reply = true) :
    Showing threadOf ({ V with fetches := V.fetches.eraseIdx i }.respond reply) ↔
      Steady V (.response i reply) := by
  have hsteady : Steady V (.response i reply) ↔ ∀ d ∈ reply.messages,
      (d.id ∉ V.messages.map Message.id → f.threadId = V.threadId) ∧
        ∀ m ∈ V.messages, d.id = m.id → d.seq ≤ m.seq := by
    constructor
    · exact fun hall => hall f hf
    · rintro hall f' hf'
      rw [hf] at hf'
      cases hf'
      exact hall
  obtain ⟨hrows, hnodup⟩ := Bool.and_eq_true_iff.mp hreply
  rw [hsteady]
  match reply with
  | .failed | .page [] _ => exact iff_of_true (h.congr rfl rfl rfl) nofun
  | .page (m :: older) hasOlder =>
    refine showing_prepend h (fun d hd => ?_) (of_decide_eq_true hnodup) rfl rfl rfl
    exact of_decide_eq_true (Bool.and_eq_true_iff.mp (List.all_eq_true.mp hrows d hd)).1

theorem showing_step {a : Event} (h : Showing threadOf V) (hstep : (machine threadOf).step V a = some W) :
    Showing threadOf W ↔ Steady V a := by
  simp only [machine] at hstep
  cases a with
  | message data =>
    cases data with
    | none =>
      cases hstep
      exact iff_of_true h trivial
    | some msg =>
      obtain ⟨hmsg, hW⟩ := Option.ite_none_right_eq_some.mp hstep
      cases hW
      exact showing_receive h hmsg
  | backfill data =>
    refine iff_of_true ?_ trivial
    cases data with
    | none =>
      cases hstep
      exact h
    | some b =>
      cases hstep
      exact h.congr rfl rfl rfl
  | reconnect =>
    cases hstep
    exact iff_of_true h trivial
  | loadOlder =>
    obtain ⟨_, hW⟩ := Option.ite_none_right_eq_some.mp hstep
    cases hW
    refine iff_of_true ?_ trivial
    unfold ChatView.loadOlder
    split
    · exact h
    · split
      · exact h
      · exact h.congr rfl rfl rfl
  | response i reply =>
    simp only [ChatView.step] at hstep
    split at hstep
    · rename_i f hf
      obtain ⟨hreply, hW⟩ := Option.ite_none_right_eq_some.mp hstep
      cases hW
      exact showing_respond h hf hreply
    · cases hstep
  | prop threadId =>
    obtain ⟨⟨_, hne⟩, hW⟩ := Option.ite_none_right_eq_some.mp hstep
    cases hW
    constructor
    · intro hW
      refine List.eq_nil_iff_forall_not_mem.mpr fun m hm => hne ?_
      rw [← h.own m hm, hW.own m hm]
    · intro (hnil : V.messages = [])
      exact ⟨by simp [hnil], by simp [hnil], by simp [hnil], by simp [hnil], nofun⟩
  | effect =>
    simp only [ChatView.step] at hstep
    split at hstep
    · cases hstep
    · cases hstep
      exact iff_of_true (h.congr rfl rfl rfl) trivial

theorem showing_mounted (threadId : String) : Showing threadOf (.mounted threadId) :=
  ⟨List.nodup_nil, nofun, nofun, nofun, nofun⟩

/-- The view shows the messages of its thread, each once and in the newest version delivered, all
through a run exactly where each step of the run is steady. -/
theorem showing_iff {as : List Event} (hV : (machine threadOf).initial V)
    (h : (machine threadOf).Run V as W) :
    (∀ pre U, pre <+: as → (machine threadOf).Run V pre U → Showing threadOf U) ↔
      (machine threadOf).RunIf Steady V as W := by
  obtain ⟨threadId, rfl⟩ := hV
  exact h.always_iff (I := fun _ => True) trivial (showing_mounted threadId) (fun _ _ _ _ _ => trivial)
    fun _ _ _ _ hshowing hstep => showing_step hshowing hstep

end Steps

/-- A message is replayed and completed, and an older one is loaded. -/
def paged : List Event :=
  [.backfill (some ⟨some 5, true⟩), .message (some ⟨"m5", 5⟩), .loadOlder, .message (some ⟨"m5", 8⟩),
    .response 0 (.page [⟨"m4", 4⟩] false)]

theorem showing_paged :
    (∀ pre U, pre <+: paged → (machine fun _ => "a").Run (.mounted "a") pre U →
      Showing (fun _ => "a") U) ↔
        (machine fun _ => "a").RunIf Steady (.mounted "a") paged
          ((machine fun _ => "a").after (.mounted "a") paged) :=
  showing_iff ⟨"a", rfl⟩ (Machine.run_after (by decide))

/-- A message of the old thread is still shown after the thread has changed. -/
theorem thread_switch_keeps_messages :
    ¬∀ (threadOf : String → String) (V W : ChatView) (as : List Event),
      (machine threadOf).initial V → (machine threadOf).Run V as W → Showing threadOf W := by
  intro h
  have hrun : (machine fun _ => "a").Run (.mounted "a") [.message (some ⟨"m5", 5⟩), .prop "b", .effect]
      ((machine fun _ => "a").after (.mounted "a") [.message (some ⟨"m5", 5⟩), .prop "b", .effect]) :=
    Machine.run_after (by decide)
  have hshowing := h _ _ _ _ ⟨"a", rfl⟩ hrun
  have hown := hshowing.own ⟨"m5", 5⟩ (by decide)
  revert hown
  decide

end Hill90.View
