import Hill90.Agentbox.ToolLoop

/-! # What a chat that succeeds has delivered

`handle_chat` refuses the work, runs a command in the terminal or enters the tool loop, and returns
whether a real answer was delivered.  `_deliver_callback` tells no one what became of its requests.
-/

namespace Hill90.Agentbox.ToolLoop

open Router (Json)

/-- What `handle_chat` is given; strings that are missing are empty. -/
structure Work where
  callbackUrl : String
  callbackToken : String
  routerToken : String
  messages : List Json
  /-- `_should_use_terminal()` -/
  useTerminal : Bool
  /-- `_classify_message(message) == "command"` -/
  isCommand : String → Bool
  /-- `_run_direct_command`, or the text of what it raises. -/
  runDirectCommand : String → Except String String
  /-- The system prompt and the tool definitions are put together without an exception. -/
  assembles : Bool

structure Sent where
  status : Status
  posts : List (Option ℤ)

def userMessage : List Json → Option Json
  | [] => some (.text "")
  | msg :: earlier => do
    let role ← get "role" .null msg
    if Json.isText role "user" then do
      let content ← get "content" .null msg
      if truthy content then some content else userMessage earlier
    else userMessage earlier

inductive Dispatch where
  | refused
  | terminal (command : String)
  | untokened
  | toolLoop

namespace Work

variable (work : Work)

/-- The command of the user, where the message is one. -/
def directCommand : Option (Option String) :=
  if work.useTerminal then do
    let message ← userMessage work.messages.reverse
    if truthy message then
      match message with
      | .text s => some (if work.isCommand s then some s else none)
      | _ => none
    else some none
  else some none

/-- `handle_chat` up to where it hands the work on. -/
def dispatch : Option Dispatch :=
  if work.callbackUrl = "" then some .refused
  else if work.callbackToken = "" then some .refused
  else do
    let command ← work.directCommand
    match command with
    | some command => some (.terminal command)
    | none =>
      if work.routerToken = "" then some .untokened
      else if work.assembles then some .toolLoop
      else none

end Work

section Source

variable (py : Interpreter) (chat : Chat) (w : World)

def posts (i : ℕ) (status : Status) : List (Option ℤ) :=
  if (w.post i 0).isSome ∨ status = .thinking then [w.post i 0] else [w.post i 0, w.post i 1]

def send (i : ℕ) (status : Status) : Sent := ⟨status, posts w i status⟩

/-- `_run_terminal_task` -/
def runTerminalTask (outcome : Except String String) : List Sent × Option Bool :=
  match outcome with
  | .ok _ => ([send w 0 .thinking, send w 1 .complete], some true)
  | .error _ => ([send w 0 .thinking, send w 1 .error], some false)

def Delivery.sent (d : Delivery) : Sent := ⟨d.body.status, d.posts⟩

/-- `handle_chat`; nothing is returned where an exception leaves it. -/
def handleChat (work : Work) : List Sent × Option Bool :=
  match work.dispatch with
  | none => ([], none)
  | some .refused => ([], some false)
  | some (.terminal command) => runTerminalTask w (work.runDirectCommand command)
  | some .untokened => ([send w 0 .error], some false)
  | some .toolLoop =>
    let run := runToolLoop py chat w chat.maxIterations 0 { model := chat.model }
    (run.1.map Delivery.sent, run.2)

/-- `_run_chat`, with what it reports of the work. -/
def runWork (work : Work) : List Sent × WorkEvent :=
  let run := handleChat py chat w work
  (run.1, run.2.elim .failed .completed)

/-- Work that is reported a success has a complete callback that the API acknowledged. -/
def Delivered (run : List Sent × WorkEvent) : Prop :=
  run.2 = .completed true → ∃ sent ∈ run.1, sent.status = .complete ∧ some 200 ∈ sent.posts

/-- The API answers 200 to the first request of a callback, or to the second where the first raised. -/
def Acknowledged (i : ℕ) : Prop :=
  w.post i 0 = some 200 ∨ w.post i 0 = none ∧ w.post i 1 = some 200

/-- The answer is a completion that asks for no tools. -/
def Reply.final (tool : ℕ → Except String String) (reply : Reply) : Bool :=
  match reply with
  | .answer 200 _ (some result) =>
    match member "choices" .null result with
    | .array (_ :: _) => shapedReply py tool reply && !reply.asks
    | _ => false
  | _ => false

def Completes (i : ℕ) : Prop :=
  (∀ k < i, late chat w k = false ∧ shapedReply py (w.tool k) (w.reply k) = true ∧ (w.reply k).asks = true) ∧
    (i = chat.maxIterations ∨
      i < chat.maxIterations ∧ late chat w i = false ∧ (w.reply i).final py (w.tool i) = true)

def Work.Received (work : Work) : Prop :=
  match work.dispatch with
  | some (.terminal command) => (work.runDirectCommand command).isOk = true → Acknowledged w 1
  | some .toolLoop => ∀ i, Completes py chat w i → Acknowledged w i
  | _ => True

end Source

section Loop

variable {py : Interpreter} {chat : Chat} {w : World}

theorem posts_deliver (i : ℕ) (body : Callback) : (deliver w i body).posts = posts w i body.status := by
  unfold deliver posts
  split <;> rfl

theorem mem_posts_complete (i : ℕ) : some 200 ∈ posts w i .complete ↔ Acknowledged w i := by
  unfold posts Acknowledged
  cases hfirst : w.post i 0 with
  | none =>
    simp
    exact eq_comm
  | some status =>
    simp
    exact eq_comm

theorem success_of_runChoice {tool : ℕ → Except String String} {turn : Turn} {result choice : Json}
    {body : Callback} {success : Bool}
    (h : runChoice py chat tool turn result choice = some (.done body success)) : success = true := by
  simp only [runChoice, Option.bind_eq_bind, get_bind, Option.ite_none_right_eq_some,
    Option.bind_eq_some_iff] at h
  obtain ⟨-, -, -, -, -, -, prompt, -, completion, -, h⟩ := h
  split at h
  · simp only [Option.bind_eq_some_iff] at h
    obtain ⟨calls, -, -, -, names, -, hnext⟩ := h
    cases hnext
  · obtain ⟨marked, -, hnext⟩ := Option.bind_eq_some_iff.mp h
    cases hnext
    rfl

/-- Where an iteration is done with success, its answer has a choice. -/
theorem choice_of_success {i : ℕ} {turn : Turn} {body : Callback}
    (h : runIteration py chat w i turn = some (.done body true)) :
    late chat w i = false ∧ ∃ text result choice choices, w.reply i = .answer 200 text (some result) ∧
      member "choices" .null result = .array (choice :: choices) := by
  obtain ⟨-, message, hfailed⟩ | ⟨text, result, choice, choices, hlate, hreply, hchoices, -⟩ :=
    cases_runIteration h
  · cases hfailed
  · exact ⟨hlate, text, result, choice, choices, hreply, hchoices⟩

theorem runIteration_choice {i : ℕ} {turn : Turn} {next : Next} {text : String} {result choice : Json}
    {choices : List Json} (hreply : w.reply i = .answer 200 text (some result))
    (hchoices : member "choices" .null result = .array (choice :: choices)) (hlate : late chat w i = false)
    (h : runIteration py chat w i turn = some next) :
    runChoice py chat (w.tool i) turn result choice = some next := by
  obtain ⟨hwhy, -⟩ | ⟨text', result', choice', choices', -, hreply', hchoices', hchoice⟩ :=
    cases_runIteration h
  · exact absurd hchoices (hwhy.resolve_left (by simp [hlate]) _ _ _ _ hreply)
  · rw [hreply] at hreply'
    cases hreply'
    rw [hchoices] at hchoices'
    cases hchoices'
    exact hchoice

/-- An iteration ends with a complete callback exactly if its answer is final. -/
theorem success_iff_final (i : ℕ) (turn : Turn) :
    (∃ body, runIteration py chat w i turn = some (.done body true)) ↔
      late chat w i = false ∧ (w.reply i).final py (w.tool i) = true := by
  have hsome : (runIteration py chat w i turn).isSome =
      (late chat w i || shapedReply py (w.tool i) (w.reply i)) := isSome_runIteration i turn
  constructor
  · rintro ⟨body, hbody⟩
    obtain ⟨hlate, text, result, choice, choices, hreply, hchoices⟩ := choice_of_success hbody
    obtain ⟨hasks, -, -⟩ := sound_runIteration hbody
    rw [hbody, hlate, Option.isSome_some, Bool.false_or] at hsome
    rw [hlate, Bool.not_false, Bool.true_and] at hasks
    refine ⟨hlate, ?_⟩
    unfold Reply.final
    simp only [hreply, hchoices]
    rw [← hreply, ← hsome, hasks]
    rfl
  · rintro ⟨hlate, hfinal⟩
    unfold Reply.final at hfinal
    split at hfinal
    · rename_i text result hreply
      split at hfinal
      · rename_i choice choices hchoices
        rw [Bool.and_eq_true, Bool.not_eq_true'] at hfinal
        rw [hlate, hfinal.1, Bool.or_true] at hsome
        obtain ⟨next, hnext⟩ := Option.isSome_iff_exists.mp hsome
        have hsound := sound_runIteration hnext
        have hchoice := runIteration_choice hreply hchoices hlate hnext
        cases next with
        | again body turn' =>
          rw [hfinal.2, Bool.and_false] at hsound
          cases hsound.1
        | done body success =>
          rw [success_of_runChoice hchoice] at hnext
          exact ⟨body, hnext⟩
      · cases hfinal
    · cases hfinal

def leaves (py : Interpreter) (chat : Chat) (w : World) (i : ℕ) : Bool :=
  !late chat w i && shapedReply py (w.tool i) (w.reply i) && (w.reply i).asks

theorem again_iff_leaves (i : ℕ) (turn : Turn) :
    (∃ body turn', runIteration py chat w i turn = some (.again body turn')) ↔ leaves py chat w i = true := by
  have hsome : (runIteration py chat w i turn).isSome =
      (late chat w i || shapedReply py (w.tool i) (w.reply i)) := isSome_runIteration i turn
  unfold leaves
  constructor
  · rintro ⟨body, turn', hnext⟩
    obtain ⟨hgoes, -⟩ := sound_runIteration hnext
    rw [Bool.and_eq_true, Bool.not_eq_true'] at hgoes
    rw [hnext, hgoes.1, Option.isSome_some, Bool.false_or] at hsome
    simp [hgoes, ← hsome]
  · intro hleaves
    simp only [Bool.and_eq_true, Bool.not_eq_true'] at hleaves
    obtain ⟨⟨hlate, hshaped⟩, hasks⟩ := hleaves
    rw [hlate, hshaped, Bool.or_true] at hsome
    obtain ⟨next, hnext⟩ := Option.isSome_iff_exists.mp hsome
    have hsound := sound_runIteration hnext
    cases next with
    | again body turn' => exact ⟨body, turn', hnext⟩
    | done body success =>
      rw [hlate, hasks] at hsound
      cases hsound.1

def LoopDelivered (run : List Delivery × Option Bool) : Prop :=
  run.2 = some true → ∃ d ∈ run.1, d.body.status = .complete ∧ some 200 ∈ d.posts

theorem loopDelivered_last (i : ℕ) {body : Callback} (hstatus : body.status = .complete) :
    LoopDelivered ([deliver w i body], some true) ↔ Acknowledged w i := by
  simp only [LoopDelivered, forall_const, List.mem_singleton, exists_eq_left, body_deliver, hstatus, true_and,
    posts_deliver]
  rw [mem_posts_complete]

theorem loopDelivered_cons {d : Delivery} {run : List Delivery × Option Bool}
    (hstatus : d.body.status = .thinking) : LoopDelivered (d :: run.1, run.2) ↔ LoopDelivered run := by
  unfold LoopDelivered
  refine forall_congr' fun _ => ?_
  simp [hstatus]

/-- The callback of iteration `i` completes a loop that has `n` iterations left from there. -/
def CompletesIn (py : Interpreter) (chat : Chat) (w : World) (n i : ℕ) : Prop :=
  n = 0 ∨ 0 < n ∧ late chat w i = false ∧ (w.reply i).final py (w.tool i) = true

/-- The induction is on the iterations that are left. -/
theorem loopDelivered_iff (n i : ℕ) (turn : Turn) :
    LoopDelivered (runToolLoop py chat w n i turn) ↔
      ∀ k ≤ n, (∀ m < k, leaves py chat w (i + m) = true) → CompletesIn py chat w (n - k) (i + k) →
        Acknowledged w (i + k) := by
  induction n generalizing i turn with
  | zero =>
    have hlast : LoopDelivered ([deliver w i turn.exhausted], some true) ↔ Acknowledged w i :=
      loopDelivered_last i rfl
    rw [runToolLoop, hlast]
    constructor
    · intro h k hk _ _
      obtain rfl := Nat.le_zero.mp hk
      exact h
    · intro h
      exact h 0 le_rfl (by omega) (.inl rfl)
  | succ n ih =>
    -- only the first iteration can complete the loop, where it does not leave it to the next
    have hfirst : leaves py chat w i = false →
        ((∀ k ≤ n + 1, (∀ m < k, leaves py chat w (i + m) = true) →
            CompletesIn py chat w (n + 1 - k) (i + k) → Acknowledged w (i + k)) ↔
          (late chat w i = false ∧ (w.reply i).final py (w.tool i) = true → Acknowledged w i)) := by
      intro hstays
      constructor
      · exact fun h hfinal => h 0 (by omega) (by omega) (.inr ⟨by omega, hfinal⟩)
      · intro h k _ hleaves hcompletes
        cases k with
        | zero =>
          obtain hzero | ⟨-, hfinal⟩ := hcompletes
          · omega
          · exact h hfinal
        | succ k =>
          have hleft := hleaves 0 (by omega)
          rw [Nat.add_zero, hstays] at hleft
          cases hleft
    have hstays : (∀ body turn', runIteration py chat w i turn ≠ some (.again body turn')) →
        leaves py chat w i = false := by
      intro hnone
      refine Bool.eq_false_of_not_eq_true fun hleaves => ?_
      obtain ⟨body, turn', hagain⟩ := (again_iff_leaves i turn).mpr hleaves
      exact hnone body turn' hagain
    unfold runToolLoop
    cases hnext : runIteration py chat w i turn with
    | none =>
      rw [hfirst (hstays (by simp [hnext])), ← success_iff_final i turn, hnext]
      exact iff_of_true (fun h => by cases h) fun ⟨body, hbody⟩ => by cases hbody
    | some next =>
      cases next with
      | done body success =>
        rw [hfirst (hstays (by simp [hnext])), ← success_iff_final i turn, hnext]
        cases success with
        | true =>
          have hstatus : body.status = .complete := by
            simpa using (sound_runIteration hnext).2.2
          rw [loopDelivered_last i hstatus]
          exact ⟨fun h _ => h, fun h => h ⟨body, rfl⟩⟩
        | false => exact iff_of_true (fun h => by cases h) fun ⟨body', hbody⟩ => by cases hbody
      | again body turn' =>
        have hleaves := (again_iff_leaves i turn).mp ⟨body, turn', hnext⟩
        have hstatus : (deliver w i body).body.status = .thinking := by
          rw [body_deliver]
          exact (sound_runIteration hnext).2
        have hunfinal : ¬(late chat w i = false ∧ (w.reply i).final py (w.tool i) = true) := by
          rw [← success_iff_final i turn, hnext]
          rintro ⟨body', hbody⟩
          cases hbody
        have hshift : ∀ m, i + 1 + m = i + (m + 1) := by
          intro m
          omega
        rw [loopDelivered_cons hstatus, ih (i + 1) turn']
        simp only [hshift]
        constructor
        · intro h k hk hall hcompletes
          cases k with
          | zero => exact absurd (hcompletes.resolve_left (by omega)).2 hunfinal
          | succ k =>
            rw [Nat.add_sub_add_right] at hcompletes
            exact h k (by omega) (fun m hm => hall (m + 1) (by omega)) hcompletes
        · intro h k hk hall hcompletes
          refine h (k + 1) (by omega) (fun m hm => ?_) (by rwa [Nat.add_sub_add_right])
          cases m with
          | zero => exact hleaves
          | succ m => exact hall m (by omega)

end Loop

/-- Work that is reported a success has been received, exactly where the API acknowledged the callback
that completes it. -/
theorem delivered_iff_received (py : Interpreter) (chat : Chat) (w : World) (work : Work) :
    Delivered (runWork py chat w work) ↔ work.Received py chat w := by
  unfold Delivered runWork handleChat Work.Received
  cases hdispatch : work.dispatch with
  | none => exact iff_of_true (fun h => by cases h) trivial
  | some dispatch =>
    cases dispatch with
    | refused => exact iff_of_true (fun h => by cases h) trivial
    | untokened => exact iff_of_true (fun h => by cases h) trivial
    | terminal command =>
      simp only
      cases work.runDirectCommand command with
      | error text => exact iff_of_true (fun h => by cases h) fun h => by cases h
      | ok output =>
        have hmem := mem_posts_complete (w := w) 1
        simpa [runTerminalTask, send, Except.isOk, Except.toBool] using hmem
    | toolLoop =>
      have hreported : ∀ run : List Delivery × Option Bool,
          (run.2.elim WorkEvent.failed .completed = .completed true → ∃ sent ∈ run.1.map Delivery.sent,
            sent.status = .complete ∧ some 200 ∈ sent.posts) ↔ LoopDelivered run := by
        rintro ⟨deliveries, outcome⟩
        have houtcome : outcome.elim WorkEvent.failed .completed = .completed true ↔ outcome = some true := by
          cases outcome <;> simp
        unfold LoopDelivered
        rw [houtcome]
        simp [Delivery.sent]
      have hloop := @loopDelivered_iff py chat w chat.maxIterations 0 { model := chat.model }
      simp only [Nat.zero_add] at hloop
      refine (hreported _).trans (hloop.trans ?_)
      constructor
      · rintro h i ⟨hbefore, hcompletes⟩
        refine h i ?_ (fun m hm => ?_) ?_
        · obtain rfl | ⟨hlt, -⟩ := hcompletes
          · exact le_rfl
          · exact hlt.le
        · obtain ⟨hlate, hshaped, hasks⟩ := hbefore m hm
          simp [leaves, hlate, hshaped, hasks]
        · obtain rfl | ⟨hlt, hfinal⟩ := hcompletes
          · exact .inl (Nat.sub_self _)
          · exact .inr ⟨by omega, hfinal⟩
      · intro h i hi hbefore hcompletes
        refine h i ⟨fun m hm => ?_, ?_⟩
        · have hleaves := hbefore m hm
          simp only [leaves, Bool.and_eq_true, Bool.not_eq_true'] at hleaves
          exact ⟨hleaves.1.1, hleaves.1.2, hleaves.2⟩
        · obtain hzero | ⟨hpos, hfinal⟩ := hcompletes
          · exact .inl (by omega)
          · exact .inr ⟨by omega, hfinal⟩

/-- A chat whose router answers "hello" and whose API refuses each callback. -/
def greeting : Json :=
  .object [("choices", .array [.object [("message", .object [("content", .text "hello")]),
    ("finish_reason", .text "stop")]])]

def refusing : World := { oneReply (some greeting) with post := fun _ _ => some 500 }

def chatWork : Work where
  callbackUrl := "http://api:3000/internal/chat/callback"
  callbackToken := "callback-token"
  routerToken := "router-token"
  messages := []
  useTerminal := false
  isCommand _ := false
  runDirectCommand _ := .ok ""
  assembles := true

theorem refused_undelivered : ¬Delivered (runWork plain chat refusing chatWork) := by
  intro h
  have hrun : runWork plain chat refusing chatWork = ([⟨.complete, [some 500]⟩], .completed true) := by
    rfl
  rw [hrun] at h
  obtain ⟨sent, hsent, -, hposts⟩ := h rfl
  rw [List.mem_singleton] at hsent
  subst hsent
  simp at hposts

end Hill90.Agentbox.ToolLoop
