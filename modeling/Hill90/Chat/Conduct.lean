import Hill90.Chat.Server

/-! # Which statements a route may hand over

The routes that neither answer a message, nor guard, nor insert one hand over routine
statements only; the sends and the dispatch stay away from the messages of agents that
are being answered.  What is left for each invariant is the handful of programs that
do the work it is about.
-/

namespace Hill90.Chat

open Program

/-- Neither an insertion, nor a guard of one, nor the work of a callback, nor a close, nor a
lookup of the agents of a thread, nor a call of agents. -/
def Statement.routine : Statement → Bool
  | addParticipant .. | selectPending .. | selectJournal _ | selectTrigger _ | createThread ..
  | createUserMessage .. | createPlaceholder _ | thinkMessage .. | finishMessage .. | startChain ..
  | closeMessages _ | selectChainAuthors _ | randomUUID | selectBatch _ | countSiblings _
  | setBatchComplete _ | getThreadAgents _ | resolveAgentSlugs .. | dispatchChatWork _ => false
  | _ => true

def Statement.seeking : Statement → Bool
  | getThreadAgents _ | resolveAgentSlugs .. => true
  | s => s.routine

def Statement.closing : Statement → Bool
  | closeMessages _ => true
  | s => s.seeking

def Statement.delivering : Statement → Bool
  | dispatchChatWork _ => true
  | s => s.closing

def Statement.passive : Statement → Bool
  | addParticipant .. => true
  | s => s.closing

/-- What opens a thread or sends a message: insertions, guards, calls, and closes. -/
def Statement.sending : Statement → Bool
  | createThread .. | createUserMessage .. | selectPending .. => true
  | createPlaceholder p => p.chain.isNone
  | s => s.delivering

def Statement.posting : Statement → Bool
  | createThread .. => false
  | s => s.sending

def Statement.batching : Statement → Bool
  | selectBatch _ | countSiblings _ | setBatchComplete _ => true
  | _ => false

def Statement.extending : Statement → Bool
  | selectChainAuthors _ | randomUUID | startChain .. | createPlaceholder _ | selectPending .. => true
  | s => s.delivering

def Statement.looking : Statement → Bool
  | selectPending .. => true
  | s => s.routine

def Statement.answers : Statement → Option Uuid
  | thinkMessage id _ | finishMessage id _ => some id
  | _ => none

/-- The message whose final callback journals or orchestrates with a statement. -/
def Statement.finalWork : Statement → Option Uuid
  | selectJournal id | selectTrigger id => some id
  | _ => none

abbrev Routine (s : Statement) : Prop := s.routine = true

abbrev Seeking (s : Statement) : Prop := s.seeking = true

abbrev Delivering (s : Statement) : Prop := s.delivering = true

abbrev Closing (s : Statement) : Prop := s.closing = true

abbrev Passive (s : Statement) : Prop := s.passive = true

abbrev Sending (s : Statement) : Prop := s.sending = true

abbrev Posting (s : Statement) : Prop := s.posting = true

abbrev Batching (s : Statement) : Prop := s.batching = true

abbrev Extending (s : Statement) : Prop := s.extending = true

abbrev Looking (s : Statement) : Prop := s.looking = true

theorem Looking.of_routine {s : Statement} (h : Routine s) : Looking s := by
  cases s <;> first | exact h | rfl

theorem Seeking.of_routine {s : Statement} (h : Routine s) : Seeking s := by
  cases s <;> first | exact h | rfl

theorem Closing.of_seeking {s : Statement} (h : Seeking s) : Closing s := by
  cases s <;> first | exact h | rfl

theorem Closing.of_routine {s : Statement} (h : Routine s) : Closing s :=
  .of_seeking (.of_routine h)

theorem Delivering.of_closing {s : Statement} (h : Closing s) : Delivering s := by
  cases s <;> first | exact h | rfl

theorem Passive.of_closing {s : Statement} (h : Closing s) : Passive s := by
  cases s <;> first | exact h | rfl

theorem Passive.of_routine {s : Statement} (h : Routine s) : Passive s := by
  cases s <;> first | exact h | rfl

theorem Sending.of_delivering {s : Statement} (h : Delivering s) : Sending s := by
  cases s <;> first | exact h | rfl | cases h

theorem Sending.of_closing {s : Statement} (h : Closing s) : Sending s :=
  .of_delivering (.of_closing h)

theorem Sending.of_routine {s : Statement} (h : Routine s) : Sending s :=
  .of_closing (.of_routine h)

theorem Sending.of_posting {s : Statement} (h : Posting s) : Sending s := by
  cases s <;> first | exact h | rfl

theorem Posting.of_delivering {s : Statement} (h : Delivering s) : Posting s := by
  cases s <;> first | exact h | rfl | cases h

theorem Posting.of_closing {s : Statement} (h : Closing s) : Posting s :=
  .of_delivering (.of_closing h)

theorem Posting.of_routine {s : Statement} (h : Routine s) : Posting s :=
  .of_closing (.of_routine h)

theorem Posting.of_looking {s : Statement} (h : Looking s) : Posting s := by
  cases s <;> first | exact h | rfl | cases h

theorem Extending.of_delivering {s : Statement} (h : Delivering s) : Extending s := by
  cases s <;> first | exact h | rfl

theorem Extending.of_closing {s : Statement} (h : Closing s) : Extending s :=
  .of_delivering (.of_closing h)

theorem Extending.of_routine {s : Statement} (h : Routine s) : Extending s :=
  .of_closing (.of_routine h)

theorem Extending.of_looking {s : Statement} (h : Looking s) : Extending s := by
  cases s <;> first | exact h | rfl

def Mundane (s : Statement) : Prop := s.answers = none ∧ s.finalWork = none

theorem Mundane.of_passive {s : Statement} (h : Passive s) : Mundane s := by
  cases s <;> first | exact ⟨rfl, rfl⟩ | cases h

theorem Mundane.of_looking {s : Statement} (h : Looking s) : Mundane s := by
  cases s <;> first | exact ⟨rfl, rfl⟩ | cases h

theorem Mundane.of_sending {s : Statement} (h : Sending s) : Mundane s := by
  cases s <;> first | exact ⟨rfl, rfl⟩ | cases h

theorem Mundane.of_extending {s : Statement} (h : Extending s) : Mundane s := by
  cases s <;> first | exact ⟨rfl, rfl⟩ | cases h

theorem Mundane.of_batching {s : Statement} (h : Batching s) : Mundane s := by
  cases s <;> first | exact ⟨rfl, rfl⟩ | cases h

theorem Mundane.of_routine {s : Statement} (h : Routine s) : Mundane s :=
  .of_passive (.of_routine h)

section Helpers

variable {A : Statement → Prop}

theorem only_quietly {p : Handler Unit} (h : Only A p) : Only A (quietly p) :=
  only_tryCatch h fun _ => only_pure _

theorem only_failWith {text : String} {p : Handler Response} (h : Only A p) :
    Only A (failWith text p) := only_tryCatch h fun _ => only_pure _

theorem only_orDuplicate {text : String} {p : Handler Response} (h : Only A p) :
    Only A (orDuplicate text p) := by
  refine only_tryCatch h fun e => ?_
  split
  · split
    · exact only_pure _
    · exact only_pure _
  · exact only_pure _

theorem only_isParticipant (threadId : Uuid) (user : User) :
    Only Routine (isParticipant threadId user) :=
  only_ite (fun _ => only_pure _) fun _ => only_query rfl

theorem only_isThreadOwner (threadId userId : Uuid) (admin : Bool) :
    Only Routine (isThreadOwner threadId userId admin) :=
  only_ite (fun _ => only_pure _) fun _ => only_query rfl

theorem only_closeMessages (c : Closer) : Only Closing (closeMessages c) := only_query rfl

theorem only_mark (c : Closer) : Only Closing (quietly (do let _ ← closeMessages c)) :=
  only_quietly (only_bind (only_closeMessages c) fun _ => only_pure _)

theorem only_deniedUuid (admin : Bool) (uuids : List Uuid) :
    Only Routine (deniedUuid admin uuids) := by
  induction uuids with
  | nil => exact only_pure _
  | cons uuid uuids ih =>
    refine only_bind (only_query rfl) fun scope => ?_
    split
    · split
      · exact ih
      · exact only_pure _
    · exact ih

theorem only_deniedAgent (admin : Bool) (agents : List Agent) :
    Only Routine (deniedAgent admin agents) := by
  induction agents with
  | nil => exact only_pure _
  | cons agent agents ih =>
    refine only_bind (only_query rfl) fun scope => ?_
    split
    · split
      · exact ih
      · exact only_pure _
    · exact ih

theorem only_loadAgents (uuids : List Uuid) : Only Routine (loadAgents uuids) := by
  induction uuids with
  | nil => exact only_pure _
  | cons uuid uuids ih =>
    refine only_bind (only_query rfl) fun agent => ?_
    split
    · exact only_pure _
    · exact only_bind ih fun _ => only_pure _

theorem only_loadKnownAgents (uuids : List Uuid) : Only Routine (loadKnownAgents uuids) := by
  induction uuids with
  | nil => exact only_pure _
  | cons uuid uuids ih =>
    exact only_bind (only_query rfl) fun agent => only_bind ih fun _ => only_pure _

theorem only_resolveAgentSlugs (threadId : Uuid) (slugs : List String) :
    Only Seeking (resolveAgentSlugs threadId slugs) := by
  unfold resolveAgentSlugs
  split
  · exact only_pure _
  · exact only_bind (only_query rfl) fun _ => only_pure _

theorem only_notUpdated (id : Uuid) : Only Routine (notUpdated id) := by
  refine only_bind (only_query rfl) fun status => ?_
  split
  · exact only_pure _
  · exact only_pure _

theorem only_tagElevated (id : Uuid) : Only Routine (tagElevated id) := by
  refine only_quietly (only_bind (only_query rfl) fun author => ?_)
  split
  · exact only_bind (only_query rfl) fun _ => only_pure _
  · exact only_pure _

theorem only_completeBatch (id : Uuid) : Only Batching (completeBatch id) := by
  refine only_quietly (only_bind (only_query rfl) fun batch => ?_)
  split
  · exact only_bind (only_query rfl) fun _ =>
      only_ite (fun _ => only_query rfl) fun _ => only_pure _
  · exact only_pure _

theorem only_revokeFailed (configured : Bool) (agentId : String) (jti : Option String) :
    Only Routine (revokeFailed configured agentId jti) := by
  unfold revokeFailed
  split
  · split
    · exact only_tryCatch (only_bind (only_query rfl) fun _ => only_pure _) fun _ => only_pure _
    · exact only_pure _
  · exact only_pure _

theorem only_removeContainer (agent : Agent) : Only Routine (removeContainer agent) :=
  only_tryCatch (only_query rfl) fun _ =>
    only_bind (only_quietly (only_query rfl)) fun _ => only_throw _

end Helpers

theorem closing_isParticipant (threadId : Uuid) (user : User) :
    Only Closing (isParticipant threadId user) :=
  (only_isParticipant threadId user).mono fun _ => .of_routine

theorem only_cancelMessages (user : User) (threadId : Uuid) :
    Only Closing (cancelMessages user threadId) := by
  refine only_failWith (only_bind (closing_isParticipant threadId user) fun allowed => ?_)
  split
  · exact only_pure _
  · exact only_bind (only_closeMessages _) fun _ => only_pure _

theorem only_getThread (user : User) (threadId : Uuid) (limit beforeSeq : Option ℕ) :
    Only Closing (getThread user threadId limit beforeSeq) := by
  refine only_failWith (only_bind (closing_isParticipant threadId user) fun allowed => ?_)
  split
  · exact only_pure _
  · refine only_bind (only_query rfl) fun thread => ?_
    split
    · exact only_pure _
    · refine only_bind (only_query rfl) fun participants => only_bind (only_query rfl) fun page =>
        only_bind (only_query rfl) fun total => only_bind (only_query rfl) fun now => ?_
      exact only_ite (fun _ => only_pure _) fun _ =>
        only_bind (only_closeMessages _) fun _ => only_pure _

theorem only_leadIsActive (threadId : Uuid) (lead : Option (Option Uuid)) :
    Only Seeking (leadIsActive threadId lead) := by
  unfold leadIsActive
  split
  · exact only_bind (only_query rfl) fun _ => only_pure _
  · exact only_pure _

theorem only_updateThread (user : User) (threadId : Uuid) (title : Option (Option String))
    (lead : Option (Option Uuid)) : Only Seeking (updateThread user threadId title lead) := by
  refine only_failWith (only_bind ((only_isThreadOwner _ _ _).mono fun _ => .of_routine)
    fun allowed => ?_)
  split
  · exact only_pure _
  · refine only_bind (only_leadIsActive _ _) fun active => only_ite (fun _ => only_pure _) fun _ =>
      only_bind (only_query rfl) fun thread => ?_
    split
    · exact only_pure _
    · exact only_pure _

theorem only_deleteThread (user : User) (threadId : Uuid) :
    Only Routine (deleteThread user threadId) := by
  refine only_failWith (only_bind (only_isThreadOwner _ _ _) fun allowed => ?_)
  split
  · exact only_pure _
  · refine only_bind (only_query rfl) fun rowCount => ?_
    split
    · exact only_pure _
    · exact only_bind (only_ite (fun _ => only_bind (only_isThreadOwner _ _ _) fun _ => only_pure _)
        fun _ => only_pure _) fun _ => only_pure _

theorem only_finishParticipants (threadId : Uuid) (remove : List Uuid) :
    Only Closing (finishParticipants threadId remove) := by
  refine only_bind (only_forM fun agentUuid _ => ?_) fun _ =>
    only_bind (only_query rfl) fun _ => only_pure _
  exact only_bind (only_closeMessages _) fun _ => only_query rfl

theorem only_addParticipants (hadd : ∀ threadId agentUuid, A (.addParticipant threadId agentUuid))
    (hseeking : ∀ s, Seeking s → A s) (threadId : Uuid) (add : List Uuid) :
    Only A (addParticipants threadId add) := by
  refine only_bind (only_forM fun agentUuid _ => only_query (hadd _ _)) fun _ =>
    only_bind (only_query (hseeking _ rfl)) fun agents => ?_
  exact only_ite (fun _ => only_query (hseeking _ rfl)) fun _ => only_pure _

theorem only_updateParticipants (user : User) (threadId : Uuid) (add : Option (List Uuid))
    (remove : List Uuid) : Only Passive (updateParticipants user threadId add remove) := by
  refine only_failWith (only_bind ((only_isThreadOwner _ _ _).mono fun _ => .of_routine)
    fun allowed => ?_)
  split
  · exact only_pure _
  · split
    · exact (only_finishParticipants threadId remove).mono fun _ => .of_closing
    · refine only_bind (only_query rfl) fun agents => only_ite (fun _ => only_pure _) fun _ =>
        only_bind ((only_deniedUuid _ _).mono fun _ => .of_routine) fun denied => ?_
      split
      · exact only_pure _
      · exact only_bind (only_addParticipants (fun _ _ => rfl) (fun _ h => .of_closing (.of_seeking h))
          _ _) fun _ =>
          (only_finishParticipants _ _).mono fun _ => .of_closing

theorem only_stopAgent (cfg : Config) (agentUuid : Uuid) :
    Only Closing (stopAgent cfg agentUuid) := by
  have hrevoke : ∀ configured agentId jti, Only Closing (revokeFailed configured agentId jti) :=
    fun _ _ _ => (only_revokeFailed _ _ _).mono fun _ => .of_routine
  refine only_failWith (only_bind (only_query rfl) fun agent => ?_)
  split
  · exact only_pure _
  · exact only_bind (hrevoke _ _ _) fun _ => only_bind (hrevoke _ _ _) fun _ =>
      only_bind ((only_removeContainer _).mono fun _ => .of_routine) fun _ =>
        only_bind (only_mark _) fun _ => only_bind (only_quietly (only_query rfl)) fun _ =>
          only_bind (only_query rfl) fun _ =>
            only_bind (only_quietly (only_query rfl)) fun _ => only_pure _

theorem only_sweepStale : Only Closing sweepStale :=
  only_failWith (only_bind (only_closeMessages _) fun _ => only_pure _)

section Dispatch

variable {A : Statement → Prop}

theorem only_createPlaceholders (opts : DispatchOpts) (agents : List Agent)
    (hplace : ∀ agentId, A (.createPlaceholder ⟨opts.threadId, agentId, opts.replyTo, opts.chain⟩)) :
    Only A (createPlaceholders opts agents) := by
  induction agents with
  | nil => exact only_pure _
  | cons agent agents ih =>
    exact only_bind (only_query (hplace agent.id)) fun id => only_bind ih fun _ => only_pure _

theorem only_refuseAll (placeholders : List (Agent × Uuid)) :
    Only Closing (refuseAll placeholders) := by
  induction placeholders with
  | nil => exact only_pure _
  | cons placeholder placeholders ih =>
    exact only_bind (only_mark _) fun _ => only_bind ih fun _ => only_pure _

theorem only_settle (placeholders : List (Agent × Uuid)) (results : List DispatchOutcome) :
    Only Closing (settle placeholders results) := by
  induction placeholders generalizing results with
  | nil => cases results <;> exact only_pure _
  | cons placeholder placeholders ih =>
    cases results with
    | nil => exact only_pure _
    | cons result results =>
      rw [settle]
      split
      · exact only_bind (ih results) fun _ => only_pure _
      · exact only_bind (only_mark _) fun _ => only_bind (ih results) fun _ => only_pure _

/-- The dispatch after its placeholders. -/
theorem only_deliverAll (cfg : Config) (opts : DispatchOpts) (placeholders : List (Agent × Uuid)) :
    Only Delivering (if (orNull cfg.chatCallbackToken).isNone then do
        let failed ← refuseAll placeholders
        pure ([], failed)
      else do
        let results : List DispatchOutcome ← query (.dispatchChatWork
          (placeholders.map fun (agent, id) => chatWork cfg opts agent id))
        settle placeholders results :
      Handler (List Dispatched × List Undelivered)) :=
  only_ite (fun _ => only_bind ((only_refuseAll _).mono fun _ => .of_closing) fun _ => only_pure _)
    fun _ => only_bind (only_query rfl) fun results =>
      (only_settle placeholders results).mono fun _ => .of_closing

theorem only_dispatchToAgents (cfg : Config) (opts : DispatchOpts)
    (hplace : ∀ agentId, A (.createPlaceholder ⟨opts.threadId, agentId, opts.replyTo, opts.chain⟩))
    (hdelivering : ∀ s, Delivering s → A s) : Only A (dispatchToAgents cfg opts) :=
  only_bind (only_createPlaceholders opts opts.agents hplace) fun placeholders =>
    (only_deliverAll cfg opts placeholders).mono hdelivering

theorem only_openThread (cfg : Config) (req : CreateRequest) (threadType : ThreadType)
    (text : String) (agents toDispatch : List Agent) :
    Only Sending (openThread cfg req threadType text agents toDispatch) :=
  only_bind (only_query rfl) fun _ =>
    only_bind (only_dispatchToAgents _ _ (fun _ => rfl) fun _ => .of_delivering) fun _ => only_pure _

theorem only_createThread (cfg : Config) (req : CreateRequest) :
    Only Sending (createThread cfg req) := by
  refine only_orDuplicate ?_
  split
  · exact only_pure _
  · refine only_bind ((only_loadAgents _).mono fun _ => .of_routine) fun agents => ?_
    split
    · exact only_pure _
    · refine only_bind ((only_deniedAgent _ _).mono fun _ => .of_routine) fun denied => ?_
      split
      · exact only_pure _
      · exact only_ite (fun _ => only_pure _) fun _ => only_ite (fun _ => only_pure _)
          fun _ => only_openThread cfg req _ _ _ _

theorem only_classifyAgents (threadId : Uuid) (agents : List Agent) :
    Only Looking (classifyAgents threadId agents) := by
  induction agents with
  | nil => exact only_pure _
  | cons agent agents ih =>
    exact only_ite
      (fun _ => only_bind (only_query rfl) fun _ => only_bind ih fun _ => only_pure _)
      fun _ => only_bind ih fun _ => only_pure _

theorem only_peersOf (threadType : ThreadType) (uuids : List Uuid) :
    Only Routine (peersOf threadType uuids) :=
  only_ite (fun _ => only_bind (only_loadKnownAgents _) fun _ => only_pure _) fun _ => only_pure _

theorem only_deliver (cfg : Config) (req : SendRequest) (text : String) (threadType : ThreadType)
    (lead : Option Uuid) (all : List Uuid) (targets : Option (List Uuid))
    (dispatchable : List Agent) (skipped : List (Uuid × String)) :
    Only Posting (deliver cfg req text threadType lead all targets dispatchable skipped) :=
  only_bind (only_query rfl) fun _ => only_bind (only_query rfl) fun _ =>
    only_bind ((only_peersOf _ _).mono fun _ => .of_routine) fun _ =>
      only_ite (fun _ => only_pure _) fun _ =>
        only_bind (only_dispatchToAgents _ _ (fun _ => rfl) fun _ => .of_delivering) fun _ => only_pure _

theorem only_sendTo (cfg : Config) (req : SendRequest) (text : String) (threadType : ThreadType)
    (lead : Option Uuid) (all targetUuids : List Uuid) (targets : Option (List Uuid)) :
    Only Posting (sendTo cfg req text threadType lead all targetUuids targets) := by
  refine only_bind ((only_loadKnownAgents _).mono fun _ => .of_routine) fun agents =>
    only_ite (fun _ => only_pure _) fun _ =>
      only_bind ((only_deniedAgent _ _).mono fun _ => .of_routine) fun denied => ?_
  split
  · exact only_pure _
  · exact only_bind ((only_classifyAgents _ _).mono fun _ => .of_looking) fun _ =>
      only_ite (fun _ => only_pure _) fun _ => only_deliver cfg req _ _ _ _ _ _ _

theorem only_sendMessage (cfg : Config) (req : SendRequest) :
    Only Posting (sendMessage cfg req) := by
  refine only_orDuplicate (only_bind ((only_isParticipant _ _).mono fun _ => .of_routine)
    fun allowed => only_ite (fun _ => only_pure _) fun _ => ?_)
  split
  · exact only_pure _
  · refine only_bind (only_query rfl) fun info => ?_
    split
    · exact only_pure _
    · refine only_bind (only_query rfl) fun all => only_ite (fun _ => only_pure _) fun _ =>
        only_ite (fun _ => only_sendTo cfg req _ _ _ _ _ _) fun _ =>
          only_bind ((only_resolveAgentSlugs _ _).mono fun _ h => .of_closing (.of_seeking h))
            fun resolved => ?_
      split
      · exact only_pure _
      · exact only_sendTo cfg req _ _ _ _ _ _

end Dispatch

section Callback

/-- Allowed to the callback that has closed the message. -/
def DecidedBy (id : Uuid) (s : Statement) : Prop :=
  s.answers = none ∧ (s.finalWork = none ∨ s.finalWork = some id)

variable {id : Uuid}

theorem DecidedBy.of_mundane {s : Statement} (h : Mundane s) : DecidedBy id s := ⟨h.1, .inl h.2⟩

theorem DecidedBy.of_routine {s : Statement} (h : Routine s) : DecidedBy id s :=
  .of_mundane (.of_routine h)

theorem only_journal (cfg : Config) (id : Uuid) (b : CallbackBody) :
    Only (fun s => Routine s ∨ s = .selectJournal id) (journal cfg id b) := by
  refine only_ite (fun _ => only_quietly (only_bind (only_query (.inr rfl)) fun row => ?_))
    fun _ => only_pure _
  split
  · exact only_quietly (only_query (.inl rfl))
  · exact only_pure _

theorem DecidedBy.of_journal {s : Statement} (h : Routine s ∨ s = .selectJournal id) :
    DecidedBy id s := by
  obtain h | rfl := h
  · exact .of_routine h
  · exact ⟨rfl, .inr rfl⟩

theorem only_eligibleAgents (threadId : Uuid) (uuids : List Uuid) :
    Only Looking (eligibleAgents threadId uuids) := by
  induction uuids with
  | nil => exact only_pure _
  | cons uuid uuids ih =>
    refine only_bind (only_query rfl) fun scope => ?_
    split
    · exact ih
    · refine only_bind (only_query rfl) fun agent => ?_
      split
      · exact ih
      · exact only_ite (fun _ => only_bind (only_query rfl) fun _ =>
          only_bind ih fun _ => only_pure _) fun _ => ih

theorem only_groupPeers (threadId : Uuid) (threadType : Option ThreadType) :
    Only Routine (groupPeers threadId threadType) :=
  only_ite (fun _ => only_bind (only_query rfl) fun _ => only_pure _) fun _ => only_pure _

theorem only_dispatchChain (cfg : Config) (id threadId chainId : Uuid) (newHop : ℕ)
    (agents : List Agent) : Only Extending (dispatchChain cfg id threadId chainId newHop agents) :=
  only_bind (only_query rfl) fun _ => only_bind (only_query rfl) fun _ =>
    only_bind ((only_groupPeers _ _).mono fun _ => .of_routine) fun _ =>
      only_bind (only_dispatchToAgents _ _ (fun _ => rfl) fun _ =>
        .of_delivering) fun _ => only_pure _

theorem only_chainStart (chainId : Uuid) : Only Routine (chainStart chainId) := by
  refine only_bind (only_query rfl) fun start => ?_
  split
  · exact only_pure _
  · exact only_query rfl

theorem only_continueChain (cfg : Config) (id threadId chainId : Uuid) (newHop : ℕ)
    (targets : List Uuid) :
    Only Extending (continueChain cfg id threadId chainId newHop targets) :=
  only_ite (fun _ => only_bind ((only_chainStart _).mono fun _ => .of_routine) fun _ =>
    only_bind (only_query rfl) fun _ => only_ite
      (fun _ => only_bind (only_query rfl) fun _ => only_ite (fun _ => only_pure _) fun _ =>
        only_bind ((only_eligibleAgents _ _).mono fun _ => .of_looking) fun _ => only_ite (fun _ => only_pure _) fun _ =>
          only_dispatchChain cfg id _ _ _ _)
      fun _ => only_pure _) fun _ => only_pure _

theorem only_chainOf (id : Uuid) (trigger : Trigger) : Only Extending (chainOf id trigger) := by
  unfold chainOf
  split
  · exact only_pure _
  · exact only_bind (only_query rfl) fun _ => only_bind (only_query rfl) fun _ =>
      only_pure _

/-- What the orchestration after the final callback of a message hands over. -/
def Orchestrating (id : Uuid) (s : Statement) : Prop := Extending s ∨ s = .selectTrigger id

theorem DecidedBy.of_orchestrating {s : Statement} (h : Orchestrating id s) : DecidedBy id s := by
  obtain h | rfl := h
  · exact .of_mundane (.of_extending h)
  · exact ⟨rfl, .inr rfl⟩

theorem only_orchestrate (cfg : Config) (id : Uuid) (b : CallbackBody) :
    Only (Orchestrating id) (orchestrate cfg id b) := by
  refine only_ite (fun _ => only_quietly (only_bind (only_query (.inr rfl)) fun trigger => ?_))
    fun _ => only_pure _
  split
  · exact only_pure _
  · exact only_bind ((only_resolveAgentSlugs _ _).mono fun _ h =>
        .inl (.of_closing (.of_seeking h))) fun _ =>
      only_ite (fun _ => only_pure _) fun _ =>
        only_bind ((only_chainOf _ _).mono fun _ => .inl) fun _ =>
          (only_continueChain cfg id _ _ _ _).mono fun _ => .inl

end Callback

/-- The requests whose programs are all routine but for closes and new participants. -/
def Request.isPassive : Request → Bool
  | createThread _ | sendMessage _ | callback _ => false
  | _ => true

def Request.isClosing : Request → Bool
  | updateParticipants .. => false
  | q => q.isPassive

theorem only_closing (cfg : Config) {q : Request} (h : q.isClosing = true) :
    Only Closing (q.handler cfg) := by
  cases q with
  | createThread req => cases h
  | sendMessage req => cases h
  | cancel user threadId => exact only_cancelMessages user threadId
  | getThread user threadId limit beforeSeq => exact only_getThread user threadId limit beforeSeq
  | updateThread user threadId title lead =>
    exact (only_updateThread user threadId title lead).mono fun _ => .of_seeking
  | deleteThread user threadId =>
    exact (only_deleteThread user threadId).mono fun _ => .of_routine
  | updateParticipants user threadId add remove => cases h
  | stopAgent agentUuid => exact only_stopAgent cfg agentUuid
  | sweep => exact only_sweepStale
  | callback req => cases h

theorem only_passive (cfg : Config) {q : Request} (h : q.isPassive = true) :
    Only Passive (q.handler cfg) := by
  by_cases hclosing : q.isClosing = true
  · exact (only_closing cfg hclosing).mono fun _ => .of_closing
  · cases q with
    | updateParticipants user threadId add remove =>
      exact only_updateParticipants user threadId add remove
    | _ => exact absurd h hclosing

end Hill90.Chat
