import Mathlib.Data.List.Nodup
import Hill90.Foundation.Machine

/-! # The webhooks of agents

The webhook routes of `routes/agents.ts`, `provider-key-crypto.ts` and `webhook-dispatch.ts`.  Every
process of the API has a key of its own environment, any number of them run, start and stop, and a
statement may take effect after its process has ended.
-/

namespace Hill90.Agents.Webhooks

/-- `node:crypto` and `URL`, for keys that are well formed.  A ciphertext, with its nonce, opens under
the key it was made with and under no other. -/
structure Node (Key Sealed : Type) where
  encrypt : Key → ℕ → String → Sealed
  decrypt : Key → Sealed → Option String
  createHmac : String → String → String
  isUrl : String → Bool
  decrypt_encrypt : ∀ k n m, decrypt k (encrypt k n m) = some m
  decrypt_other : ∀ k k' n m, k' ≠ k → decrypt k' (encrypt k n m) = none

structure Webhook (Sealed : Type) where
  id : ℕ
  agentUuid : ℕ
  url : String
  events : List String
  active : Bool := true
  secret : Option Sealed
  deriving DecidableEq

structure Post where
  hook : ℕ
  url : String
  body : String
  signature : Option String
  deriving DecidableEq

def isDiscordWebhook (url : String) : Bool :=
  "discord.com/api/webhooks/".toList <:+: url.toList ∨
    "discordapp.com/api/webhooks/".toList <:+: url.toList

structure CreateBody where
  url : Option String := none
  events : Option (List String) := none
  secret : Option String := none
  deriving DecidableEq

def validWebhookEvents : List String := ["start", "stop", "error"]

def CreateBody.check (isUrl : String → Bool) (body : CreateBody) : Except String (String × List String) :=
  match body.url.filter (· ≠ "") with
  | none => .error "url is required"
  | some url =>
    if isUrl url then
      let eventList := body.events.getD validWebhookEvents
      match eventList.find? (· ∉ validWebhookEvents) with
      | some e => .error ("Invalid event: " ++ e ++ ". Valid: start, stop, error")
      | none => .ok (url, eventList)
    else .error "Invalid URL format"

inductive Write (Sealed : Type) where
  /-- `secret` is what `sealed` was made of. -/
  | insertWebhook (agentUuid : ℕ) (url : String) (events : List String) (sealed : Option Sealed)
    (secret : Option String)
  | deleteWebhook (id agentUuid : ℕ)
  /-- The webhooks of an agent go with its row. -/
  | deleteAgent (agentUuid : ℕ)
  deriving DecidableEq

/-- A missing or malformed key is `none`. -/
structure Process (Key Sealed : Type) where
  key : Option Key
  /-- The webhooks selected for an event, and the body it has. -/
  dispatches : List (List (Webhook Sealed) × String) := []
  deriving DecidableEq

structure Registration where
  id : ℕ
  url : String
  secret : Option String
  deriving DecidableEq

structure State (Key Sealed : Type) where
  webhooks : List (Webhook Sealed) := []
  processes : List (Process Key Sealed) := []
  inFlight : List (Write Sealed) := []
  registered : List Registration := []
  posts : List Post := []
  skipped : List ℕ := []
  refusals : List (ℕ × String) := []

inductive Event (Key : Type) where
  | boot (key : Option Key)
  | stop (i : ℕ)
  /-- `found` is whether the agent has a row. -/
  | create (i agentUuid : ℕ) (found : Bool) (body : CreateBody) (draw : ℕ)
  | delete (i id agentUuid : ℕ)
  | deleteAgent (i agentUuid : ℕ)
  | land (n id : ℕ)
  | lose (n : ℕ)
  | select (i agentUuid : ℕ) (event body : String)
  | deliver (i n : ℕ)
  deriving DecidableEq

variable {Key Sealed : Type} (node : Node Key Sealed) (formatDiscordPayload : String → String)

section Dispatch

def decryptWebhookSecret (key : Option Key) (hook : Webhook Sealed) : Option (Option String) :=
  match hook.secret with
  | none => some none
  | some c => (key.bind fun k => node.decrypt k c).map some

def deliverWebhook (key : Option Key) (body : String) (hook : Webhook Sealed) : Option Post :=
  (decryptWebhookSecret node key hook).map fun secret =>
    if isDiscordWebhook hook.url then ⟨hook.id, hook.url, formatDiscordPayload body, none⟩
    else ⟨hook.id, hook.url, body,
      (secret.filter (· ≠ "")).map fun x => "sha256=" ++ node.createHmac x body⟩

end Dispatch

namespace State

variable (s : State Key Sealed)

def setProcess (i : ℕ) (P : Process Key Sealed) : State Key Sealed :=
  { s with processes := s.processes.set i P }

def endProcess (i : ℕ) : State Key Sealed := { s with processes := s.processes.eraseIdx i }

def hand (w : Write Sealed) : State Key Sealed := { s with inFlight := s.inFlight ++ [w] }

def refuse (status : ℕ) (error : String) : State Key Sealed :=
  { s with refusals := s.refusals ++ [(status, error)] }

def perform (id : ℕ) : Write Sealed → Option (State Key Sealed)
  | .insertWebhook agentUuid url events sealed secret =>
    if id ∈ s.registered.map Registration.id then none
    else some { s with
      webhooks := s.webhooks ++ [{ id, agentUuid, url, events, secret := sealed }]
      registered := s.registered ++ [⟨id, url, secret⟩] }
  | .deleteWebhook hookId agentUuid => some { s with
      webhooks := s.webhooks.filter fun w => ¬(w.id = hookId ∧ w.agentUuid = agentUuid) }
  | .deleteAgent agentUuid => some { s with
      webhooks := s.webhooks.filter fun w => w.agentUuid ≠ agentUuid }

/-- The INSERT of a registration that passed its checks; an empty secret is none. -/
def register (P : Process Key Sealed) (agentUuid : ℕ) (url : String) (events : List String)
    (secret : Option String) (draw : ℕ) : State Key Sealed :=
  match secret.filter (· ≠ ""), P.key with
  | none, _ => s.hand (.insertWebhook agentUuid url events none none)
  | some m, some k =>
    s.hand (.insertWebhook agentUuid url events (some (node.encrypt k draw m)) (some m))
  | some _, none => s.refuse 500 "Failed to create webhook"

def hooks (agentUuid : ℕ) (event : String) : List (Webhook Sealed) :=
  s.webhooks.filter fun w => w.agentUuid = agentUuid ∧ w.active ∧ event ∈ w.events

def dispatch (i n : ℕ) (P : Process Key Sealed) (hooks : List (Webhook Sealed)) (body : String) :
    State Key Sealed :=
  let attempt := deliverWebhook node formatDiscordPayload P.key body
  { s.setProcess i { P with dispatches := P.dispatches.eraseIdx n } with
    posts := s.posts ++ hooks.filterMap attempt
    skipped := s.skipped ++ (hooks.filter fun hook => (attempt hook).isNone).map Webhook.id }

def step : Event Key → Option (State Key Sealed)
  | .boot key => some { s with processes := s.processes ++ [⟨key, []⟩] }
  | .stop i => some (s.endProcess i)
  | .create i agentUuid found body draw => s.processes[i]?.map fun P =>
      match body.check node.isUrl with
      | .error error => s.refuse 400 error
      | .ok (url, events) =>
        if found then s.register node P agentUuid url events body.secret draw
        else s.refuse 404 "Agent not found"
  | .delete i id agentUuid => s.processes[i]?.map fun _ => s.hand (.deleteWebhook id agentUuid)
  | .deleteAgent i agentUuid => s.processes[i]?.map fun _ => s.hand (.deleteAgent agentUuid)
  | .land n id => s.inFlight[n]?.bind fun w =>
      { s with inFlight := s.inFlight.eraseIdx n }.perform id w
  | .lose n => some { s with inFlight := s.inFlight.eraseIdx n }
  | .select i agentUuid event body => s.processes[i]?.map fun P =>
      s.setProcess i { P with dispatches := P.dispatches ++ [(s.hooks agentUuid event, body)] }
  | .deliver i n => s.processes[i]?.bind fun P =>
      P.dispatches[n]?.map fun d => s.dispatch node formatDiscordPayload i n P d.1 d.2

end State

def machine : Machine (State Key Sealed) (Event Key) where
  initial s := s = {}
  step := State.step node formatDiscordPayload

section Signing

variable {node} {formatDiscordPayload} {s t : State Key Sealed} {i n : ℕ}
  {P : Process Key Sealed} {w : Write Sealed} {hook : Webhook Sealed}

variable (node) in
inductive Seals : Option Sealed → Option String → Prop where
  | none : Seals none none
  | some (k : Key) (n : ℕ) {m : String} (h : m ≠ "") : Seals (some (node.encrypt k n m)) (some m)

variable (node) in
def State.Registered (s : State Key Sealed) (hook : Webhook Sealed) : Prop :=
  ∃ r ∈ s.registered, r.id = hook.id ∧ r.url = hook.url ∧ Seals node hook.secret r.secret

variable (node) in
def Signed (post : Post) (r : Registration) : Prop :=
  r.id = post.hook ∧ r.url = post.url ∧ post.signature =
    if isDiscordWebhook r.url then none
    else r.secret.map fun x => "sha256=" ++ node.createHmac x post.body

variable (node) in
structure Kept (s : State Key Sealed) : Prop where
  distinct : (s.registered.map Registration.id).Nodup
  webhooks : ∀ hook ∈ s.webhooks, s.Registered node hook
  selected : ∀ P ∈ s.processes, ∀ d ∈ P.dispatches, ∀ hook ∈ d.1, s.Registered node hook
  inFlight : ∀ agentUuid url events sealed secret,
    .insertWebhook agentUuid url events sealed secret ∈ s.inFlight → Seals node sealed secret
  posts : ∀ post ∈ s.posts, ∃ r ∈ s.registered, Signed node post r

/-- No key makes another secret of a ciphertext. -/
theorem secret_of_seals {key : Option Key} {secret m : Option String}
    (hseals : Seals node hook.secret m) (h : decryptWebhookSecret node key hook = some secret) :
    secret = m := by
  unfold decryptWebhookSecret at h
  generalize hook.secret = c at hseals h
  cases hseals with
  | none => exact (Option.some.inj h).symm
  | some k n hm =>
    obtain ⟨x, hx, rfl⟩ := Option.map_eq_some_iff.mp h
    obtain ⟨k', -, hx⟩ := Option.bind_eq_some_iff.mp hx
    obtain rfl | hk := eq_or_ne k' k
    · rw [node.decrypt_encrypt] at hx
      exact hx.symm
    · rw [node.decrypt_other k k' n _ hk] at hx
      cases hx

theorem Seals.filter {c : Option Sealed} {m : Option String} (h : Seals node c m) :
    m.filter (· ≠ "") = m := by
  cases h with
  | none => rfl
  | some k n hm => simp [Option.filter, hm]

theorem signed_of_deliverWebhook {key : Option Key} {body : String} {post : Post} {r : Registration}
    (hid : r.id = hook.id) (hurl : r.url = hook.url) (hseals : Seals node hook.secret r.secret)
    (h : deliverWebhook node formatDiscordPayload key body hook = some post) :
    Signed node post r := by
  obtain ⟨secret, hsecret, rfl⟩ := Option.map_eq_some_iff.mp h
  have heq : secret = r.secret := secret_of_seals hseals hsecret
  rw [heq, hseals.filter]
  unfold Signed
  rw [hid, hurl]
  split
  · exact ⟨rfl, rfl, rfl⟩
  · exact ⟨rfl, rfl, rfl⟩

theorem State.Registered.mono (h : s.Registered node hook)
    (hle : ∀ r ∈ s.registered, r ∈ t.registered) : t.Registered node hook := by
  obtain ⟨r, hr, hrest⟩ := h
  exact ⟨r, hle r hr, hrest⟩

theorem Kept.setProcess (h : Kept node s)
    (hP : ∀ d ∈ P.dispatches, ∀ hook ∈ d.1, s.Registered node hook) :
    Kept node (s.setProcess i P) :=
  { h with
    selected := fun Q hQ => by
      rcases List.mem_or_eq_of_mem_set hQ with hQ | rfl
      · exact h.selected Q hQ
      · exact hP }

theorem Kept.endProcess (h : Kept node s) (i : ℕ) : Kept node (s.endProcess i) :=
  { h with selected := fun Q hQ => h.selected Q (List.mem_of_mem_eraseIdx hQ) }

theorem Kept.hand (h : Kept node s) (hw : ∀ agentUuid url events sealed secret,
    w = .insertWebhook agentUuid url events sealed secret → Seals node sealed secret) :
    Kept node (s.hand w) :=
  { h with
    inFlight := fun agentUuid url events sealed secret hmem => by
      rcases List.mem_append.mp hmem with hmem | hmem
      · exact h.inFlight agentUuid url events sealed secret hmem
      · exact hw agentUuid url events sealed secret (List.mem_singleton.mp hmem).symm }

theorem Kept.lose (h : Kept node s) (n : ℕ) :
    Kept node { s with inFlight := s.inFlight.eraseIdx n } :=
  { h with
    inFlight := fun agentUuid url events sealed secret hmem =>
      h.inFlight agentUuid url events sealed secret (List.mem_of_mem_eraseIdx hmem) }

theorem Kept.perform {id : ℕ} (h : Kept node s) (hw : ∀ agentUuid url events sealed secret,
    w = .insertWebhook agentUuid url events sealed secret → Seals node sealed secret)
    (hstep : s.perform id w = some t) : Kept node t := by
  cases w with
  | insertWebhook agentUuid url events sealed secret =>
    rw [State.perform] at hstep
    split at hstep
    · cases hstep
    · rename_i hnew
      cases hstep
      have hle : ∀ r ∈ s.registered, r ∈ s.registered ++ [⟨id, url, secret⟩] := fun r hr =>
        List.mem_append_left _ hr
      constructor
      case distinct =>
        rw [List.map_append]
        exact h.distinct.append (List.nodup_singleton _) (by simpa using hnew)
      case webhooks =>
        intro hook hhook
        rcases List.mem_append.mp hhook with hhook | hhook
        · exact (h.webhooks hook hhook).mono hle
        · cases List.mem_singleton.mp hhook
          exact ⟨_, List.mem_append_right _ (List.mem_singleton_self _), rfl, rfl,
            hw _ _ _ _ _ rfl⟩
      case selected =>
        intro Q hQ d hd hook hhook
        exact (h.selected Q hQ d hd hook hhook).mono hle
      case inFlight => exact h.inFlight
      case posts =>
        intro post hpost
        obtain ⟨r, hr, hsigned⟩ := h.posts post hpost
        exact ⟨r, hle r hr, hsigned⟩
  | deleteWebhook hookId agentUuid =>
    cases hstep
    exact { h with webhooks := fun hook hhook => h.webhooks hook (List.mem_of_mem_filter hhook) }
  | deleteAgent agentUuid =>
    cases hstep
    exact { h with webhooks := fun hook hhook => h.webhooks hook (List.mem_of_mem_filter hhook) }

theorem Kept.register {agentUuid draw : ℕ} {url : String} {events : List String}
    {secret : Option String} (h : Kept node s) :
    Kept node (s.register node P agentUuid url events secret draw) := by
  unfold State.register
  split
  · exact h.hand fun _ _ _ _ _ heq => by
      cases heq
      exact .none
  · rename_i m k hm _
    have hne : m ≠ "" := of_decide_eq_true (Option.filter_eq_some_iff.mp hm).2
    exact h.hand fun _ _ _ _ _ heq => by
      cases heq
      exact .some k draw hne
  · exact { h with }

theorem Kept.dispatch {hooks : List (Webhook Sealed)} {body : String} (h : Kept node s)
    (hP : P ∈ s.processes) (hd : (hooks, body) ∈ P.dispatches) :
    Kept node (s.dispatch node formatDiscordPayload i n P hooks body) := by
  have hset : Kept node (s.setProcess i { P with dispatches := P.dispatches.eraseIdx n }) :=
    h.setProcess fun d hd => h.selected P hP d (List.mem_of_mem_eraseIdx hd)
  refine { hset with posts := fun post hpost => ?_ }
  rcases List.mem_append.mp hpost with hpost | hpost
  · exact h.posts post hpost
  · obtain ⟨hook, hhook, hpost⟩ := List.mem_filterMap.mp hpost
    obtain ⟨r, hr, hid, hurl, hseals⟩ := h.selected P hP _ hd hook hhook
    exact ⟨r, hr, signed_of_deliverWebhook hid hurl hseals hpost⟩

theorem Kept.step {e : Event Key} (h : Kept node s)
    (hstep : s.step node formatDiscordPayload e = some t) : Kept node t := by
  cases e with
  | boot key =>
    cases hstep
    refine { h with selected := fun Q hQ => ?_ }
    rcases List.mem_append.mp hQ with hQ | hQ
    · exact h.selected Q hQ
    · cases List.mem_singleton.mp hQ
      exact fun d hd => absurd hd List.not_mem_nil
  | stop i =>
    cases hstep
    exact h.endProcess i
  | create i agentUuid found body draw =>
    obtain ⟨P, -, rfl⟩ := Option.map_eq_some_iff.mp hstep
    split
    · exact { h with }
    · split
      · exact h.register
      · exact { h with }
  | delete i id agentUuid =>
    obtain ⟨P, -, rfl⟩ := Option.map_eq_some_iff.mp hstep
    exact h.hand fun _ _ _ _ _ heq => by cases heq
  | deleteAgent i agentUuid =>
    obtain ⟨P, -, rfl⟩ := Option.map_eq_some_iff.mp hstep
    exact h.hand fun _ _ _ _ _ heq => by cases heq
  | land n id =>
    obtain ⟨w, hw, hstep⟩ := Option.bind_eq_some_iff.mp hstep
    refine (h.lose n).perform ?_ hstep
    rintro agentUuid url events sealed secret rfl
    exact h.inFlight _ _ _ _ _ (List.mem_of_getElem? hw)
  | lose n =>
    cases hstep
    exact h.lose n
  | select i agentUuid event body =>
    obtain ⟨P, hP, rfl⟩ := Option.map_eq_some_iff.mp hstep
    refine h.setProcess fun d hd hook hhook => ?_
    rcases List.mem_append.mp hd with hd | hd
    · exact h.selected P (List.mem_of_getElem? hP) d hd hook hhook
    · cases List.mem_singleton.mp hd
      exact h.webhooks hook (List.mem_of_mem_filter hhook)
  | deliver i n =>
    obtain ⟨P, hP, hstep⟩ := Option.bind_eq_some_iff.mp hstep
    obtain ⟨d, hd, rfl⟩ := Option.map_eq_some_iff.mp hstep
    exact h.dispatch (List.mem_of_getElem? hP) (List.mem_of_getElem? hd)

/-- Whatever keys the processes have, and however they overlap, no webhook with a secret gets an
unsigned request or one that another secret signs. -/
theorem deliveries_signed (h : (machine node formatDiscordPayload).Reachable s) :
    (s.registered.map Registration.id).Nodup ∧
      ∀ post ∈ s.posts, ∃ r ∈ s.registered, Signed node post r := by
  have hkept : Kept node s := by
    refine h.invariant (I := Kept node) ?_ fun s e t hs _ hstep => hs.step hstep
    rintro s rfl
    constructor <;> simp
  exact ⟨hkept.distinct, hkept.posts⟩

end Signing

section Sample

/-- A cipher that is no secret. -/
def plainNode : Node ℕ (ℕ × String) where
  encrypt key _ plaintext := (key, plaintext)
  decrypt key c := if c.1 = key then some c.2 else none
  createHmac key body := key ++ body
  isUrl _ := true
  decrypt_encrypt := fun _ _ _ => if_pos rfl
  decrypt_other := fun _ _ _ _ h => if_neg h.symm

def hookOf (secret : String) : CreateBody :=
  { url := some "https://a", events := some ["stop"], secret := some secret }

/-- Two processes with different keys get the same event. -/
def overlapping : List (Event ℕ) :=
  [.boot (some 5), .boot (some 6), .create 0 1 true (hookOf "k") 0, .land 0 7,
    .select 0 1 "stop" "b", .select 1 1 "stop" "b", .deliver 0 0, .deliver 1 0]

def afterwards : State ℕ (ℕ × String) := (machine plainNode id).after {} overlapping

theorem deliveries_signed_overlapping :
    (afterwards.registered.map Registration.id).Nodup ∧
      ∀ post ∈ afterwards.posts, ∃ r ∈ afterwards.registered, Signed plainNode post r :=
  deliveries_signed ⟨{}, overlapping, rfl, Machine.run_after (by decide)⟩

example : (afterwards.posts, afterwards.skipped) =
    ([⟨7, "https://a", "b", some "sha256=kb"⟩], [7]) := by decide

end Sample
end Hill90.Agents.Webhooks
