import Hill90.Foundation.Fate
import Hill90.Foundation.Window
import Hill90.Router.Routes

/-! # How long a request that was denied has to wait

`check_rate_limit` tells the caller to come back when the oldest request of the last minute has
left it.  That age is rounded to whole seconds, and one request that leaves need not be enough.
-/

namespace Hill90.Router

open Chat (Uuid)

def Handler.answered {α : Type} (p : Handler α) (s : Store) : Except Failure α :=
  (Program.against Statement.run (fun _ => .answered {}) p s).1

namespace Store

variable (s : Store)

def loggedAt (agentId : String) (delegationId : Option Uuid) : List ℚ :=
  (s.usage.filter fun r => r.countsFor agentId delegationId).map UsageRow.createdAt

def rateLimit (agentId : String) (maxRpm : ℤ) (delegationId : Option Uuid) : RateLimitResult :=
  let rows := s.lastMinute agentId delegationId
  { allowed := (rows.length : ℤ) < maxRpm
    count := rows.length
    limit := maxRpm
    retryAfter := if (rows.length : ℤ) ≥ maxRpm then max 0 (60 - (s.oldestAge rows).getD 0) else 0 }

def tokenBudget (agentId : String) (maxTokens : ℤ) (delegationId : Option Uuid) : BudgetResult :=
  let tokensUsed := s.tokensToday agentId delegationId
  { allowed := tokensUsed < maxTokens, tokensUsed, limit := maxTokens }

/-- The oldest request of the last minute has an age that is not rounded up, and fewer requests than
the limit are younger than its whole seconds. -/
def WaitSuffices (agentId : String) (maxRpm : ℤ) (delegationId : Option Uuid) : Prop :=
  ∃ oldest, ((s.lastMinute agentId delegationId).map UsageRow.createdAt).min? = some oldest ∧
    Int.fract (s.now - oldest) < 1 / 2 ∧
    (since (s.loggedAt agentId delegationId) (s.now - ⌊s.now - oldest⌋) : ℤ) < maxRpm

end Store

variable {s s' : Store} {agentId : String} {maxRpm : ℤ} {delegationId : Option Uuid}

theorem answered_checkRateLimit : Handler.answered (checkRateLimit agentId maxRpm delegationId) s =
    .ok (s.rateLimit agentId maxRpm delegationId) := rfl

theorem answered_checkTokenBudget {maxTokens : ℤ} :
    Handler.answered (checkTokenBudget agentId maxTokens delegationId) s =
      .ok (s.tokenBudget agentId maxTokens delegationId) := rfl

theorem length_lastMinute : (s.lastMinute agentId delegationId).length =
    since (s.loggedAt agentId delegationId) (s.now - 60) := by
  unfold Store.lastMinute Store.loggedAt since
  rw [List.countP_map, List.countP_filter, ← List.countP_eq_length_filter]
  exact List.countP_congr fun r _ => by simp [and_comm]

theorem mem_loggedAt_of_recent {x : ℚ}
    (h : x ∈ (s.lastMinute agentId delegationId).map UsageRow.createdAt) :
    x ∈ s.loggedAt agentId delegationId ∧ s.now - 60 < x := by
  obtain ⟨r, hr, rfl⟩ := List.mem_map.mp h
  obtain ⟨hmem, hcounts⟩ := List.mem_filter.mp hr
  simp only [Bool.and_eq_true, decide_eq_true_eq] at hcounts
  exact ⟨List.mem_map_of_mem (List.mem_filter.mpr ⟨hmem, hcounts.1⟩), hcounts.2⟩

theorem recent_of_mem_loggedAt {x : ℚ} (h : x ∈ s.loggedAt agentId delegationId) (hx : s.now - 60 < x) :
    x ∈ (s.lastMinute agentId delegationId).map UsageRow.createdAt := by
  obtain ⟨r, hr, rfl⟩ := List.mem_map.mp h
  obtain ⟨hmem, hcounts⟩ := List.mem_filter.mp hr
  refine List.mem_map_of_mem (List.mem_filter.mpr ⟨hmem, ?_⟩)
  simpa [hcounts] using hx

theorem loggedAt_congr (h : s'.usage = s.usage) :
    s'.loggedAt agentId delegationId = s.loggedAt agentId delegationId := by
  unfold Store.loggedAt
  rw [h]

/-- An age is rounded up from half a second on. -/
theorem floor_add_half (a : ℚ) : ⌊a + 1 / 2⌋ = if Int.fract a < 1 / 2 then ⌊a⌋ else ⌊a⌋ + 1 := by
  have hsplit : a = ⌊a⌋ + Int.fract a := (Int.floor_add_fract a).symm
  have hfract := Int.fract_nonneg a
  have hlt := Int.fract_lt_one a
  split
  · rw [Int.floor_eq_iff]
    constructor <;> linarith
  · rw [Int.floor_eq_iff]
    push_cast
    constructor <;> linarith

theorem retryAfter_of_denied (hdenied : (s.rateLimit agentId maxRpm delegationId).allowed = false)
    {oldest : ℚ}
    (holdest : ((s.lastMinute agentId delegationId).map UsageRow.createdAt).min? = some oldest) :
    (s.rateLimit agentId maxRpm delegationId).retryAfter = 60 - ⌊s.now - oldest + 1 / 2⌋ := by
  have hcount : maxRpm ≤ ((s.lastMinute agentId delegationId).length : ℤ) := by
    simpa [Store.rateLimit] using hdenied
  have hrecent := (mem_loggedAt_of_recent (List.min?_mem holdest)).2
  have hround : ⌊s.now - oldest + 1 / 2⌋ ≤ 60 := by
    have hlt : ⌊s.now - oldest + 1 / 2⌋ < 61 := by
      rw [Int.floor_lt]
      push_cast
      linarith
    omega
  have hage : s.oldestAge (s.lastMinute agentId delegationId) = some ⌊s.now - oldest + 1 / 2⌋ := by
    unfold Store.oldestAge
    rw [holdest]
    rfl
  simp only [Store.rateLimit, if_pos hcount, hage, Option.getD_some]
  exact max_eq_right (by omega)

theorem allowed_later_iff {age : ℤ}
    (hretry : (s.rateLimit agentId maxRpm delegationId).retryAfter = 60 - age) :
    (∀ s' : Store, s'.usage = s.usage → s.now + (s.rateLimit agentId maxRpm delegationId).retryAfter ≤ s'.now →
        (s'.rateLimit agentId maxRpm delegationId).allowed = true) ↔
      (since (s.loggedAt agentId delegationId) (s.now - age) : ℤ) < maxRpm := by
  have hallowed : ∀ s' : Store, s'.usage = s.usage →
      ((s'.rateLimit agentId maxRpm delegationId).allowed = true ↔
        (since (s.loggedAt agentId delegationId) (s'.now - 60) : ℤ) < maxRpm) := by
    intro s' husage
    simp only [Store.rateLimit, decide_eq_true_eq, length_lastMinute, loggedAt_congr husage]
  rw [hretry]
  constructor
  · intro h
    have hat := (hallowed { s with now := s.now + ((60 - age : ℤ) : ℚ) } rfl).mp (h _ rfl le_rfl)
    have hsame : s.now + ((60 - age : ℤ) : ℚ) - 60 = s.now - age := by
      push_cast
      ring
    rwa [hsame] at hat
  · intro h s' husage hnow
    refine (hallowed s' husage).mpr (lt_of_le_of_lt ?_ h)
    have hfewer : since (s.loggedAt agentId delegationId) (s'.now - 60) ≤
        since (s.loggedAt agentId delegationId) (s.now - age) := by
      refine since_anti ?_
      push_cast at hnow
      linarith
    exact_mod_cast hfewer

/-- Where the age is rounded up, all that was counted is counted again. -/
theorem count_of_rounded_up {oldest : ℚ} {age : ℤ}
    (holdest : ((s.lastMinute agentId delegationId).map UsageRow.createdAt).min? = some oldest)
    (hage : s.now - oldest < age) :
    (s.lastMinute agentId delegationId).length ≤ since (s.loggedAt agentId delegationId) (s.now - age) := by
  rw [length_lastMinute]
  refine List.countP_mono_left fun x hx hrecent => ?_
  simp only [decide_eq_true_eq] at hrecent ⊢
  have hle := (List.min?_eq_some_iff.mp holdest).2 x (recent_of_mem_loggedAt hx hrecent)
  linarith

/-- Who waits as long as the denial says is allowed, then and later, where nothing was logged since,
exactly when the oldest age is not rounded up and enough of the others leave the minute with it. -/
theorem wait_suffices_iff {result : RateLimitResult} (hmax : 1 ≤ maxRpm)
    (hcheck : Handler.answered (checkRateLimit agentId maxRpm delegationId) s = .ok result)
    (hdenied : result.allowed = false) :
    (∀ s' : Store, s'.usage = s.usage → s.now + result.retryAfter ≤ s'.now →
      ∃ later, Handler.answered (checkRateLimit agentId maxRpm delegationId) s' = .ok later ∧
        later.allowed = true) ↔ s.WaitSuffices agentId maxRpm delegationId := by
  simp only [answered_checkRateLimit, Except.ok.injEq] at hcheck
  subst hcheck
  have hcount : maxRpm ≤ ((s.lastMinute agentId delegationId).length : ℤ) := by
    simpa [Store.rateLimit] using hdenied
  have hsome : ((s.lastMinute agentId delegationId).map UsageRow.createdAt).min?.isSome := by
    refine List.isSome_min?_of_ne_nil fun hnil => ?_
    rw [List.map_eq_nil_iff] at hnil
    rw [hnil, List.length_nil] at hcount
    omega
  obtain ⟨oldest, holdest⟩ := Option.isSome_iff_exists.mp hsome
  have hretry := retryAfter_of_denied hdenied holdest
  have hiff := allowed_later_iff hretry
  simp only [answered_checkRateLimit, Except.ok.injEq, exists_eq_left']
  rw [hiff, floor_add_half]
  constructor
  · intro h
    by_cases hhalf : Int.fract (s.now - oldest) < 1 / 2
    · rw [if_pos hhalf] at h
      exact ⟨oldest, holdest, hhalf, h⟩
    · rw [if_neg hhalf] at h
      have hage : s.now - oldest < ((⌊s.now - oldest⌋ + 1 : ℤ) : ℚ) := by
        exact_mod_cast Int.lt_floor_add_one (s.now - oldest)
      have hall := count_of_rounded_up holdest hage
      omega
  · rintro ⟨oldest', holdest', hhalf, h⟩
    rw [holdest] at holdest'
    cases holdest'
    rwa [if_pos hhalf]

/-- An agent's requests, logged at these times. -/
def loggedStore (times : List ℚ) (now : ℚ) : Store :=
  { blank with
    usage := times.map fun t => ⟨⟨"scout", "gpt", "chat.completion", .success, some 0, some 0, none,
      none, none, none⟩, t⟩
    now := now }

theorem wait_suffices_several :
    (∀ s' : Store, s'.usage = (loggedStore [10, 15, 30] 40).usage →
      (loggedStore [10, 15, 30] 40).now +
          (((loggedStore [10, 15, 30] 40).rateLimit "scout" 3 none).retryAfter : ℤ) ≤ s'.now →
      ∃ later, Handler.answered (checkRateLimit "scout" 3 none) s' = .ok later ∧ later.allowed = true) ↔
      (loggedStore [10, 15, 30] 40).WaitSuffices "scout" 3 none :=
  wait_suffices_iff (by decide) rfl (by decide +kernel)

/-- The limit is exceeded by one: when the oldest request has left, another is still there. -/
theorem wait_falls_short :
    ¬∀ (s : Store) (agentId : String) (maxRpm : ℤ) (delegationId : Option Uuid) (result : RateLimitResult),
      1 ≤ maxRpm → Handler.answered (checkRateLimit agentId maxRpm delegationId) s = .ok result →
      result.allowed = false → ∀ s' : Store, s'.usage = s.usage → s.now + result.retryAfter ≤ s'.now →
      ∃ later, Handler.answered (checkRateLimit agentId maxRpm delegationId) s' = .ok later ∧
        later.allowed = true := by
  intro h
  obtain ⟨later, hlater, hallowed⟩ := h (loggedStore [10, 30] 40) "scout" 1 none _ (by decide) rfl
    (by decide +kernel) (loggedStore [10, 30] 70) rfl (by decide +kernel)
  cases hlater
  revert hallowed
  decide +kernel

end Hill90.Router
