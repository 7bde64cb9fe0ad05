import Mathlib.Algebra.Order.Ring.Int
import Hill90.Knowledge.Fetcher

/-! # What the fetcher connects to

The addresses a hop has validated, the requests and the bytes kept so far, through a whole fetch.
-/

namespace Hill90.Knowledge.Fetcher

open Program

/-- `validated` is what the last resolution of the hop has shown to be free of blocked addresses.
`overstepped` is set by an answer that the fetch must not survive. -/
structure Mode where
  validated : List String := []
  requests : ℕ := 0
  retained : ℕ := 0
  overstepped : Bool := false
  deriving DecidableEq

namespace Mode

variable (lib : Library) (m : Mode)

/-- The resolver has answered: with nothing, or with a blocked address among others, or well. -/
def resolved : Option (List String) → Mode
  | none => { m with validated := [], overstepped := true }
  | some ips =>
    if ips = [] ∨ ips.any (isBlockedIp lib) then { m with validated := [], overstepped := true }
    else { m with validated := ips }

def exceeds (r : Response) : Bool :=
  if r.isRedirect then decide (maxRedirects ≤ m.requests) else decide (maxResponseBytes < r.size)

def answered (r : Response) : Mode :=
  { m with
    validated := []
    requests := m.requests + 1
    overstepped := m.overstepped || m.exceeds r }

end Mode

/-- A connection goes to an address that has passed the check since the last request; so many
requests, and so many bytes. -/
def guarding (lib : Library) : Discipline Statement Statement.Rows Failure Mode where
  may m st := match st with
    | .dial ip _ => ip ∈ m.validated ∧ isBlockedIp lib ip = false
    | .exchange _ => m.requests < maxRedirects + 1
    | .retain chunk => m.retained + chunk.length ≤ maxResponseBytes
    | .getaddrinfo _ _ | .pooled _ _ => True
  returns _ _ := True
  returned m st rows := match st, rows with
    | .getaddrinfo _ _, rows => m.resolved lib rows
    | .exchange _, response => m.answered response
    | .retain chunk, _ => { m with retained := m.retained + chunk.length }
    | .pooled _ _, _ | .dial _ _, _ => m
  rejected m st _ := match st with
    | .exchange _ => { m with requests := m.requests + 1 }
    | _ => m

abbrev Guards (lib : Library) {α : Type} (p : Handler α) (Q : α → Mode → Prop) (m : Mode) : Prop :=
  p.Meets (guarding lib) Q (fun _ _ => True) m

variable {lib : Library} {m : Mode} {hostname url : String} {port : ℕ}

theorem guards_lift {α : Type} (r : Except String α) {Q : α → Mode → Prop} (hQ : ∀ a, Q a m) :
    Guards lib (lift r) Q m := by
  cases r with
  | ok a => exact hQ a
  | error e => trivial

theorem guards_validateUrl {Q : String × Option ℕ → Mode → Prop} (hQ : ∀ a, Q a m) :
    Guards lib (validateUrl lib url) Q m := by
  refine meets_then (fun _ => Eq m) (guards_lift _ fun _ => rfl) ?_
  rintro parsed _ rfl
  split
  · trivial
  · split
    · trivial
    · trivial
    · refine meets_ite (fun _ => trivial) fun _ => meets_ite (fun _ => trivial) fun _ => ?_
      refine meets_then (fun _ => Eq m) (guards_lift _ fun _ => rfl) ?_
      rintro port _ rfl
      exact meets_ite (fun _ => trivial) fun _ => meets_ite (fun _ => trivial) fun _ => hQ _

theorem guards_resolveAllValidated :
    Guards lib (resolveAllValidated lib hostname port) (fun ips m' =>
      m' = { m with validated := ips } ∧ ∀ ip ∈ ips, isBlockedIp lib ip = false) m := by
  refine ⟨trivial, fun answer _ => ?_, fun _ => trivial⟩
  match answer with
  | none => trivial
  | some [] => trivial
  | some (ip :: ips) =>
    refine meets_ite (fun _ => trivial) fun hclear => ⟨?_, ?_⟩
    · change m.resolved lib (some (ip :: ips)) = _
      rw [Mode.resolved, if_neg (by simpa using hclear)]
    · simpa using hclear

theorem guards_resolveAndCheck (port : Option ℕ) :
    Guards lib (resolveAndCheck lib hostname port) (fun _ m' => ∃ v, m' = { m with validated := v }) m := by
  refine meets_then _ guards_resolveAllValidated ?_
  rintro ips _ ⟨rfl, _⟩
  exact ⟨ips, rfl⟩

theorem guards_connectEach {ips : List String} (last : Failure)
    (h : ∀ ip ∈ ips, ip ∈ m.validated ∧ isBlockedIp lib ip = false) :
    Guards lib (connectEach port ips last) (fun _ m' => m' = m) m := by
  induction ips generalizing last with
  | nil => trivial
  | cons ip ips ih =>
    obtain ⟨hip, hips⟩ := List.forall_mem_cons.mp h
    refine (meets_tryCatch _ _).mpr ⟨hip, fun _ _ => rfl, fun exc => ?_⟩
    cases exc with
    | connectError e => exact ih _ hips
    | connectTimeout => exact ih _ hips
    | _ => trivial

theorem guards_connectTcp :
    Guards lib (connectTcp lib hostname port) (fun _ m' => ∃ v, m' = { m with validated := v }) m := by
  refine meets_then (fun ips m' => m' = { m with validated := ips } ∧
    ∀ ip ∈ ips, isBlockedIp lib ip = false) ?_ ?_
  · rw [meets_tryCatch]
    refine guards_resolveAllValidated.mono (fun _ _ h => h) fun exc _ _ => ?_
    cases exc <;> trivial
  · rintro ips _ ⟨rfl, hclear⟩
    have hvalid : ∀ ip ∈ ips, ip ∈ Mode.validated { m with validated := ips } ∧
        isBlockedIp lib ip = false := fun ip hip => ⟨hip, hclear ip hip⟩
    refine (guards_connectEach _ hvalid).mono ?_ fun _ _ h => h
    rintro _ _ rfl
    exact ⟨ips, rfl⟩

theorem guards_exchange (hm : m.requests < maxRedirects + 1) :
    Guards lib (exchange url) (fun r m' => m' = m.answered r) m :=
  ⟨hm, fun _ _ => rfl, fun _ => trivial⟩

theorem guards_send (hm : m.requests < maxRedirects + 1) :
    Guards lib (send lib url) (fun r m' => m' = m.answered r) m := by
  unfold send
  split
  · trivial
  · rename_i host port horigin
    refine ⟨trivial, fun found _ => ?_, fun _ => trivial⟩
    cases found with
    | true => exact guards_exchange hm
    | false =>
      change Guards lib (connectTcp lib host port >>= fun _ => exchange url) _ m
      refine meets_then _ guards_connectTcp ?_
      rintro _ _ ⟨v, rfl⟩
      exact (guards_exchange hm).mono (fun _ _ h => h) fun _ _ h => h

/-- The loop over the chunks keeps no more than fits, and ends only where all of them do. -/
theorem guards_readBody (broken : Option String) {stream chunks : List Bytes} {bytesRead : ℕ}
    (hm : m.retained = bytesRead) (hread : bytesRead ≤ maxResponseBytes) :
    Guards lib (readBody broken stream chunks bytesRead) (fun _ m' =>
      m'.overstepped = m.overstepped ∧
        bytesRead + (stream.map List.length).sum ≤ maxResponseBytes) m := by
  induction stream generalizing chunks bytesRead m with
  | nil =>
    unfold readBody
    cases broken with
    | some e => trivial
    | none => exact ⟨rfl, hread⟩
  | cons chunk rest ih =>
    unfold readBody
    refine meets_ite (fun _ => trivial) fun hfits => ?_
    have hfits : bytesRead + chunk.length ≤ maxResponseBytes := Nat.le_of_not_lt hfits
    refine meets_ask ?_ (fun _ _ => ?_) fun _ => trivial
    · change m.retained + chunk.length ≤ maxResponseBytes
      rwa [hm]
    · refine (ih (m := { m with retained := m.retained + chunk.length }) (by simp [hm]) hfits).mono ?_
        fun _ _ h => h
      rintro body m' ⟨hover, hsum⟩
      refine ⟨hover, ?_⟩
      rw [List.map_cons, List.sum_cons]
      omega

theorem guards_receive {r : Response} (hm : m.retained = 0) :
    Guards lib (receive lib hostname r) (fun _ m' =>
      m'.overstepped = m.overstepped ∧ r.size ≤ maxResponseBytes) m := by
  have hbody : Guards lib (do return (r, ← readBody r.broken r.stream [] 0)) (fun _ m' =>
      m'.overstepped = m.overstepped ∧ r.size ≤ maxResponseBytes) m := by
    refine meets_then _ (guards_readBody r.broken hm (Nat.zero_le _)) ?_
    rintro body m' ⟨hover, hsum⟩
    refine ⟨hover, ?_⟩
    rw [Nat.zero_add] at hsum
    exact hsum
  unfold receive
  refine meets_ite (fun _ => trivial) fun _ => ?_
  split
  · exact hbody
  · exact hbody
  · split
    · trivial
    · exact meets_ite (fun _ => trivial) fun _ => hbody

theorem guards_redirectTarget {location : String} {Q : String → Mode → Prop} (hQ : ∀ a, Q a m) :
    Guards lib (redirectTarget lib url location) Q m := by
  refine meets_ite (fun _ => ?_) fun _ => hQ _
  exact meets_then (fun _ m' => m' = m) (guards_lift _ fun _ => rfl) fun _ m' h => h ▸ hQ _

/-- A fetch that has made its share of requests and kept nothing yet. -/
structure Underway (left : ℕ) (m : Mode) : Prop where
  requests : m.requests + left = maxRedirects
  retained : m.retained = 0
  overstepped : m.overstepped = false

theorem guards_fetchLoop {left : ℕ} (h : Underway left m) :
    Guards lib (fetchLoop lib hostname left url) (fun _ m' => m'.overstepped = false) m := by
  induction left generalizing m url with
  | zero =>
    unfold fetchLoop
    have hrequests : m.requests < maxRedirects + 1 := by
      have := h.requests
      omega
    refine meets_then (fun r m' => m' = m.answered r) ?_ ?_
    · rw [meets_tryCatch]
      exact (guards_send hrequests).mono (fun _ _ h => h) fun _ _ _ => trivial
    · rintro r _ rfl
      refine meets_ite (fun _ => trivial) fun hredirect => ?_
      refine (guards_receive (m := m.answered r) h.retained).mono ?_ fun _ _ h => h
      rintro _ m' ⟨hover, hsize⟩
      rw [hover]
      simp [Mode.answered, Mode.exceeds, hredirect, h.overstepped, hsize]
  | succ left ih =>
    unfold fetchLoop
    have hrequests : m.requests < maxRedirects := by
      have := h.requests
      omega
    refine meets_then (fun r m' => m' = m.answered r) ?_ ?_
    · rw [meets_tryCatch]
      exact (guards_send (Nat.lt_succ_of_lt hrequests)).mono (fun _ _ h => h) fun _ _ _ => trivial
    · rintro r _ rfl
      refine meets_ite (fun hredirect => ?_) fun hredirect => ?_
      · refine meets_ite (fun _ => trivial) fun _ => ?_
        refine meets_then (fun _ m' => m' = m.answered r) (guards_redirectTarget fun _ => rfl) ?_
        rintro location _ rfl
        refine meets_then (fun _ m' => m' = m.answered r) (guards_validateUrl fun _ => rfl) ?_
        rintro ⟨redirHostname, redirPort⟩ _ rfl
        refine meets_then _ (guards_resolveAndCheck redirPort) ?_
        rintro _ _ ⟨v, rfl⟩
        refine ih ⟨?_, h.retained, ?_⟩
        · have := h.requests
          simp only [Mode.answered]
          omega
        · simp [Mode.answered, Mode.exceeds, hredirect, h.overstepped, hrequests]
      · refine (guards_receive (m := m.answered r) h.retained).mono ?_ fun _ _ h => h
        rintro _ m' ⟨hover, hsize⟩
        rw [hover]
        simp [Mode.answered, Mode.exceeds, hredirect, h.overstepped, hsize]

theorem guards_fetchBody (lib : Library) (url : String) :
    Guards lib (fetchBody lib url) (fun _ m => m.overstepped = false) {} := by
  refine meets_then (fun _ m' => m' = {}) (guards_validateUrl fun _ => rfl) ?_
  rintro ⟨hostname, port⟩ _ rfl
  refine meets_then _ (guards_resolveAndCheck port) ?_
  rintro _ _ ⟨v, rfl⟩
  exact meets_then _ (guards_fetchLoop ⟨rfl, rfl, rfl⟩) fun _ _ h => h

/-- Whatever the resolver and the servers answer, each connection goes to an address validated in its
hop, there are at most four requests, no more than the maximum is kept, and the fetch ends with an
error where an answer asks for more. -/
theorem fetchAndExtract_guarded (lib : Library) (url : String) :
    (fetchAndExtract lib url).Meets (guarding lib) (fun _ m => m.overstepped = false)
      (fun _ _ => True) {} := by
  refine meets_then _ (guards_fetchBody lib url) ?_
  rintro ⟨hostname, response, body⟩ m hm
  dsimp only
  split
  · trivial
  · exact meets_ite (fun _ => trivial) fun _ => hm

end Hill90.Knowledge.Fetcher
