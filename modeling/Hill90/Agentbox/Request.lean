import Hill90.Agentbox.Advertised

/-! # Where a request of the model is sent

`_execute_http_request` checks the host once; the client resolves it again and follows redirects.
-/

namespace Hill90.Agentbox

open Router (Json)
open Program

/-- One request of the client: the address it is connected to, if any, and whether the answer is a
redirect that can be followed. -/
structure Hop where
  connected : Option Address
  redirects : Bool
  deriving DecidableEq

/-- The answers of the resolver and of the servers: to the check, to each request of the client in
turn, and what the client returns in the end. -/
structure World where
  checked : Option (List IPv4)
  hops : ℕ → Hop
  answer : Except String HttpAnswer

/-- The addresses that the client sends to, from the request with this number on, where so many
redirects are left. -/
def follow (hops : ℕ → Hop) : ℕ → ℕ → List Address
  | left, i =>
    match (hops i).connected with
    | none => []
    | some addr =>
      addr ::
        if (hops i).redirects then
          match left with
          | 0 => []
          | left + 1 => follow hops left (i + 1)
        else []

def World.answerTo (w : World) : (st : Statement) → Except String st.Rows
  | .getaddrinfo _ => .ok w.checked
  | .request _ _ _ => w.answer
  | .execute _ | .executePty _ | .process _ | .readFile _ | .listDirectory _ | .browse _
  | .writeFile _ _ | .isDirectory _ => .error ""

def World.sends (w : World) : Statement → List Address
  | .request _ _ _ => follow w.hops 3 0
  | _ => []

def sentTo {α : Type} (w : World) : Handler α → List Address
  | .reply _ | .raise _ => []
  | .await st resume reject =>
    w.sends st ++
      match w.answerTo st with
      | .ok rows => sentTo w (resume rows)
      | .error exc => sentTo w (reject exc)

def WellFormed (py : Python) (args : Arguments) : Prop :=
  ∃ method url hostname, args.getD "method" (.text "GET") = .text method ∧
    (py.upper method = "GET" ∨ py.upper method = "POST") ∧
    args.getD "url" (.text "") = .text url ∧ webUrl url = true ∧
    py.hostname url = .ok hostname ∧ hostname ≠ ""

/-- The request with this number is made. -/
def Followed (hops : ℕ → Hop) (i : ℕ) : Prop :=
  i ≤ 3 ∧ ∀ j < i, (hops j).connected.isSome = true ∧ (hops j).redirects = true

variable {py : Python} {args : Arguments} {w : World} {hops : ℕ → Hop}

theorem mem_follow {addr : Address} (left i : ℕ) :
    addr ∈ follow hops left i ↔ ∃ n ≤ left, (hops (i + n)).connected = some addr ∧
      ∀ j < n, (hops (i + j)).connected.isSome = true ∧ (hops (i + j)).redirects = true := by
  induction left generalizing i with
  | zero =>
    rw [follow]
    cases hconnected : (hops i).connected with
    | none => simp [hconnected]
    | some first =>
      simp only [ite_self, List.mem_singleton, Nat.le_zero_eq, exists_eq_left, Nat.add_zero,
        hconnected, Option.some.injEq, Nat.not_lt_zero, false_imp_iff, implies_true, and_true]
      exact eq_comm
  | succ left ih =>
    rw [follow]
    cases hconnected : (hops i).connected with
    | none =>
      refine iff_of_false (by simp) ?_
      rintro ⟨n, _, hn, hall⟩
      cases n with
      | zero =>
        rw [Nat.add_zero, hconnected] at hn
        cases hn
      | succ n =>
        have hsome := (hall 0 n.succ_pos).1
        rw [Nat.add_zero, hconnected] at hsome
        cases hsome
    | some first =>
      rw [List.mem_cons]
      constructor
      · rintro (rfl | hrest)
        · exact ⟨0, Nat.zero_le _, hconnected, fun j hj => absurd hj j.not_lt_zero⟩
        · split at hrest
          · rename_i hredirects
            obtain ⟨n, hn, haddr, hall⟩ := (ih (i + 1)).mp hrest
            refine ⟨n + 1, Nat.succ_le_succ hn, by rw [← haddr, Nat.succ_add_eq_add_succ], ?_⟩
            intro j hj
            cases j with
            | zero => exact ⟨by simp [hconnected], hredirects⟩
            | succ j =>
              rw [← Nat.succ_add_eq_add_succ]
              exact hall j (Nat.lt_of_succ_lt_succ hj)
          · cases hrest
      · rintro ⟨n, hn, haddr, hall⟩
        cases n with
        | zero =>
          rw [Nat.add_zero, hconnected] at haddr
          exact .inl (Option.some.inj haddr).symm
        | succ n =>
          right
          have hredirects : (hops i).redirects = true := (hall 0 n.succ_pos).2
          rw [if_pos hredirects]
          refine (ih (i + 1)).mpr ⟨n, Nat.le_of_succ_le_succ hn, ?_, fun j hj => ?_⟩
          · rw [Nat.succ_add_eq_add_succ, haddr]
          · rw [Nat.succ_add_eq_add_succ]
            exact hall (j + 1) (Nat.succ_lt_succ hj)

theorem mem_follow_zero {addr : Address} :
    addr ∈ follow hops 3 0 ↔ ∃ i, Followed hops i ∧ (hops i).connected = some addr := by
  rw [mem_follow]
  simp only [Nat.zero_add]
  constructor
  · rintro ⟨i, hi, haddr, hall⟩
    exact ⟨i, ⟨hi, hall⟩, haddr⟩
  · rintro ⟨i, ⟨hi, hall⟩, haddr⟩
    exact ⟨i, hi, haddr, hall⟩

theorem sentTo_catching {w : World} (n : ℕ) (method url : String) (payload : List (String × Json)) :
    sentTo w (catching n (do
      let res ← http method url payload
      return .success (clip 50000 res.text))) = follow w.hops 3 0 := by
  have hsent : ∀ (resume : HttpAnswer → Handler ToolResult) (reject : String → Handler ToolResult),
      (∀ answer, sentTo w (resume answer) = []) → (∀ exc, sentTo w (reject exc) = []) →
        sentTo w (.await (.request method url payload) resume reject) = follow w.hops 3 0 := by
    intro resume reject hresume hreject
    unfold sentTo
    cases hanswer : w.answerTo (.request method url payload) with
    | ok answer => simp [hresume answer, World.sends]
    | error exc => simp [hreject exc, World.sends]
  exact hsent _ _ (fun _ => rfl) fun _ => rfl

theorem sentTo_sendChecked (method url hostname : String) (payload : List (String × Json)) :
    sentTo w (sendChecked method url hostname payload) =
      if isBlockedHost w.checked then [] else follow w.hops 3 0 := by
  change sentTo w (if isBlockedHost w.checked then _ else _) = _
  split
  · rfl
  · exact sentTo_catching ..

variable {addr : Address}

theorem mem_sentTo_sendChecked {method url hostname : String} {payload : List (String × Json)} :
    addr ∈ sentTo w (sendChecked method url hostname payload) ↔
      isBlockedHost w.checked = false ∧ addr ∈ follow w.hops 3 0 := by
  rw [sentTo_sendChecked]
  cases isBlockedHost w.checked <;> simp

theorem mem_sentTo_requestUrl {method : String} {url : Json} {payload : List (String × Json)} :
    addr ∈ sentTo w (requestUrl py method url payload) ↔
      (∃ s hostname, url = .text s ∧ webUrl s = true ∧ py.hostname s = .ok hostname ∧
        hostname ≠ "") ∧ isBlockedHost w.checked = false ∧ addr ∈ follow w.hops 3 0 := by
  unfold requestUrl
  split
  · cases url with
    | text s =>
      rw [asText_bind]
      split
      · rename_i hweb
        cases hhost : py.hostname s with
        | error e =>
          refine iff_of_false List.not_mem_nil ?_
          rintro ⟨⟨_, _, ⟨⟩, _, hok, _⟩, _⟩
          cases hhost.symm.trans hok
        | ok hostname =>
          rw [lift_bind]
          split
          · rename_i hempty
            refine iff_of_false List.not_mem_nil ?_
            rintro ⟨⟨_, _, ⟨⟩, _, hok, hne⟩, _⟩
            cases hhost.symm.trans hok
            exact hne hempty
          · rename_i hne
            rw [mem_sentTo_sendChecked]
            exact (and_iff_right ⟨s, hostname, rfl, hweb, hhost, hne⟩).symm
      · rename_i hweb
        refine iff_of_false List.not_mem_nil ?_
        rintro ⟨⟨_, _, ⟨⟩, hok, _⟩, _⟩
        exact hweb hok
    | _ =>
      refine iff_of_false List.not_mem_nil ?_
      rintro ⟨⟨_, _, hurl, _⟩, _⟩
      cases hurl
  · rename_i htruthy
    refine iff_of_false List.not_mem_nil ?_
    rintro ⟨⟨s, _, rfl, hweb, _⟩, _⟩
    refine htruthy (decide_eq_true ?_)
    rintro rfl
    cases hweb

theorem mem_sentTo_iff :
    addr ∈ sentTo w (executeHttpRequest py args) ↔
      WellFormed py args ∧ isBlockedHost w.checked = false ∧ addr ∈ follow w.hops 3 0 := by
  unfold executeHttpRequest
  cases hmethod : args.getD "method" (.text "GET") with
  | text method =>
    rw [asText_bind]
    dsimp only
    have hwell : WellFormed py args ↔ (py.upper method = "GET" ∨ py.upper method = "POST") ∧
        ∃ s hostname, args.getD "url" (.text "") = .text s ∧ webUrl s = true ∧
          py.hostname s = .ok hostname ∧ hostname ≠ "" := by
      rw [WellFormed]
      constructor
      · rintro ⟨_, s, hostname, hm, hor, hrest⟩
        cases hmethod.symm.trans hm
        exact ⟨hor, s, hostname, hrest⟩
      · rintro ⟨hor, s, hostname, hrest⟩
        exact ⟨method, s, hostname, hmethod, hor, hrest⟩
    rw [hwell]
    split
    · rename_i hget
      rw [mem_sentTo_requestUrl]
      simp [hget]
    · rename_i hget
      split
      · rename_i hpost
        rw [mem_sentTo_requestUrl]
        simp [hpost]
      · rename_i hpost
        refine iff_of_false List.not_mem_nil ?_
        rintro ⟨⟨hor, _⟩, _⟩
        exact hor.elim hget hpost
  | _ =>
    refine iff_of_false List.not_mem_nil ?_
    rintro ⟨⟨_, _, _, hm, _⟩, _⟩
    cases hmethod.symm.trans hm

def SentPublic (py : Python) (args : Arguments) (w : World) : Prop :=
  ∀ addr ∈ sentTo w (executeHttpRequest py args), addr.isPublic = true

/-- The client resolves the host to an address that the check has seen, in none of the networks its
list leaves out, and the answer is no redirect. -/
def Pinned (w : World) : Prop :=
  ∀ addr, (w.hops 0).connected = some addr →
    (w.hops 0).redirects = false ∧ ∃ a ∈ w.checked.getD [], addr = .v4 a ∧ a.unlisted = false

/-- The worlds are the same as far as the check has seen the addresses: another answer of the resolver
to the client is any address, and so is what a redirect leads to. -/
structure Alike (w w' : World) : Prop where
  checked : w'.checked = w.checked
  redirects : (w'.hops 0).redirects = (w.hops 0).redirects
  connects : (w'.hops 0).connected.isSome = (w.hops 0).connected.isSome
  seen : ∀ a ∈ w.checked.getD [], (w.hops 0).connected = some (.v4 a) →
    (w'.hops 0).connected = some (.v4 a)

theorem not_blocked_of_mem {answers : Option (List IPv4)} {a : IPv4} (h : isBlockedHost answers = false)
    (ha : a ∈ answers.getD []) : a.blocked = false := by
  cases answers with
  | none => cases h
  | some addrs => exact Bool.eq_false_iff.mpr (List.any_eq_false.mp h a ha)

theorem public_iff_of_checked {a : IPv4} (h : isBlockedHost w.checked = false)
    (ha : a ∈ w.checked.getD []) : (Address.v4 a).isPublic = true ↔ a.unlisted = false := by
  change (!a.blocked && !a.unlisted) = true ↔ _
  rw [not_blocked_of_mem h ha]
  cases a.unlisted <;> simp

theorem followed_zero (hops : ℕ → Hop) : Followed hops 0 :=
  ⟨Nat.zero_le _, fun j hj => absurd hj j.not_lt_zero⟩

theorem sent_iff (hwell : WellFormed py args) (hblocked : isBlockedHost w.checked = false) :
    SentPublic py args w ↔ ∀ i, Followed w.hops i → ∀ addr, (w.hops i).connected = some addr →
      addr.isPublic = true := by
  simp only [SentPublic, mem_sentTo_iff, hwell, hblocked, mem_follow_zero, true_and]
  constructor
  · exact fun h i hi addr haddr => h addr ⟨i, hi, haddr⟩
  · rintro h addr ⟨i, hi, haddr⟩
    exact h i hi addr haddr

theorem sentPublic_of_pinned {w' : World} (hwell : WellFormed py args)
    (hblocked : isBlockedHost w.checked = false) (h : Pinned w) (halike : Alike w w') :
    SentPublic py args w' := by
  refine (sent_iff hwell (halike.checked.symm ▸ hblocked)).mpr fun i hi addr haddr => ?_
  have hconnects : (w.hops 0).connected.isSome = true := by
    rw [← halike.connects]
    cases i with
    | zero => simp [haddr]
    | succ i => exact (hi.2 0 i.succ_pos).1
  obtain ⟨first, hfirst⟩ := Option.isSome_iff_exists.mp hconnects
  obtain ⟨hstays, a, ha, rfl, hlisted⟩ := h first hfirst
  cases i with
  | zero =>
    rw [halike.seen a ha hfirst] at haddr
    cases haddr
    exact (public_iff_of_checked hblocked ha).mpr hlisted
  | succ i =>
    -- a request after the first one is a redirect of it
    have hredirects := (hi.2 0 i.succ_pos).2
    rw [halike.redirects, hstays] at hredirects
    cases hredirects

def loopback : Address := .v4 (ofOctets 127 0 0 1)

theorem loopback_not_public : loopback.isPublic = false := by decide

/-- Where the client is not pinned, another address of those the check has not seen is the loopback. -/
theorem pinned_of_assured (hwell : WellFormed py args) (hblocked : isBlockedHost w.checked = false)
    (h : ∀ w', Alike w w' → SentPublic py args w') : Pinned w := by
  intro addr haddr
  have hsent : ∀ w', Alike w w' → ∀ i, Followed w'.hops i → ∀ addr,
      (w'.hops i).connected = some addr → addr.isPublic = true := fun w' halike =>
    (sent_iff hwell (halike.checked.symm ▸ hblocked)).mp (h w' halike)
  constructor
  · by_contra hredirects
    have hredirects : (w.hops 0).redirects = true := by simpa using hredirects
    let astray : World := { w with hops := fun i => if i = 0 then w.hops 0 else ⟨some loopback, false⟩ }
    have halike : Alike w astray := ⟨rfl, rfl, rfl, fun _ _ hseen => hseen⟩
    have hpublic := hsent astray halike 1 ⟨by omega, fun j hj => by
      obtain rfl : j = 0 := by omega
      exact ⟨by simp [astray, haddr], hredirects⟩⟩ loopback rfl
    rw [loopback_not_public] at hpublic
    cases hpublic
  · by_cases hseen : ∃ a ∈ w.checked.getD [], addr = .v4 a
    · obtain ⟨a, ha, rfl⟩ := hseen
      have hpublic := hsent w ⟨rfl, rfl, rfl, fun _ _ hseen => hseen⟩ 0 (followed_zero _) _ haddr
      exact ⟨a, ha, rfl, (public_iff_of_checked hblocked ha).mp hpublic⟩
    · let rebound : World := { w with hops := fun _ => ⟨some loopback, (w.hops 0).redirects⟩ }
      have halike : Alike w rebound := by
        refine ⟨rfl, rfl, by simp [rebound, haddr], fun a ha hconnected => ?_⟩
        rw [haddr] at hconnected
        exact absurd ⟨a, ha, Option.some.inj hconnected⟩ hseen
      have hpublic := hsent rebound halike 0 (followed_zero _) loopback rfl
      rw [loopback_not_public] at hpublic
      cases hpublic

/-- Whatever the resolver and the servers answer beyond what the check has seen, a call sends to public
addresses only just if it is refused, or pinned to what the check has seen and not redirected. -/
theorem sentPublic_iff (py : Python) (args : Arguments) (w : World) :
    (∀ w', Alike w w' → SentPublic py args w') ↔
      ¬WellFormed py args ∨ isBlockedHost w.checked = true ∨ Pinned w := by
  constructor
  · intro h
    by_cases hwell : WellFormed py args
    · cases hblocked : isBlockedHost w.checked with
      | true => exact .inr (.inl rfl)
      | false => exact .inr (.inr (pinned_of_assured hwell hblocked h))
    · exact .inl hwell
  · intro h w' halike
    by_cases hwell : WellFormed py args
    · cases hblocked : isBlockedHost w.checked with
      | true =>
        intro addr hmem
        have hopen := (mem_sentTo_iff.mp hmem).2.1
        rw [halike.checked, hblocked] at hopen
        cases hopen
      | false =>
        obtain hnot | hnot | hpinned := h
        · exact absurd hwell hnot
        · rw [hblocked] at hnot
          cases hnot
        · exact sentPublic_of_pinned hwell hblocked hpinned halike
    · exact fun addr hmem => absurd (mem_sentTo_iff.mp hmem).1 hwell

/-- The resolver answers the check with a public address, and the client with the loopback. -/
def rebinding : World where
  checked := some [ofOctets 93 184 216 34]
  hops _ := ⟨some (.v4 (ofOctets 127 0 0 1)), false⟩
  answer := .ok ⟨200, ""⟩

theorem not_sentPublic :
    ¬∀ (py : Python) (args : Arguments) (w : World), SentPublic py args w := by
  intro h
  have hmem : Address.v4 (ofOctets 127 0 0 1) ∈
      sentTo rebinding (executeHttpRequest plainPython (effectiveArguments "http_request")) := by
    refine mem_sentTo_iff.mpr ⟨⟨"GET", "http://example.com", "example.com", rfl, .inl rfl, rfl, ?_⟩, ?_, ?_⟩
    · exact ⟨by decide, rfl, by decide⟩
    · decide
    · exact List.mem_cons_self
  have hpublic := h plainPython (effectiveArguments "http_request") rebinding _ hmem
  revert hpublic
  decide

end Hill90.Agentbox
