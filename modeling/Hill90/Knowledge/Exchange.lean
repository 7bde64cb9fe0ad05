import Mathlib.Data.List.Nodup
import Hill90.Knowledge.Withdrawal

/-! # What becomes of a refresh secret

`refresh_token` revokes the secret first and stores its successor last.  The ledger follows, beside
the service, which secret each call presented and which secrets were answered with a new one.
-/

namespace Hill90.Knowledge.Revocation

open Akm

def AgentToken.key (row : AgentToken) : ℕ × ℕ := (row.agentId, row.tokenHash)

def Refresh.spending : Option Refresh → Bool
  | none | some (.verified ..) => false
  | some (.redeemed ..) | some (.signed ..) | some (.stored _) => true

structure Ledger where
  akm : Akm
  asked : ℕ → ℕ × ℕ := fun _ => (0, 0)
  exchanged : List (ℕ × ℕ) := []
  withdrawn : List (ℕ × ℕ) := []

namespace Ledger

def fresh (L : Ledger) : Event → Bool
  | .refresh i .store =>
    match L.akm.refreshes i with
    | some (.signed newToken newSecret) =>
      !(L.akm.agentTokens.map AgentToken.key).contains (newToken.sub, newSecret)
    | _ => true
  | _ => true

/-- The live secrets that the revocation of an agent takes. -/
def takes (L : Ledger) (i : ℕ) : List (ℕ × ℕ) :=
  match L.akm.revokes i with
  | some (.recorded q) =>
    (L.akm.agentTokens.filter fun row => row.agentId = q.agentId && !row.revoked).map AgentToken.key
  | _ => []

def record (L : Ledger) (e : Event) (akm : Akm) : Ledger :=
  match e with
  | .refresh i (.present token secret) =>
    { L with akm, asked := Function.update L.asked i (token.sub, secret) }
  | .refresh i .answer => { L with akm, exchanged := L.asked i :: L.exchanged }
  | .revoke i .withdraw => { L with akm, withdrawn := L.takes i ++ L.withdrawn }
  | _ => { L with akm }

def step (L : Ledger) (e : Event) : Option Ledger :=
  if L.fresh e then (L.akm.step e).map (L.record e) else none

/-- The service as it comes up over rows that differ in their secrets. -/
def Starts (L : Ledger) : Prop :=
  (∃ akm, machine.initial akm ∧ (akm.agentTokens.map AgentToken.key).Nodup ∧
    L = { akm, withdrawn := (akm.agentTokens.filter (·.revoked)).map AgentToken.key })

end Ledger

def ledger : Machine Ledger Event where
  initial := Ledger.Starts
  step := Ledger.step

namespace Ledger

def Spending (L : Ledger) (key : ℕ × ℕ) : Prop :=
  ∃ i, Refresh.spending (L.akm.refreshes i) = true ∧ L.asked i = key

/-- What may have become of a secret: it can be exchanged, was exchanged, is being exchanged, was taken
by a revocation of its agent, or has expired. -/
def Kept (L : Ledger) (row : AgentToken) : Prop :=
  row.revoked = false ∨ row.key ∈ L.exchanged ∨ L.Spending row.key ∨ row.key ∈ L.withdrawn ∨
    micros row.expiresAt < L.akm.now

structure Atomic (L : Ledger) : Prop where
  once : L.exchanged.Nodup
  kept : ∀ row ∈ L.akm.agentTokens, L.Kept row

/-- No call fails past its UPDATE, and the service does not go down over one. -/
def Unbroken (L : Ledger) : Event → Prop
  | .refresh i .fail => Refresh.spending (L.akm.refreshes i) = false
  | .restart => ∀ i, Refresh.spending (L.akm.refreshes i) = false
  | _ => True

def Gone (L : Ledger) (key : ℕ × ℕ) : Prop :=
  ∃ row ∈ L.akm.agentTokens, row.key = key ∧ row.revoked = true

structure Booked (L : Ledger) : Prop where
  distinct : (L.akm.agentTokens.map AgentToken.key).Nodup
  verified : ∀ i sub secret, L.akm.refreshes i = some (.verified sub secret) → L.asked i = (sub, secret)
  spent : ∀ i, Refresh.spending (L.akm.refreshes i) = true → L.Gone (L.asked i)
  apart : ∀ i j, Refresh.spending (L.akm.refreshes i) = true →
    Refresh.spending (L.akm.refreshes j) = true → L.asked i = L.asked j → i = j
  owed : ∀ i, Refresh.spending (L.akm.refreshes i) = true → L.asked i ∉ L.exchanged
  done : ∀ key ∈ L.exchanged, L.Gone key
  once : L.exchanged.Nodup
  expiry : ∀ i sub expiresAt, L.akm.refreshes i = some (.redeemed sub expiresAt) →
    ∀ row ∈ L.akm.agentTokens, row.key = L.asked i → row.expiresAt = expiresAt

end Ledger

open Knowledge.Revocation.Ledger

variable {L L' : Ledger} {s t : Akm} {e : Event} {i j : ℕ} {row : AgentToken} {key : ℕ × ℕ}

theorem step_ledger (h : L.step e = some L') :
    L.fresh e = true ∧ ∃ akm, L.akm.step e = some akm ∧ L' = L.record e akm := by
  obtain ⟨hfresh, hmap⟩ := Option.ite_none_right_eq_some.mp h
  obtain ⟨akm, hakm, rfl⟩ := Option.map_eq_some_iff.mp hmap
  exact ⟨hfresh, akm, hakm, rfl⟩

/-! ## Rows that are revoked -/

theorem keys_setRevoked (p : AgentToken → Bool) (rows : List AgentToken) :
    (setRevoked p rows).map AgentToken.key = rows.map AgentToken.key := by
  unfold setRevoked
  rw [List.map_map]
  refine List.map_congr_left fun row _ => ?_
  simp only [Function.comp_apply]
  split <;> rfl

/-- A row after such an update is the row before it, or the same one revoked. -/
theorem mem_setRevoked_iff {p : AgentToken → Bool} {rows : List AgentToken} :
    row ∈ setRevoked p rows ↔ (row ∈ rows ∧ p row = false) ∨
      ∃ old ∈ rows, p old = true ∧ row = { old with revoked := true } := by
  unfold setRevoked
  rw [List.mem_map]
  constructor
  · rintro ⟨old, hold, rfl⟩
    by_cases hp : p old = true
    · exact .inr ⟨old, hold, hp, if_pos hp⟩
    · rw [if_neg hp]
      exact .inl ⟨hold, Bool.eq_false_iff.mpr hp⟩
  · rintro (⟨hrow, hp⟩ | ⟨old, hold, hp, rfl⟩)
    · exact ⟨row, hrow, by simp [hp]⟩
    · exact ⟨old, hold, if_pos hp⟩

theorem setRevoked_false (rows : List AgentToken) : setRevoked (fun _ => false) rows = rows := by
  simp [setRevoked]

/-- Rows are only ever revoked. -/
def Revokes (rows rows' : List AgentToken) : Prop := ∃ p, rows' = setRevoked p rows

theorem Revokes.refl (rows : List AgentToken) : Revokes rows rows := ⟨_, (setRevoked_false rows).symm⟩

theorem Revokes.old {rows rows' : List AgentToken} (h : Revokes rows rows') (hrow : row ∈ rows') :
    ∃ old ∈ rows, old.key = row.key ∧ old.expiresAt = row.expiresAt ∧
      (old.revoked = true → row.revoked = true) := by
  obtain ⟨p, rfl⟩ := h
  obtain ⟨hold, _⟩ | ⟨old, hold, _, rfl⟩ := mem_setRevoked_iff.mp hrow
  · exact ⟨row, hold, rfl, rfl, id⟩
  · exact ⟨old, hold, rfl, rfl, fun _ => rfl⟩

theorem Revokes.gone (h : Revokes L.akm.agentTokens L'.akm.agentTokens) (hgone : L.Gone key) :
    L'.Gone key := by
  obtain ⟨p, hrows⟩ := h
  obtain ⟨row, hrow, hkey, hrevoked⟩ := hgone
  rw [Gone, hrows]
  by_cases hp : p row = true
  · exact ⟨_, mem_setRevoked_iff.mpr (.inr ⟨row, hrow, hp, rfl⟩), hkey, rfl⟩
  · exact ⟨row, mem_setRevoked_iff.mpr (.inl ⟨hrow, Bool.eq_false_iff.mpr hp⟩), hkey, hrevoked⟩

/-! ## Whose secret is spent -/

theorem Ledger.Booked.eq_of_key (h : L.Booked) {row row' : AgentToken} (hrow : row ∈ L.akm.agentTokens)
    (hrow' : row' ∈ L.akm.agentTokens) (hkey : row.key = row'.key) : row = row' :=
  List.inj_on_of_nodup_map h.distinct hrow hrow' hkey

theorem Ledger.Booked.not_gone (h : L.Booked) (hrow : row ∈ L.akm.agentTokens)
    (hlive : row.revoked = false) : ¬L.Gone row.key := by
  rintro ⟨row', hrow', hkey, hrevoked⟩
  rw [h.eq_of_key hrow' hrow hkey, hlive] at hrevoked
  cases hrevoked

/-- A step in which no call comes to spend a secret, and none is answered. -/
structure Calm (L L' : Ledger) : Prop where
  distinct : (L'.akm.agentTokens.map AgentToken.key).Nodup
  gone : ∀ key, L.Gone key → L'.Gone key
  old : ∀ row ∈ L'.akm.agentTokens, L.Gone row.key →
    ∃ old ∈ L.akm.agentTokens, old.key = row.key ∧ old.expiresAt = row.expiresAt
  verified : ∀ i sub secret, L'.akm.refreshes i = some (.verified sub secret) → L'.asked i = (sub, secret)
  spending : ∀ i, Refresh.spending (L'.akm.refreshes i) = true →
    Refresh.spending (L.akm.refreshes i) = true ∧ L'.asked i = L.asked i
  redeemed : ∀ i sub expiresAt, L'.akm.refreshes i = some (.redeemed sub expiresAt) →
    L.akm.refreshes i = some (.redeemed sub expiresAt)
  exchanged : L'.exchanged = L.exchanged

theorem Ledger.Booked.calm (h : L.Booked) (hcalm : Calm L L') : L'.Booked where
  distinct := hcalm.distinct
  verified := hcalm.verified
  spent i hi := by
    obtain ⟨hspending, hasked⟩ := hcalm.spending i hi
    rw [hasked]
    exact hcalm.gone _ (h.spent i hspending)
  apart i j hi hj hsame := by
    obtain ⟨hspending, hasked⟩ := hcalm.spending i hi
    obtain ⟨hspending', hasked'⟩ := hcalm.spending j hj
    rw [hasked, hasked'] at hsame
    exact h.apart i j hspending hspending' hsame
  owed i hi := by
    obtain ⟨hspending, hasked⟩ := hcalm.spending i hi
    rw [hasked, hcalm.exchanged]
    exact h.owed i hspending
  done key hkey := by
    rw [hcalm.exchanged] at hkey
    exact hcalm.gone key (h.done key hkey)
  once := by
    rw [hcalm.exchanged]
    exact h.once
  expiry i sub expiresAt hi row hrow hkey := by
    obtain ⟨hspending, hasked⟩ := hcalm.spending i (by rw [hi]; rfl)
    rw [hasked] at hkey
    obtain ⟨old, hold, holdkey, hexpires⟩ := hcalm.old row hrow (hkey ▸ h.spent i hspending)
    rw [← hexpires]
    exact h.expiry i sub expiresAt (hcalm.redeemed i sub expiresAt hi) old hold (holdkey.trans hkey)

/-- Where rows are only revoked, the calls decide whether a step is calm. -/
theorem calm_of_revokes (h : L.Booked) (hrows : Revokes L.akm.agentTokens L'.akm.agentTokens)
    (hcalls : ∀ i, L'.akm.refreshes i = L.akm.refreshes i ∧ L'.asked i = L.asked i ∨
      Refresh.spending (L'.akm.refreshes i) = false ∧
        ∀ sub secret, L'.akm.refreshes i = some (.verified sub secret) → L'.asked i = (sub, secret))
    (hexchanged : L'.exchanged = L.exchanged) : Calm L L' where
  distinct := by
    obtain ⟨p, hp⟩ := hrows
    rw [hp, keys_setRevoked]
    exact h.distinct
  gone _ hgone := hrows.gone hgone
  old row hrow _ := by
    obtain ⟨old, hold, hkey, hexpires, _⟩ := hrows.old hrow
    exact ⟨old, hold, hkey, hexpires⟩
  verified i sub secret hi := by
    obtain ⟨hsame, hasked⟩ | ⟨_, hlink⟩ := hcalls i
    · rw [hasked]
      exact h.verified i sub secret (hsame ▸ hi)
    · exact hlink sub secret hi
  spending i hi := by
    obtain ⟨hsame, hasked⟩ | ⟨hidle, _⟩ := hcalls i
    · exact ⟨hsame ▸ hi, hasked⟩
    · rw [hidle] at hi
      cases hi
  redeemed i sub expiresAt hi := by
    obtain ⟨hsame, _⟩ | ⟨hidle, _⟩ := hcalls i
    · exact hsame ▸ hi
    · rw [hi] at hidle
      cases hidle
  exchanged := hexchanged

theorem refreshes_setRefresh_apply (s : Akm) (i j : ℕ) (call : Option Refresh) :
    (s.setRefresh i call).refreshes j = if j = i then call else s.refreshes j :=
  Function.update_apply _ _ _ _

theorem calm_setRefresh (h : L.Booked) {call : Option Refresh} (hidle : Refresh.spending call = false)
    {asked : ℕ → ℕ × ℕ} (hasked : ∀ j, j ≠ i → asked j = L.asked j)
    (hlink : ∀ sub secret, call = some (.verified sub secret) → asked i = (sub, secret)) :
    Calm L { L with akm := L.akm.setRefresh i call, asked := asked } := by
  refine calm_of_revokes h (Revokes.refl _) (fun j => ?_) rfl
  simp only [refreshes_setRefresh_apply]
  by_cases hj : j = i
  · subst hj
    rw [if_pos rfl]
    exact .inr ⟨hidle, hlink⟩
  · rw [if_neg hj]
    exact .inl ⟨rfl, hasked j hj⟩

/-- A secret that is kept stays kept where a step revokes it for one of the reasons there are. -/
theorem Ledger.Kept.next {old : AgentToken} (h : L.Kept old) (hkey : old.key = row.key)
    (hexpires : old.expiresAt = row.expiresAt) (hlive : old.revoked = false → L'.Kept row)
    (hexchanged : ∀ key ∈ L.exchanged, key ∈ L'.exchanged) (hspending : L.Spending row.key → L'.Kept row)
    (hwithdrawn : ∀ key ∈ L.withdrawn, key ∈ L'.withdrawn) (hnow : L.akm.now ≤ L'.akm.now) : L'.Kept row := by
  obtain hold | hold | hold | hold | hold := h
  · exact hlive hold
  · exact .inr (.inl (hexchanged _ (hkey ▸ hold)))
  · exact hspending (hkey ▸ hold)
  · exact .inr (.inr (.inr (.inl (hwithdrawn _ (hkey ▸ hold)))))
  · rw [hexpires] at hold
    exact .inr (.inr (.inr (.inr (hold.trans_le hnow))))

theorem kept_setRefresh (hkept : ∀ row ∈ L.akm.agentTokens, L.Kept row) {call : Option Refresh}
    {asked : ℕ → ℕ × ℕ} (hasked : ∀ j, j ≠ i → asked j = L.asked j)
    (hcall : Refresh.spending (L.akm.refreshes i) = true →
      Refresh.spending call = true ∧ asked i = L.asked i ∨
        ∀ row ∈ L.akm.agentTokens, row.key = L.asked i → micros row.expiresAt < L.akm.now) :
    ∀ row ∈ L.akm.agentTokens,
      Kept { L with akm := L.akm.setRefresh i call, asked := asked } row := by
  intro row hrow
  refine (hkept row hrow).next rfl rfl .inl (fun _ h => h) ?_ (fun _ h => h) le_rfl
  rintro ⟨j, hj, hkey⟩
  by_cases hji : j = i
  · subst hji
    obtain ⟨hspending, hsame⟩ | hexpired := hcall hj
    · refine .inr (.inr (.inl ⟨j, ?_, hsame.trans hkey⟩))
      rw [refreshes_setRefresh_apply, if_pos rfl]
      exact hspending
    · exact .inr (.inr (.inr (.inr (hexpired row hrow hkey.symm))))
  · refine .inr (.inr (.inl ⟨j, ?_, (hasked j hji).trans hkey⟩))
    rw [refreshes_setRefresh_apply, if_neg hji]
    exact hj

/-- What the books say, and what has become of the secrets. -/
def Sound (L : Ledger) : Prop := L.Booked ∧ ∀ row ∈ L.akm.agentTokens, L.Kept row

theorem sound_setRefresh (h : Sound L) {call : Option Refresh} (hidle : Refresh.spending call = false)
    {asked : ℕ → ℕ × ℕ} (hasked : ∀ j, j ≠ i → asked j = L.asked j)
    (hlink : ∀ sub secret, call = some (.verified sub secret) → asked i = (sub, secret))
    (hcall : Refresh.spending (L.akm.refreshes i) = true →
      ∀ row ∈ L.akm.agentTokens, row.key = L.asked i → micros row.expiresAt < L.akm.now) :
    Sound { L with akm := L.akm.setRefresh i call, asked := asked } :=
  ⟨h.1.calm (calm_setRefresh h.1 hidle hasked hlink), kept_setRefresh h.2 hasked fun hi => .inr (hcall hi)⟩

theorem sound_present (h : Sound L) {token : Token} {secret : ℕ}
    (hstep : L.akm.refreshToken i (.present token secret) = some t) :
    Sound (L.record (.refresh i (.present token secret)) t) := by
  obtain ⟨⟨hfree, _⟩, ⟨⟩⟩ := Option.ite_none_right_eq_some.mp hstep
  refine sound_setRefresh h ?_ (fun j hj => Function.update_of_ne hj _ _) (fun sub secret' hcall => ?_) ?_
  · split <;> rfl
  · rw [Function.update_self]
    split at hcall
    · cases hcall
      rfl
    · cases hcall
  · rw [hfree]
    exact fun hspending => by cases hspending

theorem holds_iff {secret agentId : ℕ} :
    row.holds secret agentId = true ↔ row.key = (agentId, secret) ∧ row.revoked = false := by
  simp only [AgentToken.holds, AgentToken.key, Bool.and_eq_true, decide_eq_true_eq, Bool.not_eq_true',
    Prod.mk.injEq]
  exact and_congr_left fun _ => and_comm

/-- The UPDATE finds the secret live, and spends it for the call. -/
theorem booked_redeemed (h : L.Booked) {sub secret : ℕ}
    (hi : L.akm.refreshes i = some (.verified sub secret)) (hrow : row ∈ L.akm.agentTokens)
    (hholds : row.holds secret sub = true)
    (hself : L'.akm.refreshes i = some (.redeemed sub row.expiresAt))
    (hcalls : ∀ j, j ≠ i → L'.akm.refreshes j = L.akm.refreshes j)
    (hrows : L'.akm.agentTokens = setRevoked (·.holds secret sub) L.akm.agentTokens)
    (hsame : L'.asked = L.asked) (hexchanged : L'.exchanged = L.exchanged) : L'.Booked := by
  obtain ⟨hkey, hlive⟩ := holds_iff.mp hholds
  have hasked : L.asked i = row.key := (h.verified i sub secret hi).trans hkey.symm
  have hrevokes : Revokes L.akm.agentTokens L'.akm.agentTokens := ⟨_, hrows⟩
  have hother : ∀ j, Refresh.spending (L.akm.refreshes j) = true → L.asked j ≠ L.asked i :=
    fun j hj hj' => h.not_gone hrow hlive (hasked ▸ hj' ▸ h.spent j hj)
  constructor
  · rw [hrows, keys_setRevoked]
    exact h.distinct
  · intro j sub' secret' hj
    rw [hsame]
    by_cases hji : j = i
    · rw [hji, hself] at hj
      cases hj
    · rw [hcalls j hji] at hj
      exact h.verified j sub' secret' hj
  · intro j hj
    rw [hsame]
    by_cases hji : j = i
    · rw [hji, hasked, Gone, hrows]
      exact ⟨_, mem_setRevoked_iff.mpr (.inr ⟨row, hrow, hholds, rfl⟩), rfl, rfl⟩
    · rw [hcalls j hji] at hj
      exact hrevokes.gone (h.spent j hj)
  · intro j k hj hk hjk
    rw [hsame] at hjk
    by_cases hji : j = i
    · by_cases hki : k = i
      · rw [hji, hki]
      · rw [hcalls k hki] at hk
        exact absurd (hji ▸ hjk).symm (hother k hk)
    · rw [hcalls j hji] at hj
      by_cases hki : k = i
      · exact absurd (hki ▸ hjk) (hother j hj)
      · rw [hcalls k hki] at hk
        exact h.apart j k hj hk hjk
  · intro j hj
    rw [hsame, hexchanged]
    by_cases hji : j = i
    · rw [hji, hasked]
      exact fun hmem => h.not_gone hrow hlive (h.done _ hmem)
    · rw [hcalls j hji] at hj
      exact h.owed j hj
  · intro key hkey
    rw [hexchanged] at hkey
    exact hrevokes.gone (h.done key hkey)
  · rw [hexchanged]
    exact h.once
  · intro j sub' expiresAt hj row' hrow' hkey'
    rw [hsame] at hkey'
    obtain ⟨old, hold, holdkey, hexpires, _⟩ := hrevokes.old hrow'
    rw [← hexpires]
    by_cases hji : j = i
    · rw [hji, hself] at hj
      cases hj
      rw [hji] at hkey'
      rw [h.eq_of_key hold hrow ((holdkey.trans hkey').trans hasked)]
    · rw [hcalls j hji] at hj
      exact h.expiry j sub' expiresAt hj old hold (holdkey.trans hkey')

theorem sound_redeem (h : Sound L) (hstep : L.akm.refreshToken i .redeem = some t) :
    Sound (L.record (.refresh i .redeem) t) := by
  simp only [refreshToken] at hstep
  split at hstep
  · rename_i sub secret hi
    split at hstep
    · rename_i row hfound
      cases hstep
      have hholds := List.find?_some hfound
      refine ⟨booked_redeemed h.1 hi (List.mem_of_find?_eq_some hfound) hholds
        (Function.update_self _ _ _) (fun j hj => Function.update_of_ne hj _ _) rfl rfl rfl,
        fun row' hrow' => ?_⟩
      have hspends : ∀ key, L.Spending key → Spending (L.record (.refresh i .redeem)
          { L.akm.setRefresh i (some (.redeemed sub row.expiresAt)) with
            agentTokens := setRevoked (·.holds secret sub) L.akm.agentTokens }) key := by
        rintro key ⟨j, hj, hkey⟩
        refine ⟨j, ?_, hkey⟩
        by_cases hji : j = i
        · subst hji
          rw [hi] at hj
          cases hj
        · exact (congrArg Refresh.spending (Function.update_of_ne hji _ _)).trans hj
      have hold : row' ∈ setRevoked (·.holds secret sub) L.akm.agentTokens := hrow'
      obtain ⟨hrow, _⟩ | ⟨old, hrow, hmatch, rfl⟩ := mem_setRevoked_iff.mp hold
      · exact (h.2 row' hrow).next rfl rfl .inl (fun _ hkey => hkey)
          (fun hspending => .inr (.inr (.inl (hspends _ hspending)))) (fun _ hkey => hkey) le_rfl
      · refine .inr (.inr (.inl ⟨i, ?_, ?_⟩))
        · exact congrArg Refresh.spending
            (Function.update_self i (some (.redeemed sub row.expiresAt)) L.akm.refreshes)
        · exact (h.1.verified i sub secret hi).trans (holds_iff.mp hmatch).1.symm
    · cases hstep
      refine sound_setRefresh h rfl (fun _ _ => rfl) (fun _ _ hcall => by cases hcall) fun hspending => ?_
      rw [hi] at hspending
      cases hspending
  · cases hstep

theorem sound_moved (h : Sound L) {call : Refresh} (hspending : Refresh.spending (L.akm.refreshes i) = true)
    (hcall : Refresh.spending (some call) = true) (hfresh : ∀ sub expiresAt, call ≠ .redeemed sub expiresAt) :
    Sound { L with akm := L.akm.setRefresh i (some call) } := by
  have hcalm : Calm L { L with akm := L.akm.setRefresh i (some call) } := by
    refine ⟨h.1.distinct, fun _ hgone => hgone, fun row hrow _ => ⟨row, hrow, rfl, rfl⟩, ?_, ?_, ?_, rfl⟩
    · intro j sub secret hj
      rw [refreshes_setRefresh_apply] at hj
      split at hj
      · obtain rfl := Option.some.inj hj
        cases hcall
      · exact h.1.verified j sub secret hj
    · intro j hj
      rw [refreshes_setRefresh_apply] at hj
      split at hj
      · rename_i hji
        exact ⟨hji ▸ hspending, rfl⟩
      · exact ⟨hj, rfl⟩
    · intro j sub expiresAt hj
      rw [refreshes_setRefresh_apply] at hj
      split at hj
      · cases hj
        exact absurd rfl (hfresh sub expiresAt)
      · exact hj
  exact ⟨h.1.calm hcalm, kept_setRefresh h.2 (fun _ _ => rfl) fun _ => .inl ⟨hcall, rfl⟩⟩

theorem sound_sign (h : Sound L) {newJti newSecret : ℕ}
    (hstep : L.akm.refreshToken i (.sign newJti newSecret) = some t) :
    Sound (L.record (.refresh i (.sign newJti newSecret)) t) := by
  simp only [refreshToken] at hstep
  split at hstep
  · rename_i sub expiresAt hi
    cases hstep
    split
    · rename_i hexpired
      refine sound_setRefresh h rfl (fun _ _ => rfl) (fun _ _ hcall => by cases hcall) fun _ row hrow hkey => ?_
      rw [h.1.expiry i sub expiresAt hi row hrow hkey]
      exact hexpired
    · exact sound_moved h (by rw [hi]; rfl) rfl (fun _ _ hcall => by cases hcall)
  · cases hstep

theorem sound_stored (h : Sound L) (hlive : row.revoked = false)
    (hnew : row.key ∉ L.akm.agentTokens.map AgentToken.key) :
    Sound { L with akm := { L.akm with agentTokens := row :: L.akm.agentTokens } } := by
  have hgone : ∀ key, L.Gone key →
      Gone { L with akm := { L.akm with agentTokens := row :: L.akm.agentTokens } } key := by
    rintro key ⟨old, hold, hkey, hrevoked⟩
    exact ⟨old, List.mem_cons_of_mem _ hold, hkey, hrevoked⟩
  have hcalm : Calm L { L with akm := { L.akm with agentTokens := row :: L.akm.agentTokens } } := by
    refine ⟨List.nodup_cons.mpr ⟨hnew, h.1.distinct⟩, hgone, fun row' hrow' hold => ?_, h.1.verified,
      fun _ hj => ⟨hj, rfl⟩, fun _ _ _ hj => hj, rfl⟩
    obtain rfl | hrow' := List.mem_cons.mp hrow'
    · obtain ⟨old, hold, hkey, _⟩ := hold
      exact absurd (hkey ▸ List.mem_map_of_mem hold) hnew
    · exact ⟨row', hrow', rfl, rfl⟩
  refine ⟨h.1.calm hcalm, fun row' hrow' => ?_⟩
  obtain rfl | hrow' := List.mem_cons.mp hrow'
  · exact .inl hlive
  · exact h.2 row' hrow'

theorem sound_store (h : Sound L) (hfresh : L.fresh (.refresh i .store) = true)
    (hstep : L.akm.refreshToken i .store = some t) : Sound (L.record (.refresh i .store) t) := by
  simp only [refreshToken] at hstep
  split at hstep
  · rename_i newToken newSecret hi
    cases hstep
    have hnew : (newToken.sub, newSecret) ∉ L.akm.agentTokens.map AgentToken.key := by
      simpa only [fresh, hi, Bool.not_eq_true', List.contains_eq_mem, decide_eq_false_iff_not] using hfresh
    have hmoved := @sound_moved _ _ h (.stored newToken) (by rw [hi]; rfl) rfl
      (fun _ _ hcall => by cases hcall)
    exact @sound_stored _ ⟨newToken.sub, newSecret, newToken.exp, false⟩ hmoved rfl hnew
  · cases hstep

theorem sound_answer (h : Sound L) (hstep : L.akm.refreshToken i .answer = some t) :
    Sound (L.record (.refresh i .answer) t) := by
  simp only [refreshToken] at hstep
  split at hstep
  · rename_i newToken hi
    cases hstep
    have hspending : Refresh.spending (L.akm.refreshes i) = true := by rw [hi]; rfl
    have hcalls : ∀ j, Refresh.spending ((L.akm.setRefresh i none).refreshes j) = true →
        j ≠ i ∧ Refresh.spending (L.akm.refreshes j) = true := by
      intro j hj
      rw [refreshes_setRefresh_apply] at hj
      split at hj
      · cases hj
      · exact ⟨‹_›, hj⟩
    have hkept : ∀ {j call}, (L.akm.setRefresh i none).refreshes j = some call →
        L.akm.refreshes j = some call := by
      intro j call hj
      rw [refreshes_setRefresh_apply] at hj
      split at hj
      · cases hj
      · exact hj
    refine ⟨⟨h.1.distinct, fun j sub secret hj => h.1.verified j sub secret (hkept hj),
      fun j hj => h.1.spent j (hcalls j hj).2,
      fun j k hj hk => h.1.apart j k (hcalls j hj).2 (hcalls k hk).2, fun j hj => ?_, fun key hkey => ?_,
      List.nodup_cons.mpr ⟨h.1.owed i hspending, h.1.once⟩,
      fun j sub expiresAt hj => h.1.expiry j sub expiresAt (hkept hj)⟩, fun row hrow => ?_⟩
    · obtain ⟨hji, hj⟩ := hcalls j hj
      rintro hmem
      obtain hsame | hmem := List.mem_cons.mp hmem
      · exact hji (h.1.apart j i hj hspending hsame)
      · exact h.1.owed j hj hmem
    · obtain rfl | hkey := List.mem_cons.mp hkey
      · exact h.1.spent i hspending
      · exact h.1.done key hkey
    · refine (h.2 row hrow).next rfl rfl .inl (fun _ hkey => List.mem_cons_of_mem _ hkey) ?_
        (fun _ hkey => hkey) le_rfl
      rintro ⟨j, hj, hkey⟩
      by_cases hji : j = i
      · subst hji
        exact .inr (.inl (hkey ▸ List.mem_cons_self))
      · refine .inr (.inr (.inl ⟨j, ?_, hkey⟩))
        change Refresh.spending ((L.akm.setRefresh i none).refreshes j) = true
        rw [refreshes_setRefresh_apply, if_neg hji]
        exact hj
  · cases hstep

theorem sound_fail (h : Sound L) (hok : L.Unbroken (.refresh i .fail))
    (hstep : L.akm.refreshToken i .fail = some t) : Sound (L.record (.refresh i .fail) t) := by
  obtain ⟨_, ⟨⟩⟩ := Option.ite_none_left_eq_some.mp hstep
  refine sound_setRefresh h rfl (fun _ _ => rfl) (fun _ _ hcall => by cases hcall) fun hspending => ?_
  rw [show Refresh.spending (L.akm.refreshes i) = false from hok] at hspending
  cases hspending

theorem sound_beside (h : Sound L) (hrefreshes : L'.akm.refreshes = L.akm.refreshes)
    (hasked : L'.asked = L.asked) (hexchanged : L'.exchanged = L.exchanged)
    {p : AgentToken → Bool} (hrows : L'.akm.agentTokens = setRevoked p L.akm.agentTokens)
    (htaken : ∀ row ∈ L.akm.agentTokens, p row = true → row.revoked = false → row.key ∈ L'.withdrawn)
    (hwithdrawn : ∀ key ∈ L.withdrawn, key ∈ L'.withdrawn) (hnow : L.akm.now ≤ L'.akm.now) : Sound L' := by
  refine ⟨h.1.calm (calm_of_revokes h.1 ⟨p, hrows⟩ (fun i => .inl ⟨by rw [hrefreshes], by rw [hasked]⟩)
    hexchanged), fun row hrow => ?_⟩
  have hspending : ∀ key, L.Spending key → L'.Spending key := by
    rintro key ⟨i, hi, hkey⟩
    exact ⟨i, by rw [hrefreshes]; exact hi, by rw [hasked]; exact hkey⟩
  rw [hrows] at hrow
  obtain ⟨hold, _⟩ | ⟨old, hold, hp, rfl⟩ := mem_setRevoked_iff.mp hrow
  · exact (h.2 row hold).next rfl rfl .inl (fun _ hkey => hexchanged ▸ hkey)
      (fun hspends => .inr (.inr (.inl (hspending _ hspends)))) hwithdrawn hnow
  · refine (h.2 old hold).next rfl rfl (fun hlive => ?_) (fun _ hkey => hexchanged ▸ hkey)
      (fun hspends => .inr (.inr (.inl (hspending _ hspends)))) hwithdrawn hnow
    exact .inr (.inr (.inr (.inl (htaken old hold hp hlive))))

theorem sound_same (h : Sound L) (hrefreshes : L'.akm.refreshes = L.akm.refreshes)
    (hasked : L'.asked = L.asked) (hexchanged : L'.exchanged = L.exchanged)
    (hrows : L'.akm.agentTokens = L.akm.agentTokens) (hwithdrawn : L'.withdrawn = L.withdrawn)
    (hnow : L.akm.now ≤ L'.akm.now) : Sound L' :=
  sound_beside h hrefreshes hasked hexchanged (p := fun _ => false)
    (hrows.trans (setRevoked_false _).symm) (fun _ _ hp => by cases hp)
    (fun _ hkey => hwithdrawn ▸ hkey) hnow

theorem sound_revoke (h : Sound L) {e : RevokeEvent} (hstep : L.akm.revokeToken i e = some t) :
    Sound (L.record (.revoke i e) t) := by
  by_cases hwithdraw : e = .withdraw
  · subst hwithdraw
    obtain ⟨q, hi, rfl⟩ := revokeToken_withdraw hstep
    refine sound_beside h rfl rfl rfl (p := (·.agentId = q.agentId)) rfl (fun row hrow hp hlive => ?_)
      (fun _ hkey => List.mem_append_right _ hkey) le_rfl
    refine List.mem_append_left _ ?_
    simp only [takes, hi]
    exact List.mem_map_of_mem (List.mem_filter.mpr ⟨hrow, by simp [of_decide_eq_true hp, hlive]⟩)
  · by_cases hcomplete : e = .complete
    · subst hcomplete
      obtain ⟨q, _, rfl⟩ := revokeToken_complete hstep
      exact sound_same h rfl rfl rfl rfl rfl le_rfl
    · obtain ⟨new, agentTokens, revokedTokens, rfl, _, _, hrest⟩ := revokeToken_spec hstep hcomplete
      obtain ⟨rfl, _⟩ := hrest.resolve_left hwithdraw
      cases e with
      | withdraw => exact absurd rfl hwithdraw
      | _ => exact sound_same h rfl rfl rfl rfl rfl le_rfl

theorem sound_restart (h : Sound L) (hok : L.Unbroken .restart) :
    Sound (L.record .restart L.akm.restarted) := by
  refine ⟨h.1.calm (calm_of_revokes h.1 (Revokes.refl _) (fun i => .inr ⟨rfl, fun _ _ hcall => by cases hcall⟩)
    rfl), fun row hrow => ?_⟩
  refine (h.2 row hrow).next rfl rfl .inl (fun _ hkey => hkey) ?_ (fun _ hkey => hkey) le_rfl
  rintro ⟨i, hi, _⟩
  rw [hok i] at hi
  cases hi

theorem sound_step (h : Sound L) (hok : L.Unbroken e) (hstep : ledger.step L e = some L') : Sound L' := by
  obtain ⟨hfresh, akm, hakm, rfl⟩ := step_ledger hstep
  cases e with
  | tick now =>
    obtain ⟨hle, ⟨⟩⟩ := Option.ite_none_right_eq_some.mp hakm
    exact sound_same h rfl rfl rfl rfl rfl hle
  | issue token =>
    cases hakm
    exact sound_same h rfl rfl rfl rfl rfl le_rfl
  | refresh i e =>
    cases e with
    | present token secret => exact sound_present h hakm
    | redeem => exact sound_redeem h hakm
    | sign newJti newSecret => exact sound_sign h hakm
    | store => exact sound_store h hfresh hakm
    | answer => exact sound_answer h hakm
    | fail => exact sound_fail h hok hakm
  | revoke i e => exact sound_revoke h hakm
  | loop e =>
    have hframe := revocationRefreshLoop_frame hakm
    have hrefreshes : akm.refreshes = L.akm.refreshes := by rw [hframe]
    have hrows : akm.agentTokens = L.akm.agentTokens := by rw [hframe]
    have hnow : akm.now = L.akm.now := by rw [hframe]
    exact sound_same h hrefreshes rfl rfl hrows rfl hnow.ge
  | restart =>
    cases hakm
    exact sound_restart h hok

theorem sound_starts (h : L.Starts) : Sound L := by
  obtain ⟨_, ⟨now, issued, rows, revokedTokens, rfl⟩, hdistinct, rfl⟩ := h
  have hidle : ∀ i, Refresh.spending ((started now issued rows revokedTokens).refreshes i) = false :=
    fun _ => rfl
  refine ⟨⟨hdistinct, fun i sub secret hi => (by cases hi), fun i hi => (by cases hi), fun i j hi => (by cases hi),
    fun i hi => (by cases hi), fun key hkey => (by cases hkey), List.nodup_nil,
    fun i sub expiresAt hi => (by cases hi)⟩, fun row hrow => ?_⟩
  cases hlive : row.revoked with
  | false => exact .inl hlive
  | true => exact .inr (.inr (.inr (.inl (List.mem_map_of_mem (List.mem_filter.mpr ⟨hrow, hlive⟩)))))

/-- In every run in which no call fails past its UPDATE, each secret is answered once at most, and none
is lost: a secret that is no longer live was exchanged, is being exchanged, was taken with its agent's
tokens, or has expired. -/
theorem refresh_atomic (h : ledger.ReachableIf Unbroken L) : L.Atomic := by
  have hsound : Sound L := h.invariant (I := Sound) (fun _ => sound_starts) fun _ _ _ hs hok hstep =>
    sound_step hs hok hstep
  exact ⟨hsound.1.once, hsound.2⟩

def secretRow : AgentToken where
  agentId := 7
  tokenHash := 5
  expiresAt := 3600

def secretLedger : Ledger where
  akm := started 0 [apiToken] [secretRow] []

theorem starts_secretLedger : ledger.initial secretLedger :=
  ⟨_, ⟨0, [apiToken], [secretRow], [], rfl⟩, List.nodup_singleton _, rfl⟩

/-- A refresh from its first statement to its reply, and a second one with the same secret. -/
def refreshTwice : List Event :=
  [.refresh 0 (.present apiToken 5), .refresh 1 (.present apiToken 5), .refresh 0 .redeem,
    .refresh 1 .redeem, .refresh 0 (.sign 1 6), .refresh 0 .store, .refresh 0 .answer]

theorem refresh_atomic_twice : (ledger.after secretLedger refreshTwice).Atomic := by
  refine refresh_atomic (Machine.reachableIf_of_accepts (C := fun _ e => match e with
    | .refresh _ .fail | .restart => false
    | _ => true) (fun L e _ hcheck => ?_) starts_secretLedger (by decide))
  cases e with
  | refresh i e =>
    cases e with
    | fail => cases hcheck
    | _ => exact trivial
  | restart => cases hcheck
  | _ => exact trivial

/-- The secret is spent, and then its successor cannot be signed or stored. -/
def refreshBroken : List Event :=
  [.refresh 0 (.present apiToken 5), .refresh 0 .redeem, .refresh 0 .fail]

/-- The agent is left without a secret. -/
theorem refresh_loses : ¬∀ L, ledger.Reachable L → L.Atomic := by
  intro h
  have hrun : ledger.Reachable (ledger.after secretLedger refreshBroken) :=
    ⟨secretLedger, refreshBroken, starts_secretLedger, Machine.run_after (by decide)⟩
  have hrow : { secretRow with revoked := true } ∈ (ledger.after secretLedger refreshBroken).akm.agentTokens := by
    decide
  obtain hlive | hexchanged | ⟨i, hi, _⟩ | hwithdrawn | hexpired := (h _ hrun).kept _ hrow
  · cases hlive
  · revert hexchanged
    decide
  · have hidle : (ledger.after secretLedger refreshBroken).akm.refreshes i = none := by
      by_cases hzero : i = 0
      · subst hzero
        rfl
      · exact (Function.update_of_ne hzero _ _).trans ((Function.update_of_ne hzero _ _).trans
          (Function.update_of_ne hzero _ _))
    rw [hidle] at hi
    cases hi
  · revert hwithdrawn
    decide
  · revert hexpired
    decide

end Hill90.Knowledge.Revocation
