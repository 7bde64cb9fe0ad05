import Hill90.Foundation.Play

/-! # Programs whose statements have a fate

A program that hands no statement over twice is run against one outcome for each statement it may
come to, whether it comes to it or not.
-/

namespace Hill90

variable {St : Type} {Rows : St → Type} {ε α β σ κ : Type}

namespace Outcome

def takesEffect : Outcome κ ε → Bool
  | answered _ | lost .. => true
  | failed _ => false

def isAnswered : Outcome κ ε → Bool
  | answered _ => true
  | failed _ | lost .. => false

def settle (run : σ → κ → (s : St) → Except ε (Rows s × σ)) (t : σ) (s : St) :
    Outcome κ ε → Except ε (Rows s) × σ
  | answered c =>
    match run t c s with
    | .ok (rows, t') => (.ok rows, t')
    | .error e => (.error e, t)
  | failed e => (.error e, t)
  | lost c e =>
    match run t c s with
    | .ok (_, t') => (.error e, t')
    | .error e' => (.error e', t)

end Outcome

namespace Program

variable (run : σ → κ → (s : St) → Except ε (Rows s × σ)) (fate : St → Outcome κ ε)

def against : Program St Rows ε α → σ → Except ε α × σ
  | .reply a, t => (.ok a, t)
  | .raise e, t => (.error e, t)
  | .await s k r, t =>
    match (fate s).settle run t s with
    | (.ok rows, t') => (k rows).against t'
    | (.error e, t') => (r e).against t'

variable {run fate} {t u : σ}

@[simp] theorem against_pure (a : α) :
    (pure a : Program St Rows ε α).against run fate t = (.ok a, t) := rfl

@[simp] theorem against_throw (e : ε) :
    (throw e : Program St Rows ε α).against run fate t = (.error e, t) := rfl

@[simp] theorem against_query (s : St) :
    (query s : Program St Rows ε (Rows s)).against run fate t = (fate s).settle run t s := by
  rw [query, against]
  split
  · rename_i h
    rw [h]
    rfl
  · rename_i h
    rw [h]
    rfl

theorem against_bind (p : Program St Rows ε α) (f : α → Program St Rows ε β) :
    (p >>= f).against run fate t = match p.against run fate t with
      | (.ok a, u) => (f a).against run fate u
      | (.error e, u) => (.error e, u) := by
  induction p generalizing t with
  | reply a => rfl
  | raise e => rfl
  | await s k r ihk ihr =>
    change (await s (fun rows => k rows >>= f) fun e => r e >>= f).against run fate t = _
    rw [against, against]
    split
    · exact ihk _
    · exact ihr _

theorem against_ask_ok {s : St} {f : Rows s → Program St Rows ε β} {rows : Rows s}
    (h : (fate s).settle run t s = (.ok rows, u)) :
    (query s >>= f).against run fate t = (f rows).against run fate u := by
  rw [against_bind, against_query, h]

theorem against_ask_error {s : St} {f : Rows s → Program St Rows ε β} {e : ε}
    (h : (fate s).settle run t s = (.error e, u)) :
    (query s >>= f).against run fate t = (.error e, u) := by
  rw [against_bind, against_query, h]

theorem against_tryCatch (p : Program St Rows ε α) (h : ε → Program St Rows ε α) :
    (tryCatch p h).against run fate t = match p.against run fate t with
      | (.ok a, u) => (.ok a, u)
      | (.error e, u) => (h e).against run fate u := by
  change (p.tryCatch h).against run fate t = _
  induction p generalizing t with
  | reply a => rfl
  | raise e => rfl
  | await s k r ihk ihr =>
    rw [against, Program.tryCatch, against]
    split
    · exact ihk _
    · exact ihr _

theorem Only.store_of_against {A : St → Prop} {p : Program St Rows ε α} (h : Only A p)
    (hA : ∀ s, A s → ((fate s).settle run t s).2 = t) : (p.against run fate t).2 = t := by
  induction p with
  | reply a => rfl
  | raise e => rfl
  | await s k r ihk ihr =>
    have hsame := hA s h.1
    rw [against]
    split
    · rename_i hsettle
      rw [hsettle] at hsame
      cases hsame
      exact ihk _ (h.2.1 _)
    · rename_i hsettle
      rw [hsettle] at hsame
      cases hsame
      exact ihr _ (h.2.2 _)

section Upholds

variable (run : σ → κ → (s : St) → Except ε (Rows s × σ)) (fate : St → Outcome κ ε)
  (permits : σ → St → Prop)

/-- Each statement is handed over in a store that permits it, and the end is as `Q` or `E` says. -/
def Upholds : Program St Rows ε α → (α → σ → Prop) → (ε → σ → Prop) → σ → Prop
  | .reply a, Q, _, t => Q a t
  | .raise e, _, E, t => E e t
  | .await s k r, Q, E, t => permits t s ∧
      match (fate s).settle run t s with
      | (.ok rows, t') => (k rows).Upholds Q E t'
      | (.error e, t') => (r e).Upholds Q E t'

variable {run fate permits} {t : σ} {Q : α → σ → Prop} {E : ε → σ → Prop}

theorem upholds_bind (p : Program St Rows ε α) (f : α → Program St Rows ε β) {Q : β → σ → Prop} :
    Upholds run fate permits (p >>= f) Q E t ↔
      Upholds run fate permits p (fun a => Upholds run fate permits (f a) Q E) E t := by
  induction p generalizing t with
  | reply a => exact Iff.rfl
  | raise e => exact Iff.rfl
  | await s k r ihk ihr =>
    change Upholds run fate permits (await s (fun rows => k rows >>= f) fun e => r e >>= f) Q E t ↔ _
    simp only [Upholds]
    apply and_congr_right
    intro _
    split
    · exact ihk _
    · exact ihr _

theorem upholds_tryCatch (p : Program St Rows ε α) (h : ε → Program St Rows ε α) :
    Upholds run fate permits (tryCatch p h) Q E t ↔
      Upholds run fate permits p Q (fun e => Upholds run fate permits (h e) Q E) t := by
  change Upholds run fate permits (p.tryCatch h) Q E t ↔ _
  induction p generalizing t with
  | reply a => exact Iff.rfl
  | raise e => exact Iff.rfl
  | await s k r ihk ihr =>
    simp only [Program.tryCatch, Upholds]
    apply and_congr_right
    intro _
    split
    · exact ihk _
    · exact ihr _

theorem upholds_ite {c : Prop} [Decidable c] {p q : Program St Rows ε α}
    (hp : c → Upholds run fate permits p Q E t) (hq : ¬c → Upholds run fate permits q Q E t) :
    Upholds run fate permits (if c then p else q) Q E t := by
  split
  · exact hp ‹_›
  · exact hq ‹_›

theorem upholds_query {s : St} {Q : Rows s → σ → Prop} (hpermits : permits t s)
    (hok : ∀ rows u, (fate s).settle run t s = (.ok rows, u) → Q rows u)
    (herr : ∀ e u, (fate s).settle run t s = (.error e, u) → E e u) :
    Upholds run fate permits (query s) Q E t := by
  simp only [query, Upholds]
  refine ⟨hpermits, ?_⟩
  split
  · exact hok _ _ ‹_›
  · exact herr _ _ ‹_›

/-- A statement first, the rest after its answer. -/
theorem upholds_ask {s : St} {f : Rows s → Program St Rows ε β} {Q : β → σ → Prop}
    (hpermits : permits t s)
    (hok : ∀ rows u, (fate s).settle run t s = (.ok rows, u) →
      Upholds run fate permits (f rows) Q E u)
    (herr : ∀ e u, (fate s).settle run t s = (.error e, u) → E e u) :
    Upholds run fate permits (query s >>= f) Q E t :=
  (upholds_bind _ _).mpr (upholds_query hpermits hok herr)

theorem Upholds.mono {p : Program St Rows ε α} {Q' : α → σ → Prop} {E' : ε → σ → Prop}
    (h : Upholds run fate permits p Q E t) (hQ : ∀ a u, Q a u → Q' a u)
    (hE : ∀ e u, E e u → E' e u) : Upholds run fate permits p Q' E' t := by
  induction p generalizing t with
  | reply a => exact hQ a t h
  | raise e => exact hE e t h
  | await s k r ihk ihr =>
    simp only [Upholds] at h ⊢
    obtain ⟨hpermits, hrest⟩ := h
    refine ⟨hpermits, ?_⟩
    split at hrest
    · exact ihk _ hrest
    · exact ihr _ hrest

theorem Upholds.against {p : Program St Rows ε α} (h : Upholds run fate permits p Q E t) :
    match p.against run fate t with
    | (.ok a, u) => Q a u
    | (.error e, u) => E e u := by
  induction p generalizing t with
  | reply a => exact h
  | raise e => exact h
  | await s k r ihk ihr =>
    simp only [Upholds] at h
    obtain ⟨-, hrest⟩ := h
    rw [Program.against]
    split at hrest
    · exact ihk _ hrest
    · exact ihr _ hrest

end Upholds

end Program

theorem Outcome.settle_ok {run : σ → κ → (s : St) → Except ε (Rows s × σ)} {o : Outcome κ ε}
    {t u : σ} {s : St} {rows : Rows s} (h : o.settle run t s = (.ok rows, u)) :
    ∃ c, o = .answered c ∧ run t c s = .ok (rows, u) := by
  cases o with
  | answered c =>
    simp only [Outcome.settle] at h
    split at h
    · cases h
      exact ⟨c, rfl, ‹_›⟩
    · cases h
  | failed e => cases h
  | lost c e =>
    simp only [Outcome.settle] at h
    split at h <;> cases h

theorem Outcome.settle_error {run : σ → κ → (s : St) → Except ε (Rows s × σ)} {o : Outcome κ ε}
    {t u : σ} {s : St} {e : ε} (h : o.settle run t s = (.error e, u)) :
    u = t ∨ ∃ c rows, run t c s = .ok (rows, u) := by
  cases o with
  | answered c =>
    simp only [Outcome.settle] at h
    split at h
    · cases h
    · cases h
      exact .inl rfl
  | failed e' =>
    cases h
    exact .inl rfl
  | lost c e' =>
    simp only [Outcome.settle] at h
    split at h
    · rename_i rows t' hrun
      cases h
      exact .inr ⟨c, rows, hrun⟩
    · cases h
      exact .inl rfl

end Hill90
