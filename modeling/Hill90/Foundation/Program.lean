import Mathlib.Tactic.Basic

/-! # Programs that wait for answers

A program runs without interruption up to its next statement, hands the statement
over and waits.  The answer comes later: either rows of the statement's own type
or an error, which a handler may catch.  A discipline assigns to each program a
mode that its statements and their answers change; what a program does in every
order of answers is then a weakest precondition over modes.
-/

namespace Hill90

inductive Program (St : Type) (Rows : St → Type) (ε : Type) (α : Type) where
  | reply (a : α)
  | raise (e : ε)
  | await (s : St) (resume : Rows s → Program St Rows ε α) (reject : ε → Program St Rows ε α)

namespace Program

variable {St : Type} {Rows : St → Type} {ε α β γ : Type}

protected def bind : Program St Rows ε α → (α → Program St Rows ε β) → Program St Rows ε β
  | .reply a, f => f a
  | .raise e, _ => .raise e
  | .await s k r, f => .await s (fun rows => (k rows).bind f) (fun e => (r e).bind f)

protected def tryCatch : Program St Rows ε α → (ε → Program St Rows ε α) → Program St Rows ε α
  | .reply a, _ => .reply a
  | .raise e, h => h e
  | .await s k r, h => .await s (fun rows => (k rows).tryCatch h) (fun e => (r e).tryCatch h)

instance : Monad (Program St Rows ε) where
  pure := .reply
  bind := Program.bind

instance : MonadExceptOf ε (Program St Rows ε) where
  throw := .raise
  tryCatch := Program.tryCatch

def query (s : St) : Program St Rows ε (Rows s) := .await s .reply .raise

end Program

/-- A mode for each program: which statements it permits, and how the rows or the
error a statement comes back with change it.  `returns` bounds the rows. -/
structure Discipline (St : Type) (Rows : St → Type) (ε μ : Type) where
  may : μ → St → Prop
  returns : (s : St) → Rows s → Prop
  returned : μ → (s : St) → Rows s → μ
  rejected : μ → (s : St) → ε → μ

namespace Program

variable {St : Type} {Rows : St → Type} {ε α β γ μ : Type} {D : Discipline St Rows ε μ}

variable (D) in
/-- Started in this mode, the program hands over permitted statements only,
replies in a mode related to its answer by `Q` and raises in one related by `E`. -/
def Meets : Program St Rows ε α → (α → μ → Prop) → (ε → μ → Prop) → μ → Prop
  | .reply a, Q, _, m => Q a m
  | .raise e, _, E, m => E e m
  | .await s k r, Q, E, m => D.may m s ∧
      (∀ rows, D.returns s rows → (k rows).Meets Q E (D.returned m s rows)) ∧
      ∀ e, (r e).Meets Q E (D.rejected m s e)

variable {Q : α → μ → Prop} {E : ε → μ → Prop} {m : μ}

@[simp] theorem meets_pure (a : α) :
    Meets D (pure a : Program St Rows ε α) Q E m ↔ Q a m := Iff.rfl

@[simp] theorem meets_throw (e : ε) :
    Meets D (throw e : Program St Rows ε α) Q E m ↔ E e m := Iff.rfl

@[simp] theorem meets_bind (p : Program St Rows ε α) (f : α → Program St Rows ε β)
    {Q : β → μ → Prop} :
    Meets D (p >>= f) Q E m ↔ Meets D p (fun a => Meets D (f a) Q E) E m := by
  induction p generalizing m with
  | reply a => exact Iff.rfl
  | raise e => exact Iff.rfl
  | await s k r ihk ihr =>
    constructor
    · rintro ⟨hmay, hrows, herr⟩
      exact ⟨hmay, fun rows hr => (ihk rows).mp (hrows rows hr), fun e => (ihr e).mp (herr e)⟩
    · rintro ⟨hmay, hrows, herr⟩
      exact ⟨hmay, fun rows hr => (ihk rows).mpr (hrows rows hr), fun e => (ihr e).mpr (herr e)⟩

@[simp] theorem meets_tryCatch (p : Program St Rows ε α) (h : ε → Program St Rows ε α) :
    Meets D (tryCatch p h) Q E m ↔ Meets D p Q (fun e => Meets D (h e) Q E) m := by
  change Meets D (p.tryCatch h) Q E m ↔ _
  induction p generalizing m with
  | reply a => exact Iff.rfl
  | raise e => exact Iff.rfl
  | await s k r ihk ihr =>
    constructor
    · rintro ⟨hmay, hrows, herr⟩
      exact ⟨hmay, fun rows hr => (ihk rows).mp (hrows rows hr), fun e => (ihr e).mp (herr e)⟩
    · rintro ⟨hmay, hrows, herr⟩
      exact ⟨hmay, fun rows hr => (ihk rows).mpr (hrows rows hr), fun e => (ihr e).mpr (herr e)⟩

theorem Meets.mono {p : Program St Rows ε α} {Q' : α → μ → Prop} {E' : ε → μ → Prop}
    (h : Meets D p Q E m) (hQ : ∀ a m, Q a m → Q' a m) (hE : ∀ e m, E e m → E' e m) :
    Meets D p Q' E' m := by
  induction p generalizing m with
  | reply a => exact hQ a m h
  | raise e => exact hE e m h
  | await s k r ihk ihr =>
    obtain ⟨hmay, hrows, herr⟩ := h
    exact ⟨hmay, fun rows hr => ihk rows (hrows rows hr), fun e => ihr e (herr e)⟩

/-- A statement first, the rest after its answer. -/
theorem meets_ask {s : St} {f : Rows s → Program St Rows ε β} {Q : β → μ → Prop}
    (hmay : D.may m s) (hrows : ∀ rows, D.returns s rows → Meets D (f rows) Q E (D.returned m s rows))
    (herr : ∀ e, E e (D.rejected m s e)) : Meets D (query s >>= f) Q E m :=
  ⟨hmay, hrows, herr⟩

theorem meets_then {p : Program St Rows ε α} {f : α → Program St Rows ε β}
    {Q : β → μ → Prop} (P : α → μ → Prop) (hp : Meets D p P E m)
    (hf : ∀ a m, P a m → Meets D (f a) Q E m) : Meets D (p >>= f) Q E m :=
  (meets_bind p f).mpr (hp.mono hf fun _ _ he => he)

theorem meets_ite {c : Prop} [Decidable c] {p q : Program St Rows ε α}
    (hp : c → Meets D p Q E m) (hq : ¬c → Meets D q Q E m) :
    Meets D (if c then p else q) Q E m := by
  split
  · exact hp ‹_›
  · exact hq ‹_›

theorem meets_forM {δ : Type} {xs : List δ} {f : δ → Program St Rows ε PUnit}
    {I : μ → Prop} (hI : I m)
    (hbody : ∀ x ∈ xs, ∀ m, I m → Meets D (f x) (fun _ => I) E m) :
    Meets D (xs.forM f) (fun _ => I) E m := by
  induction xs generalizing m with
  | nil => exact hI
  | cons x xs ih =>
    change Meets D (f x >>= fun _ => xs.forM f) (fun _ => I) E m
    rw [meets_bind]
    refine (hbody x (by simp) m hI).mono (fun _ m' hm' => ?_) (fun _ _ he => he)
    exact ih hm' fun y hy => hbody y (List.mem_cons_of_mem x hy)

/-- Some order of plausible answers leads the program to hand over a statement of
`goal` before any statement of `block`. -/
def Reaches (returns : (s : St) → Rows s → Prop) (block goal : St → Prop) :
    Program St Rows ε α → Prop
  | .reply _ => False
  | .raise _ => False
  | .await s k r => goal s ∨ (¬block s ∧
      ((∃ rows, returns s rows ∧ (k rows).Reaches returns block goal) ∨
        ∃ e, (r e).Reaches returns block goal))

/-- If only blocking statements take a mode into `P`, and only modes in `P` permit
the goal, then a program that reaches its goal is in such a mode already. -/
theorem Meets.of_reaches {P : μ → Prop} {block goal : St → Prop} {p : Program St Rows ε α}
    (h : Meets D p Q E m) (hgoal : ∀ m s, D.may m s → goal s → P m)
    (hrows : ∀ m s rows, D.returns s rows → ¬block s → P (D.returned m s rows) → P m)
    (herr : ∀ m s e, ¬block s → P (D.rejected m s e) → P m)
    (hp : p.Reaches D.returns block goal) : P m := by
  induction p generalizing m with
  | reply a => exact hp.elim
  | raise e => exact hp.elim
  | await s k r ihk ihr =>
    obtain ⟨hmay, hk, hr⟩ := h
    obtain hs | ⟨hs, ⟨rows, hreturns, hrest⟩ | ⟨e, hrest⟩⟩ := hp
    · exact hgoal m s hmay hs
    · exact hrows m s rows hreturns hs (ihk rows (hk rows hreturns) hrest)
    · exact herr m s e hs (ihr e (hr e) hrest)

/-- If a program ends out of `P` only, and each of its statements in `P` is the goal or has an
answer that keeps the mode in `P`, then in `P` it can still reach the goal. -/
theorem Meets.reaches {P : μ → Prop} {block goal : St → Prop} {p : Program St Rows ε α}
    (h : Meets D p Q E m) (hQ : ∀ a m, Q a m → ¬P m) (hE : ∀ e m, E e m → ¬P m)
    (hstep : ∀ m s, P m → D.may m s → goal s ∨
      (¬block s ∧ ∃ rows, D.returns s rows ∧ P (D.returned m s rows))) (hm : P m) :
    p.Reaches D.returns block goal := by
  induction p generalizing m with
  | reply a => exact absurd hm (hQ a m h)
  | raise e => exact absurd hm (hE e m h)
  | await s k r ihk ihr =>
    obtain ⟨hmay, hk, _⟩ := h
    obtain hgoal | ⟨hblock, rows, hreturns, hP⟩ := hstep m s hm hmay
    · exact .inl hgoal
    · exact .inr ⟨hblock, .inl ⟨rows, hreturns, ihk rows (hk rows hreturns) hP⟩⟩

def Yields (returns : (s : St) → Rows s → Prop) (R : α → Prop) : Program St Rows ε α → Prop
  | .reply a => R a
  | .raise _ => True
  | .await s k r => (∀ rows, returns s rows → (k rows).Yields returns R) ∧
      ∀ e, (r e).Yields returns R

section Yields

variable {returns : (s : St) → Rows s → Prop} {R R' : α → Prop}

theorem yields_then {p : Program St Rows ε α} {f : α → Program St Rows ε β} {R' : β → Prop}
    (hp : Yields returns R p) (hf : ∀ a, R a → Yields returns R' (f a)) :
    Yields returns R' (p >>= f) := by
  induction p with
  | reply a => exact hf a hp
  | raise e => trivial
  | await s k r ihk ihr =>
    exact ⟨fun rows hrows => ihk rows (hp.1 rows hrows), fun e => ihr e (hp.2 e)⟩

theorem yields_ask {s : St} {f : Rows s → Program St Rows ε β} {R : β → Prop}
    (hf : ∀ rows, returns s rows → Yields returns R (f rows)) : Yields returns R (query s >>= f) :=
  ⟨hf, fun _ => trivial⟩

theorem Yields.mono {p : Program St Rows ε α} (h : Yields returns R p) (hR : ∀ a, R a → R' a) :
    Yields returns R' p := by
  induction p with
  | reply a => exact hR a h
  | raise e => trivial
  | await s k r ihk ihr =>
    exact ⟨fun rows hrows => ihk rows (h.1 rows hrows), fun e => ihr e (h.2 e)⟩

/-- What a program yields under the answers of a discipline, it replies in its modes. -/
theorem Meets.and_yields {p : Program St Rows ε α} (h : Meets D p Q E m)
    (hreturns : ∀ s rows, D.returns s rows → returns s rows) (hp : Yields returns R p) :
    Meets D p (fun a m => R a ∧ Q a m) E m := by
  induction p generalizing m with
  | reply a => exact ⟨hp, h⟩
  | raise e => exact h
  | await s k r ihk ihr =>
    obtain ⟨hmay, hrows, herr⟩ := h
    refine ⟨hmay, fun rows hr => ?_, fun e => ihr e (herr e) (hp.2 e)⟩
    exact ihk rows (hrows rows hr) (hp.1 rows (hreturns s rows hr))

end Yields

section Only

variable {A B : St → Prop}

def Only (A : St → Prop) : Program St Rows ε α → Prop
  | .reply _ => True
  | .raise _ => True
  | .await s k r => A s ∧ (∀ rows, (k rows).Only A) ∧ ∀ e, (r e).Only A

theorem only_pure (a : α) : Only A (pure a : Program St Rows ε α) := trivial

theorem only_throw (e : ε) : Only A (throw e : Program St Rows ε α) := trivial

theorem only_query {s : St} (h : A s) : Only A (query s : Program St Rows ε (Rows s)) :=
  ⟨h, fun _ => trivial, fun _ => trivial⟩

theorem only_bind {p : Program St Rows ε α} {f : α → Program St Rows ε β} (hp : Only A p)
    (hf : ∀ a, Only A (f a)) : Only A (p >>= f) := by
  induction p with
  | reply a => exact hf a
  | raise e => exact trivial
  | await s k r ihk ihr => exact ⟨hp.1, fun rows => ihk rows (hp.2.1 rows), fun e => ihr e (hp.2.2 e)⟩

theorem only_ite {c : Prop} [Decidable c] {p q : Program St Rows ε α} (hp : c → Only A p)
    (hq : ¬c → Only A q) : Only A (if c then p else q) := by
  split
  · exact hp ‹_›
  · exact hq ‹_›

theorem only_tryCatch {p : Program St Rows ε α} {h : ε → Program St Rows ε α} (hp : Only A p)
    (hh : ∀ e, Only A (h e)) : Only A (tryCatch p h) := by
  induction p with
  | reply a => exact trivial
  | raise e => exact hh e
  | await s k r ihk ihr => exact ⟨hp.1, fun rows => ihk rows (hp.2.1 rows), fun e => ihr e (hp.2.2 e)⟩

theorem only_forM {δ : Type} {xs : List δ} {f : δ → Program St Rows ε PUnit}
    (hf : ∀ x ∈ xs, Only A (f x)) : Only A (xs.forM f) := by
  induction xs with
  | nil => exact trivial
  | cons x xs ih =>
    exact only_bind (hf x (by simp)) fun _ => ih fun y hy => hf y (List.mem_cons_of_mem x hy)

theorem Only.mono {p : Program St Rows ε α} (h : Only A p) (hAB : ∀ s, A s → B s) : Only B p := by
  induction p with
  | reply a => exact trivial
  | raise e => exact trivial
  | await s k r ihk ihr =>
    exact ⟨hAB s h.1, fun rows => ihk rows (h.2.1 rows), fun e => ihr e (h.2.2 e)⟩

/-- What the statements of a program keep of its mode holds of it at the end. -/
theorem Only.meets_of_stable {P : μ → Prop} {p : Program St Rows ε α} (h : Only A p)
    (hA : ∀ m s, P m → A s → D.may m s ∧ (∀ rows, P (D.returned m s rows)) ∧
      ∀ e, P (D.rejected m s e)) (hm : P m) : Meets D p (fun _ => P) (fun _ => P) m := by
  induction p generalizing m with
  | reply a => exact hm
  | raise e => exact hm
  | await s k r ihk ihr =>
    obtain ⟨hmay, hrows, herr⟩ := hA m s hm h.1
    exact ⟨hmay, fun rows _ => ihk rows (h.2.1 rows) (hrows rows),
      fun e => ihr e (h.2.2 e) (herr e)⟩

/-- Statements that leave the mode alone leave it alone to the end. -/
theorem Only.meets {p : Program St Rows ε α} (h : Only A p)
    (hA : ∀ s, A s → D.may m s ∧ (∀ rows, D.returned m s rows = m) ∧ ∀ e, D.rejected m s e = m)
    (hQ : ∀ a, Q a m) (hE : ∀ e, E e m) : Meets D p Q E m := by
  have hsame : Meets D p (fun _ m' => m' = m) (fun _ m' => m' = m) m := by
    apply h.meets_of_stable (P := (· = m)) _ rfl
    rintro m' s rfl hs
    exact hA s hs
  apply hsame.mono
  · rintro a m' rfl
    exact hQ a
  · rintro e m' rfl
    exact hE e

end Only

end Program

end Hill90
