import Mathlib.Data.List.Basic
import Hill90.Foundation.Program

/-! # Programs run on their own

A program plays against a store with one outcome for each of its statements: the answer,
a failure before the statement took effect, or a failure after it did.  What holds after
every play is a weakest precondition over the store and the trace of statements.
-/

namespace Hill90

variable {St : Type} {Rows : St → Type} {ε α β σ κ τ : Type}

inductive Outcome (κ ε : Type) where
  | answered (c : κ)
  | failed (e : ε)
  | lost (c : κ) (e : ε)
  deriving DecidableEq, Repr

/-- The outcomes a play may use: choices of `may`, and failures only where there are any. -/
def Outcome.Allowed (may : κ → Prop) (fails : Prop) : Outcome κ ε → Prop
  | .answered c => may c
  | .failed _ => fails
  | .lost c _ => may c ∧ fails

inductive Event (St : Type) (Rows : St → Type) where
  | answered (s : St) (rows : Rows s)
  | failed (s : St)
  | lost (s : St)

def Event.statement : Event St Rows → St
  | .answered s _ | .failed s | .lost s => s

structure Log (St : Type) (Rows : St → Type) (σ : Type) where
  trace : List (Event St Rows)
  store : σ

namespace Log

variable (run : σ → κ → (s : St) → Except ε (Rows s × σ)) (may : κ → Prop)
  (fails : Prop)

def add (t : Log St Rows σ) (e : Event St Rows) (store : σ) : Log St Rows σ :=
  ⟨t.trace ++ [e], store⟩

/-- A statement is handed over and comes back with rows, or with none. -/
inductive Step (t : Log St Rows σ) : (s : St) → Option (Rows s) → Log St Rows σ → Prop where
  | answered {s : St} {c : κ} {rows : Rows s} {store : σ} (hmay : may c)
      (heff : run t.store c s = .ok (rows, store)) :
    Step t s (some rows) (t.add (.answered s rows) store)
  | refused {s : St} {c : κ} {e : ε} (hmay : may c) (heff : run t.store c s = .error e) :
    Step t s none (t.add (.failed s) t.store)
  | failed {s : St} (hfails : fails) : Step t s none (t.add (.failed s) t.store)
  | lost {s : St} {c : κ} {rows : Rows s} {store : σ} (hmay : may c) (hfails : fails)
      (heff : run t.store c s = .ok (rows, store)) : Step t s none (t.add (.lost s) store)

variable {run may fails} {t t' : Log St Rows σ} {s : St} {answer : Option (Rows s)}

/-- A step adds one event, and its statement is the one handed over. -/
theorem event_of_step (h : Step run may fails t s answer t') :
    ∃ e, t'.trace = t.trace ++ [e] ∧ e.statement = s ∧
      (answer = none → e = .failed s ∨ e = .lost s) := by
  cases h with
  | answered _ _ => exact ⟨_, rfl, rfl, fun h => by cases h⟩
  | refused _ _ => exact ⟨_, rfl, rfl, fun _ => .inl rfl⟩
  | failed _ => exact ⟨_, rfl, rfl, fun _ => .inl rfl⟩
  | lost _ _ _ => exact ⟨_, rfl, rfl, fun _ => .inr rfl⟩

theorem handed_of_step (h : Step run may fails t s answer t') :
    s ∈ t'.trace.map Event.statement := by
  obtain ⟨e, htrace, hstatement, _⟩ := event_of_step h
  rw [htrace]
  simp [hstatement]

theorem handed_steady {s' : St} (h : Step run may fails t s answer t')
    (hs : s' ∈ t.trace.map Event.statement) : s' ∈ t'.trace.map Event.statement := by
  obtain ⟨e, htrace, _, _⟩ := event_of_step h
  rw [htrace, List.map_append]
  exact List.mem_append_left _ hs

end Log

namespace Program

/-- Whatever the steps of `R` answer, the program replies in a state related to its
answer by `Q`, or raises in one related to the error by `E`. -/
def Always (R : τ → (s : St) → Option (Rows s) → τ → Prop) :
    Program St Rows ε α → (α → τ → Prop) → (ε → τ → Prop) → τ → Prop
  | .reply a, Q, _, t => Q a t
  | .raise e, _, E, t => E e t
  | .await s k r, Q, E, t =>
    (∀ rows t', R t s (some rows) t' → (k rows).Always R Q E t') ∧
      ∀ e t', R t s none t' → (r e).Always R Q E t'

section Always

variable {R : τ → (s : St) → Option (Rows s) → τ → Prop} {Q Q' : α → τ → Prop}
  {E E' : ε → τ → Prop} {t : τ}

@[simp] theorem always_pure (a : α) :
    Always R (pure a : Program St Rows ε α) Q E t ↔ Q a t := Iff.rfl

@[simp] theorem always_throw (e : ε) :
    Always R (throw e : Program St Rows ε α) Q E t ↔ E e t := Iff.rfl

@[simp] theorem always_bind (p : Program St Rows ε α) (f : α → Program St Rows ε β)
    {Q : β → τ → Prop} :
    Always R (p >>= f) Q E t ↔ Always R p (fun a => Always R (f a) Q E) E t := by
  induction p generalizing t with
  | reply a => exact Iff.rfl
  | raise e => exact Iff.rfl
  | await s k r ihk ihr =>
    constructor
    · rintro ⟨hrows, herr⟩
      exact ⟨fun rows t' h => (ihk rows).mp (hrows rows t' h),
        fun e t' h => (ihr e).mp (herr e t' h)⟩
    · rintro ⟨hrows, herr⟩
      exact ⟨fun rows t' h => (ihk rows).mpr (hrows rows t' h),
        fun e t' h => (ihr e).mpr (herr e t' h)⟩

@[simp] theorem always_tryCatch (p : Program St Rows ε α) (h : ε → Program St Rows ε α) :
    Always R (tryCatch p h) Q E t ↔ Always R p Q (fun e => Always R (h e) Q E) t := by
  change Always R (p.tryCatch h) Q E t ↔ _
  induction p generalizing t with
  | reply a => exact Iff.rfl
  | raise e => exact Iff.rfl
  | await s k r ihk ihr =>
    constructor
    · rintro ⟨hrows, herr⟩
      exact ⟨fun rows t' h => (ihk rows).mp (hrows rows t' h),
        fun e t' h => (ihr e).mp (herr e t' h)⟩
    · rintro ⟨hrows, herr⟩
      exact ⟨fun rows t' h => (ihk rows).mpr (hrows rows t' h),
        fun e t' h => (ihr e).mpr (herr e t' h)⟩

theorem always_query (s : St) {Q : Rows s → τ → Prop}
    (hrows : ∀ rows t', R t s (some rows) t' → Q rows t')
    (herr : ∀ e t', R t s none t' → E e t') :
    Always R (query s : Program St Rows ε (Rows s)) Q E t := ⟨hrows, herr⟩

theorem Always.mono {p : Program St Rows ε α} (h : Always R p Q E t)
    (hQ : ∀ a t, Q a t → Q' a t) (hE : ∀ e t, E e t → E' e t) : Always R p Q' E' t := by
  induction p generalizing t with
  | reply a => exact hQ a t h
  | raise e => exact hE e t h
  | await s k r ihk ihr =>
    exact ⟨fun rows t' ht => ihk rows (h.1 rows t' ht), fun e t' ht => ihr e (h.2 e t' ht)⟩

/-- The first program, then the second from any state the first may reply in. -/
theorem always_then {p : Program St Rows ε α} {f : α → Program St Rows ε β} {Q : β → τ → Prop}
    (P : α → τ → Prop) (hp : Always R p P E t) (hf : ∀ a t, P a t → Always R (f a) Q E t) :
    Always R (p >>= f) Q E t :=
  (always_bind p f).mpr (hp.mono hf fun _ _ he => he)

theorem always_forM {δ : Type} {xs : List δ} {f : δ → Program St Rows ε PUnit}
    {I : List δ → τ → Prop} (hI : I [] t)
    (hbody : ∀ done x rest, xs = done ++ x :: rest → ∀ t, I done t →
      Always R (f x) (fun _ => I (done ++ [x])) E t) :
    Always R (xs.forM f) (fun _ => I xs) E t := by
  have hgo : ∀ rest done t, xs = done ++ rest → I done t →
      Always R (rest.forM f) (fun _ => I xs) E t := by
    intro rest
    induction rest with
    | nil =>
      intro done t hsplit hdone
      rw [List.append_nil] at hsplit
      subst hsplit
      exact hdone
    | cons x rest ih =>
      intro done t hsplit hdone
      change Always R (f x >>= fun _ => rest.forM f) (fun _ => I xs) E t
      refine always_then (fun _ => I (done ++ [x])) (hbody done x rest hsplit t hdone) ?_
      intro _ t' ht'
      exact ih (done ++ [x]) t' (by simp [hsplit]) ht'
  exact hgo xs [] t rfl hI

variable (R) in
def Keeps (P : τ → Prop) (p : Program St Rows ε α) : Prop :=
  ∀ t, P t → p.Always R (fun _ => P) (fun _ => P) t

theorem keeps_pure {P : τ → Prop} (a : α) : Keeps R P (pure a : Program St Rows ε α) :=
  fun _ h => h

theorem keeps_throw {P : τ → Prop} (e : ε) : Keeps R P (throw e : Program St Rows ε α) :=
  fun _ h => h

theorem keeps_query {P : τ → Prop} {s : St}
    (h : ∀ t answer t', P t → R t s answer t' → P t') :
    Keeps R P (query s : Program St Rows ε (Rows s)) :=
  fun t ht => ⟨fun _ t' => h t _ t' ht, fun _ t' => h t _ t' ht⟩

theorem keeps_bind {P : τ → Prop} {p : Program St Rows ε α} {f : α → Program St Rows ε β}
    (hp : Keeps R P p) (hf : ∀ a, Keeps R P (f a)) : Keeps R P (p >>= f) :=
  fun t ht => always_then (fun _ => P) (hp t ht) fun a t' => hf a t'

theorem keeps_tryCatch {P : τ → Prop} {p : Program St Rows ε α} {h : ε → Program St Rows ε α}
    (hp : Keeps R P p) (hh : ∀ e, Keeps R P (h e)) : Keeps R P (tryCatch p h) :=
  fun t ht => (always_tryCatch p h).mpr ((hp t ht).mono (fun _ _ hq => hq) fun e t' => hh e t')

theorem keeps_ite {P : τ → Prop} {c : Prop} [Decidable c] {p q : Program St Rows ε α}
    (hp : c → Keeps R P p) (hq : ¬c → Keeps R P q) : Keeps R P (if c then p else q) := by
  split
  · exact hp ‹_›
  · exact hq ‹_›

theorem keeps_forM {P : τ → Prop} {δ : Type} {xs : List δ} {f : δ → Program St Rows ε PUnit}
    (hf : ∀ x ∈ xs, Keeps R P (f x)) : Keeps R P (xs.forM f) :=
  fun t ht => always_forM (I := fun _ => P) ht fun _ x _ hsplit t' ht' =>
    hf x (by simp [hsplit]) t' ht'

/-- What each statement of a program keeps, the program keeps. -/
theorem Only.keeps {A : St → Prop} {P : τ → Prop} {p : Program St Rows ε α} (h : Only A p)
    (hA : ∀ t s answer t', P t → A s → R t s answer t' → P t') : Keeps R P p := by
  induction p with
  | reply a => exact fun _ ht => ht
  | raise e => exact fun _ ht => ht
  | await s k r ihk ihr =>
    intro t ht
    constructor
    · exact fun rows t' hstep => ihk rows (h.2.1 rows) t' (hA t s _ t' ht h.1 hstep)
    · exact fun e t' hstep => ihr e (h.2.2 e) t' (hA t s _ t' ht h.1 hstep)

theorem keeps_of_steady {P : τ → Prop} (hP : ∀ t s answer t', P t → R t s answer t' → P t')
    (p : Program St Rows ε α) : Keeps R P p := by
  induction p with
  | reply a => exact fun _ ht => ht
  | raise e => exact fun _ ht => ht
  | await s k r ihk ihr =>
    intro t ht
    constructor
    · exact fun rows t' hstep => ihk rows t' (hP t s _ t' ht hstep)
    · exact fun e t' hstep => ihr e t' (hP t s _ t' ht hstep)

theorem always_ite {c : Prop} [Decidable c] {p q : Program St Rows ε α}
    (hp : c → Always R p Q E t) (hq : ¬c → Always R q Q E t) :
    Always R (if c then p else q) Q E t := by
  split
  · exact hp ‹_›
  · exact hq ‹_›

theorem Always.and {p : Program St Rows ε α} (h : Always R p Q E t) (h' : Always R p Q' E' t) :
    Always R p (fun a t => Q a t ∧ Q' a t) (fun e t => E e t ∧ E' e t) t := by
  induction p generalizing t with
  | reply a => exact ⟨h, h'⟩
  | raise e => exact ⟨h, h'⟩
  | await s k r ihk ihr =>
    exact ⟨fun rows t' ht => ihk rows (h.1 rows t' ht) (h'.1 rows t' ht),
      fun e t' ht => ihr e (h.2 e t' ht) (h'.2 e t' ht)⟩

end Always

variable (run : σ → κ → (s : St) → Except ε (Rows s × σ)) (rest : κ)

/-- The play of a program against a pattern of outcomes; statements beyond the pattern
are answered, under the choice `rest`. -/
def play : Program St Rows ε α → Log St Rows σ → List (Outcome κ ε) →
    Log St Rows σ × Except ε α
  | .reply a, t, _ => (t, .ok a)
  | .raise e, t, _ => (t, .error e)
  | .await s k r, t, pattern =>
    match pattern.headD (.answered rest) with
    | .answered c =>
      match run t.store c s with
      | .ok (rows, store) => (k rows).play (t.add (.answered s rows) store) pattern.tail
      | .error e => (r e).play (t.add (.failed s) t.store) pattern.tail
    | .failed e => (r e).play (t.add (.failed s) t.store) pattern.tail
    | .lost c e =>
      match run t.store c s with
      | .ok (_, store) => (r e).play (t.add (.lost s) store) pattern.tail
      | .error e => (r e).play (t.add (.failed s) t.store) pattern.tail

def Ended (Q : α → τ → Prop) (E : ε → τ → Prop) : τ × Except ε α → Prop
  | (t, .ok a) => Q a t
  | (t, .error e) => E e t

/-- What always holds after a program holds after its play against any allowed pattern. -/
theorem Always.play {may : κ → Prop} {fails : Prop} {p : Program St Rows ε α}
    {t : Log St Rows σ} {Q : α → Log St Rows σ → Prop} {E : ε → Log St Rows σ → Prop}
    (h : Always (Log.Step run may fails) p Q E t) (hrest : may rest)
    (pattern : List (Outcome κ ε)) (hpattern : ∀ o ∈ pattern, o.Allowed may fails) :
    Ended Q E (p.play run rest t pattern) := by
  induction p generalizing t pattern with
  | reply a => exact h
  | raise e => exact h
  | await s k r ihk ihr =>
    obtain ⟨hrows, herr⟩ := h
    have htail : ∀ o ∈ pattern.tail, o.Allowed may fails :=
      fun o ho => hpattern o (List.mem_of_mem_tail ho)
    have hhead : (pattern.headD (.answered rest)).Allowed may fails := by
      cases pattern with
      | nil => exact hrest
      | cons o pattern => exact hpattern o (by simp)
    rw [Program.play]
    cases hout : pattern.headD (.answered rest) with
    | answered c =>
      rw [hout] at hhead
      dsimp only
      split
      · exact ihk _ (hrows _ _ (.answered hhead ‹_›)) _ htail
      · exact ihr _ (herr _ _ (.refused hhead ‹_›)) _ htail
    | failed e =>
      rw [hout] at hhead
      exact ihr e (herr e _ (.failed hhead)) _ htail
    | lost c e =>
      rw [hout] at hhead
      obtain ⟨hc, hfails⟩ := hhead
      dsimp only
      split
      · exact ihr e (herr e _ (.lost hc hfails ‹_›)) _ htail
      · exact ihr _ (herr _ _ (.refused hc ‹_›)) _ htail

end Program

end Hill90
