import Hill90.Foundation.Program

/-! # Programs where there are more statements

A program over some statements is a program over more of them, and meets there what it met
before.
-/

namespace Hill90

variable {St St' : Type} {Rows : St → Type} {Rows' : St' → Type} {ε α μ : Type}

/-- Each statement under its own discipline, over the same modes. -/
def Discipline.sum (D : Discipline St Rows ε μ) (D' : Discipline St' Rows' ε μ) :
    Discipline (St ⊕ St') (Sum.elim Rows Rows') ε μ where
  may
    | m, .inl s => D.may m s
    | m, .inr s => D'.may m s
  returns
    | .inl s, rows => D.returns s rows
    | .inr s, rows => D'.returns s rows
  returned
    | m, .inl s, rows => D.returned m s rows
    | m, .inr s, rows => D'.returned m s rows
  rejected
    | m, .inl s, e => D.rejected m s e
    | m, .inr s, e => D'.rejected m s e

namespace Program

def widen : Program St Rows ε α → Program (St ⊕ St') (Sum.elim Rows Rows') ε α
  | .reply a => .reply a
  | .raise e => .raise e
  | .await s k r => .await (.inl s) (fun rows => (k rows).widen) fun e => (r e).widen

theorem meets_widen {D : Discipline St Rows ε μ} {D' : Discipline St' Rows' ε μ}
    {Q : α → μ → Prop} {E : ε → μ → Prop} {m : μ} {p : Program St Rows ε α}
    (h : p.Meets D Q E m) :
    (p.widen : Program (St ⊕ St') (Sum.elim Rows Rows') ε α).Meets (D.sum D') Q E m := by
  induction p generalizing m with
  | reply a => exact h
  | raise e => exact h
  | await s k r ihk ihr =>
    obtain ⟨hmay, hrows, herr⟩ := h
    exact ⟨hmay, fun rows hr => ihk rows (hrows rows hr), fun e => ihr e (herr e)⟩

end Program

end Hill90
