import Mathlib
import Hill90.Knowledge.Store

/-! # The context an agent is given

`context.py`: the newest context entry, then recent journals, plans and decisions, for as long as the
configured budget of tokens lasts.
-/

namespace Hill90.Knowledge.Context

inductive EntryType where
  | plan
  | decision
  | journal
  | research
  | context
  | note
  | notebook
  deriving DecidableEq

structure EntryRow where
  id : String
  agentId : String
  path : String
  title : String
  entryType : EntryType
  status : Status := .active
  updatedAt : ℕ
  body : String
  deriving DecidableEq

structure Section where
  type : EntryType
  entryId : String
  path : String
  title : String
  content : String
  tokens : ℕ
  deriving DecidableEq

structure Reply where
  sections : List Section
  tokenCount : ℕ
  tokenBudget : ℕ
  deriving DecidableEq

def charsPerToken : ℕ := 4

/-- `SECTION_BUDGETS`, for the types it has. -/
def sectionBudget : EntryType → Option ℕ
  | .context => some 500
  | .journal => some 500
  | .plan => some 500
  | .decision => some 500
  | _ => none

def estimateTokens (text : String) : ℕ := text.length / charsPerToken

def sliceTo (text : String) (n : ℤ) : String :=
  String.ofList (text.toList.take (if 0 ≤ n then n else text.length + n).toNat)

def truncateToTokens (text : String) (maxTokens : ℤ) : String :=
  let maxChars := maxTokens * charsPerToken
  if (text.length : ℤ) ≤ maxChars then text else sliceTo text maxChars ++ "..."

/-- The active entries of a type, the newest first; entries of one moment come as the table has
them. -/
def select (table : List EntryRow) (agent : String) (type : EntryType) (since limit : ℕ) :
    List EntryRow :=
  ((table.filter fun e => e.agentId = agent ∧ e.entryType = type ∧ e.status = .active ∧
      since ≤ e.updatedAt).insertionSort fun a b => b.updatedAt ≤ a.updatedAt).take limit

/-- The sections so far, and `total_tokens`. -/
structure Assembly where
  sections : List Section
  totalTokens : ℕ

def Assembly.append (a : Assembly) (type : EntryType) (row : EntryRow) (text : String) : Assembly :=
  ⟨a.sections ++ [⟨type, row.id, row.path, row.title, text, estimateTokens text⟩],
    a.totalTokens + estimateTokens text⟩

section Assemble

variable (budget : ℕ)

/-- The loop over the rows of one type, with what is left of its budget. -/
def appendRows (type : EntryType) (remaining : ℤ) (a : Assembly) : List EntryRow → Assembly
  | [] => a
  | row :: rows =>
    if remaining ≤ 0 ∨ budget ≤ a.totalTokens then a
    else
      let text := truncateToTokens row.body remaining
      appendRows type (remaining - estimateTokens text) (a.append type row text) rows

/-- A type's loop, from `min(SECTION_BUDGETS[type], budget - total_tokens)` on. -/
def appendType (type : EntryType) (rows : List EntryRow) (a : Assembly) : Assembly :=
  appendRows budget type (min ((sectionBudget type).getD 0) ((budget : ℤ) - a.totalTokens)) a rows

variable (table : List EntryRow) (agent : String)

def contextRow : Option EntryRow := (select table agent .context 0 1).head?

def appendContext : Option EntryRow → Assembly
  | none => ⟨[], 0⟩
  | some row =>
    Assembly.append ⟨[], 0⟩ .context row
      (truncateToTokens row.body ((sectionBudget .context).getD 0))

def daysAgo (now n : ℕ) : ℕ := now - n * 86400

def appendJournals (now : ℕ) : Assembly → Assembly :=
  appendType budget .journal (select table agent .journal (daysAgo now 3) 5)

def appendPlans (a : Assembly) : Assembly :=
  if a.totalTokens < budget then appendType budget .plan (select table agent .plan 0 5) a else a

def appendDecisions (now : ℕ) (a : Assembly) : Assembly :=
  if a.totalTokens < budget then
    appendType budget .decision (select table agent .decision (daysAgo now 7) 5) a
  else a

/-- `agentClaims` is the subject of the token, where the request has one. -/
def getContext (agentClaims : Option String) (now : ℕ) : Except (ℕ × String) Reply :=
  match agentClaims with
  | none => .error (401, "authentication required")
  | some agent =>
    let a := appendContext (contextRow table agent)
    let a := appendJournals budget table agent now a
    let a := appendPlans budget table agent a
    let a := appendDecisions budget table agent now a
    .ok ⟨a.sections, a.totalTokens, budget⟩

end Assemble

def tokensOf (type : EntryType) (sections : List Section) : ℕ :=
  ((sections.filter fun s => s.type = type).map Section.tokens).sum

structure Reply.Respectful (c : Reply) : Prop where
  counted : c.tokenCount = (c.sections.map Section.tokens).sum
  within : c.tokenCount ≤ c.tokenBudget
  capped : ∀ s ∈ c.sections, ∃ cap, sectionBudget s.type = some cap ∧
    tokensOf s.type c.sections ≤ cap
  estimated : ∀ s ∈ c.sections, s.tokens = estimateTokens s.content

section Tokens

variable {text : String}

/-- The marker has fewer characters than a token, so a cut text has just the tokens it was cut to. -/
theorem estimateTokens_truncateToTokens {n : ℕ} :
    estimateTokens (truncateToTokens text n) = min n (estimateTokens text) := by
  have hpos : (0 : ℤ) ≤ (n : ℤ) * charsPerToken := by unfold charsPerToken; omega
  unfold truncateToTokens
  by_cases h : (text.length : ℤ) ≤ (n : ℤ) * charsPerToken
  · rw [if_pos h]
    unfold estimateTokens
    unfold charsPerToken at h ⊢
    omega
  · rw [if_neg h]
    unfold estimateTokens sliceTo
    have htoNat : ((n : ℤ) * charsPerToken).toNat = n * 4 := by unfold charsPerToken; omega
    have hlt : n * 4 < text.length := by unfold charsPerToken at h; omega
    rw [if_pos hpos, htoNat, String.length_append, String.length_ofList, List.length_take,
      String.length_toList, min_eq_left hlt.le]
    change (n * 4 + 3) / 4 = min n (text.length / 4)
    omega

end Tokens

section Totals

/-- The total is that of the sections, every section has the estimate of its content and a type with
a cap, and each type has kept to its cap. -/
structure Assembly.Sound (a : Assembly) : Prop where
  counted : a.totalTokens = (a.sections.map Section.tokens).sum
  typed : ∀ s ∈ a.sections, ∃ cap, sectionBudget s.type = some cap
  estimated : ∀ s ∈ a.sections, s.tokens = estimateTokens s.content
  capped : ∀ type cap, sectionBudget type = some cap → tokensOf type a.sections ≤ cap

variable {a : Assembly} {type : EntryType} {row : EntryRow} {text : String} {cap budget : ℕ}

theorem tokensOf_append (other : EntryType) :
    tokensOf other (a.append type row text).sections =
      tokensOf other a.sections + if type = other then estimateTokens text else 0 := by
  unfold tokensOf Assembly.append
  rw [List.filter_append, List.map_append, List.sum_append]
  by_cases h : type = other <;> simp [h]

theorem Assembly.Sound.append (h : a.Sound) (htype : sectionBudget type = some cap)
    (hfit : tokensOf type a.sections + estimateTokens text ≤ cap) :
    (a.append type row text).Sound := by
  constructor
  · simp [Assembly.append, h.counted]
  · intro s hs
    rcases List.mem_append.mp hs with hs | hs
    · exact h.typed s hs
    · rw [List.mem_singleton.mp hs]
      exact ⟨cap, htype⟩
  · intro s hs
    rcases List.mem_append.mp hs with hs | hs
    · exact h.estimated s hs
    · rw [List.mem_singleton.mp hs]
  · intro other cap' hother
    have hold := h.capped other cap' hother
    rw [tokensOf_append]
    split
    · rename_i heq
      subst heq
      rw [htype] at hother
      cases hother
      exact hfit
    · omega

/-- One type's loop: it keeps to what is left of the type's cap and of the budget. -/
theorem appendRows_sound (htype : sectionBudget type = some cap) {remaining : ℤ} (h : a.Sound)
    (hcap : tokensOf type a.sections + remaining ≤ cap) (hbudget : a.totalTokens + remaining ≤ budget)
    (rows : List EntryRow) : (appendRows budget type remaining a rows).Sound ∧
      ((appendRows budget type remaining a rows).totalTokens ≤ max a.totalTokens budget) := by
  induction rows generalizing remaining a with
  | nil => exact ⟨h, le_max_left _ _⟩
  | cons row rows ih =>
    unfold appendRows
    split
    · exact ⟨h, le_max_left _ _⟩
    rename_i hopen
    -- what is left is positive, so the row takes no more than it
    obtain ⟨n, rfl⟩ : ∃ n : ℕ, remaining = n := ⟨remaining.toNat, by omega⟩
    have htokens : estimateTokens (truncateToTokens row.body n) ≤ n := by
      rw [estimateTokens_truncateToTokens]
      omega
    have hfit : tokensOf type a.sections + estimateTokens (truncateToTokens row.body n) ≤ cap := by
      omega
    have htotal : (a.append type row (truncateToTokens row.body n)).totalTokens =
        a.totalTokens + estimateTokens (truncateToTokens row.body n) := rfl
    have hof := @tokensOf_append a type row (truncateToTokens row.body n) type
    rw [if_pos rfl] at hof
    have hnext : (a.append type row (truncateToTokens row.body n)).Sound := h.append htype hfit
    have hstep := @ih _ ((n : ℤ) - estimateTokens (truncateToTokens row.body n)) hnext (by omega)
      (by omega)
    refine ⟨hstep.1, ?_⟩
    have hle := hstep.2
    change (appendRows budget type _ (a.append type row _) rows).totalTokens ≤ _
    omega

theorem appendType_sound (htype : sectionBudget type = some cap) (h : a.Sound)
    (hnew : tokensOf type a.sections = 0) (rows : List EntryRow) :
    (appendType budget type rows a).Sound ∧
      (appendType budget type rows a).totalTokens ≤ max a.totalTokens budget := by
  unfold appendType
  rw [htype, Option.getD_some]
  exact appendRows_sound htype h (by omega) (by omega) rows

/-- A type's loop adds nothing of another type. -/
theorem tokensOf_appendRows {other : EntryType} (hne : type ≠ other) {remaining : ℤ}
    (rows : List EntryRow) :
    tokensOf other (appendRows budget type remaining a rows).sections = tokensOf other a.sections := by
  induction rows generalizing remaining a with
  | nil => rfl
  | cons row rows ih =>
    unfold appendRows
    split
    · rfl
    · change tokensOf other (appendRows budget type _ (a.append type row _) rows).sections = _
      rw [ih, tokensOf_append, if_neg hne, Nat.add_zero]

theorem le_totalTokens_appendRows {remaining : ℤ} (rows : List EntryRow) :
    a.totalTokens ≤ (appendRows budget type remaining a rows).totalTokens := by
  induction rows generalizing remaining a with
  | nil => exact le_rfl
  | cons row rows ih =>
    unfold appendRows
    split
    · exact le_rfl
    · change _ ≤ (appendRows budget type _ (a.append type row _) rows).totalTokens
      refine le_trans ?_ ih
      exact Nat.le_add_right _ _

end Totals

section Route

variable {budget : ℕ} {table : List EntryRow} {agent : String} {now : ℕ}

theorem appendContext_totalTokens (row : EntryRow) :
    (appendContext (some row)).totalTokens = min 500 (estimateTokens row.body) := by
  change 0 + estimateTokens (truncateToTokens row.body (500 : ℕ)) = _
  rw [estimateTokens_truncateToTokens, Nat.zero_add]

theorem appendContext_sound (row : Option EntryRow) : (appendContext row).Sound := by
  have hempty : (⟨[], 0⟩ : Assembly).Sound :=
    ⟨rfl, fun s hs => absurd hs List.not_mem_nil, fun s hs => absurd hs List.not_mem_nil,
      fun _ _ _ => Nat.zero_le _⟩
  cases row with
  | none => exact hempty
  | some row =>
    have hcap : sectionBudget .context = some 500 := rfl
    refine hempty.append hcap ?_
    change 0 + estimateTokens (truncateToTokens row.body (500 : ℕ)) ≤ 500
    rw [estimateTokens_truncateToTokens]
    omega

theorem tokensOf_appendContext {type : EntryType} (hne : EntryType.context ≠ type)
    (row : Option EntryRow) : tokensOf type (appendContext row).sections = 0 := by
  cases row with
  | none => rfl
  | some row =>
    change tokensOf type (Assembly.append _ _ _ _).sections = 0
    rw [tokensOf_append, if_neg hne]
    rfl

theorem assembled_sound (row : Option EntryRow) :
    let a := appendDecisions budget table agent now
      (appendPlans budget table agent
        (appendJournals budget table agent now (appendContext row)))
    a.Sound ∧ a.totalTokens ≤ max (appendContext row).totalTokens budget ∧
      (appendContext row).totalTokens ≤ a.totalTokens := by
  have hctx := appendContext_sound row
  have hjournal := @appendType_sound _ .journal _ budget rfl hctx
    (tokensOf_appendContext (fun h => by cases h) row)
    (select table agent .journal (daysAgo now 3) 5)
  have hmono : (appendContext row).totalTokens ≤
      (appendJournals budget table agent now (appendContext row)).totalTokens :=
    le_totalTokens_appendRows _
  have hof : ∀ type, EntryType.context ≠ type → EntryType.journal ≠ type →
      tokensOf type (appendJournals budget table agent now (appendContext row)).sections = 0 := by
    intro type hc hj
    exact (tokensOf_appendRows hj _).trans (tokensOf_appendContext hc row)
  change (appendJournals budget table agent now (appendContext row)).Sound ∧
    (appendJournals budget table agent now (appendContext row)).totalTokens ≤ _ at hjournal
  generalize appendJournals budget table agent now (appendContext row) = a at hjournal hmono hof
  obtain ⟨hsound, hle⟩ := hjournal
  have hplan : (appendPlans budget table agent a).Sound ∧
      (appendPlans budget table agent a).totalTokens ≤ max a.totalTokens budget ∧
      a.totalTokens ≤ (appendPlans budget table agent a).totalTokens ∧
      tokensOf .decision (appendPlans budget table agent a).sections = 0 := by
    have hnew := hof .decision (fun h => by cases h) (fun h => by cases h)
    unfold appendPlans
    split
    · have h := @appendType_sound _ .plan _ budget rfl hsound
        (hof .plan (fun h => by cases h) (fun h => by cases h)) (select table agent .plan 0 5)
      exact ⟨h.1, h.2, le_totalTokens_appendRows _,
        (tokensOf_appendRows (fun h => by cases h) _).trans hnew⟩
    · exact ⟨hsound, le_max_left _ _, le_rfl, hnew⟩
  generalize appendPlans budget table agent a = b at hplan
  obtain ⟨hsound', hle', hmono', hnew⟩ := hplan
  have hdecision : (appendDecisions budget table agent now b).Sound ∧
      (appendDecisions budget table agent now b).totalTokens ≤ max b.totalTokens budget ∧
      b.totalTokens ≤ (appendDecisions budget table agent now b).totalTokens := by
    unfold appendDecisions
    split
    · have h := @appendType_sound _ .decision _ budget rfl hsound' hnew
        (select table agent .decision (daysAgo now 7) 5)
      exact ⟨h.1, h.2, le_totalTokens_appendRows _⟩
    · exact ⟨hsound', le_max_left _ _, le_rfl⟩
  refine ⟨hdecision.1, ?_, ?_⟩ <;> omega

theorem Reply.Respectful.contextRow_le {c : Reply} {row : EntryRow} (hrespect : c.Respectful)
    (hc : getContext budget table (some agent) now = .ok c)
    (hrow : contextRow table agent = some row) : min 500 (estimateTokens row.body) ≤ budget := by
  have hge := (@assembled_sound budget table agent now (contextRow table agent)).2.2
  have hwithin := hrespect.within
  cases hc
  rw [hrow] at hwithin hge
  rw [← appendContext_totalTokens]
  exact hge.trans hwithin

/-- The reply respects its budget just if the newest context entry alone does. -/
theorem getContext_respectful_iff (budget : ℕ) (table : List EntryRow) (agent : String) (now : ℕ) :
    (∃ c, getContext budget table (some agent) now = .ok c ∧ c.Respectful) ↔
      ∀ row, contextRow table agent = some row → min 500 (estimateTokens row.body) ≤ budget := by
  constructor
  · rintro ⟨c, hc, hrespect⟩ row hrow
    exact hrespect.contextRow_le hc hrow
  · intro hfit
    obtain ⟨hsound, hle, -⟩ := @assembled_sound budget table agent now (contextRow table agent)
    refine ⟨_, rfl, hsound.counted, ?_, ?_, hsound.estimated⟩
    · refine hle.trans (max_le ?_ le_rfl)
      cases hrow : contextRow table agent with
      | none => exact Nat.zero_le _
      | some row =>
        rw [appendContext_totalTokens]
        exact hfit row hrow
    · intro s hs
      obtain ⟨cap, hcap⟩ := hsound.typed s hs
      exact ⟨cap, hcap, hsound.capped _ _ hcap⟩

theorem not_respectful_of_length {body : String} (h : body.length = 2000) :
    ¬ ∃ c, getContext 100
      [⟨"e", "agent", "context.md", "Context", .context, .active, 0, body⟩] (some "agent") 0 =
        .ok c ∧ c.Respectful := by
  rintro ⟨c, hc, hrespect⟩
  have hfit := @Reply.Respectful.contextRow_le _ _ _ _ _
    ⟨"e", "agent", "context.md", "Context", .context, .active, 0, body⟩ hrespect hc rfl
  have htokens : estimateTokens body = 500 := by
    unfold estimateTokens charsPerToken
    omega
  rw [htokens] at hfit
  exact absurd hfit (by decide)

/-- A context entry of 2000 characters, where 100 tokens are configured. -/
theorem getContext_over_budget :
    ¬ ∃ c, getContext 100
      [⟨"e", "agent", "context.md", "Context", .context, .active, 0,
        String.ofList (List.replicate 2000 'a')⟩] (some "agent") 0 = .ok c ∧ c.Respectful := by
  apply not_respectful_of_length
  rw [String.length_ofList, List.length_replicate]

end Route

end Hill90.Knowledge.Context
