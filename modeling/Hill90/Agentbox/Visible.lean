import Hill90.Foundation.Blank

/-! # Commands typed into the visible terminal

`_run_visible_command` types a command with an echo of its exit status behind it, polls the pane
until something like a prompt stands at its end, and reads the status out of what it shows.
-/

namespace Hill90.Agentbox.Visible

open Python (isSpace lstrip rstrip strip)

section Source

/-- A line of the pane; `old` says that some of it was printed before the command was typed. -/
structure PaneLine where
  text : List Char
  old : Bool := false
  deriving DecidableEq

abbrev Pane := List PaneLine

def PaneLine.isBlank (l : PaneLine) : Bool := l.text.all isSpace

def lstripLines : Pane → Pane
  | [] => []
  | l :: ls => if l.isBlank then lstripLines ls else ⟨lstrip l.text, l.old⟩ :: ls

def rstripLines : Pane → Pane
  | [] => []
  | l :: ls =>
    match rstripLines ls with
    | [] => if l.isBlank then [] else [⟨rstrip l.text, l.old⟩]
    | rest => l :: rest

def stripLines (pane : Pane) : Pane := rstripLines (lstripLines pane)

def promptChars : List Char := ['$', '#', '%', '❯']

def endsInPrompt (text : List Char) : Bool :=
  match text.getLast? with
  | some c => promptChars.contains c
  | none => false

/-- The line is taken for the prompt behind the output, which it is only if it is indented. -/
def PaneLine.stops (l : PaneLine) : Bool :=
  endsInPrompt (rstrip l.text) && rstrip l.text ≠ strip l.text

/-- The loop over the lines of a pane whose last one is `last`. -/
def outputLines (last : List Char) : Bool → Pane → Pane
  | _, [] => []
  | true, l :: ls => if l.stops then [] else l :: outputLines last true ls
  | false, l :: ls =>
    if last.isSuffixOf (strip l.text) then outputLines last false ls else outputLines last true ls

/-- The lines that are taken from a pane which shows a prompt at its end. -/
def inspect (pane : Pane) : Option Pane :=
  match (rstripLines pane).getLast? with
  | none => none
  | some last =>
    if endsInPrompt (rstrip last.text) then
      some (outputLines (strip last.text) false (rstripLines pane))
    else none

def line (s : String) : PaneLine := { text := s.toList }

/-- `_wait_and_capture`: what the polls have shown, where one may fail, and what a last one shows
when the time is over. -/
def waitAndCapture (polls : List (Option Pane)) (final : Option Pane) : Pane :=
  match polls.findSome? fun poll => poll.bind inspect with
  | some lines =>
    match stripLines lines with
    | [] => [line "Command completed."]
    | output => output
  | none =>
    match final with
    | none => [line "Timed out after 60s."]
    | some pane =>
      match stripLines pane with
      | [] => [line "", line "", line "(Timed out after 60s)"]
      | shown => shown ++ [line "", line "(Timed out after 60s)"]

def exitSentinel : List Char := "__HILL90_EXIT:".toList

/-- What stands behind the first sentinel of a line. -/
def behindSentinel : List Char → Option (List Char)
  | [] => none
  | c :: cs =>
    if exitSentinel.isPrefixOf (c :: cs) then some ((c :: cs).drop exitSentinel.length)
    else behindSentinel cs

def PaneLine.plain (l : PaneLine) : Bool := (behindSentinel l.text).isNone

def firstWord (text : List Char) : List Char := (lstrip text).takeWhile fun c => !isSpace c

/-- The digits of all scripts: `str.isdigit`, and `int` of a word of them, which may refuse it. -/
structure Digits where
  isDigit : Char → Bool
  int : List Char → Option ℕ

variable (py : Digits)

def PaneLine.reading (l : PaneLine) : Option (Option ℕ) :=
  (behindSentinel l.text).bind fun rest =>
    if firstWord rest ≠ [] ∧ (firstWord rest).all py.isDigit = true then some (py.int (firstWord rest))
    else none

/-- `_extract_exit_code`, from some status on; it fails where `int` does. -/
def extractExitCode : Pane → Option ℕ → Option (Option ℕ × Pane)
  | [], code => some (code, [])
  | l :: ls, code =>
    if l.plain then
      (extractExitCode ls code).map fun r => (r.1, l :: r.2)
    else
      match l.reading py with
      | none => extractExitCode ls code
      | some none => none
      | some (some n) => extractExitCode ls (some n)

structure Report where
  success : Bool
  output : Pane
  exitCode : Option ℕ
  exitStatusKnown : Bool
  error : Option String
  deriving DecidableEq

/-- How the keys were sent. -/
inductive Sent where
  | delivered
  | refused (detail : String)
  | raised
  deriving DecidableEq

/-- `_run_visible_command`; there is no report if an exception leaves it. -/
def runVisibleCommand (sent : Sent) (polls : List (Option Pane)) (final : Option Pane) :
    Option Report :=
  match sent with
  | .raised => none
  | .refused detail =>
    some ⟨false, [], none, false, some ("Could not send the command to the terminal: " ++
      if detail = "" then "tmux send-keys failed" else detail)⟩
  | .delivered =>
    match extractExitCode py (waitAndCapture polls final) none with
    | none => none
    | some (none, kept) =>
      some ⟨false, rstripLines kept, none, false, some ("The command's exit status could not be " ++
        "determined within 60s. The output below may be incomplete.")⟩
    | some (some code, kept) => some ⟨code = 0, rstripLines kept, some code, true, none⟩

end Source

section Strip

variable {β : Type} (f : PaneLine → Option β)

/-- What a line gives is not in the blanks at its ends. -/
structure Inner : Prop where
  blank : ∀ l : PaneLine, l.isBlank = true → f l = none
  lstrip : ∀ l : PaneLine, f ⟨lstrip l.text, l.old⟩ = f l
  rstrip : ∀ l : PaneLine, f ⟨rstrip l.text, l.old⟩ = f l

variable {f} (hf : Inner f)

include hf

theorem filterMap_lstripLines (pane : Pane) : (lstripLines pane).filterMap f = pane.filterMap f := by
  induction pane with
  | nil => rfl
  | cons l ls ih =>
    rw [lstripLines]
    split
    · next hblank => rw [ih, List.filterMap_cons_none (hf.blank l hblank)]
    · simp only [List.filterMap_cons, hf.lstrip]

theorem filterMap_rstripLines (pane : Pane) : (rstripLines pane).filterMap f = pane.filterMap f := by
  induction pane with
  | nil => rfl
  | cons l ls ih =>
    rw [rstripLines]
    split
    · next hrest =>
      rw [hrest] at ih
      split
      · next hblank => rw [List.filterMap_cons_none (hf.blank l hblank), ← ih]
      · simp only [List.filterMap_cons, hf.rstrip, ← ih]
    · simp only [List.filterMap_cons, ih]

theorem filterMap_stripLines (pane : Pane) : (stripLines pane).filterMap f = pane.filterMap f := by
  rw [stripLines, filterMap_rstripLines hf, filterMap_lstripLines hf]

end Strip

section Sentinel

theorem sentinel_nonblank : ∀ c ∈ exitSentinel, isSpace c = false := fun c hc => by
  have hall : (exitSentinel.all fun c => !isSpace c) = true := by decide
  exact (Bool.not_eq_true' _).mp (List.all_eq_true.mp hall c hc)

theorem isPrefixOf_blank {c : Char} (cs : List Char) (hc : isSpace c = true) :
    exitSentinel.isPrefixOf (c :: cs) = false := by
  rw [Bool.eq_false_iff]
  intro h
  have hhead : exitSentinel.head? = some c := by
    obtain ⟨rest, hrest⟩ := List.isPrefixOf_iff_prefix.mp h
    rw [show exitSentinel = '_' :: exitSentinel.tail from rfl] at hrest ⊢
    exact congrArg List.head? hrest
  rw [sentinel_nonblank c (List.mem_of_mem_head? hhead)] at hc
  cases hc

theorem behindSentinel_blank {blank : List Char} (rest : List Char)
    (h : ∀ c ∈ blank, isSpace c = true) : behindSentinel (blank ++ rest) = behindSentinel rest := by
  induction blank with
  | nil => rfl
  | cons c blank ih =>
    rw [List.cons_append, behindSentinel,
      if_neg (by rw [isPrefixOf_blank _ (h c List.mem_cons_self)]; exact Bool.false_ne_true),
      ih fun d hd => h d (List.mem_cons_of_mem _ hd)]

theorem behindSentinel_lstrip (text : List Char) :
    behindSentinel (lstrip text) = behindSentinel text := by
  obtain ⟨blank, htext, hblank⟩ := Python.exists_lstrip text
  conv_rhs => rw [htext, behindSentinel_blank _ hblank]

/-- No sentinel begins in a text and ends in the blanks behind it. -/
theorem prefix_append_iff {text blank : List Char} (h : ∀ c ∈ blank, isSpace c = true) :
    exitSentinel <+: text ++ blank ↔ exitSentinel <+: text := by
  refine ⟨fun hp => ?_, fun hp => hp.trans (List.prefix_append text blank)⟩
  by_cases hlength : exitSentinel.length ≤ text.length
  · exact List.prefix_of_prefix_length_le hp (List.prefix_append text blank) hlength
  · -- The last character of the sentinel would be a blank.
    obtain ⟨rest, hrest⟩ := List.prefix_of_prefix_length_le (List.prefix_append text blank) hp
      (by omega)
    rw [← hrest, List.prefix_append_right_inj] at hp
    have hne : rest ≠ [] := by
      rintro rfl
      rw [← hrest, List.append_nil] at hlength
      omega
    obtain ⟨c, hc⟩ := List.exists_mem_of_ne_nil rest hne
    have hspace := h c (hp.subset hc)
    rw [sentinel_nonblank c (hrest ▸ List.mem_append_right text hc)] at hspace
    cases hspace

theorem behindSentinel_append (text : List Char) {blank : List Char}
    (h : ∀ c ∈ blank, isSpace c = true) :
    behindSentinel (text ++ blank) = (behindSentinel text).map (· ++ blank) := by
  induction text with
  | nil =>
    have hnil := behindSentinel_blank [] h
    rwa [List.append_nil] at hnil
  | cons c text ih =>
    have hiff : exitSentinel <+: c :: text ++ blank ↔ exitSentinel <+: c :: text :=
      prefix_append_iff h
    simp only [List.cons_append, behindSentinel, List.isPrefixOf_iff_prefix] at hiff ⊢
    by_cases hp : exitSentinel <+: c :: text
    · rw [if_pos (hiff.mpr hp), if_pos hp, ← List.cons_append,
        List.drop_append_of_le_length hp.length_le]
      rfl
    · rw [if_neg (mt hiff.mp hp), if_neg hp, ih]

theorem firstWord_append (text : List Char) {blank : List Char}
    (h : ∀ c ∈ blank, isSpace c = true) : firstWord (text ++ blank) = firstWord text := by
  have htake : ∀ word : List Char, (word ++ blank).takeWhile (fun c => !isSpace c) =
      word.takeWhile fun c => !isSpace c := by
    intro word
    induction word with
    | nil =>
      cases blank with
      | nil => rfl
      | cons c blank => simp [h c List.mem_cons_self]
    | cons c word ih => simp only [List.cons_append, List.takeWhile_cons, ih]
  induction text with
  | nil =>
    have hblank : lstrip blank = [] := List.dropWhile_eq_nil_iff.mpr h
    rw [List.nil_append, firstWord, hblank]
    rfl
  | cons c text ih =>
    unfold firstWord lstrip at ih ⊢
    rw [List.cons_append, List.dropWhile_cons, List.dropWhile_cons]
    split
    · exact ih
    · exact htake (c :: text)

variable (py : Digits)

theorem reading_rstrip (l : PaneLine) : PaneLine.reading py ⟨rstrip l.text, l.old⟩ = l.reading py := by
  obtain ⟨blank, htext, hblank⟩ := Python.exists_rstrip l.text
  unfold PaneLine.reading
  conv_rhs => rw [htext, behindSentinel_append _ hblank]
  cases behindSentinel (rstrip l.text) with
  | none => rfl
  | some rest => simp only [Option.map_some, Option.bind_some, firstWord_append rest hblank]

theorem behindSentinel_rstrip (text : List Char) :
    (behindSentinel (rstrip text)).isNone = (behindSentinel text).isNone := by
  obtain ⟨blank, htext, hblank⟩ := Python.exists_rstrip text
  conv_rhs => rw [htext, behindSentinel_append _ hblank, Option.isNone_map]

theorem behindSentinel_of_isBlank {l : PaneLine} (h : l.isBlank = true) :
    behindSentinel l.text = none := by
  have hblank := behindSentinel_blank [] (List.all_eq_true.mp h)
  rwa [List.append_nil] at hblank

theorem reading_inner : Inner (PaneLine.reading py) where
  blank l h := by rw [PaneLine.reading, behindSentinel_of_isBlank h]; rfl
  lstrip l := by rw [PaneLine.reading, behindSentinel_lstrip]; rfl
  rstrip := reading_rstrip py

end Sentinel

section Status

variable (py : Digits)

/-- A known exit status is that of the command, and no line beside it was printed before. -/
def Truthful (report : Option Report) (status : Option ℕ) : Prop :=
  ∀ r ∈ report, r.exitStatusKnown = true →
    r.exitCode = status ∧ ∀ l ∈ r.output, l.old = true → l.isBlank = true

/-- The lines the wait ends with: those of the first pane that shows a prompt, or else the last
pane. -/
def looked (polls : List (Option Pane)) (final : Option Pane) : Pane :=
  match polls.findSome? fun poll => poll.bind inspect with
  | some lines => lines
  | none => final.getD []

/-- Nothing is said about an exit status, or no number can be made of it, or the last number is the
status and only sentinels and blanks are older than the command. -/
def Sound (status : Option ℕ) (lines : Pane) : Prop :=
  lines.filterMap (PaneLine.reading py) = [] ∨ none ∈ lines.filterMap (PaneLine.reading py) ∨
    (lines.filterMap (PaneLine.reading py)).getLast? = some status ∧
      ∀ l ∈ lines, l.old = true → l.isBlank = true ∨ l.plain = false

theorem reading_of_plain {l : PaneLine} (h : l.plain = true) :
    l.reading py = none := by
  rw [PaneLine.reading, Option.isNone_iff_eq_none.mp h]
  rfl

theorem extractExitCode_eq (ls : Pane) (code : Option ℕ) :
    extractExitCode py ls code =
      if none ∈ ls.filterMap (PaneLine.reading py) then none
      else some ((ls.filterMap (PaneLine.reading py)).getLast?.getD code,
        ls.filter PaneLine.plain) := by
  induction ls generalizing code with
  | nil => rfl
  | cons l ls ih =>
    rw [extractExitCode]
    split
    · next hplain =>
      rw [ih, List.filterMap_cons_none (reading_of_plain py hplain), List.filter_cons_of_pos hplain]
      split <;> rfl
    · next hmarked =>
      rw [List.filter_cons_of_neg hmarked]
      cases hreading : l.reading py with
      | none => rw [ih, List.filterMap_cons_none hreading]
      | some n =>
        rw [List.filterMap_cons_some hreading]
        cases n with
        | none => rw [if_pos List.mem_cons_self]
        | some n => simp only [ih, List.mem_cons, reduceCtorEq, false_or, List.getLast?_cons,
            Option.getD_some]

/-- A line that was there before and is more than a blank. -/
def PaneLine.stale (l : PaneLine) : Option Unit := if l.old && !l.isBlank then some () else none

def PaneLine.leftover (l : PaneLine) : Option Unit :=
  if l.plain then l.stale else none

theorem isBlank_lstrip (l : PaneLine) : PaneLine.isBlank ⟨lstrip l.text, l.old⟩ = l.isBlank :=
  Python.all_lstrip l.text

theorem isBlank_rstrip (l : PaneLine) : PaneLine.isBlank ⟨rstrip l.text, l.old⟩ = l.isBlank :=
  Python.all_rstrip l.text

theorem plain_lstrip (l : PaneLine) : PaneLine.plain ⟨lstrip l.text, l.old⟩ = l.plain :=
  congrArg Option.isNone (behindSentinel_lstrip l.text)

theorem plain_rstrip (l : PaneLine) : PaneLine.plain ⟨rstrip l.text, l.old⟩ = l.plain :=
  behindSentinel_rstrip l.text

theorem stale_inner : Inner PaneLine.stale where
  blank l h := by rw [PaneLine.stale, h, Bool.not_true, Bool.and_false]; rfl
  lstrip l := by unfold PaneLine.stale; rw [isBlank_lstrip]
  rstrip l := by unfold PaneLine.stale; rw [isBlank_rstrip]

theorem leftover_inner : Inner PaneLine.leftover where
  blank l h := by rw [PaneLine.leftover, stale_inner.blank l h, ite_self]
  lstrip l := by unfold PaneLine.leftover; rw [plain_lstrip, stale_inner.lstrip]
  rstrip l := by unfold PaneLine.leftover; rw [plain_rstrip, stale_inner.rstrip]

theorem filterMap_stale_eq_nil (ls : Pane) :
    ls.filterMap PaneLine.stale = [] ↔ ∀ l ∈ ls, l.old = true → l.isBlank = true := by
  simp [List.filterMap_eq_nil_iff, PaneLine.stale]

theorem filterMap_leftover_eq_nil (ls : Pane) :
    ls.filterMap PaneLine.leftover = [] ↔
      ∀ l ∈ ls, l.old = true → l.isBlank = true ∨ l.plain = false := by
  rw [List.filterMap_eq_nil_iff]
  refine forall₂_congr fun l _ => ?_
  unfold PaneLine.leftover PaneLine.stale
  cases l.plain <;> cases l.old <;> cases l.isBlank <;> simp

/-- The wait adds and takes away only what is new and without a sentinel. -/
theorem filterMap_waitAndCapture {β : Type} {f : PaneLine → Option β} (hf : Inner f)
    (hnew : ∀ l : PaneLine, l.old = false → l.plain = true → f l = none)
    (polls : List (Option Pane)) (final : Option Pane) :
    (waitAndCapture polls final).filterMap f = (looked polls final).filterMap f := by
  have hadded : ∀ added : Pane, (∀ l ∈ added, l.old = false ∧ l.plain = true) →
      added.filterMap f = [] := fun _ h =>
    List.filterMap_eq_nil_iff.mpr fun l hl => hnew l (h l hl).1 (h l hl).2
  unfold waitAndCapture looked
  cases polls.findSome? fun poll => poll.bind inspect with
  | some lines =>
    have hstrip := filterMap_stripLines hf lines
    dsimp only
    split
    · next hempty =>
      rw [hempty] at hstrip
      rw [← hstrip, hadded _ (by decide)]
      rfl
    · exact hstrip
  | none =>
    cases final with
    | none => exact hadded _ (by decide)
    | some pane =>
      have hstrip := filterMap_stripLines hf pane
      dsimp only [Option.getD_some]
      split
      · next hempty =>
        rw [hempty] at hstrip
        rw [← hstrip, hadded _ (by decide)]
        rfl
      · rw [List.filterMap_append, hstrip, hadded [line "", line "(Timed out after 60s)"] (by decide), List.append_nil]

theorem leftover_of_new {l : PaneLine} (h : l.old = false) : l.leftover = none := by
  rw [PaneLine.leftover, PaneLine.stale, h, Bool.false_and]
  exact ite_self none

/-- What is left of a text, without its sentinels and the blanks at its end. -/
theorem kept_iff (ls : Pane) :
    (∀ l ∈ rstripLines (ls.filter PaneLine.plain), l.old = true → l.isBlank = true) ↔
      ls.filterMap PaneLine.leftover = [] := by
  rw [← filterMap_stale_eq_nil, filterMap_rstripLines stale_inner, List.filterMap_filter]
  rfl

/-- The report is truthful exactly if the keys have not arrived, or what the wait ends with is
sound. -/
theorem truthful_report_iff (sent : Sent) (polls : List (Option Pane)) (final : Option Pane)
    (status : Option ℕ) :
    Truthful (runVisibleCommand py sent polls final) status ↔
      sent ≠ .delivered ∨ Sound py status (looked polls final) := by
  cases sent with
  | raised => exact iff_of_true (fun r hr => nomatch hr) (.inl Sent.noConfusion)
  | refused detail =>
    refine iff_of_true (fun r hr => ?_) (.inl Sent.noConfusion)
    obtain rfl := Option.some.inj hr
    exact fun h => nomatch h
  | delivered =>
    have hsaid := filterMap_waitAndCapture (reading_inner py) (fun l _ hl => reading_of_plain py hl)
      polls final
    have hleft := filterMap_waitAndCapture leftover_inner (fun l hold _ => leftover_of_new hold)
      polls final
    have hkept := kept_iff (waitAndCapture polls final)
    rw [hleft, filterMap_leftover_eq_nil] at hkept
    rw [runVisibleCommand, extractExitCode_eq, hsaid, Sound]
    by_cases hnone : none ∈ (looked polls final).filterMap (PaneLine.reading py)
    · rw [if_pos hnone]
      exact iff_of_true (fun r hr => nomatch hr) (.inr (.inr (.inl hnone)))
    · rw [if_neg hnone]
      cases hlast : ((looked polls final).filterMap (PaneLine.reading py)).getLast? with
      | none =>
        refine iff_of_true (fun r hr => ?_) (.inr (.inl (List.getLast?_eq_none_iff.mp hlast)))
        obtain rfl := Option.some.inj hr
        exact fun h => nomatch h
      | some n =>
        cases n with
        | none => exact absurd (List.mem_of_getLast? hlast) hnone
        | some code =>
          constructor
          · intro h
            obtain ⟨hcode, hold⟩ := h _ rfl rfl
            exact .inr (.inr (.inr ⟨congrArg some hcode, hkept.mp hold⟩))
          · rintro (h | h | h | ⟨hcode, hold⟩) r hr -
            · exact absurd rfl h
            · rw [h] at hlast
              cases hlast
            · exact absurd h hnone
            · obtain rfl := Option.some.inj hr
              exact ⟨Option.some.inj hcode, hkept.mpr hold⟩

/-- The digits of ASCII. -/
def ascii : Digits where
  isDigit := Char.isDigit
  int word := some (word.foldl (fun n c => 10 * n + (c.toNat - 48)) 0)

/-- A pane with the command before, and the one that has been typed still at work. -/
def building : Pane :=
  [⟨"$ true; echo \"__HILL90_EXIT:$?\"".toList, true⟩, ⟨"__HILL90_EXIT:0".toList, true⟩,
    ⟨"$ make; echo \"__HILL90_EXIT:$?\"".toList, true⟩, line "Building 50%"]

/-- The progress of the command is taken for a prompt, and the status of the one before for its
own. -/
theorem building_untruthful :
    ¬Truthful (runVisibleCommand ascii .delivered [some building] none) (some 2) := by
  intro h
  exact absurd (h _ rfl rfl).1 (by decide +kernel)

end Status

end Hill90.Agentbox.Visible
