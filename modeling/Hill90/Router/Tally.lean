import Hill90.Foundation.Blur
import Hill90.Router.Tee

/-! # Usage that is read from a stream, however it is cut

The tee decodes each chunk by itself and normalises the ends of its lines by themselves.  A cut
inside a character leaves the usage as it is; a cut between the two bytes of one line end does not.
-/

namespace Hill90.Router.Tee

open Events (split)
open Python (strip)
open Utf8

section Cuts

/-- No text ends in the first half of a line end whose second half begins what follows. -/
def Intact : List Text → Prop
  | [] => True
  | text :: texts => (text.getLast? = some '\r' → texts.flatten.head? ≠ some '\n') ∧ Intact texts

variable {a b buffer : Text}

theorem normalise_cr {cs : Text} (h : cs.head? ≠ some '\n') :
    normalise ('\r' :: cs) = '\n' :: normalise cs := by
  rw [normalise]
  rintro cs rfl
  exact h rfl

theorem normalise_plain {c : Char} (cs : Text) (h : c ≠ '\r') :
    normalise (c :: cs) = c :: normalise cs := by
  rw [normalise]
  · rintro cs rfl
    exact absurd rfl h
  · exact h

/-- A text is empty, or begins with a line end of two bytes, with a lone carriage return, or with
anything else. -/
@[elab_as_elim]
theorem lineEnds {motive : Text → Prop} (nil : motive [])
    (crlf : ∀ cs, motive cs → motive ('\r' :: '\n' :: cs))
    (cr : ∀ cs, cs.head? ≠ some '\n' → motive cs → motive ('\r' :: cs))
    (plain : ∀ c cs, c ≠ '\r' → motive cs → motive (c :: cs)) (text : Text) : motive text := by
  induction h : text.length using Nat.strongRecOn generalizing text with
  | ind n ih =>
    subst h
    match text with
    | [] => exact nil
    | c :: cs =>
      have hcs := ih cs.length (Nat.lt_succ_self _) cs rfl
      by_cases hc : c = '\r'
      · subst hc
        by_cases hnewline : cs.head? = some '\n'
        · obtain ⟨rest, rfl⟩ := List.head?_eq_some_iff.mp hnewline
          exact crlf rest (ih rest.length (by simp only [List.length_cons]; omega) rest rfl)
        · exact cr cs hnewline hcs
      · exact plain c cs hc hcs

theorem getLast?_cons_of {c d : Char} {cs : Text} (h : cs.getLast? = some c) :
    (d :: cs).getLast? = some c := by
  rw [List.getLast?_cons, h, Option.getD_some]

theorem normalise_append (h : a.getLast? = some '\r' → b.head? ≠ some '\n') :
    normalise (a ++ b) = normalise a ++ normalise b := by
  induction a using lineEnds with
  | nil => rfl
  | crlf cs ih =>
    exact congrArg ('\n' :: ·) (ih fun hlast => h (getLast?_cons_of (getLast?_cons_of hlast)))
  | cr cs hcs ih =>
    have hhead : (cs ++ b).head? ≠ some '\n' := by
      cases cs with
      | nil => exact h rfl
      | cons c cs => exact hcs
    rw [List.cons_append, normalise_cr hhead, ih fun hlast => h (getLast?_cons_of hlast),
      normalise_cr hcs]
    rfl
  | plain c cs hc ih =>
    rw [List.cons_append, normalise_plain _ hc, ih fun hlast => h (getLast?_cons_of hlast),
      normalise_plain _ hc]
    rfl

theorem normalise_of_notMem (h : '\r' ∉ buffer) : normalise buffer = buffer := by
  induction buffer with
  | nil => rfl
  | cons c cs ih =>
    obtain ⟨hc, hcs⟩ := not_or.mp (mt List.mem_cons.mpr h)
    rw [normalise_plain cs (Ne.symm hc), ih hcs]

theorem notMem_normalise (text : Text) : '\r' ∉ normalise text := by
  have hcons : ∀ {c : Char} {cs : Text}, '\r' ≠ c → '\r' ∉ cs → '\r' ∉ c :: cs := fun hc hcs hmem =>
    (List.mem_cons.mp hmem).elim hc hcs
  induction text using lineEnds with
  | nil => exact List.not_mem_nil
  | crlf cs ih => exact hcons (by decide) ih
  | cr cs hcs ih =>
    rw [normalise_cr hcs]
    exact hcons (by decide) ih
  | plain c cs hc ih =>
    rw [normalise_plain cs hc]
    exact hcons (Ne.symm hc) ih

/-- The first piece goes on with a character. -/
def push (c : Char) : List Text × Text → List Text × Text
  | ([], last) => ([], c :: last)
  | (part :: parts, last) => ((c :: part) :: parts, last)

theorem splitEvents_cons {c : Char} {cs : Text} (h : c = '\n' → cs.head? ≠ some '\n') :
    splitEvents (c :: cs) = push c (splitEvents cs) := by
  rw [splitEvents]
  · cases splitEvents cs with
    | mk parts last => cases parts <;> rfl
  · rintro rest hc rfl
    exact h hc rfl

/-- A text is empty, or begins with a blank line, or with anything else. -/
@[elab_as_elim]
theorem blankLines {motive : Text → Prop} (nil : motive [])
    (cut : ∀ cs, motive cs → motive ('\n' :: '\n' :: cs))
    (plain : ∀ c cs, (c = '\n' → cs.head? ≠ some '\n') → motive cs → motive (c :: cs))
    (text : Text) : motive text := by
  induction h : text.length using Nat.strongRecOn generalizing text with
  | ind n ih =>
    subst h
    match text with
    | [] => exact nil
    | c :: cs =>
      by_cases hcut : c = '\n' → cs.head? ≠ some '\n'
      · exact plain c cs hcut (ih cs.length (Nat.lt_succ_self _) cs rfl)
      · obtain ⟨rfl, hnewline⟩ := Classical.not_imp.mp hcut
        obtain ⟨rest, rfl⟩ := List.head?_eq_some_iff.mp (not_not.mp hnewline)
        exact cut rest (ih rest.length (by simp only [List.length_cons]; omega) rest rfl)

theorem eq_of_splitEvents {text last : Text} (h : splitEvents text = ([], last)) : last = text := by
  induction text using blankLines generalizing last with
  | nil => exact (Prod.mk.inj h).2.symm
  | cut cs ih => cases h
  | plain c cs hcut ih =>
    rw [splitEvents_cons hcut] at h
    match hcs : splitEvents cs, h with
    | ([], rest), h =>
      obtain rfl := (Prod.mk.inj h).2
      rw [ih hcs]

/-- What is cut out of a text is cut out of its beginning, and then out of the rest of that with
the remaining text. -/
theorem splitEvents_append (a b : Text) :
    splitEvents (a ++ b) =
      ((splitEvents a).1 ++ (splitEvents ((splitEvents a).2 ++ b)).1,
        (splitEvents ((splitEvents a).2 ++ b)).2) := by
  induction a using blankLines with
  | nil => rfl
  | cut cs ih => exact congrArg (fun r : List Text × Text => ([] :: r.1, r.2)) ih
  | plain c cs hcut ih =>
    rw [splitEvents_cons hcut]
    match hcs : splitEvents cs with
    | ([], last) =>
      obtain rfl := eq_of_splitEvents hcs
      rfl
    | (part :: parts, last) =>
      have hne : cs ≠ [] := by
        rintro rfl
        cases hcs
      have hcut' : c = '\n' → (cs ++ b).head? ≠ some '\n' := by
        rw [List.head?_append_of_ne_nil _ hne]
        exact hcut
      rw [hcs] at ih
      rw [List.cons_append, splitEvents_cons hcut', ih]
      rfl

theorem sublist_splitEvents (text : Text) : (splitEvents text).2.Sublist text := by
  induction text using blankLines with
  | nil => exact List.Sublist.refl _
  | cut cs ih => exact (ih.cons _).cons _
  | plain c cs hcut ih =>
    rw [splitEvents_cons hcut]
    match hcs : splitEvents cs with
    | ([], last) =>
      rw [hcs] at ih
      exact ih.cons_cons c
    | (part :: parts, last) =>
      rw [hcs] at ih
      exact ih.cons c

theorem splitEvents_rest (text : Text) : (splitEvents (splitEvents text).2).1 = [] := by
  have happend := congrArg Prod.fst (splitEvents_append text [])
  rw [List.append_nil, List.append_nil] at happend
  exact List.self_eq_append_right.mp happend

/-- Blank events aside, the tee completes the events of all the texts. -/
theorem events_eq (chunks : List Bytes) (hbuffer : '\r' ∉ buffer)
    (hopen : (splitEvents buffer).1 = []) (h : Intact (chunks.map decode)) :
    events buffer chunks =
      (splitEvents (buffer ++ normalise (chunks.map decode).flatten)).1.filter fun part =>
        !(strip part).isEmpty := by
  induction chunks generalizing buffer with
  | nil =>
    rw [List.map_nil, List.flatten_nil, normalise, List.append_nil, hopen]
    rfl
  | cons chunk chunks ih =>
    obtain ⟨hcut, hrest⟩ := h
    have hnormal : normalise (buffer ++ decode chunk) = buffer ++ normalise (decode chunk) := by
      rw [normalise_append fun hlast => absurd (List.mem_of_getLast? hlast) hbuffer,
        normalise_of_notMem hbuffer]
    have hnext : '\r' ∉ (splitEvents (buffer ++ normalise (decode chunk))).2 := fun hmem =>
      (List.mem_append.mp ((sublist_splitEvents _).subset hmem)).elim hbuffer
        (notMem_normalise _)
    rw [events, parseSseEvents, hnormal, ih hnext (splitEvents_rest _) hrest, List.map_cons, List.flatten_cons,
      normalise_append hcut, ← List.append_assoc, splitEvents_append (buffer ++ _),
      List.filter_append]

end Cuts

section Blur

theorem head_normalise {c : Char} {cs : Text} (hc : c ≠ replacement) :
    (normalise (c :: cs)).head? ≠ some replacement := by
  have hhead : ∃ d rest, d ≠ replacement ∧ normalise (c :: cs) = d :: rest := by
    by_cases hcr : c = '\r'
    · subst hcr
      by_cases hnewline : cs.head? = some '\n'
      · obtain ⟨rest, rfl⟩ := List.head?_eq_some_iff.mp hnewline
        exact ⟨'\n', normalise rest, by decide, rfl⟩
      · exact ⟨'\n', normalise cs, by decide, normalise_cr hnewline⟩
    · exact ⟨c, normalise cs, hc, normalise_plain cs hcr⟩
  obtain ⟨d, rest, hd, hnormal⟩ := hhead
  rw [hnormal]
  exact fun h => hd (Option.some.inj h)

theorem normalise_mark (text : Text) : normalise (mark text) = mark (normalise text) := by
  cases text with
  | nil => rfl
  | cons c cs =>
    by_cases hc : c = replacement
    · subst hc
      rw [mark_cons_replacement, normalise_plain cs (by decide), mark_cons_replacement]
    · have hhead : (c :: cs).head? ≠ some replacement := fun h => hc (Option.some.inj h)
      rw [mark_of_head hhead, normalise_plain _ (by decide), mark_of_head (head_normalise hc)]

theorem normalise_blur (text : Text) : normalise (blur text) = blur (normalise text) := by
  induction text using lineEnds with
  | nil => rfl
  | crlf cs ih =>
    rw [blur_ascii _ (by decide), blur_ascii _ (by decide)]
    exact (congrArg ('\n' :: ·) ih).trans (blur_ascii _ (by decide)).symm
  | cr cs hcs ih =>
    have hhead : (blur cs).head? ≠ some '\n' := by rwa [Ne, head_blur cs (by decide)]
    rw [blur_ascii _ (by decide), normalise_cr hhead, normalise_cr hcs, blur_ascii _ (by decide), ih]
  | plain c cs hc ih =>
    rw [normalise_plain cs hc]
    by_cases hascii : c.toNat < 128
    · rw [blur_ascii _ hascii, blur_ascii _ hascii, ← ih, normalise_plain _ hc]
    · rw [blur_other _ (by omega), blur_other _ (by omega), ← ih, normalise_mark]

/-- The first piece begins with a character outside ASCII. -/
def pushMark : List Text × Text → List Text × Text
  | ([], last) => ([], mark last)
  | (part :: parts, last) => (mark part :: parts, last)

def blurParts (parts : List Text × Text) : List Text × Text := (parts.1.map blur, blur parts.2)

theorem pushMark_push_replacement (parts : List Text × Text) :
    pushMark (push replacement parts) = push replacement parts := by
  match parts with
  | ([], last) => rfl
  | (part :: parts, last) => rfl

theorem pushMark_push {c : Char} (parts : List Text × Text) (hc : c ≠ replacement) :
    pushMark (push c parts) = push replacement (push c parts) := by
  match parts with
  | ([], last) => simp only [push, pushMark, mark, if_neg hc]
  | (part :: parts, last) => simp only [push, pushMark, mark, if_neg hc]

theorem splitEvents_mark (text : Text) : splitEvents (mark text) = pushMark (splitEvents text) := by
  cases text with
  | nil => rfl
  | cons c cs =>
    by_cases hc : c = replacement
    · subst hc
      rw [mark_cons_replacement, splitEvents_cons fun h => absurd h (by decide),
        pushMark_push_replacement]
    · have hhead : (c :: cs).head? ≠ some replacement := fun h => hc (Option.some.inj h)
      rw [mark_of_head hhead, splitEvents_cons fun h => absurd h (by decide)]
      by_cases hcut : c = '\n' → cs.head? ≠ some '\n'
      · rw [splitEvents_cons hcut, pushMark_push _ hc]
      · obtain ⟨rfl, hnewline⟩ := Classical.not_imp.mp hcut
        obtain ⟨rest, rfl⟩ := List.head?_eq_some_iff.mp (not_not.mp hnewline)
        rfl

theorem splitEvents_blur (text : Text) :
    splitEvents (blur text) = blurParts (splitEvents text) := by
  induction text using blankLines with
  | nil => rfl
  | cut cs ih =>
    rw [blur_ascii _ (by decide), blur_ascii _ (by decide)]
    exact congrArg (fun r : List Text × Text => ([] :: r.1, r.2)) ih
  | plain c cs hcut ih =>
    rw [splitEvents_cons hcut]
    by_cases hc : c.toNat < 128
    · have hblur : c = '\n' → (blur cs).head? ≠ some '\n' := by
        rintro rfl
        rw [Ne, head_blur cs hc]
        exact hcut rfl
      rw [blur_ascii cs hc, splitEvents_cons hblur, ih]
      match splitEvents cs with
      | ([], last) => simp only [blurParts, push, List.map_nil, blur_ascii _ hc]
      | (part :: parts, last) => simp only [blurParts, push, List.map_cons, blur_ascii _ hc]
    · have hother : 128 ≤ c.toNat := by omega
      rw [blur_other cs hother, splitEvents_mark, ih]
      match splitEvents cs with
      | ([], last) => simp only [blurParts, push, pushMark, List.map_nil, blur_other _ hother]
      | (part :: parts, last) =>
        simp only [blurParts, push, pushMark, List.map_cons, blur_other _ hother]

theorem split_newline (cs : Text) : split ('\n' :: cs) = [] :: split cs := if_pos rfl

/-- The first line begins with a character outside ASCII. -/
theorem split_mark {text first : Text} {others : List Text} (h : split text = first :: others) :
    split (mark text) = mark first :: others := by
  cases text with
  | nil =>
    cases h
    rfl
  | cons c cs =>
    by_cases hc : c = replacement
    · subst hc
      obtain ⟨line, lines, -, hsplit⟩ := Events.split_cons cs (by decide : replacement ≠ '\n')
      rw [hsplit] at h
      cases h
      rw [mark_cons_replacement, mark_cons_replacement, hsplit]
    · have hhead : (c :: cs).head? ≠ some replacement := fun h => hc (Option.some.inj h)
      obtain ⟨line, lines, hline, hsplit⟩ :=
        Events.split_cons (c :: cs) (by decide : replacement ≠ '\n')
      rw [h] at hline
      cases hline
      have hfirst : first.head? ≠ some replacement := by
        by_cases hnewline : c = '\n'
        · subst hnewline
          rw [split_newline] at h
          cases h
          exact fun heq => nomatch heq
        · obtain ⟨line, lines, -, hcons⟩ := Events.split_cons cs hnewline
          rw [hcons] at h
          cases h
          exact hhead
      rw [mark_of_head hhead, hsplit, mark_of_head hfirst]

theorem split_blur (text : Text) : split (blur text) = (split text).map blur := by
  induction text with
  | nil => rfl
  | cons c cs ih =>
    by_cases hnewline : c = '\n'
    · subst hnewline
      rw [blur_ascii _ (by decide), split_newline, split_newline, ih]
      rfl
    · obtain ⟨first, others, hfirst, hcons⟩ := Events.split_cons cs hnewline
      rw [hfirst] at ih
      rw [hcons]
      by_cases hc : c.toNat < 128
      · obtain ⟨first', others', hfirst', hcons'⟩ := Events.split_cons (blur cs) hnewline
        rw [ih] at hfirst'
        cases hfirst'
        rw [blur_ascii _ hc, hcons', List.map_cons, blur_ascii _ hc]
      · rw [blur_other _ (by omega), split_mark ih, List.map_cons, blur_other _ (by omega)]

theorem behind_blur {start : Text} (h : ∀ c ∈ start, c.toNat < 128) (text : Text) :
    behind start (blur text) = (behind start text).map blur := by
  induction start generalizing text with
  | nil => rfl
  | cons p start ih =>
    have hp := h p List.mem_cons_self
    match text with
    | [] => rfl
    | c :: cs =>
      by_cases hc : c.toNat < 128
      · rw [blur_ascii cs hc, behind, behind]
        split
        · exact ih (fun d hd => h d (List.mem_cons_of_mem _ hd)) cs
        · rfl
      · obtain ⟨rest, hrest⟩ := exists_mark (blur cs)
        have hpc : p ≠ c := by
          rintro rfl
          exact hc hp
        rw [blur_other cs (by omega), hrest, behind, behind, if_neg (ne_replacement hp), if_neg hpc]
        rfl

theorem ascii_data : ∀ c ∈ "data:".toList, c.toNat < 128 := fun c hc =>
  of_decide_eq_true (List.all_eq_true.mp
    (by decide : ("data:".toList.all fun c => decide (c.toNat < 128)) = true) c hc)

theorem ascii_space : ∀ c ∈ [' '], c.toNat < 128 := fun c hc => by
  rw [List.mem_singleton.mp hc]
  decide

theorem dataOf_blur (line : Text) : dataOf (blur line) = (dataOf line).map blur := by
  rw [dataOf, dataOf, behind_blur ascii_data]
  cases behind "data:".toList line with
  | none => rfl
  | some payload =>
    have hspace : behind [' '] (blur payload) = (behind [' '] payload).map blur :=
      behind_blur ascii_space payload
    simp only [Option.map_some, hspace]
    cases behind [' '] payload <;> rfl

theorem filterMap_dataOf_blur (event : Text) :
    (split (blur event)).filterMap dataOf = ((split event).filterMap dataOf).map blur := by
  rw [split_blur, List.filterMap_map, List.map_filterMap]
  exact congrArg (fun f => List.filterMap f (split event)) (funext dataOf_blur)

theorem intercalate_blur (data : List Text) :
    ['\n'].intercalate (data.map blur) = blur (['\n'].intercalate data) := by
  induction data with
  | nil => rfl
  | cons first others ih =>
    cases others with
    | nil => rw [List.map_singleton, List.intercalate_singleton, List.intercalate_singleton]
    | cons second others =>
      rw [List.map_cons, List.map_cons, List.intercalate_cons_cons, List.intercalate_cons_cons,
        ← List.map_cons, ih, List.append_assoc, List.append_assoc]
      exact (blur_append_ascii first _ (by decide)).symm

end Blur

section Outcome

def number : Json → Option ℚ
  | .number q => some q
  | _ => none

/-- Two token counts; one that is no number counts for nothing. -/
abbrev Counts := Option ℚ × Option ℚ

def Tokens.counts (tokens : Tokens) : Counts := (number tokens.input, number tokens.output)

/-- What the data of an event comes to. -/
inductive Outcome where
  | nothing
  | usage (counts : Counts)
  | fails
  deriving DecidableEq

def Outcome.counts? : Outcome → Option Counts
  | usage counts => some counts
  | _ => none

def countsOf (usage : Json) : Counts := (record {} (some usage)).counts

def Loaded.outcome : Loaded → Outcome
  | .valueError => .nothing
  | .raised _ => .fails
  | .value (.object members) =>
    match usageOf (.object members) with
    | none => .nothing
    | some usage => .usage (countsOf usage)
  | .value _ => .fails

/-- `json.loads`: the keys and the numbers of JSON are ASCII, and what is not stands in its strings
alone; `[DONE]` among other characters outside ASCII is no JSON. -/
structure Loads where
  loads : Text → Loaded
  outcome_blur : ∀ text, (loads (blur text)).outcome = (loads text).outcome
  outcome_done : ∀ text, strip text = done → (loads (blur text)).outcome = .nothing

variable (json : Loads)

def Loads.said (event : Text) : Outcome :=
  match payload event with
  | none => .nothing
  | some joined => (json.loads joined).outcome

def Loads.readable (event : Text) : Bool := json.said event ≠ .fails

/-- The events of the whole sequence. -/
def allEvents (bytes : Bytes) : List Text := (splitEvents (normalise (decode bytes))).1

def Loads.last (default : Counts) (events : List Text) : Counts :=
  ((events.map json.said).filterMap Outcome.counts?).getLast?.getD default

def Loads.extracted (chunks : List Bytes) : Counts := (tally json.loads chunks {}).counts

theorem harmless_iff (loaded : Loaded) : loaded.harmless = true ↔ loaded.outcome ≠ .fails := by
  match loaded with
  | .valueError => exact iff_of_true rfl fun h => nomatch h
  | .raised _ => exact iff_of_false (fun h => nomatch h) fun h => h rfl
  | .value (.object members) =>
    refine iff_of_true rfl fun h => ?_
    rw [Loaded.outcome] at h
    split at h <;> cases h
  | .value .null | .value (.bool _) | .value (.number _) | .value (.text _) | .value (.array _) =>
    exact iff_of_false (fun h => nomatch h) fun h => h rfl

theorem harmless_said (event : Text) :
    Harmless json.loads event ↔ json.said event ≠ .fails := by
  unfold Harmless Loads.said
  cases payload event with
  | none => exact iff_of_true (fun _ h => nomatch h) fun h => nomatch h
  | some joined =>
    rw [← harmless_iff]
    exact ⟨fun h => h joined rfl, fun h _ heq => Option.some.inj heq ▸ h⟩

/-- No character outside ASCII becomes a blank. -/
theorem strip_blur_done {text : Text} (h : strip (blur text) = done) : strip text = done := by
  have hnone : replacement ∉ blur text := fun hmem => by
    have hstrip := Python.mem_strip hmem (by decide)
    rw [h] at hstrip
    exact absurd hstrip (by decide)
  rwa [blur_eq_self hnone] at h

theorem said_blur (event : Text) : json.said (blur event) = json.said event := by
  unfold Loads.said payload
  rw [filterMap_dataOf_blur]
  cases (split event).filterMap dataOf with
  | nil => rfl
  | cons first others =>
    rw [List.map_cons]
    dsimp only
    rw [← List.map_cons, intercalate_blur]
    by_cases hdone : strip (['\n'].intercalate (first :: others)) = done
    · rw [if_pos hdone]
      by_cases hblur : strip (blur (['\n'].intercalate (first :: others))) = done
      · rw [if_pos hblur]
      · rw [if_neg hblur]
        exact json.outcome_done _ hdone
    · rw [if_neg hdone, if_neg (mt strip_blur_done hdone)]
      exact json.outcome_blur _

/-- A blank event says nothing. -/
theorem said_blank {event : Text} (h : (strip event).isEmpty = true) :
    json.said event = .nothing := by
  have hblank : ∀ c ∈ event, Python.isSpace c = true := fun c hc => by
    by_contra hspace
    have hmem := Python.mem_strip hc (Bool.eq_false_iff.mpr hspace)
    rw [List.isEmpty_iff.mp h] at hmem
    cases hmem
  have hdata : (split event).filterMap dataOf = [] := by
    refine List.filterMap_eq_nil_iff.mpr fun line hline => ?_
    cases line with
    | nil => rfl
    | cons c cs =>
      have hc := hblank c ((Events.sublist_of_mem_split hline).subset List.mem_cons_self)
      have hne : 'd' ≠ c := by
        rintro rfl
        exact absurd hc (by decide)
      have hstart : "data:".toList = 'd' :: ['a', 't', 'a', ':'] := by decide +kernel
      rw [dataOf, hstart, behind, if_neg hne]
      rfl
  rw [Loads.said, payload, hdata]

theorem last_cons (default : Counts) (event : Text) (events : List Text) :
    json.last default (event :: events) =
      json.last ((json.said event).counts?.getD default) events := by
  rw [Loads.last, List.map_cons]
  cases h : (json.said event).counts? with
  | none => rw [List.filterMap_cons_none h]; rfl
  | some counts => rw [List.filterMap_cons_some h, List.getLast?_cons]; rfl

theorem last_append (default : Counts) (events more : List Text) :
    json.last default (events ++ more) = json.last (json.last default events) more := by
  induction events generalizing default with
  | nil => rfl
  | cons event events ih => rw [List.cons_append, last_cons, ih, last_cons]

theorem last_congr (default : Counts) {events others : List Text}
    (h : events.map json.said = others.map json.said) :
    json.last default events = json.last default others := by
  rw [Loads.last, h, Loads.last]

theorem last_readable_congr (default : Counts) {events others : List Text}
    (h : events.map json.said = others.map json.said) :
    json.last default (events.takeWhile json.readable) =
      json.last default (others.takeWhile json.readable) := by
  have hmap : ∀ list : List Text, (list.takeWhile json.readable).map json.said =
      (list.map json.said).takeWhile fun outcome => decide (outcome ≠ .fails) := fun list =>
    (List.takeWhile_map (f := json.said) (p := fun outcome => decide (outcome ≠ .fails))).symm
  exact last_congr json default (by rw [hmap, hmap, h])

theorem last_filter (default : Counts) (events : List Text) :
    json.last default ((events.filter fun part => !(strip part).isEmpty).takeWhile json.readable) =
      json.last default (events.takeWhile json.readable) := by
  induction events generalizing default with
  | nil => rfl
  | cons event events ih =>
    by_cases h : (strip event).isEmpty = true
    · have hsaid := said_blank json h
      have hreadable : json.readable event = true := by
        rw [Loads.readable, hsaid]
        rfl
      rw [List.filter_cons_of_neg (by simp [h]), ih, List.takeWhile_cons_of_pos hreadable, last_cons,
        hsaid]
      rfl
    · rw [List.filter_cons_of_pos (by simp [h])]
      by_cases hreadable : json.readable event = true
      · rw [List.takeWhile_cons_of_pos hreadable, List.takeWhile_cons_of_pos hreadable, last_cons,
          last_cons, ih]
      · rw [List.takeWhile_cons_of_neg hreadable, List.takeWhile_cons_of_neg hreadable]

theorem record_said {event : Text} (h : Harmless json.loads event) :
    ∃ usage, extractUsage json.loads event = .ok usage ∧
      ∀ tokens, (record tokens usage).counts = (json.said event).counts?.getD tokens.counts := by
  unfold extractUsage Loads.said
  cases hp : payload event with
  | none => exact ⟨none, rfl, fun _ => rfl⟩
  | some joined =>
    obtain hl | ⟨members, hl⟩ := Loaded.cases_harmless (h joined hp)
    · simp only [hl]
      exact ⟨none, rfl, fun _ => rfl⟩
    · simp only [hl, Loaded.outcome]
      refine ⟨usageOf (.object members), rfl, fun tokens => ?_⟩
      cases usageOf (.object members) <;> rfl

theorem readable_iff (event : Text) :
    json.readable event = true ↔ Harmless json.loads event := by
  rw [harmless_said, Loads.readable, decide_eq_true_iff]

/-- An event that cannot be read ends the tee. -/
theorem extractUsage_of_unreadable {event : Text} (h : ¬Harmless json.loads event) :
    ∃ e, extractUsage json.loads event = .error e := by
  unfold Harmless at h
  unfold extractUsage
  cases hp : payload event with
  | none => exact absurd (fun _ hj => by rw [hp] at hj; cases hj) h
  | some joined =>
    rw [hp] at h
    have hloaded : (json.loads joined).harmless ≠ true := fun hj =>
      h fun _ heq => Option.some.inj heq ▸ hj
    dsimp only
    generalize json.loads joined = loaded at hloaded
    match loaded with
    | .valueError | .value (.object _) => exact absurd rfl hloaded
    | .raised message => exact ⟨_, rfl⟩
    | .value .null | .value (.bool _) | .value (.number _) | .value (.text _) | .value (.array _) =>
      exact ⟨_, rfl⟩

theorem readEvents_counts (events : List Text) (tokens : Tokens) :
    (readEvents json.loads events tokens).1.counts =
        json.last tokens.counts (events.takeWhile json.readable) ∧
      ((readEvents json.loads events tokens).2 = none ↔ ∀ event ∈ events, json.readable event = true) := by
  induction events generalizing tokens with
  | nil => exact ⟨rfl, iff_of_true rfl fun _ h => by cases h⟩
  | cons event events ih =>
    rw [List.forall_mem_cons]
    by_cases h : Harmless json.loads event
    · have hreadable := (readable_iff json event).mpr h
      obtain ⟨usage, husage, hrecord⟩ := record_said json h
      obtain ⟨hcounts, hnone⟩ := ih (record tokens usage)
      rw [readEvents, husage, List.takeWhile_cons_of_pos hreadable, last_cons, ← hrecord tokens]
      exact ⟨hcounts, hnone.trans (and_iff_right hreadable).symm⟩
    · have hreadable : ¬json.readable event = true := mt (readable_iff json event).mp h
      obtain ⟨e, he⟩ := extractUsage_of_unreadable json h
      rw [readEvents, he, List.takeWhile_cons_of_neg hreadable]
      exact ⟨rfl, iff_of_false (fun heq => by cases heq) fun hall => hreadable hall.1⟩

theorem tally_counts (chunks : List Bytes) (s : State) :
    (tally json.loads chunks s).counts =
      json.last s.tokens.counts ((events s.buffer chunks).takeWhile json.readable) := by
  induction chunks generalizing s with
  | nil => rfl
  | cons chunk chunks ih =>
    obtain ⟨hcounts, hnone⟩ :=
      readEvents_counts json (parseSseEvents (s.buffer ++ decode chunk)).1 s.tokens
    have hread : s.read json.loads chunk = (⟨(parseSseEvents (s.buffer ++ decode chunk)).2,
        (readEvents json.loads (parseSseEvents (s.buffer ++ decode chunk)).1 s.tokens).1⟩,
        (readEvents json.loads (parseSseEvents (s.buffer ++ decode chunk)).1 s.tokens).2) := rfl
    rw [tally, hread, events]
    generalize readEvents json.loads (parseSseEvents (s.buffer ++ decode chunk)).1 s.tokens = outcome at *
    match outcome with
    | (tokens, none) =>
      have hall := hnone.mp rfl
      rw [List.takeWhile_append_of_pos hall, last_append]
      rw [List.takeWhile_eq_self_iff.mpr hall] at hcounts
      rw [← hcounts]
      exact ih _
    | (tokens, some e) =>
      have hsome : ¬∀ event ∈ (parseSseEvents (s.buffer ++ decode chunk)).1,
          json.readable event = true := fun hall => nomatch hnone.mpr hall
      rw [List.takeWhile_append, if_neg fun hlength => hsome (List.takeWhile_eq_self_iff.mp
        ((List.takeWhile_prefix _).eq_of_length hlength))]
      exact hcounts

theorem said_events (chunks : List Bytes) :
    (splitEvents (normalise (chunks.map decode).flatten)).1.map json.said =
      (allEvents chunks.flatten).map json.said := by
  have hparts : ∀ text, (splitEvents (normalise text)).1.map json.said =
      (splitEvents (normalise (blur text))).1.map json.said := by
    intro text
    rw [normalise_blur, splitEvents_blur, blurParts, List.map_map]
    exact List.map_congr_left fun event _ => (said_blur json event).symm
  rw [hparts, ← blur_decode_flatten, ← hparts, allEvents]

/-- Cut outside of line ends, a stream is counted by its last event with usage before one that cannot
be read. -/
theorem extracted_eq {chunks : List Bytes} (hintact : Intact (chunks.map decode)) :
    json.extracted chunks =
      json.last (some 0, some 0) ((allEvents chunks.flatten).takeWhile json.readable) := by
  have hevents := events_eq chunks (List.not_mem_nil) rfl hintact
  have hsaid := said_events json chunks
  rw [Loads.extracted, tally_counts]
  exact (congrArg (fun list : List Text => json.last _ (list.takeWhile json.readable)) hevents).trans
    ((last_filter json _ _).trans (last_readable_congr json _ hsaid))

end Outcome

section Chunking

variable (json : Loads)

/-- Two ways of cutting a stream, neither inside a line end: both give the counts of its last event
with usage exactly if these are those of the last one before an event that cannot be read. -/
theorem tally_chunking (chunks others : List Bytes) (hsame : chunks.flatten = others.flatten)
    (hchunks : Intact (chunks.map decode)) (hothers : Intact (others.map decode)) :
    json.extracted chunks = json.extracted others ∧
      (json.extracted chunks = json.last (some 0, some 0) (allEvents chunks.flatten) ↔
        json.last (some 0, some 0) ((allEvents chunks.flatten).takeWhile json.readable) =
          json.last (some 0, some 0) (allEvents chunks.flatten)) := by
  have hfirst := extracted_eq json hchunks
  have hsecond := extracted_eq json hothers
  exact ⟨by rw [hfirst, hsecond, hsame], by rw [hfirst]⟩

/-- Data in two lines. -/
def usageData : Text :=
  "\x7b\n\"usage\": \x7b\"prompt_tokens\": 3, \"completion_tokens\": 4\x7d\x7d".toList

theorem eq_usageData {text : Text} (h : blur text = usageData) : text = usageData := by
  have hnone : replacement ∉ blur text := by
    rw [h]
    decide +kernel
  rwa [blur_eq_self hnone] at h

/-- `json.loads`, for these data and for what is no JSON. -/
def usageLoads : Loads where
  loads text :=
    if text = usageData then .value (.object [("usage", .object
      [("prompt_tokens", .number 3), ("completion_tokens", .number 4)])])
    else .valueError
  outcome_blur text := by
    have hself : blur usageData = usageData := by decide +kernel
    by_cases h : text = usageData
    · rw [h, hself]
    · rw [if_neg h, if_neg (mt eq_usageData h)]
  outcome_done text h := by
    have hdata : strip usageData ≠ done := by decide +kernel
    rw [if_neg]
    · rfl
    · intro heq
      rw [eq_usageData heq] at h
      exact hdata h

def usageLine : Bytes :=
  bytes "data: \"usage\": \x7b\"prompt_tokens\": 3, \"completion_tokens\": 4\x7d\x7d\r\n\r\n"

/-- A cut inside a character of a comment, and none at all. -/
theorem tally_chunking_comment :
    usageLoads.extracted [bytes ": " ++ [0xC3], 0xA9 :: bytes "\r\n\r\ndata: \x7b\r\n" ++ usageLine] =
        usageLoads.extracted [bytes ": " ++ [0xC3, 0xA9] ++ bytes "\r\n\r\ndata: \x7b\r\n" ++ usageLine] ∧
      usageLoads.extracted [bytes ": " ++ [0xC3], 0xA9 :: bytes "\r\n\r\ndata: \x7b\r\n" ++ usageLine] =
        usageLoads.last (some 0, some 0) (allEvents
          [bytes ": " ++ [0xC3], 0xA9 :: bytes "\r\n\r\ndata: \x7b\r\n" ++ usageLine].flatten) :=
  have h := tally_chunking usageLoads
    [bytes ": " ++ [0xC3], 0xA9 :: bytes "\r\n\r\ndata: \x7b\r\n" ++ usageLine]
    [bytes ": " ++ [0xC3, 0xA9] ++ bytes "\r\n\r\ndata: \x7b\r\n" ++ usageLine] (by decide +kernel)
    ⟨by decide +kernel, by decide +kernel, trivial⟩
    ⟨by decide +kernel, trivial⟩
  ⟨h.1, h.2.mpr (by decide +kernel)⟩

/-- A cut between the two bytes of a line end makes two events of one. -/
theorem cut_line_end :
    let cut := [bytes "data: \x7b\r", bytes "\n" ++ usageLine]
    cut.flatten = bytes "data: \x7b\r\n" ++ usageLine ∧
      usageLoads.extracted [bytes "data: \x7b\r\n" ++ usageLine] = (some 3, some 4) ∧
      usageLoads.extracted cut = (some 0, some 0) := by
  decide +kernel

end Chunking

end Hill90.Router.Tee
