import Hill90.Agentbox.Tools
import Hill90.Knowledge.Frontmatter

/-! # The documents that are given a header

`save_knowledge` writes a title taken from the file name into a header of YAML, as it is; the
journal writes the date.
-/

namespace Hill90.Knowledge

open Agentbox (Python)

section Names

variable (py : Python)

def entryType (path : String) : String :=
  let parts := path.splitOn "/"
  let stem := String.ofList ((parts.headD "").toList.reverse.dropWhile (· = 's')).reverse
  if parts.length > 1 ∧ stem ∈ validTypes then stem else "note"

def entryTitle (path : String) : String :=
  let dotted := ((path.splitOn "/").getLastD "").splitOn "."
  let base := if dotted.length > 1 then ".".intercalate dotted.dropLast
    else (path.splitOn "/").getLastD ""
  py.title ((base.replace "-" " ").replace "_" " ")

theorem frontmatter_eq_document (path content : String) :
    Agentbox.frontmatter py path content =
      document (entryTitle py path) (entryType path) content := rfl

theorem entryType_mem (path : String) : entryType path ∈ validTypes := by
  simp only [entryType]
  split
  · rename_i h
    exact h.2
  · decide

structure Day where
  year : List Char
  month : List Char
  day : List Char
  digits : ∀ c ∈ year ++ month ++ day, c.isDigit = true
  month_ne_nil : month ≠ []
  day_ne_nil : day ≠ []

def Day.isoformat (d : Day) : String :=
  String.ofList (d.year ++ '-' :: (d.month ++ '-' :: d.day))

def journalDocument (today now content : String) : String :=
  s!"---\ntitle: Journal {today}\ntype: journal\n---\n\n## {now}\n\n{content}"

theorem journalDocument_eq_document (today now content : String) :
    journalDocument today now content =
      document ("Journal " ++ today) "journal" s!"\n## {now}\n\n{content}" := by
  have h : (journalDocument today now content).toList =
      (document ("Journal " ++ today) "journal" s!"\n## {now}\n\n{content}").toList := by
    unfold journalDocument document
    simp only [toString, String.toList_append]
    simp
  exact String.toList_inj.mp h

end Names

section RoundTrip

variable (lib : Loader)

def RoundTrips (doc title type body : String) : Prop :=
  ∃ fields rest, parseFrontmatter lib doc = .ok (fields, rest) ∧
    Meta.get fields "title" = some (.text title) ∧ Meta.get fields "type" = some (.text type) ∧
    strip rest.toList = strip body.toList

variable {lib}

theorem validate_eq {fields fields' : Meta} (h : validate lib fields = .ok fields') :
    fields' = fields := by
  unfold validate at h
  split at h
  · cases h
  · split at h
    · split at h <;> cases h
      rfl
    all_goals cases h

theorem parseHeader_ok {text : List Char} {fields : Meta} (h : parseHeader lib text = .ok fields) :
    lib.safeLoad (String.ofList text) = .ok (.mapping fields) := by
  unfold parseHeader at h
  split at h
  · cases h
  · rename_i loaded hload
    rw [validate_eq h, hload]
  · cases h

theorem parseHeader_of_text {title type : String} (hplain : Plain title)
    (htype : type ∈ validTypes) (htext : lib.resolve title = .ok (.text title)) :
    parseHeader lib (header title type).toList =
      .ok [(.text "title", .text title), (.text "type", .text type)] := by
  have hload := lib.plain title type hplain htype
  rw [htext] at hload
  have htitle : title ≠ "" := by
    rintro rfl
    exact absurd hplain.1 (by decide)
  have hnonempty : type ≠ "" := by
    rintro rfl
    exact absurd htype (by decide)
  have hload' : lib.safeLoad (header title type) =
      .ok (.mapping [(.text "title", .text title), (.text "type", .text type)]) := hload
  simp only [parseHeader, String.ofList_toList, hload']
  simp [validate, missing, requiredFields, Meta.get, Yaml.isText, Yaml.truthy, htitle, hnonempty,
    htype]

theorem document_roundTrips_iff {title type : String} (hfence : Unfenced title.toList)
    (htype : type ∈ validTypes) (content : String) :
    RoundTrips lib (document title type content) title type content ↔
      Plain title ∧ lib.resolve title = .ok (.text title) := by
  unfold RoundTrips
  rw [parseFrontmatter_document lib hfence htype content]
  constructor
  · rintro ⟨fields, rest, hparse, htitle, -, -⟩
    cases hheader : parseHeader lib (header title type).toList with
    | error e =>
      rw [hheader] at hparse
      cases hparse
    | ok loaded =>
      rw [hheader] at hparse
      cases hparse
      have hload := parseHeader_ok hheader
      rw [String.ofList_toList] at hload
      by_cases hplain : Plain title
      · refine ⟨hplain, ?_⟩
        rw [lib.plain title type hplain htype] at hload
        cases hresolve : lib.resolve title with
        | error e =>
          rw [hresolve] at hload
          cases hload
        | ok v =>
          rw [hresolve] at hload
          cases hload
          simpa [Meta.get, Yaml.isText] using htitle
      · exact absurd (lib.shorter title type _ title hplain htype hload htitle)
          (Nat.lt_irrefl _)
  · rintro ⟨hplain, htext⟩
    refine ⟨_, _, by rw [parseHeader_of_text hplain htype htext]; rfl, ?_, ?_, ?_⟩
    · simp [Meta.get, Yaml.isText]
    · simp [Meta.get, Yaml.isText]
    · rw [String.toList_ofList, strip_strip]

end RoundTrip

section Journal

variable (d : Day)

theorem notMem_hyphen_of_digits {l : List Char} (h : ∀ c ∈ l, c.isDigit = true) : '-' ∉ l :=
  fun hmem => absurd (h '-' hmem) (by decide)

theorem isDigit_head {l : List Char} (h : ∀ c ∈ l, c.isDigit = true) : l.head? ≠ some '-' := by
  intro hhead
  exact notMem_hyphen_of_digits h (List.mem_of_mem_head? hhead)

theorem isInline_of_digit {c : Char} (h : c.isDigit = true) : isInline c = true := by
  simp only [Char.isDigit, Bool.and_eq_true, decide_eq_true_eq, ge_iff_le,
    UInt32.le_iff_toNat_le] at h
  simp only [isInline, isPrintable, Bool.and_eq_true, decide_eq_true_eq, ne_eq,
    UInt32.le_iff_toNat_le, ← UInt32.toNat_inj]
  have h0 : '0'.val.toNat = 48 := rfl
  have h9 : '9'.val.toNat = 57 := rfl
  refine ⟨⟨.inl ⟨?_, ?_⟩, ?_⟩, ?_⟩
  · change 32 ≤ _
    omega
  · change _ ≤ 126
    omega
  · change ¬_ = 8232
    omega
  · change ¬_ = 8233
    omega

theorem plainRest_of_notMem : ∀ {l : List Char}, ':' ∉ l → '#' ∉ l → l.getLast? ≠ some ' ' →
    plainRest l = true
  | [], _, _, _ => rfl
  | [c], hcolon, _, hlast => by
    have hc : c ≠ ':' := fun h => hcolon (by simp [h])
    have hs : c ≠ ' ' := fun h => hlast (by simp [h])
    simp [plainRest, hc, hs]
  | c :: e :: l, hcolon, hhash, hlast => by
    have hc : c ≠ ':' := fun h => hcolon (by simp [h])
    have he : e ≠ '#' := fun h => hhash (by simp [h])
    have hrest : plainRest (e :: l) = true :=
      plainRest_of_notMem (fun h => hcolon (List.mem_cons_of_mem c h))
        (fun h => hhash (List.mem_cons_of_mem c h)) (by rwa [List.getLast?_cons_cons] at hlast)
    simp [plainRest, hc, he, hrest]

theorem journalTitle_toList : ("Journal " ++ d.isoformat).toList =
    "Journal ".toList ++ (d.year ++ '-' :: (d.month ++ '-' :: d.day)) := by
  simp [Day.isoformat]

theorem mem_journalTitle {c : Char} (h : c ∈ ("Journal " ++ d.isoformat).toList) :
    c ∈ "Journal ".toList ∨ c.isDigit = true ∨ c = '-' := by
  have hdigits := d.digits c
  rw [journalTitle_toList] at h
  simp only [List.mem_append, List.mem_cons] at h hdigits
  tauto

theorem unfenced_journalTitle : Unfenced ("Journal " ++ d.isoformat).toList := by
  have hyear : ∀ c ∈ d.year, c.isDigit = true := fun c hc => d.digits c (by simp [hc])
  have hmonth : ∀ c ∈ d.month, c.isDigit = true := fun c hc => d.digits c (by simp [hc])
  have hday : ∀ c ∈ d.day, c.isDigit = true := fun c hc => d.digits c (by simp [hc])
  have hstart : '-' ∉ "Journal ".toList ++ d.year := by
    rw [List.mem_append, not_or]
    exact ⟨by decide, notMem_hyphen_of_digits hyear⟩
  have hrest : Unfenced (d.month ++ '-' :: d.day) :=
    Unfenced.append_hyphen (notMem_hyphen_of_digits hmonth)
      (unfenced_of_notMem (notMem_hyphen_of_digits hday)) (isDigit_head hday)
  rw [journalTitle_toList, ← List.append_assoc]
  apply Unfenced.append_hyphen hstart hrest
  cases hm : d.month with
  | nil => exact absurd hm d.month_ne_nil
  | cons c m =>
    intro hc
    rw [hm] at hmonth
    exact isDigit_head hmonth (by simpa using hc)

theorem plain_journalTitle : Plain ("Journal " ++ d.isoformat) := by
  refine ⟨by rw [journalTitle_toList]; simp [plainStart, indicators], ?_, ?_⟩
  · apply plainRest_of_notMem
    · intro h
      rcases mem_journalTitle d h with h | h | h <;> revert h <;> decide
    · intro h
      rcases mem_journalTitle d h with h | h | h <;> revert h <;> decide
    · intro h
      have hlast : ("Journal " ++ d.isoformat).toList.getLast? = d.day.getLast? := by
        rw [journalTitle_toList]
        cases hd : d.day with
        | nil => exact absurd hd d.day_ne_nil
        | cons c l => simp [List.getLast?_append, List.getLast?_cons]
      rw [hlast] at h
      have hdigit := d.digits ' ' (by simp [List.mem_of_getLast? h])
      exact absurd hdigit (by decide)
  · rw [List.all_eq_true]
    intro c hc
    rcases mem_journalTitle d hc with h | h | rfl
    · have hall : "Journal ".toList.all isInline = true := by decide
      exact List.all_eq_true.mp hall c h
    · exact isInline_of_digit h
    · decide

theorem journalDocument_roundTrips (lib : Loader) (now content : String) :
    RoundTrips lib (journalDocument d.isoformat now content) ("Journal " ++ d.isoformat) "journal"
      s!"\n## {now}\n\n{content}" := by
  rw [journalDocument_eq_document]
  apply (document_roundTrips_iff (unfenced_journalTitle d) (by decide) _).mpr
  refine ⟨plain_journalTitle d, ?_⟩
  apply lib.resolve_text _ 'J' ("ournal ".toList ++ d.isoformat.toList)
  · simp
  · decide

end Journal

theorem frontmatter_roundTrips_iff (lib : Loader) (py : Python) :
    (∀ path content, '-' ∉ (entryTitle py path).toList →
      (RoundTrips lib (Agentbox.frontmatter py path content) (entryTitle py path) (entryType path)
          content ↔
        Plain (entryTitle py path) ∧
          lib.resolve (entryTitle py path) = .ok (.text (entryTitle py path)))) ∧
      ∀ (d : Day) (now content : String),
        RoundTrips lib (journalDocument d.isoformat now content) ("Journal " ++ d.isoformat)
          "journal" s!"\n## {now}\n\n{content}" := by
  refine ⟨fun path content htitle => ?_, fun d now content =>
    journalDocument_roundTrips d lib now content⟩
  rw [frontmatter_eq_document]
  exact document_roundTrips_iff (unfenced_of_notMem htitle) (entryType_mem path) content

section Instances

def titleLine : List Char := "title: ".toList

def typeLine : List Char := "\ntype: ".toList

theorem titleLine_eq : titleLine = "title: ".toList := by
  delta titleLine
  rfl

theorem typeLine_eq : typeLine = "\ntype: ".toList := by
  delta typeLine
  rfl

def resolveWord (s : String) : Except String Yaml :=
  match s.toList with
  | [] => .ok .null
  | c :: _ =>
    if c ∈ implicitStart then
      if s ∈ ["True", "Yes", "On"] then .ok (.bool true)
      else if s ∈ ["False", "No", "Off"] then .ok (.bool false)
      else if s ∈ ["Null", "~"] then .ok .null
      else if s.toList.all Char.isDigit then .ok (.scalar s true)
      else .ok (.text s)
    else .ok (.text s)

def loadHeader (s : List Char) : Except String Yaml :=
  let rest := s.drop titleLine.length
  let title := rest.takeWhile (· ≠ '\n')
  let type := String.ofList ((rest.dropWhile (· ≠ '\n')).drop typeLine.length)
  if Plain (String.ofList title) ∧ type ∈ validTypes then
    (resolveWord (String.ofList title)).map fun v =>
      .mapping [(.text "title", v), (.text "type", .text type)]
  else .error "not supported"

theorem resolveWord_text {s t : String} (h : resolveWord s = .ok (.text t)) : t = s := by
  unfold resolveWord at h
  split at h
  · cases h
  · split at h
    · repeat' split at h
      all_goals cases h
      rfl
    · cases h
      rfl

theorem header_toList_eq (title type : String) :
    (header title type).toList = titleLine ++ (title.toList ++ (typeLine ++ type.toList)) := by
  simp [header, titleLine_eq, typeLine_eq]

theorem takeWhile_length_lt {l : List Char} (h : '\n' ∈ l) (u : List Char) :
    ((l ++ u).takeWhile (· ≠ '\n')).length < l.length := by
  induction l with
  | nil => cases h
  | cons c l ih =>
    by_cases hc : c = '\n'
    · simp [hc]
    · have hmem : '\n' ∈ l := by simpa [Ne.symm hc] using h
      simpa [hc] using ih hmem

theorem takeWhile_line {l : List Char} (h : '\n' ∉ l) (u : List Char) :
    (l ++ (typeLine ++ u)).takeWhile (· ≠ '\n') = l ∧
      (l ++ (typeLine ++ u)).dropWhile (· ≠ '\n') = typeLine ++ u := by
  induction l with
  | nil => exact ⟨by simp [typeLine_eq], by simp [typeLine_eq]⟩
  | cons c l ih =>
    rw [List.mem_cons, not_or] at h
    have hc := Ne.symm h.1
    simpa [hc] using ih h.2

theorem notMem_newline_of_plain {s : String} (h : Plain s) : '\n' ∉ s.toList := by
  intro hmem
  have hinline := List.all_eq_true.mp h.2.2 '\n' hmem
  exact absurd hinline (by decide)

theorem loadHeader_of_line {title : String} (h : '\n' ∉ title.toList) {type : String}
    (htype : type ∈ validTypes) :
    loadHeader (header title type).toList =
      if Plain title then
        (resolveWord title).map fun v => .mapping [(.text "title", v), (.text "type", .text type)]
      else .error "not supported" := by
  obtain ⟨htake, hdrop⟩ := takeWhile_line h type.toList
  simp only [loadHeader, header_toList_eq, List.drop_left, htake, hdrop, String.ofList_toList,
    htype, and_true]

def loader : Loader where
  safeLoad s := loadHeader s.toList
  resolve := resolveWord
  str _ := ""
  resolve_text s c cs hs hc := by
    simp only [resolveWord, hs, if_neg hc]
  plain title type hplain htype := by
    rw [loadHeader_of_line (notMem_newline_of_plain hplain) htype, if_pos hplain]
  shorter title type fields t hplain htype hload ht := by
    by_cases hline : '\n' ∈ title.toList
    · simp only [loadHeader, header_toList_eq, List.drop_left] at hload
      split at hload
      · have hlt := takeWhile_length_lt hline (typeLine ++ type.toList)
        revert hload hlt
        generalize (title.toList ++ (typeLine ++ type.toList)).takeWhile (· ≠ '\n') = line
        intro hload hlt
        cases hresolve : resolveWord (String.ofList line) with
        | error e =>
          rw [hresolve] at hload
          cases hload
        | ok v =>
          rw [hresolve] at hload
          cases hload
          have hv : v = .text t := by simpa [Meta.get, Yaml.isText] using ht
          rw [hv] at hresolve
          rw [resolveWord_text hresolve]
          simpa [String.length_toList] using hlt
      · cases hload
    · rw [loadHeader_of_line hline htype, if_neg hplain] at hload
      cases hload

def capitalised (word : String) : Python where
  str _ := ""
  strip s := s
  upper s := s
  title _ := word
  split s := [s]
  int _ := .error ""
  hostname s := .ok s

/-- The file `true.md` is given the title `True`, which YAML loads as a boolean. -/
theorem frontmatter_not_roundTrips :
    ¬RoundTrips loader (Agentbox.frontmatter (capitalised "True") "true.md" "text")
      (entryTitle (capitalised "True") "true.md") (entryType "true.md") "text" := by
  rw [frontmatter_eq_document]
  intro h
  have htitle : entryTitle (capitalised "True") "true.md" = "True" := rfl
  rw [htitle] at h
  obtain ⟨-, htext⟩ := (@document_roundTrips_iff loader _ _
    (unfenced_of_notMem (by decide)) (entryType_mem "true.md") "text").mp h
  have hbool : loader.resolve "True" = .ok (.bool true) := rfl
  rw [hbool] at htext
  cases htext

theorem frontmatter_roundTrips_guide :
    RoundTrips loader (Agentbox.frontmatter (capitalised "Guide") "guide.md" "text")
      (entryTitle (capitalised "Guide") "guide.md") (entryType "guide.md") "text" := by
  apply ((frontmatter_roundTrips_iff loader (capitalised "Guide")).1 "guide.md" "text" ?_).mpr
  · change Plain "Guide" ∧ resolveWord "Guide" = .ok (.text "Guide")
    exact ⟨by decide, rfl⟩
  · change '-' ∉ "Guide".toList
    decide

end Instances

end Hill90.Knowledge