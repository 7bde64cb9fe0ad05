import Mathlib.Data.List.DropRight

/-! # The frontmatter of an entry

`frontmatter.py` over the loader of YAML: a header between two fences, which must be a mapping with
a title and a known type, and the body after it.
-/

namespace Hill90.Knowledge

inductive Yaml where
  | null
  | bool (b : Bool)
  | text (s : String)
  | scalar (repr : String) (truthy : Bool)
  | sequence (items : List Yaml)
  | mapping (members : List (Yaml × Yaml))

namespace Yaml

def truthy : Yaml → Bool
  | null => false
  | bool b => b
  | text s => s ≠ ""
  | scalar _ t => t
  | sequence items => !items.isEmpty
  | mapping members => !members.isEmpty

def isText (field : String) : Yaml → Bool
  | text s => s = field
  | _ => false

end Yaml

abbrev Meta := List (Yaml × Yaml)

def Meta.get (fields : Meta) (field : String) : Option Yaml :=
  (fields.find? fun p => p.1.isText field).map Prod.snd

def validTypes : List String :=
  ["plan", "decision", "journal", "research", "context", "note", "notebook"]

def requiredFields : List String := ["title", "type"]

def isSpace (c : Char) : Bool :=
  (9 ≤ c.val ∧ c.val ≤ 13) ∨ (28 ≤ c.val ∧ c.val ≤ 32) ∨ c.val = 0x85 ∨ c.val = 0xA0 ∨
    c.val = 0x1680 ∨ (0x2000 ≤ c.val ∧ c.val ≤ 0x200A) ∨ c.val = 0x2028 ∨ c.val = 0x2029 ∨
    c.val = 0x202F ∨ c.val = 0x205F ∨ c.val = 0x3000

def strip (s : List Char) : List Char := (s.dropWhile isSpace).rdropWhile isSpace

def findSub (p : List Char) : List Char → Option ℕ
  | [] => if p = [] then some 0 else none
  | c :: s => if p.isPrefixOf (c :: s) then some 0 else (findSub p s).map (· + 1)

def fence : List Char := ['-', '-', '-']

inductive Failure where
  | valueError (message : String)
  | typeError (message : String)
  deriving DecidableEq, Repr

def header (title type : String) : String := "title: " ++ title ++ "\ntype: " ++ type

section Plain

/-- The indicators a plain scalar does not start with. -/
def indicators : List Char :=
  ['-', '?', ':', ',', '[', ']', '{', '}', '#', '&', '*', '!', '|', '>', '\'', '"', '%', '@',
    Char.ofNat 0x60]

def isPrintable (c : Char) : Bool :=
  (0x20 ≤ c.val ∧ c.val ≤ 0x7E) ∨ (0xA0 ≤ c.val ∧ c.val ≤ 0xD7FF) ∨
    (0xE000 ≤ c.val ∧ c.val ≤ 0xFFFD) ∨ 0x10000 ≤ c.val

def isInline (c : Char) : Bool := isPrintable c && c.val ≠ 0x2028 && c.val ≠ 0x2029

/-- The first character of a plain scalar; `-`, `?` and `:` may be, where no space follows. -/
def plainStart : List Char → Bool
  | [] => false
  | [c] => c ≠ ' ' && c ∉ indicators
  | c :: d :: _ => c ≠ ' ' && (c ∉ indicators || ((c = '-' || c = '?' || c = ':') && d ≠ ' '))

/-- No colon ends the scalar and no comment. -/
def plainRest : List Char → Bool
  | [] => true
  | [c] => c ≠ ':' && c ≠ ' '
  | c :: d :: s => !(c = ':' && d = ' ') && !(c = ' ' && d = '#') && plainRest (d :: s)

def Plain (s : String) : Prop :=
  plainStart s.toList = true ∧ plainRest s.toList = true ∧ s.toList.all isInline = true

instance (s : String) : Decidable (Plain s) := inferInstanceAs (Decidable (_ ∧ _ ∧ _))

/-- The characters that a plain scalar which is no text may start with. -/
def implicitStart : List Char :=
  "yYnNtTfFoO-+0123456789.<~=".toList

end Plain

/-- The loader.  `resolve` is the value of a plain scalar; a scalar in any other form is longer than
the text it stands for. -/
structure Loader where
  safeLoad : String → Except String Yaml
  resolve : String → Except String Yaml
  str : Yaml → String
  resolve_text : ∀ s c cs, s.toList = c :: cs → c ∉ implicitStart → resolve s = .ok (.text s)
  plain : ∀ title type, Plain title → type ∈ validTypes →
    safeLoad (header title type) =
      (resolve title).map fun v => .mapping [(.text "title", v), (.text "type", .text type)]
  shorter : ∀ title type fields t, ¬Plain title → type ∈ validTypes →
    safeLoad (header title type) = .ok (.mapping fields) → Meta.get fields "title" = some (.text t) →
    t.length < title.length

section Source

variable (lib : Loader)

def missing (fields : Meta) : Option String :=
  requiredFields.find? fun field => !(Meta.get fields field).any Yaml.truthy

def validate (fields : Meta) : Except Failure Meta :=
  match missing fields with
  | some field => .error (.valueError s!"required frontmatter field missing: {field}")
  | none =>
    match Meta.get fields "type" with
    | some (.text type) =>
      if type ∈ validTypes then .ok fields
      else
        .error (.valueError
          s!"invalid type '{type}'; must be one of: context, decision, journal, note, notebook, plan, research")
    | some (.sequence _) | some (.mapping _) => .error (.typeError "unhashable type")
    | some v =>
      .error (.valueError
        s!"invalid type '{lib.str v}'; must be one of: context, decision, journal, note, notebook, plan, research")
    | none => .error (.valueError "required frontmatter field missing: type")

def parseHeader (text : List Char) : Except Failure Meta :=
  match lib.safeLoad (String.ofList text) with
  | .error e => .error (.valueError ("invalid YAML in frontmatter: " ++ e))
  | .ok (.mapping fields) => validate lib fields
  | .ok _ => .error (.valueError "frontmatter must be a YAML mapping")

def parseFrontmatter (content : String) : Except Failure (Meta × String) :=
  let content := strip content.toList
  if fence.isPrefixOf content then
    match findSub fence (content.drop 3) with
    | none => .error (.valueError "frontmatter closing delimiter (---) not found")
    | some n =>
      let text := strip ((content.drop 3).take n)
      let body := strip (content.drop (n + 6))
      (parseHeader lib text).map fun fields => (fields, String.ofList body)
  else .error (.valueError "content must begin with frontmatter (---)")

end Source

section Strip

theorem rdropWhile_append (p : Char → Bool) (a b : List Char) :
    (a ++ b).rdropWhile p =
      if (b.rdropWhile p) = [] then a.rdropWhile p else a ++ b.rdropWhile p := by
  simp only [List.rdropWhile, List.reverse_append, List.dropWhile_append, List.isEmpty_iff,
    List.reverse_eq_nil_iff]
  split <;> simp

theorem dropWhile_rdropWhile_comm (p : Char → Bool) (l : List Char) :
    (l.rdropWhile p).dropWhile p = (l.dropWhile p).rdropWhile p := by
  induction l with
  | nil => rfl
  | cons c l ih =>
    have hsplit := rdropWhile_append p [c] l
    rw [List.singleton_append] at hsplit
    by_cases hc : p c
    · rw [List.dropWhile_cons_of_pos hc, hsplit]
      by_cases hl : l.rdropWhile p = []
      · rw [if_pos hl, List.rdropWhile_singleton, if_pos hc, ← ih, hl]
      · rw [if_neg hl, List.singleton_append, List.dropWhile_cons_of_pos hc, ih]
    · rw [List.dropWhile_cons_of_neg hc]
      have hhead : ∀ t : List Char, (c :: t).dropWhile p = c :: t := fun t =>
        List.dropWhile_cons_of_neg hc
      by_cases hl : l.rdropWhile p = []
      · rw [hsplit, if_pos hl, List.rdropWhile_singleton, if_neg hc, hhead]
      · rw [hsplit, if_neg hl, List.singleton_append, hhead]

@[simp]
theorem strip_strip (l : List Char) : strip (strip l) = strip l := by
  simp only [strip]
  rw [dropWhile_rdropWhile_comm, List.dropWhile_idempotent, List.rdropWhile_idempotent]

theorem strip_cons_of_space {c : Char} (hc : isSpace c = true) (l : List Char) :
    strip (c :: l) = strip l := by
  simp only [strip]
  rw [List.dropWhile_cons_of_pos hc]

theorem strip_rdropWhile (l : List Char) : strip (l.rdropWhile isSpace) = strip l := by
  simp only [strip]
  rw [dropWhile_rdropWhile_comm, List.rdropWhile_idempotent]

theorem strip_concat_of_space {c : Char} (hc : isSpace c = true) (l : List Char) :
    strip (l ++ [c]) = strip l := by
  rw [← strip_rdropWhile (l ++ [c]), List.rdropWhile_concat_pos _ _ _ hc, strip_rdropWhile]

/-- A text that neither starts nor ends with a space. -/
theorem strip_eq_self {c d : Char} {l : List Char} (hc : isSpace c = false)
    (hd : isSpace d = false) : strip (c :: l ++ [d]) = c :: l ++ [d] := by
  rw [strip, List.cons_append, List.dropWhile_cons_of_neg (by simp [hc]), ← List.cons_append,
    List.rdropWhile_concat_neg _ _ _ (by simp [hd])]

end Strip

section Fence

theorem findSub_fence_cons {c : Char} (hc : c ≠ '-') (s : List Char) :
    findSub fence (c :: s) = (findSub fence s).map (· + 1) := by
  rw [findSub, if_neg]
  simp [fence, Ne.symm hc]

theorem findSub_fence_hyphen {c : Char} (hc : c ≠ '-') (s : List Char) :
    findSub fence ('-' :: c :: s) = (findSub fence (c :: s)).map (· + 1) := by
  rw [findSub, if_neg]
  simp [fence, Ne.symm hc]

/-- No fence starts within the text, whatever follows it on a new line. -/
def Unfenced (u : List Char) : Prop :=
  ∀ s, findSub fence (u ++ '\n' :: s) = (findSub fence ('\n' :: s)).map (· + u.length)

theorem findSub_append_of_notMem {u : List Char} (h : '-' ∉ u) (s : List Char) :
    findSub fence (u ++ s) = (findSub fence s).map (· + u.length) := by
  induction u with
  | nil => simp
  | cons c u ih =>
    rw [List.mem_cons, not_or] at h
    rw [List.cons_append, findSub_fence_cons (Ne.symm h.1), ih h.2, Option.map_map]
    rfl

theorem unfenced_of_notMem {u : List Char} (h : '-' ∉ u) : Unfenced u := fun _ =>
  findSub_append_of_notMem h _

/-- A hyphen alone opens no fence. -/
theorem Unfenced.append_hyphen {u v : List Char} (hu : '-' ∉ u) (hv : Unfenced v)
    (hne : v.head? ≠ some '-') : Unfenced (u ++ '-' :: v) := by
  intro s
  have hstep : findSub fence ('-' :: (v ++ '\n' :: s)) =
      (findSub fence (v ++ '\n' :: s)).map (· + 1) := by
    cases v with
    | nil => exact findSub_fence_hyphen (by decide) s
    | cons c v =>
      have hc : c ≠ '-' := fun h => hne (by rw [h]; rfl)
      exact findSub_fence_hyphen hc _
  rw [List.append_assoc, List.cons_append, findSub_append_of_notMem hu, hstep, hv s,
    Option.map_map, Option.map_map]
  congr 1
  funext n
  simp only [Function.comp, List.length_append, List.length_cons]
  omega

end Fence

/-- The document with a header of a title and a type. -/
def document (title type content : String) : String :=
  s!"---\ntitle: {title}\ntype: {type}\n---\n{content}"

theorem document_toList (title type content : String) :
    (document title type content).toList =
      fence ++ ('\n' :: (header title type).toList ++ ['\n']) ++ fence ++ '\n' :: content.toList := by
  change (s!"---\ntitle: {title}\ntype: {type}\n---\n{content}").toList = _
  simp [header, fence, toString]

/-- A type ends with a character that is no space, and has no hyphen. -/
theorem validTypes_toList {type : String} (h : type ∈ validTypes) :
    '-' ∉ type.toList ∧ ∃ s c, type.toList = s ++ [c] ∧ isSpace c = false := by
  simp only [validTypes, List.mem_cons, List.not_mem_nil, or_false] at h
  rcases h with rfl | rfl | rfl | rfl | rfl | rfl | rfl
  · exact ⟨by decide, "pla".toList, 'n', by decide, by decide⟩
  · exact ⟨by decide, "decisio".toList, 'n', by decide, by decide⟩
  · exact ⟨by decide, "journa".toList, 'l', by decide, by decide⟩
  · exact ⟨by decide, "researc".toList, 'h', by decide, by decide⟩
  · exact ⟨by decide, "contex".toList, 't', by decide, by decide⟩
  · exact ⟨by decide, "not".toList, 'e', by decide, by decide⟩
  · exact ⟨by decide, "noteboo".toList, 'k', by decide, by decide⟩

theorem strip_header (title : String) {type : String} (h : type ∈ validTypes) :
    strip ('\n' :: (header title type).toList ++ ['\n']) = (header title type).toList := by
  obtain ⟨-, s, c, htype, hc⟩ := validTypes_toList h
  rw [strip_concat_of_space (by decide), strip_cons_of_space (by decide)]
  have hheader : (header title type).toList =
      't' :: ("itle: ".toList ++ title.toList ++ "\ntype: ".toList ++ s) ++ [c] := by
    simp [header, htype]
  rw [hheader, strip_eq_self (by decide) hc]

theorem findSub_header {title type : String} (hfence : Unfenced title.toList)
    (h : '-' ∉ type.toList) (s : List Char) :
    findSub fence ('\n' :: (header title type).toList ++ ['\n'] ++ fence ++ s) =
      some ('\n' :: (header title type).toList ++ ['\n']).length := by
  have hstart : '-' ∉ "\ntitle: ".toList := by decide
  have hend : '-' ∉ "\ntype: ".toList ++ type.toList ++ ['\n'] := by
    simp [h]
  have hsplit : '\n' :: (header title type).toList ++ ['\n'] ++ fence ++ s =
      "\ntitle: ".toList ++ (title.toList ++ ("\ntype: ".toList ++ type.toList ++ ['\n'] ++
        (fence ++ s))) := by
    simp [header]
  have hfound : findSub fence (fence ++ s) = some 0 := by
    simp [fence, findSub]
  have hrest := hfence ("type: ".toList ++ type.toList ++ ['\n'] ++ (fence ++ s))
  have hline : '\n' :: ("type: ".toList ++ type.toList ++ ['\n'] ++ (fence ++ s)) =
      "\ntype: ".toList ++ type.toList ++ ['\n'] ++ (fence ++ s) := by
    simp
  rw [hline] at hrest
  rw [hsplit, findSub_append_of_notMem hstart, hrest, findSub_append_of_notMem hend, hfound]
  simp [header]
  omega

theorem strip_document (inner s : List Char) :
    strip (fence ++ inner ++ fence ++ s) = fence ++ inner ++ fence ++ s.rdropWhile isSpace := by
  have hstart : (fence ++ inner ++ fence ++ s).dropWhile isSpace = fence ++ inner ++ fence ++ s := by
    exact List.dropWhile_cons_of_neg (by decide)
  have hend : (fence ++ inner ++ fence).rdropWhile isSpace = fence ++ inner ++ fence := by
    have hlast : fence ++ inner ++ fence = fence ++ inner ++ ['-', '-'] ++ ['-'] := by
      simp [fence]
    rw [hlast, List.rdropWhile_concat_neg _ _ _ (by decide)]
  rw [strip, hstart, rdropWhile_append, hend]
  split
  · rename_i hs
    rw [hs, List.append_nil]
  · rfl

theorem parseFrontmatter_document (lib : Loader) {title type : String}
    (hfence : Unfenced title.toList) (htype : type ∈ validTypes) (content : String) :
    parseFrontmatter lib (document title type content) =
      (parseHeader lib (header title type).toList).map fun fields =>
        (fields, String.ofList (strip content.toList)) := by
  have hfind := findSub_header hfence (validTypes_toList htype).1
    (('\n' :: content.toList).rdropWhile isSpace)
  have hheader := strip_header title htype
  have hbody : strip (('\n' :: content.toList).rdropWhile isSpace) = strip content.toList := by
    rw [strip_rdropWhile, strip_cons_of_space (by decide)]
  revert hfind hheader
  generalize hinner : '\n' :: (header title type).toList ++ ['\n'] = inner
  intro hfind hheader
  have hdoc : strip (document title type content).toList =
      fence ++ inner ++ fence ++ ('\n' :: content.toList).rdropWhile isSpace := by
    rw [document_toList, hinner, strip_document]
  revert hbody hfind hdoc
  generalize ('\n' :: content.toList).rdropWhile isSpace = tail
  intro hbody hfind hdoc
  have hthree : (fence ++ inner ++ fence ++ tail).drop 3 = inner ++ fence ++ tail := by
    simp [fence]
  have hrest : (fence ++ inner ++ fence ++ tail).drop (inner.length + 6) = tail := by
    rw [List.drop_append_of_le_length, List.drop_eq_nil_of_le] <;> simp [fence]
  have htake : (inner ++ fence ++ tail).take inner.length = inner := by
    simp
  have hprefix : fence.isPrefixOf (fence ++ inner ++ fence ++ tail) = true := by
    simp [fence]
  simp only [parseFrontmatter, hdoc, hprefix, if_true, hthree, hfind, hrest, htake, hheader, hbody]

end Hill90.Knowledge
