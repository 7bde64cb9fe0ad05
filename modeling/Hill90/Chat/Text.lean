import Mathlib.Data.List.Basic

/-! # The text the chat routes take apart

`parseMentions` finds `@slug` at the beginning of a text or after white space;
`sanitizeDispatchReason` strips secrets from a reason before a column keeps it.
Both scan the characters once.  A slug holds neither white space nor `@`, so the scan
may run on inside the slug it has just found.
-/

namespace Hill90.Chat

/-- The white space of a regular expression's `\s` and of `trim()`. -/
def isSpace (c : Char) : Bool :=
  c ∈ [' ', '\t', '\n', '\r', '\x0b', '\x0c', '\u00a0', '\u1680', '\u2028', '\u2029', '\u202f',
    '\u205f', '\u3000', '\ufeff'] || (0x2000 ≤ c.toNat && c.toNat ≤ 0x200a)

def trim (text : String) : String :=
  String.ofList ((text.toList.dropWhile isSpace).reverse.dropWhile isSpace).reverse

def isSlugHead (c : Char) : Bool :=
  ('a' ≤ c && c ≤ 'z') || ('0' ≤ c && c ≤ '9')

def isSlugChar (c : Char) : Bool := isSlugHead c || c = '-'

def scanMentions : Bool → List Char → List String
  | _, [] => []
  | boundary, c :: cs =>
    let rest := scanMentions (isSpace c) cs
    match cs with
    | d :: _ =>
      if boundary && c = '@' && isSlugHead d then
        String.ofList (cs.takeWhile isSlugChar) :: rest
      else rest
    | [] => rest

def parseMentions (content : String) : List String :=
  (scanMentions true content.toList).eraseDups

example : parseMentions "@ann please ask @b-2, @Bob or a@c and @ann" = ["ann", "b-2"] := by decide

def dispatchReasonMaxLen : ℕ := 500

/-- `split(secret).join(mark)`, skipping the rest of an occurrence just replaced. -/
def replaceAll (secret mark : List Char) : ℕ → List Char → List Char
  | _, [] => []
  | k + 1, _ :: cs => replaceAll secret mark k cs
  | 0, c :: cs =>
    if secret.isPrefixOf (c :: cs) then mark ++ replaceAll secret mark (secret.length - 1) cs
    else c :: replaceAll secret mark 0 cs

/-- How many characters `/Bearer\s+\S+/i` takes from here, or none. -/
def bearerLength (cs : List Char) : ℕ :=
  let blank := (cs.drop 6).takeWhile isSpace
  let token := ((cs.drop 6).drop blank.length).takeWhile fun c => !isSpace c
  if (cs.take 6).map Char.toLower = "bearer".toList && !blank.isEmpty && !token.isEmpty then
    6 + blank.length + token.length
  else 0

def redactBearer : ℕ → List Char → List Char
  | _, [] => []
  | k + 1, _ :: cs => redactBearer k cs
  | 0, c :: cs =>
    match bearerLength (c :: cs) with
    | 0 => c :: redactBearer 0 cs
    | n + 1 => "Bearer [REDACTED]".toList ++ redactBearer n cs

def sanitizeDispatchReason (reason : String) (secrets : List (Option String)) : String :=
  let redacted := secrets.foldl (fun cs secret =>
    match secret with
    | some secret =>
      if secret.isEmpty then cs else replaceAll secret.toList "[REDACTED]".toList 0 cs
    | none => cs) reason.toList
  let sanitized := redactBearer 0 redacted
  if dispatchReasonMaxLen < sanitized.length then
    String.ofList (sanitized.take dispatchReasonMaxLen) ++ "…"
  else String.ofList sanitized

example : sanitizeDispatchReason "401: bearer  tok is not s3" [some "s3"] =
    "401: Bearer [REDACTED] is not [REDACTED]" := by decide

end Hill90.Chat
