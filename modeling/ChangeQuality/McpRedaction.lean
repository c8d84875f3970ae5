import ChangeQuality.McpServers
import Mathlib.Data.Option.Basic

/-!
`sanitize_mcp_error`: the text of an exception without the secrets of a server, bearer tokens and
assignments to names that look secret.
-/

namespace ChangeQuality.McpRedaction

open ChangeQuality.Values
open ChangeQuality.McpServers

abbrev Chars := List Char

/-- `str.replace` for a text that is not empty; the next `skip` characters are those of a match. -/
def replaceFrom (old new : Chars) : Nat → Chars → Chars
  | _, [] => []
  | skip + 1, _ :: s => replaceFrom old new skip s
  | 0, c :: s =>
    if old.isPrefixOf (c :: s) then new ++ replaceFrom old new (old.length - 1) s
    else c :: replaceFrom old new 0 s

/-- A pattern with its replacement: from the character before and the text that follows, what
replaces a match that starts here, and the length of the match. -/
abbrev Pattern := Option Char → Chars → Option (Chars × Nat)

/-- `pattern.sub(replacement, text)`. -/
def subFrom (pattern : Pattern) : Nat → Option Char → Chars → Chars
  | _, _, [] => []
  | skip + 1, _, c :: s => subFrom pattern skip (some c) s
  | 0, before, c :: s =>
    match pattern before (c :: s) with
    | some (replacement, length) => replacement ++ subFrom pattern (length - 1) (some c) s
    | none => c :: subFrom pattern 0 (some c) s

/-- A letter of a pattern under `(?i)`; `i`, `k` and `s` also match letters outside ASCII. -/
def matchesLetter (p c : Char) : Bool :=
  c.toLower = p || (p = 'i' && [0x130, 0x131].contains c.toNat) ||
    (p = 'k' && c.toNat = 0x212a) || (p = 's' && c.toNat = 0x17f)

/-- The text behind a word under `(?i)`, with the part that matches. -/
def takeWord : Chars → Chars → Option (Chars × Chars)
  | [], s => some ([], s)
  | _ :: _, [] => none
  | p :: word, c :: s =>
    if matchesLetter p c then (takeWord word s).map fun (found, rest) => (c :: found, rest)
    else none

/-- `[^\s,;'"}]`. -/
def isValueChar (c : Char) : Bool :=
  !isSpace c && !([0x2c, 0x3b, 0x27, 0x22, 0x7d].contains c.toNat)

def isQuote (c : Char) : Bool :=
  [0x27, 0x22].contains c.toNat

def redacted : Chars :=
  "[redacted]".toList

/-- `bearer\s+`. -/
def takeBearer (s : Chars) : Option (Chars × Chars) := do
  let (word, rest) ← takeWord "bearer".toList s
  let blank := rest.takeWhile isSpace
  if blank.isEmpty then none else some (word ++ blank, rest.dropWhile isSpace)

/-- `[^\s,;'"}]+`. -/
def takeValue (s : Chars) : Option (Chars × Chars) :=
  let value := s.takeWhile isValueChar
  if value.isEmpty then none else some (value, s.dropWhile isValueChar)

/-- `(['"]?)`. -/
def takeQuote (s : Chars) : Chars × Chars :=
  match s with
  | c :: rest => if isQuote c then ([c], rest) else ([], s)
  | [] => ([], [])

/-- `_BEARER_TOKEN_RE` and its replacement. -/
def bearerToken : Pattern := fun _ s => do
  let (bearer, rest) ← takeBearer s
  let (value, _) ← takeValue rest
  some (bearer ++ redacted, bearer.length + value.length)

/-- The alternatives of the first group of `_SENSITIVE_ERROR_ASSIGNMENT_RE`. -/
def sensitiveNames : List Chars :=
  ["token", "secret", "password", "api_key", "api-key", "apikey", "authorization",
    "credential"].map String.toList

/-- `(\s*[:=]\s*)`. -/
def takeSeparator (s : Chars) : Option (Chars × Chars) :=
  match s.dropWhile isSpace with
  | c :: rest =>
    if c = ':' ∨ c = '=' then
      some (s.takeWhile isSpace ++ c :: rest.takeWhile isSpace, rest.dropWhile isSpace)
    else none
  | [] => none

/-- `(bearer\s+)?([^\s,;'"}]+)`: where no value follows, `bearer` is the value itself. -/
def takeBearerValue (s : Chars) : Option (Chars × Chars × Chars) :=
  let withBearer := do
    let (bearer, rest) ← takeBearer s
    let (value, rest) ← takeValue rest
    some (bearer, value, rest)
  withBearer.or ((takeValue s).map fun (value, rest) => ([], value, rest))

/-- `_SENSITIVE_ERROR_ASSIGNMENT_RE` and its replacement; `isWord` is the class `\w`. -/
def sensitiveAssignment (isWord : Char → Bool) : Pattern := fun before s => do
  guard !(before.any isWord)
  let (name, rest) ← sensitiveNames.findSome? fun name => takeWord name s
  let (separator, rest) ← takeSeparator rest
  let (opening, rest) := takeQuote rest
  let (bearer, value, rest) ← takeBearerValue rest
  let (closing, _) := takeQuote rest
  let kept := name ++ separator ++ opening ++ bearer
  some (kept ++ redacted ++ closing, kept.length + value.length + closing.length)

/-- `_server_secret_values`, the longest ones first. -/
def serverSecretValues (server : McpServer) : List String :=
  (((server.env ++ server.headers).map Prod.snd).filter (· ≠ "")).eraseDups.mergeSort
    fun a b => b.length ≤ a.length

/-- `sanitize_mcp_error`; `str` is the text of an exception. -/
def sanitizeMcpError (isWord : Char → Bool) (str : Exn → String) (exc : Exn) (server : McpServer) :
    String :=
  let message := if str exc = "" then "MCP operation timed out." else str exc
  let replaced := (serverSecretValues server).foldl
    (fun text secret => replaceFrom secret.toList redacted 0 text) message.toList
  let unborne := subFrom bearerToken 0 none replaced
  String.ofList (subFrom (sensitiveAssignment isWord) 0 none unborne)

theorem replaceFrom_ne_nil {old new s : Chars} (hnew : new ≠ []) (hs : s ≠ []) :
    replaceFrom old new 0 s ≠ [] := by
  cases s with
  | nil => exact absurd rfl hs
  | cons c s =>
      unfold replaceFrom
      split
      · exact List.append_ne_nil_of_left_ne_nil hnew _
      · exact List.cons_ne_nil _ _

theorem subFrom_ne_nil {pattern : Pattern} {s : Chars}
    (hpattern : ∀ before s r n, pattern before s = some (r, n) → r ≠ []) (before : Option Char)
    (hs : s ≠ []) :
    subFrom pattern 0 before s ≠ [] := by
  cases s with
  | nil => exact absurd rfl hs
  | cons c s =>
      unfold subFrom
      split
      next hmatch => exact List.append_ne_nil_of_left_ne_nil (hpattern _ _ _ _ hmatch) _
      · exact List.cons_ne_nil _ _

theorem redacted_ne_nil : redacted ≠ [] := by
  decide

theorem bearerToken_ne_nil (before : Option Char) (s r : Chars) (n : Nat)
    (h : bearerToken before s = some (r, n)) : r ≠ [] := by
  simp only [bearerToken, Option.bind_eq_bind, Option.bind_eq_some_iff] at h
  obtain ⟨⟨bearer, rest⟩, _, ⟨value, _⟩, _, h⟩ := h
  obtain ⟨rfl, _⟩ := Prod.mk.inj (Option.some.inj h)
  exact List.append_ne_nil_of_right_ne_nil _ redacted_ne_nil

theorem sensitiveAssignment_ne_nil (isWord : Char → Bool) (before : Option Char) (s r : Chars)
    (n : Nat) (h : sensitiveAssignment isWord before s = some (r, n)) : r ≠ [] := by
  simp only [sensitiveAssignment, Option.bind_eq_bind, Option.bind_eq_some_iff] at h
  obtain ⟨_, _, ⟨name, _⟩, _, ⟨separator, _⟩, _, ⟨bearer, value, _⟩, _, h⟩ := h
  obtain ⟨rfl, _⟩ := Prod.mk.inj (Option.some.inj h)
  exact List.append_ne_nil_of_left_ne_nil
    (List.append_ne_nil_of_right_ne_nil _ redacted_ne_nil) _

theorem foldl_replaceFrom_ne_nil (secrets : List String) {text : Chars} (h : text ≠ []) :
    secrets.foldl (fun text secret => replaceFrom secret.toList redacted 0 text) text ≠ [] := by
  induction secrets generalizing text with
  | nil => exact h
  | cons secret secrets ih => exact ih (replaceFrom_ne_nil redacted_ne_nil h)

/-- The stored text of a failure is never empty. -/
theorem sanitizeMcpError_ne_empty (isWord : Char → Bool) (str : Exn → String) (exc : Exn)
    (server : McpServer) : sanitizeMcpError isWord str exc server ≠ "" := by
  have hmessage : (if str exc = "" then "MCP operation timed out." else str exc).toList ≠ [] := by
    split
    · decide
    next h => exact fun hnil => h (String.toList_eq_nil_iff.mp hnil)
  have hreplaced := foldl_replaceFrom_ne_nil (serverSecretValues server) hmessage
  have hunborne := subFrom_ne_nil bearerToken_ne_nil none hreplaced
  have hfinal := subFrom_ne_nil (sensitiveAssignment_ne_nil isWord) none hunborne
  exact fun hempty => hfinal (String.ofList_eq_empty_iff.mp hempty)

example : String.ofList (subFrom (sensitiveAssignment Char.isAlphanum) 0 none
    "startup failed token=super-secret Authorization: Bearer header-secret".toList) =
      "startup failed token=[redacted] Authorization: Bearer [redacted]" := by
  decide

end ChangeQuality.McpRedaction
