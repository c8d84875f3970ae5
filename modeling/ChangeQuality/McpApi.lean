import ChangeQuality.MarkedTexts
import ChangeQuality.McpRedaction

/-!
What `_run_service` of the API answers when an operation fails. The text of the exception goes
through `sanitize_mcp_error` without the server, so only the two patterns take anything out of it.
-/

namespace ChangeQuality.McpApi

open ChangeQuality.Values
open ChangeQuality.McpServers
open ChangeQuality.McpRedaction
open ChangeQuality.MarkedTexts

/-- `str(exc) or MCP_OPERATION_TIMEOUT_MESSAGE`. -/
def messageOf (str : Exn → String) (exc : Exn) : String :=
  if str exc = "" then "MCP operation timed out." else str exc

/-- `sanitize_mcp_error(exc)`, with no server. -/
def sanitizeWithoutServer (isWord : Char → Bool) (str : Exn → String) (exc : Exn) : String :=
  let unborne := subFrom bearerToken 0 none (messageOf str exc).toList
  String.ofList (subFrom (sensitiveAssignment isWord) 0 none unborne)

structure HttpException where
  statusCode : Nat
  detail : Json

/-- The fixed text of a 502 response. -/
def failedText : String :=
  "MCP lifecycle operation failed: "

/-- The `except` clauses of `_run_service`, where `errors` is what a `McpServerValidationError`
carries. A cancellation passes through. -/
def runServiceError (isWord : Char → Bool) (str : Exn → String) (errors : Json) :
    Exn → Option HttpException
  | .notFound => some ⟨404, .str "MCP server not found."⟩
  | .nameConflict => some ⟨409, .str "MCP server name already exists."⟩
  | .updateConflict =>
      some ⟨409, .str "Stop the MCP server before updating its configuration."⟩
  | .validation => some ⟨422, errors⟩
  | .unsupportedTransport name =>
      some ⟨422, .str ("Unsupported MCP transport: " ++ str (.unsupportedTransport name))⟩
  | .commandNotAllowed _ => some ⟨422, .str "MCP stdio command is not allowed."⟩
  | .runtimeNotEnabled => some ⟨503, .str (str .runtimeNotEnabled)⟩
  | .cancelled => none
  | exc => some ⟨502, .str (failedText ++ sanitizeWithoutServer isWord str exc)⟩

/-- The values of `env` and `headers`. -/
def secretValues (server : McpServer) : List Chars :=
  (server.env ++ server.headers).map fun entry => entry.2.toList

/-- A match of `_BEARER_TOKEN_RE`: what is kept before the value, and the value. -/
def bearerMatch : Matcher Char := fun _ s => do
  let (bearer, rest) ← takeBearer s
  let (value, _) ← takeValue rest
  some (bearer, value, [])

/-- A match of `_SENSITIVE_ERROR_ASSIGNMENT_RE`: what is kept before the value, the value, and the
quote behind it. -/
def assignmentMatch (isWord : Char → Bool) : Matcher Char := fun before s => do
  guard !(before.any isWord)
  let (name, rest) ← sensitiveNames.findSome? fun name => takeWord name s
  let (separator, rest) ← takeSeparator rest
  let (opening, rest) := takeQuote rest
  let (bearer, value, rest) ← takeBearerValue rest
  let (closing, _) := takeQuote rest
  some (name ++ separator ++ opening ++ bearer, value, closing)

/-- The text with a marker for each value that one of the two patterns takes out. -/
def marked (isWord : Char → Bool) (message : Chars) : Labelled Char :=
  markFrom redacted (assignmentMatch isWord) 0 none
    (markFrom redacted bearerMatch 0 none (original message))

/-- The stretches of a message that both patterns leave alone. -/
def leftAlone (isWord : Char → Bool) (message : Chars) : List Chars :=
  stretchesFrom [] (marked isWord message)

section Parts

variable {s : Labelled Char}

theorem redacted_eq : redacted = ['[', 'r', 'e', 'd', 'a', 'c', 't', 'e', 'd', ']'] := by
  decide

theorem redacted_isValueChar : ∀ c ∈ redacted, isValueChar c = true :=
  List.all_eq_true.mp (by decide)

theorem redacted_not_isSpace : ∃ c rest, redacted = c :: rest ∧ isSpace c = false :=
  ⟨_, _, redacted_eq, by decide⟩

theorem cuts_takeWord (hs : Whole redacted s) {word found rest : Chars}
    (hword : ∀ p ∈ word, matchesLetter p '[' = false)
    (h : takeWord word (plain s) = some (found, rest)) : Cuts redacted s found rest := by
  induction word generalizing s found with
  | nil =>
      obtain ⟨rfl, rfl⟩ := Prod.mk.inj (Option.some.inj (by simpa [takeWord] using h))
      exact hs.cuts_nil
  | cons p word ih =>
      cases hs with
      | nil => simp [plain, takeWord] at h
      | @kept c s hs =>
          change takeWord (p :: word) (c :: plain s) = some (found, rest) at h
          simp only [takeWord, Option.ite_none_right_eq_some, Option.map_eq_some_iff] at h
          obtain ⟨-, ⟨found', rest'⟩, hrest, heq⟩ := h
          obtain ⟨rfl, rfl⟩ := Prod.mk.inj heq
          exact (ih hs (fun p hp => hword p (List.mem_cons_of_mem _ hp)) hrest).kept c
      | @marked s hs =>
          rw [plain_append, plain_marks, redacted_eq, List.cons_append] at h
          rw [takeWord, if_neg (by simp [hword p List.mem_cons_self])] at h
          cases h

theorem cuts_takeBearer (hs : Whole redacted s) {found rest : Chars}
    (h : takeBearer (plain s) = some (found, rest)) : Cuts redacted s found rest := by
  simp only [takeBearer, Option.bind_eq_bind, Option.bind_eq_some_iff,
    Option.ite_none_left_eq_some] at h
  obtain ⟨⟨word, behind⟩, hword, -, h⟩ := h
  obtain ⟨rfl, rfl⟩ := Prod.mk.inj (Option.some.inj h)
  have hsilent : ("bearer".toList.all fun p => !matchesLetter p '[') = true := by decide
  obtain ⟨a, b, rfl, rfl, rfl, ha, hb⟩ := cuts_takeWord hs (by simpa using hsilent) hword
  exact (hb.cuts_takeWhile (.inr redacted_not_isSpace)).behind ha

theorem cuts_takeValue (hs : Whole redacted s) {found rest : Chars}
    (h : takeValue (plain s) = some (found, rest)) : Cuts redacted s found rest ∧ found ≠ [] := by
  simp only [takeValue, Option.ite_none_left_eq_some, List.isEmpty_iff] at h
  obtain ⟨hne, h⟩ := h
  obtain ⟨rfl, rfl⟩ := Prod.mk.inj (Option.some.inj h)
  exact ⟨hs.cuts_takeWhile (.inl redacted_isValueChar), hne⟩

theorem cuts_takeQuote (hs : Whole redacted s) :
    Cuts redacted s (takeQuote (plain s)).1 (takeQuote (plain s)).2 := by
  cases hplain : plain s with
  | nil =>
      have hcuts := hs.cuts_nil
      rw [hplain] at hcuts
      exact hcuts
  | cons c rest =>
      unfold takeQuote
      dsimp only
      split
      · rename_i hquote
        refine hs.cuts_cons redacted_ne_nil hplain fun m hm => ?_
        rintro rfl
        rw [redacted_eq] at hm
        obtain rfl := Option.some.inj hm
        exact absurd hquote (by decide)
      · have hcuts := hs.cuts_nil
        rw [hplain] at hcuts
        exact hcuts

theorem cuts_takeSeparator (hs : Whole redacted s) {found rest : Chars}
    (h : takeSeparator (plain s) = some (found, rest)) : Cuts redacted s found rest := by
  obtain ⟨a, b, rfl, ha, hb, hwa, hwb⟩ := hs.cuts_takeWhile (.inr redacted_not_isSpace)
  unfold takeSeparator at h
  rw [← ha, ← hb] at h
  split at h
  · rename_i c behind hplain
    simp only [Option.ite_none_right_eq_some, Option.some.injEq, Prod.mk.injEq] at h
    obtain ⟨hc, rfl, rfl⟩ := h
    have hhead := hwb.cuts_cons redacted_ne_nil hplain fun m hm => by
      rintro rfl
      rw [redacted_eq] at hm
      obtain rfl := Option.some.inj hm
      exact absurd hc (by decide)
    obtain ⟨b₁, b₂, rfl, hb₁, rfl, hwb₁, hwb₂⟩ := hhead
    have hspaces := (hwb₂.cuts_takeWhile (.inr redacted_not_isSpace)).behind hwb₁
    rw [hb₁] at hspaces
    exact hspaces.behind hwa
  · cases h

theorem takeBearerValue_splits (hs : Whole redacted s) {bearer value rest : Chars}
    (h : takeBearerValue (plain s) = some (bearer, value, rest)) :
    ∃ a b d, s = a ++ (b ++ d) ∧ plain a = bearer ∧ plain b = value ∧ plain d = rest ∧
      Whole redacted a ∧ Whole redacted d ∧ b ≠ [] := by
  have hvalue {s : Labelled Char} (hs : Whole redacted s) {value rest : Chars}
      (h : takeValue (plain s) = some (value, rest)) : ∃ b d, s = b ++ d ∧ plain b = value ∧
        plain d = rest ∧ Whole redacted d ∧ b ≠ [] := by
    obtain ⟨⟨b, d, rfl, rfl, rfl, -, hd⟩, hne⟩ := cuts_takeValue hs h
    exact ⟨b, d, rfl, rfl, rfl, hd, by rintro rfl; exact hne rfl⟩
  rcases Option.or_eq_some_iff.mp h with hwith | ⟨-, hwithout⟩
  · simp only [Option.bind_eq_bind, Option.bind_eq_some_iff] at hwith
    obtain ⟨⟨bearer', behind⟩, hbearer, ⟨value', rest'⟩, htake, heq⟩ := hwith
    simp only [Option.some.injEq, Prod.mk.injEq] at heq
    obtain ⟨rfl, rfl, rfl⟩ := heq
    obtain ⟨a, t, rfl, rfl, rfl, ha, ht⟩ := cuts_takeBearer hs hbearer
    obtain ⟨b, d, rfl, hb, hd, hwhole, hne⟩ := hvalue ht htake
    exact ⟨a, b, d, rfl, rfl, hb, hd, ha, hwhole, hne⟩
  · obtain ⟨⟨value', rest'⟩, htake, heq⟩ := Option.map_eq_some_iff.mp hwithout
    simp only [Prod.mk.injEq] at heq
    obtain ⟨rfl, rfl, rfl⟩ := heq
    obtain ⟨b, d, rfl, hb, hd, hwhole, hne⟩ := hvalue hs htake
    exact ⟨[], b, d, rfl, rfl, hb, hd, .nil, hwhole, hne⟩

/-- No word of the patterns starts inside a marker. -/
theorem takeWord_inside {front : Chars} (hne : front ≠ []) (hfront : front <:+ redacted)
    (rest : Chars) :
    ∀ word ∈ "bearer".toList :: sensitiveNames, takeWord word (front ++ rest) = none := by
  have hmem : front ∈ redacted.tails := (List.mem_tails _ _).mpr hfront
  rw [redacted_eq] at hmem
  simp only [List.tails, List.mem_cons, List.not_mem_nil, or_false] at hmem
  intro word hword
  simp only [sensitiveNames, List.map_cons, List.map_nil, List.mem_cons, List.not_mem_nil,
    or_false] at hword
  rcases hmem with rfl | rfl | rfl | rfl | rfl | rfl | rfl | rfl | rfl | rfl | rfl
  case inr.inr.inr.inr.inr.inr.inr.inr.inr.inr => exact absurd rfl hne
  all_goals
    rcases hword with rfl | rfl | rfl | rfl | rfl | rfl | rfl | rfl | rfl
    all_goals rfl

end Parts

theorem bearerMatch_respects : Respects redacted bearerMatch where
  splits before s kept value closing hs h := by
    simp only [bearerMatch, Option.bind_eq_bind, Option.bind_eq_some_iff] at h
    obtain ⟨⟨bearer, behind⟩, hbearer, ⟨value', rest⟩, hvalue, heq⟩ := h
    simp only [Option.some.injEq, Prod.mk.injEq] at heq
    obtain ⟨rfl, rfl, rfl⟩ := heq
    obtain ⟨a, t, rfl, rfl, rfl, ha, ht⟩ := cuts_takeBearer hs hbearer
    obtain ⟨⟨b, d, rfl, rfl, rfl, -, hd⟩, hne⟩ := cuts_takeValue ht hvalue
    exact ⟨a, b, [], d, rfl, rfl, rfl, rfl, ha, .nil, hd, by rintro rfl; exact hne rfl⟩
  silent before front rest hne hfront := by
    unfold bearerMatch takeBearer
    rw [takeWord_inside hne hfront rest _ List.mem_cons_self]
    rfl

theorem assignmentMatch_respects (isWord : Char → Bool) :
    Respects redacted (assignmentMatch isWord) where
  splits before s kept value closing hs h := by
    simp only [assignmentMatch, Option.bind_eq_bind, Option.bind_eq_some_iff] at h
    obtain ⟨-, -, ⟨name, behind⟩, hname, ⟨separator, rest⟩, hseparator, ⟨bearer, value', rest'⟩,
      hvalue, heq⟩ := h
    simp only [Option.some.injEq, Prod.mk.injEq] at heq
    obtain ⟨rfl, rfl, rfl⟩ := heq
    obtain ⟨word, hmem, hword⟩ := List.exists_of_findSome?_eq_some hname
    have hsilent : (sensitiveNames.all fun name =>
        name.all fun p => !matchesLetter p '[') = true := by
      decide
    have hletters : ∀ p ∈ word, matchesLetter p '[' = false := by
      simpa using List.all_eq_true.mp hsilent word hmem
    obtain ⟨n, s₁, rfl, rfl, rfl, hn, hs₁⟩ := cuts_takeWord hs hletters hword
    obtain ⟨e, s₂, rfl, rfl, rfl, he, hs₂⟩ := cuts_takeSeparator hs₁ hseparator
    obtain ⟨q, s₃, rfl, hq, hbehind, hwq, hs₃⟩ := cuts_takeQuote hs₂
    rw [← hbehind] at hvalue
    obtain ⟨a, b, s₄, rfl, rfl, rfl, rfl, ha, hs₄, hne⟩ := takeBearerValue_splits hs₃ hvalue
    obtain ⟨c, d, rfl, hc, -, hwc, hd⟩ := cuts_takeQuote hs₄
    refine ⟨n ++ (e ++ (q ++ a)), b, c, d, by simp, ?_, rfl, hc, ?_, hwc, hd, hne⟩
    · rw [← hq]
      simp
    · exact hn.append (he.append (hwq.append ha))
  silent before front rest hne hfront := by
    have hnames : (sensitiveNames.findSome? fun name => takeWord name (front ++ rest)) = none :=
      List.findSome?_eq_none_iff.mpr fun name hname =>
        takeWord_inside hne hfront rest name (List.mem_cons_of_mem _ hname)
    simp [assignmentMatch, hnames]

/-- What replaces a match. -/
def replaced : Chars × Chars × Chars → Chars × Nat
  | (kept, value, closing) =>
      (kept ++ redacted ++ closing, kept.length + value.length + closing.length)

theorem bearerToken_eq (before : Option Char) (s : Chars) :
    bearerToken before s = (bearerMatch before s).map replaced := by
  simp only [bearerToken, bearerMatch, Option.bind_eq_bind, Option.map_bind]
  congr 1
  funext found
  simp [Function.comp_def, replaced]

theorem sensitiveAssignment_eq (isWord : Char → Bool) (before : Option Char) (s : Chars) :
    sensitiveAssignment isWord before s = (assignmentMatch isWord before s).map replaced := by
  simp only [sensitiveAssignment, assignmentMatch, Option.bind_eq_bind, Option.map_bind,
    Function.comp_def, Option.map_some, replaced]

/-- A substitution gives the text with its markers. -/
theorem subFrom_eq {pattern : Pattern} {m : Matcher Char} (h : Respects redacted m)
    (hpattern : ∀ before s, pattern before s = (m before s).map replaced) (skip : Nat)
    (before : Option Char) (s : Labelled Char) :
    subFrom pattern skip before (plain s) = plain (markFrom redacted m skip before s) := by
  induction s generalizing skip before with
  | nil => cases skip <;> rfl
  | cons c s ih =>
      change subFrom pattern skip before (c.1 :: plain s) = _
      cases skip with
      | succ skip => exact ih skip (some c.1)
      | zero =>
          have hcons : c.1 :: plain s = plain (c :: s) := rfl
          rw [subFrom, markFrom, hpattern, hcons]
          cases hmatch : m before (plain (c :: s)) with
          | none => exact congrArg (c.1 :: ·) (ih 0 (some c.1))
          | some found =>
              obtain ⟨kept, value, closing⟩ := found
              obtain ⟨rest, hrest⟩ := h.reads hmatch
              have hkept : plain ((c :: s).take kept.length) = kept := by
                rw [plain, List.map_take, ← plain, hrest, List.take_left' rfl]
              have hclosing : plain (((c :: s).drop (kept.length + value.length)).take
                  closing.length) = closing := by
                rw [plain, List.map_take, List.map_drop, ← plain, hrest, ← List.append_assoc,
                  List.drop_left' (by simp), List.take_left' rfl]
              simp only [Option.map_some, replaced, plain_append, plain_marks, hkept, hclosing, ih]

/-- The text that the client is shown. -/
theorem sanitizeWithoutServer_eq (isWord : Char → Bool) (str : Exn → String) (exc : Exn) :
    (sanitizeWithoutServer isWord str exc).toList =
      plain (marked isWord (messageOf str exc).toList) := by
  have hborne := subFrom_eq bearerMatch_respects bearerToken_eq 0 none
    (original (messageOf str exc).toList)
  rw [plain_original] at hborne
  rw [sanitizeWithoutServer, String.toList_ofList, hborne,
    subFrom_eq (assignmentMatch_respects isWord) (sensitiveAssignment_eq isWord)]
  rfl

theorem marked_whole (isWord : Char → Bool) (message : Chars) :
    Whole redacted (marked isWord message) :=
  (assignmentMatch_respects isWord).whole redacted_ne_nil
    (bearerMatch_respects.whole redacted_ne_nil (.original message) none) none

/-- The detail of a 502 response shows none of a server's values exactly where no value occurs in a
stretch of the exception's text that the patterns leave alone. -/
theorem detail_hides_iff (isWord : Char → Bool) (str : Exn → String) (errors : Json) (exc : Exn)
    (server : McpServer) {detail : String}
    (h502 : runServiceError isWord str errors exc = some ⟨502, .str detail⟩)
    (hseparate : ∀ value ∈ secretValues server,
      Separate value redacted ∧ Separate value failedText.toList) :
    (∀ value ∈ secretValues server, ¬ value <:+: detail.toList) ↔
      ∀ value ∈ secretValues server,
        ∀ part ∈ leftAlone isWord (messageOf str exc).toList, ¬ value <:+: part := by
  have hdetail : detail = failedText ++ sanitizeWithoutServer isWord str exc := by
    cases exc <;> simp only [runServiceError, Option.some.injEq, HttpException.mk.injEq,
      Json.str.injEq, reduceCtorEq] at h502
    all_goals first
      | exact h502.2.symm
      | exact absurd h502.1 (by decide)
  refine forall₂_congr fun value hvalue => ?_
  obtain ⟨hmarker, hfixed⟩ := hseparate value hvalue
  have hinside := infix_iff_stretch hmarker (marked_whole isWord (messageOf str exc).toList) []
  rw [hdetail, String.toList_append, hfixed.infix_behind, sanitizeWithoutServer_eq,
    ← List.nil_append (plain _), hinside]
  simp [leftAlone]

/-- A server with one secret. -/
def secretServer : McpServer where
  id := 1
  name := "docs"
  transport := .stdio
  command := some "uvx"
  args := []
  env := [("API_KEY", "hush")]
  url := none
  headers := []
  enabled := true
  desiredState := .stopped
  runtimeStatus := .stopped
  lastError := none

def errorText : Exn → String
  | .other _ message => message
  | _ => ""

theorem secretServer_separate : ∀ value ∈ secretValues secretServer,
    Separate value redacted ∧ Separate value failedText.toList := by
  intro value hvalue
  obtain rfl := List.mem_singleton.mp hvalue
  exact ⟨.of_disjoint (by decide) (by decide) (disjoint_of_all (by decide)),
    .of_disjoint (by decide) (by decide) (disjoint_of_all (by decide))⟩

def failedDetail (message : String) : String :=
  failedText ++ sanitizeWithoutServer Char.isAlphanum errorText (.other "RuntimeError" message)

/-- An assignment to a name that looks secret is taken out. -/
theorem detail_hides_assignment : "hush".toList ∈ secretValues secretServer ∧
    ¬ "hush".toList <:+: (failedDetail "startup failed: token=hush").toList :=
  ⟨List.mem_singleton_self _,
    (detail_hides_iff Char.isAlphanum errorText .null
      (.other "RuntimeError" "startup failed: token=hush") secretServer rfl
      secretServer_separate).mpr (by decide) _ (List.mem_singleton_self _)⟩

/-- The values of the server itself are not. -/
theorem not_forall_detail_hides : ¬ ∀ isWord str errors exc server detail,
    runServiceError isWord str errors exc = some ⟨502, .str detail⟩ →
      (∀ value ∈ secretValues server,
        Separate value redacted ∧ Separate value failedText.toList) →
      ∀ value ∈ secretValues server, ¬ value <:+: detail.toList := by
  intro h
  have hhidden := h Char.isAlphanum errorText .null (.other "RuntimeError" "bad key hush")
    secretServer (failedDetail "bad key hush") rfl secretServer_separate
  exact absurd hhidden (by decide)

end ChangeQuality.McpApi
