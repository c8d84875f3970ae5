import ChangeQuality.McpApi

/-!
The text that `sanitize_mcp_error` makes of an exception for a server: the values of the server are
taken out one after the other, and then the two patterns are.
-/

namespace ChangeQuality.McpErrorTexts

open ChangeQuality.Values
open ChangeQuality.McpServers
open ChangeQuality.McpRedaction
open ChangeQuality.McpApi
open ChangeQuality.MarkedTexts

theorem replaceFrom_eq (old new : Chars) (skip : Nat) (s : Chars) :
    McpRedaction.replaceFrom old new skip s = MarkedTexts.replaceFrom old new skip s := by
  induction s generalizing skip with
  | nil => cases skip <;> rfl
  | cons c s ih =>
      cases skip with
      | succ skip => exact ih skip
      | zero =>
          rw [McpRedaction.replaceFrom, MarkedTexts.replaceFrom, ih, ih]

/-- The values that are taken out, in their order. -/
def orderedValues (server : McpServer) : List Chars :=
  (serverSecretValues server).map String.toList

theorem mem_orderedValues {server : McpServer} {value : Chars} :
    value ∈ orderedValues server ↔ value ∈ secretValues server ∧ value ≠ [] := by
  have hmem : ∀ text : String, text ∈ serverSecretValues server ↔
      text ∈ (server.env ++ server.headers).map Prod.snd ∧ text ≠ "" := by
    intro text
    rw [serverSecretValues, List.mem_mergeSort, List.mem_eraseDups, List.mem_filter]
    simp
  unfold orderedValues secretValues
  rw [List.mem_map, List.mem_map]
  constructor
  · rintro ⟨text, htext, rfl⟩
    obtain ⟨hvalue, hne⟩ := (hmem text).mp htext
    obtain ⟨entry, hentry, rfl⟩ := List.mem_map.mp hvalue
    exact ⟨⟨entry, hentry, rfl⟩, fun hnil => hne (String.toList_eq_nil_iff.mp hnil)⟩
  · rintro ⟨⟨entry, hentry, rfl⟩, hne⟩
    refine ⟨entry.2, (hmem _).mpr ⟨List.mem_map_of_mem hentry, fun hempty => hne ?_⟩, rfl⟩
    rw [hempty]
    rfl

/-- The exception's text with a marker for each value and for what the patterns take out. -/
def markedError (isWord : Char → Bool) (server : McpServer) (message : Chars) : Labelled Char :=
  markFrom redacted (assignmentMatch isWord) 0 none
    (markFrom redacted bearerMatch 0 none
      (replaceEach redacted (orderedValues server) (original message)))

theorem sanitizeMcpError_eq (isWord : Char → Bool) (str : Exn → String) (exc : Exn)
    (server : McpServer) : (sanitizeMcpError isWord str exc server).toList =
      plain (markedError isWord server (messageOf str exc).toList) := by
  have hreplaced : (serverSecretValues server).foldl
      (fun text secret => McpRedaction.replaceFrom secret.toList redacted 0 text)
        (messageOf str exc).toList =
      plain (replaceEach redacted (orderedValues server) (original (messageOf str exc).toList)) := by
    rw [← foldl_replaceFrom, plain_original, orderedValues, List.foldl_map]
    simp only [replaceFrom_eq]
  unfold sanitizeMcpError
  change (String.ofList (subFrom (sensitiveAssignment isWord) 0 none (subFrom bearerToken 0 none
    ((serverSecretValues server).foldl _ (messageOf str exc).toList)))).toList = _
  rw [hreplaced, String.toList_ofList, subFrom_eq bearerMatch_respects bearerToken_eq,
    subFrom_eq (assignmentMatch_respects isWord) (sensitiveAssignment_eq isWord)]
  rfl

/-- The stored text shows no value of the server, whatever the values have in common: only a value
that shares text with the marker could be put together from what is left. -/
theorem sanitized_hides_values (isWord : Char → Bool) (str : Exn → String) (exc : Exn)
    (server : McpServer)
    (hseparate : ∀ value ∈ secretValues server, value ≠ [] → Separate value redacted) :
    ∀ value ∈ secretValues server, value ≠ [] →
      ¬ value <:+: (sanitizeMcpError isWord str exc server).toList := by
  intro value hvalue hne hinside
  have hordered : ∀ v ∈ orderedValues server, Separate v redacted := by
    intro v hv
    obtain ⟨hmem, hvne⟩ := mem_orderedValues.mp hv
    exact hseparate v hmem hvne
  have hwhole : Whole redacted
      (replaceEach redacted (orderedValues server) (original (messageOf str exc).toList)) :=
    replaceEach_whole hordered (.original _)
  have hborne := bearerMatch_respects.whole redacted_ne_nil hwhole none
  have hmarked := (assignmentMatch_respects isWord).whole redacted_ne_nil hborne none
  rw [sanitizeMcpError_eq] at hinside
  -- What the output shows of a value is of the exception's text, so no pass put it there.
  have hkept := kept_of_isInfix (hseparate value hvalue hne) hmarked hinside
  have hassigned := (assignmentMatch_respects isWord).kept redacted_ne_nil hborne none [] hkept
  have hreplaced := bearerMatch_respects.kept redacted_ne_nil hwhole none [] hassigned
  exact not_kept_of_replaceEach hordered (.original _) value
    (mem_orderedValues.mpr ⟨hvalue, hne⟩) hreplaced

/-- One value is the front of the other. -/
def overlappingServer : McpServer :=
  { secretServer with headers := [("X-Key", "hushing"), ("X-Empty", "")] }

theorem overlappingServer_separate : ∀ value ∈ secretValues overlappingServer, value ≠ [] →
    Separate value redacted := by
  have hdisjoint : ((secretValues overlappingServer).all fun value =>
      value.all fun c => c ∉ redacted) = true := by
    decide
  intro value hvalue hne
  exact .of_disjoint hne redacted_ne_nil
    (disjoint_of_all (List.all_eq_true.mp hdisjoint value hvalue))

theorem sanitized_hides_overlapping :
    "hushing".toList ∈ secretValues overlappingServer ∧
      ¬ "hushing".toList <:+: (sanitizeMcpError Char.isAlphanum errorText
        (.other "RuntimeError" "bad key hushing, token=hushhushing") overlappingServer).toList := by
  have hmem : "hushing".toList ∈ secretValues overlappingServer := by decide
  exact ⟨hmem, sanitized_hides_values _ _ _ _ overlappingServer_separate _ hmem
    (by decide)⟩

end ChangeQuality.McpErrorTexts
