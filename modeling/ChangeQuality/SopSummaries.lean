import ChangeQuality.SopReview

/-!
What the `summarize_result` node gives for an answer: a verdict with a summary and a report, or an
exception.
-/

namespace ChangeQuality.SopSummaries

open ChangeQuality.Texts
open ChangeQuality.JsonDecoding
open ChangeQuality.SopReview

variable {limits : Limits}

/-- Python has no hash for lists and dictionaries. -/
def unhashable : Value → Bool
  | .arr _ | .obj _ => true
  | _ => false

/-- The step raises only what `except ValueError` does not catch: the first brace of the answer
does not open more containers than the decoder can enter, and the object that it opens has neither
a list nor a dictionary for its verdict. -/
structure Readable (limits : Limits) (output : Text) : Prop where
  shallow : ∀ candidate, findFrom 0x7b (stripCodeFence (strip output)) = some candidate →
    rawDecode limits candidate ≠ .error .recursionError
  hashable : ∀ parsed value, loadJsonObject limits output = .ok parsed →
    getItem parsed (ofString "quality_result") = some value → unhashable value = false

/-- A result with all that a review gives. Verdicts and severities have the canonical values only. -/
structure Complete (qualityResult : Option SopQualityResultValue) (summary : Option Text)
    (findings : Option (List SopQualityFinding)) (reportMarkdown : Option Text) : Prop where
  verdict : ∃ verdict, qualityResult = some verdict
  summary : ∃ text, summary = some text ∧ ¬IsBlank text
  findings : ∃ items, findings = some items
  report : ∃ text, reportMarkdown = some text ∧ ¬IsBlank text

def CompleteResult (result : SopQualityReviewResult) : Prop :=
  Complete result.qualityResult result.summary result.findings result.reportMarkdown

/-- The update and the result inside it are complete. -/
structure Summarized (update : SopQualityState) : Prop where
  state : Complete update.qualityResult update.summary update.findings update.reportMarkdown
  result : ∃ result, update.result = some result ∧ CompleteResult result

theorem isBlank_strip {text : Text} : IsBlank (strip text) ↔ IsBlank text := by
  rw [← strip_eq_nil, strip_strip, strip_eq_nil]

theorem mem_joinLines {line : Text} {lines : List Text} {c : Nat} (hline : line ∈ lines)
    (hc : c ∈ line) : c ∈ joinLines lines := by
  induction lines with
  | nil => cases hline
  | cons head rest ih =>
      cases rest with
      | nil =>
          rw [List.mem_singleton] at hline
          simpa [joinLines, hline] using hc
      | cons next rest =>
          have hjoin : joinLines (head :: next :: rest) =
              head ++ [0x0a] ++ joinLines (next :: rest) := by
            simp [joinLines, List.intercalate_cons_cons]
          rw [hjoin, List.append_assoc, List.mem_append, List.mem_append]
          rcases List.mem_cons.mp hline with rfl | hline
          · exact .inl hc
          · exact .inr (.inr (ih hline))

/-- The report that the code writes itself has a heading. -/
theorem fallbackReport_shows (summary : Text) (findings : List SopQualityFinding) :
    ¬IsBlank (fallbackReport summary findings) := by
  have hheading : 0x23 ∈ ofString "## SOP 质量报告" := by decide
  have hmem : 0x23 ∈ fallbackReport summary findings := by
    unfold fallbackReport
    split
    · have htop : 0x23 ∈ ofString "## SOP 质量报告\n\n" := by decide
      exact List.mem_append_left _ (List.mem_append_left _ htop)
    · exact mem_joinLines (List.mem_append_left _ List.mem_cons_self) hheading
  intro hblank
  exact absurd (hblank _ hmem) (by decide)

theorem firstNonEmptyLine_shows (text : Text) : ¬IsBlank (firstNonEmptyLine text) := by
  unfold firstNonEmptyLine
  cases hfind : ((splitlines text).map strip).find? fun line => !line.isEmpty with
  | none =>
      intro hblank
      exact absurd (hblank 0x53 (by decide)) (by decide)
  | some line =>
      obtain ⟨before, _, hline⟩ := List.mem_map.mp (List.mem_of_find?_eq_some hfind)
      have hne := List.find?_some hfind
      intro hblank
      rw [Option.getD_some, ← hline, isBlank_strip, ← strip_eq_nil, hline] at hblank
      simp [hblank] at hne

theorem normalizeQualityResult_error {value : Option Value} {e : Raised}
    (h : normalizeQualityResult value = .error e) :
    (∃ message, e = .valueError message) ∨ ∃ v, value = some v ∧ unhashable v = true := by
  unfold normalizeQualityResult at h
  split at h
  · split at h
    · cases h
    · split at h
      · cases h
      · split at h
        · cases h
        · cases h
          exact .inl ⟨_, rfl⟩
  · exact .inr ⟨_, rfl, rfl⟩
  · exact .inr ⟨_, rfl, rfl⟩
  · cases h
    exact .inl ⟨_, rfl⟩

theorem normalizeQualityResult_unhashable {value : Value} (h : unhashable value = true) :
    ∃ message, normalizeQualityResult (some value) = .error (.typeError message) := by
  cases value with
  | arr | obj => exact ⟨_, rfl⟩
  | null | bool | int | float | str => cases h

theorem normalizeSeverity_error {value : Option Value} {e : Raised}
    (h : normalizeSeverity value = .error e) : ∃ message, e = .valueError message := by
  unfold normalizeSeverity at h
  split at h
  · split at h
    · cases h
    · cases h
      exact ⟨_, rfl⟩
  · cases h
    exact ⟨_, rfl⟩

theorem normalizeFinding_error {item : Value} {e : Raised}
    (h : normalizeFinding item = .error e) : ∃ message, e = .valueError message := by
  unfold normalizeFinding at h
  split at h
  · rcases bind_error h with h | ⟨_, _, h⟩
    · exact normalizeSeverity_error h
    · split at h
      · cases h
        exact ⟨_, rfl⟩
      · split at h
        · cases h
          exact ⟨_, rfl⟩
        · cases h
  · cases h
    exact ⟨_, rfl⟩

theorem mapM_error {α β ε : Type} {f : α → Except ε β} {xs : List α} {e : ε}
    (h : xs.mapM f = .error e) : ∃ x ∈ xs, f x = .error e := by
  induction xs with
  | nil => cases h
  | cons x xs ih =>
      rw [List.mapM_cons] at h
      rcases bind_error h with h | ⟨_, _, h⟩
      · exact ⟨x, List.mem_cons_self, h⟩
      · rcases bind_error h with h | ⟨_, _, h⟩
        · obtain ⟨y, hy, hraise⟩ := ih h
          exact ⟨y, List.mem_cons_of_mem _ hy, hraise⟩
        · cases h

theorem findingItems_error {value : Option Value} {e : Raised}
    (h : findingItems value = .error e) : ∃ message, e = .valueError message := by
  unfold findingItems at h
  split at h
  · cases h
  · cases h
  · cases h
    exact ⟨_, rfl⟩

/-- Of all that may be wrong with a review, only its verdict raises anything but a `ValueError`. -/
theorem normalizeResult_error {parsed : List (Text × Value)} {e : Raised}
    (h : normalizeResult parsed = .error e) :
    (∃ message, e = .valueError message) ∨
      ∃ v, getItem parsed (ofString "quality_result") = some v ∧ unhashable v = true := by
  rcases bind_error h with h | ⟨verdict, _, h⟩
  · exact normalizeQualityResult_error h
  · refine .inl ?_
    split at h
    · cases h
      exact ⟨_, rfl⟩
    · rcases bind_error h with h | ⟨items, _, h⟩
      · exact findingItems_error h
      · rcases bind_error h with h | ⟨_, _, h⟩
        · obtain ⟨item, _, hitem⟩ := mapM_error h
          exact normalizeFinding_error hitem
        · cases h

theorem normalizeResult_complete {parsed : List (Text × Value)} {result : SopQualityReviewResult}
    (h : normalizeResult parsed = .ok result) : CompleteResult result := by
  obtain ⟨verdict, _, h⟩ := bind_ok h
  split at h
  · cases h
  next summary hsummary =>
    obtain ⟨items, _, h⟩ := bind_ok h
    obtain ⟨findings, _, h⟩ := bind_ok h
    cases h
    refine ⟨⟨_, rfl⟩, ⟨_, rfl, ?_⟩, ⟨_, rfl⟩, ⟨_, rfl, ?_⟩⟩
    · rw [isBlank_strip]
      exact (nonBlank_some hsummary).2
    · split
      next report hreport => exact (nonBlank_some hreport).2
      · exact fallbackReport_shows summary findings

theorem loadJsonObject_error {output : Text} {e : Raised}
    (h : loadJsonObject limits output = .error e) :
    (∃ message, e = .valueError message) ∨ e = .recursionError := by
  unfold loadJsonObject at h
  split at h
  · cases h
    exact .inl ⟨_, rfl⟩
  · split at h
    · cases h
    all_goals
      cases h
      first
        | exact .inl ⟨_, rfl⟩
        | exact .inr rfl

theorem resultFromReviewOutput_complete {output : Text} {result : SopQualityReviewResult}
    (hblank : ¬IsBlank output) (h : resultFromReviewOutput limits output = .ok result) :
    CompleteResult result := by
  unfold resultFromReviewOutput at h
  split at h
  next hresult =>
    cases h
    obtain ⟨parsed, _, hnormalized⟩ := bind_ok hresult
    exact normalizeResult_complete hnormalized
  · cases h
    exact ⟨⟨_, rfl⟩, ⟨_, rfl, firstNonEmptyLine_shows output⟩, ⟨_, rfl⟩,
      ⟨_, rfl, by rwa [isBlank_strip]⟩⟩
  · cases h

/-- A readable answer is taken, if need be as a warning. -/
theorem resultFromReviewOutput_ok {output : Text} (h : Readable limits output) :
    ∃ result, resultFromReviewOutput limits output = .ok result := by
  unfold resultFromReviewOutput
  split
  · exact ⟨_, rfl⟩
  · exact ⟨_, rfl⟩
  next e hnot hraised =>
    exfalso
    rcases bind_error hraised with hload | ⟨parsed, hload, hnormalize⟩
    · rcases loadJsonObject_error hload with ⟨message, rfl⟩ | rfl
      · exact hnot message rfl
      · obtain ⟨candidate, hcandidate, hdecode⟩ := loadJsonObject_recursionError hload
        exact h.shallow candidate hcandidate hdecode
    · rcases normalizeResult_error hnormalize with ⟨message, rfl⟩ | ⟨value, hvalue, hhash⟩
      · exact hnot message rfl
      · rw [h.hashable parsed value hload hvalue] at hhash
        cases hhash

theorem readable_of_ok {output : Text} {result : SopQualityReviewResult}
    (h : resultFromReviewOutput limits output = .ok result) : Readable limits output := by
  constructor
  · intro candidate hcandidate hdecode
    have hload : loadJsonObject limits output = .error .recursionError := by
      unfold loadJsonObject
      rw [hcandidate]
      dsimp only
      rw [hdecode]
    unfold resultFromReviewOutput at h
    rw [hload] at h
    cases h
  · intro parsed value hload hvalue
    cases hhash : unhashable value with
    | false => rfl
    | true =>
        obtain ⟨message, hraise⟩ := normalizeQualityResult_unhashable hhash
        have hnormalize : normalizeResult parsed = .error (.typeError message) := by
          unfold normalizeResult
          rw [hvalue, hraise]
          rfl
        have hraised : (loadJsonObject limits output >>= normalizeResult) =
            .error (.typeError message) := by
          rw [hload]
          exact hnormalize
        unfold resultFromReviewOutput at h
        rw [hraised] at h
        cases h

/-- The step summarizes an answer that is not blank exactly if the answer is readable. -/
theorem summarized_iff_readable (limits : Limits) (state : SopQualityState) (output : Text)
    (hnone : state.result = none) (houtput : state.reviewOutput = some output)
    (hblank : ¬IsBlank output) :
    (∃ update, summarizeResultState limits state = .ok update ∧ Summarized update) ↔
      Readable limits output := by
  have hstep : summarizeResultState limits state = summarizeReview limits output := by
    unfold summarizeResultState
    rw [hnone, houtput]
    exact if_neg fun hstrip => hblank (strip_eq_nil.mp hstrip)
  rw [hstep]
  constructor
  · rintro ⟨update, hupdate, _⟩
    obtain ⟨result, hresult, _⟩ := bind_ok hupdate
    exact readable_of_ok hresult
  · intro hreadable
    obtain ⟨result, hresult⟩ := resultFromReviewOutput_ok hreadable
    have hcomplete := resultFromReviewOutput_complete hblank hresult
    have hupdate : summarizeReview limits output = .ok
        { summary := result.summary
          reportMarkdown := result.reportMarkdown
          qualityResult := result.qualityResult
          findings := result.findings
          result := some { result with reviewOutput := some (strip output) } } := by
      unfold summarizeReview
      rw [hresult]
      rfl
    exact ⟨_, hupdate, hcomplete, _, rfl, hcomplete⟩

/-- Plain text is summarized, as a warning. -/
theorem summarized_plain_text :
    ∃ update, summarizeResultState ⟨1000, 4300⟩
      { reviewOutput := some (ofString "Plain review text.") } = .ok update ∧
        Summarized update := by
  have hbrace : findFrom 0x7b (stripCodeFence (strip (ofString "Plain review text."))) = none := by
    decide
  refine (summarized_iff_readable _ _ (ofString "Plain review text.") rfl rfl ?_).mpr ⟨?_, ?_⟩
  · intro hblank
    exact absurd (hblank 0x50 (by decide)) (by decide)
  · intro candidate hcandidate
    rw [hbrace] at hcandidate
    cases hcandidate
  · intro parsed value hload
    unfold loadJsonObject at hload
    rw [hbrace] at hload
    cases hload

def raisesTypeError (step : Except Raised SopQualityState) : Bool :=
  match step with
  | .error (.typeError _) => true
  | _ => false

/-- A list for the verdict makes the step raise. -/
theorem list_verdict_raises :
    ¬IsBlank (ofString "\x7b\"quality_result\": []\x7d") ∧
      ¬∃ update, summarizeResultState ⟨1000, 4300⟩
        { reviewOutput := some (ofString "\x7b\"quality_result\": []\x7d") } = .ok update ∧
          Summarized update := by
  have hraise : raisesTypeError (summarizeResultState ⟨1000, 4300⟩
      { reviewOutput := some (ofString "\x7b\"quality_result\": []\x7d") }) = true := by
    decide +kernel
  refine ⟨fun hblank => absurd (hblank 0x7b (by decide)) (by decide), ?_⟩
  rintro ⟨update, hupdate, _⟩
  rw [hupdate] at hraise
  cases hraise

end ChangeQuality.SopSummaries
