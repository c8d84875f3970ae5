import ChangeQuality.JsonDecoding

/-!
The verdict on a SOP: what the `review_sop` and `summarize_result` nodes make of the agent's
answer.
-/

namespace ChangeQuality.SopReview

open ChangeQuality.Texts
open ChangeQuality.JsonDecoding

inductive SopQualityResultValue where
  | pass
  | warn
  | fail
  deriving DecidableEq

inductive SopQualityFindingSeverity where
  | low
  | medium
  | high
  deriving DecidableEq

def SopQualityFindingSeverity.text : SopQualityFindingSeverity → Text
  | .low => ofString "低风险"
  | .medium => ofString "中风险"
  | .high => ofString "高风险"

structure SopQualityFinding where
  severity : SopQualityFindingSeverity
  title : Text
  recommendation : Text

/-- A key that may be missing is an option. -/
structure SopQualityReviewResult where
  qualityResult : Option SopQualityResultValue := none
  summary : Option Text := none
  findings : Option (List SopQualityFinding) := none
  reportMarkdown : Option Text := none
  reviewOutput : Option Text := none

/-- The keys of the graph state that the step reads or writes. -/
structure SopQualityState where
  reviewOutput : Option Text := none
  findings : Option (List SopQualityFinding) := none
  summary : Option Text := none
  qualityResult : Option SopQualityResultValue := none
  reportMarkdown : Option Text := none
  result : Option SopQualityReviewResult := none

inductive Raised where
  | valueError (message : String)
  | typeError (message : String)
  | recursionError

section ReviewSop

/-- `SEVERITY_ALIASES`. -/
def severityAliases : List (Text × SopQualityFindingSeverity) :=
  [("info", .low), ("informational", .low), ("minor", .low), ("low", .low), ("低", .low),
    ("低风险", .low), ("medium", .medium), ("moderate", .medium), ("warning", .medium),
    ("warn", .medium), ("中", .medium), ("中等", .medium), ("中风险", .medium), ("high", .high),
    ("critical", .high), ("severe", .high), ("blocker", .high), ("blocking", .high),
    ("高", .high), ("高风险", .high), ("严重", .high)].map
      fun (name, severity) => (ofString name, severity)

/-- `str.lower` on a character, as far as its lower case occurs in a key of `severityAliases`:
the ASCII capitals, and the Kelvin sign. -/
def lowerChar (c : Nat) : Nat :=
  if 0x41 ≤ c ∧ c ≤ 0x5a then c + 0x20
  else if c = 0x212a then 0x6b
  else c

def lower (s : Text) : Text :=
  s.map lowerChar

/-- `value` where it is a string with a character that is not white space. -/
def nonBlank : Option Value → Option Text
  | some (.str text) => if strip text = [] then none else some text
  | _ => none

def fence : Text :=
  ofString "```"

/-- `_strip_code_fence`. -/
def stripCodeFence (text : Text) : Text :=
  if fence.isPrefixOf text then
    let lines := splitlines text
    if 3 ≤ lines.length ∧ lines.getLast?.map strip = some fence then
      strip (joinLines lines.tail.dropLast)
    else text
  else text

/-- `_load_json_object`. -/
def loadJsonObject (limits : Limits) (text : Text) : Except Raised (List (Text × Value)) :=
  match findFrom 0x7b (stripCodeFence (strip text)) with
  | none => .error (.valueError "SOP quality agent did not return valid JSON.")
  | some candidate =>
    match rawDecode limits candidate with
    | .ok (.obj parsed, _) => .ok parsed
    | .ok _ => .error (.valueError "SOP quality agent did not return a JSON object.")
    | .error (.jsonDecodeError _) =>
      .error (.valueError "SOP quality agent did not return valid JSON.")
    | .error (.valueError message) => .error (.valueError message)
    | .error .recursionError => .error .recursionError
    | .error .unfinished => .error .recursionError

/-- `_normalize_severity`. -/
def normalizeSeverity : Option Value → Except Raised SopQualityFindingSeverity
  | some (.str value) =>
    match severityAliases.lookup (lower (strip value)) with
    | some severity => .ok severity
    | none => .error (.valueError "SOP quality agent returned an invalid finding severity.")
  | _ => .error (.valueError "SOP quality agent returned an invalid finding severity.")

/-- `_normalize_finding`. -/
def normalizeFinding : Value → Except Raised SopQualityFinding
  | .obj finding => do
    let severity ← normalizeSeverity (getItem finding (ofString "severity"))
    match nonBlank (getItem finding (ofString "title")) with
    | none => throw (.valueError "SOP quality agent returned an invalid finding title.")
    | some title =>
      match nonBlank (getItem finding (ofString "recommendation")) with
      | none => throw (.valueError "SOP quality agent returned an invalid recommendation.")
      | some recommendation =>
        pure { severity, title := strip title, recommendation := strip recommendation }
  | _ => .error (.valueError "SOP quality agent returned invalid findings.")

/-- `quality_result not in {"pass", "warn", "fail"}`; a value that cannot be hashed raises. -/
def normalizeQualityResult : Option Value → Except Raised SopQualityResultValue
  | some (.str value) =>
    if value = ofString "pass" then .ok .pass
    else if value = ofString "warn" then .ok .warn
    else if value = ofString "fail" then .ok .fail
    else .error (.valueError "SOP quality agent returned an invalid quality_result.")
  | some (.arr _) => .error (.typeError "unhashable type: 'list'")
  | some (.obj _) => .error (.typeError "unhashable type: 'dict'")
  | _ => .error (.valueError "SOP quality agent returned an invalid quality_result.")

/-- `parsed.get("findings", [])`, which has to be a list. -/
def findingItems : Option Value → Except Raised (List Value)
  | none => .ok []
  | some (.arr items) => .ok items
  | some _ => .error (.valueError "SOP quality agent returned invalid findings.")

/-- `_fallback_report`, and `_report_markdown`. -/
def fallbackReport (summary : Text) (findings : List SopQualityFinding) : Text :=
  if findings.isEmpty then ofString "## SOP 质量报告\n\n" ++ summary ++ ofString "\n"
  else
    joinLines ([ofString "## SOP 质量报告", [], summary, []] ++
      findings.map fun finding =>
        ofString "- **" ++ finding.severity.text ++ ofString "** " ++ finding.title ++
          ofString ": " ++ finding.recommendation)

/-- `_normalize_result`. -/
def normalizeResult (parsed : List (Text × Value)) : Except Raised SopQualityReviewResult := do
  let qualityResult ← normalizeQualityResult (getItem parsed (ofString "quality_result"))
  match nonBlank (getItem parsed (ofString "summary")) with
  | none => throw (.valueError "SOP quality agent returned an invalid summary.")
  | some summary => do
    let items ← findingItems (getItem parsed (ofString "findings"))
    let findings ← items.mapM normalizeFinding
    let reportMarkdown :=
      match nonBlank (getItem parsed (ofString "report_markdown")) with
      | some report => report
      | none => fallbackReport summary findings
    pure
      { qualityResult := some qualityResult
        summary := some (strip summary)
        findings := some findings
        reportMarkdown := some reportMarkdown }

end ReviewSop

section SummarizeResult

/-- `_first_non_empty_line`. -/
def firstNonEmptyLine (text : Text) : Text :=
  (((splitlines text).map strip).find? fun line => !line.isEmpty).getD
    (ofString "SOP 质量评审已完成。")

/-- `_result_from_review_output`. -/
def resultFromReviewOutput (limits : Limits) (reviewOutput : Text) :
    Except Raised SopQualityReviewResult :=
  match loadJsonObject limits reviewOutput >>= normalizeResult with
  | .ok result => .ok result
  | .error (.valueError _) =>
    .ok
      { qualityResult := some .warn
        summary := some (firstNonEmptyLine reviewOutput)
        findings := some []
        reportMarkdown := some (strip reviewOutput) }
  | .error e => .error e

/-- The update for a result that the state already carries. -/
def summarizeExisting (result : SopQualityReviewResult) : SopQualityState :=
  { summary := some (result.summary.getD [])
    reportMarkdown := some (result.reportMarkdown.getD [])
    qualityResult := some (result.qualityResult.getD .pass)
    findings := some (result.findings.getD [])
    result := some result }

/-- The update for an answer that is not blank. -/
def summarizeReview (limits : Limits) (reviewOutput : Text) : Except Raised SopQualityState := do
  let reviewed ← resultFromReviewOutput limits reviewOutput
  let result := { reviewed with reviewOutput := some (strip reviewOutput) }
  pure
    { summary := result.summary
      reportMarkdown := result.reportMarkdown
      qualityResult := result.qualityResult
      findings := result.findings
      result := some result }

/-- The update where there is neither a result nor an answer. -/
def summarizeFindings (state : SopQualityState) : SopQualityState :=
  let findings := state.findings.getD []
  let qualityResult := state.qualityResult.getD .pass
  let summary :=
    if findings.isEmpty then ofString "未发现阻塞性的 SOP 质量问题。"
    else ofString "发现 " ++ ofString (toString findings.length) ++ ofString " 个 SOP 质量问题。"
  let reportMarkdown := fallbackReport summary findings
  { summary := some summary
    reportMarkdown := some reportMarkdown
    result := some
      { qualityResult := some qualityResult
        summary := some summary
        findings := some findings
        reportMarkdown := some reportMarkdown } }

/-- `_summarize_result_state`. -/
def summarizeResultState (limits : Limits) (state : SopQualityState) :
    Except Raised SopQualityState :=
  match state.result with
  | some result => .ok (summarizeExisting result)
  | none =>
    match state.reviewOutput with
    | some reviewOutput =>
      if strip reviewOutput = [] then .ok (summarizeFindings state)
      else summarizeReview limits reviewOutput
    | none => .ok (summarizeFindings state)

end SummarizeResult

section Verdict

variable {limits : Limits}

/-- A text of white space only, the empty one included. -/
def IsBlank (text : Text) : Prop :=
  ∀ c ∈ text, isSpace c

/-- The item is a finding that the review schema admits. -/
structure ValidFinding (item : Value) : Prop where
  isDict : ∃ finding, item = .obj finding ∧
    (∃ value, getItem finding (ofString "severity") = some (.str value) ∧
      lower (strip value) ∈ severityAliases.map Prod.fst) ∧
    (∃ title, getItem finding (ofString "title") = some (.str title) ∧ ¬IsBlank title) ∧
    ∃ recommendation, getItem finding (ofString "recommendation") = some (.str recommendation) ∧
      ¬IsBlank recommendation

/-- An object that passes a SOP and is valid under the review schema. -/
structure PassingReview (parsed : List (Text × Value)) : Prop where
  qualityResult : getItem parsed (ofString "quality_result") = some (.str (ofString "pass"))
  summary : ∃ summary, getItem parsed (ofString "summary") = some (.str summary) ∧
    ¬IsBlank summary
  findings : ∀ value, getItem parsed (ofString "findings") = some value →
    ∃ items, value = .arr items ∧ ∀ item ∈ items, ValidFinding item

/-- A reading of an answer: its text without the white space around it, or some consecutive lines
of that. -/
def Reading (output text : Text) : Prop :=
  text = strip output ∨
    ∃ lines, lines <:+: splitlines (strip output) ∧ text = joinLines lines

/-- The answer contains the literal of an object. -/
def ContainsObject (output : Text) (parsed : List (Text × Value)) : Prop :=
  ∃ text lexeme, Reading output text ∧ lexeme <:+: text ∧ Denotes lexeme (.obj parsed)

/-- The answer in the state contains a review that passes the SOP. -/
def Reviewed (state : SopQualityState) : Prop :=
  ∃ output parsed, state.reviewOutput = some output ∧ ContainsObject output parsed ∧
    PassingReview parsed

/-- The update has the verdict `pass`, at its top or in its result. -/
def YieldsPass (update : SopQualityState) : Prop :=
  update.qualityResult = some .pass ∨
    ∃ result, update.result = some result ∧ result.qualityResult = some .pass

/-- The step yields `pass` only for an answer that reviews the SOP so. -/
def FailsClosed (limits : Limits) (state : SopQualityState) : Prop :=
  ∀ update, summarizeResultState limits state = .ok update → YieldsPass update → Reviewed state

theorem strip_eq_nil {text : Text} : strip text = [] ↔ IsBlank text := by
  unfold strip IsBlank
  rw [List.reverse_eq_nil_iff, List.dropWhile_eq_nil_iff]
  constructor
  · intro h c hc
    rw [← List.takeWhile_append_dropWhile (p := isSpace) (l := text)] at hc
    rcases List.mem_append.mp hc with hc | hc
    · exact List.mem_takeWhile_imp hc
    · exact h c (List.mem_reverse.mpr hc)
  · intro h c hc
    exact h c ((List.dropWhile_suffix isSpace).subset (List.mem_reverse.mp hc))

theorem nonBlank_some {value : Option Value} {text : Text} (h : nonBlank value = some text) :
    value = some (.str text) ∧ ¬IsBlank text := by
  unfold nonBlank at h
  split at h
  · split at h
    · cases h
    next hblank =>
      cases h
      exact ⟨rfl, fun hall => hblank (strip_eq_nil.mpr hall)⟩
  · cases h

theorem normalizeQualityResult_pass {value : Option Value}
    (h : normalizeQualityResult value = .ok .pass) : value = some (.str (ofString "pass")) := by
  unfold normalizeQualityResult at h
  split at h
  · split at h
    next heq => rw [heq]
    · split at h
      · cases h
      · split at h <;> cases h
  all_goals cases h

theorem normalizeSeverity_ok {value : Option Value} {severity : SopQualityFindingSeverity}
    (h : normalizeSeverity value = .ok severity) :
    ∃ text, value = some (.str text) ∧ lower (strip text) ∈ severityAliases.map Prod.fst := by
  unfold normalizeSeverity at h
  split at h
  next text =>
    split at h
    next hlookup =>
      refine ⟨text, rfl, ?_⟩
      obtain ⟨before, after, hsplit, _⟩ := List.lookup_eq_some_iff.mp hlookup
      rw [hsplit]
      simp
    · cases h
  · cases h

theorem normalizeFinding_ok {item : Value} {finding : SopQualityFinding}
    (h : normalizeFinding item = .ok finding) : ValidFinding item := by
  unfold normalizeFinding at h
  split at h
  next entries =>
    obtain ⟨severity, hseverity, h⟩ := bind_ok h
    split at h
    · cases h
    next title htitle =>
      split at h
      · cases h
      next recommendation hrecommendation =>
        exact ⟨entries, rfl, normalizeSeverity_ok hseverity,
          ⟨title, nonBlank_some htitle⟩, ⟨recommendation, nonBlank_some hrecommendation⟩⟩
  · cases h

theorem mapM_ok {α β ε : Type} {f : α → Except ε β} {xs : List α} {ys : List β}
    (h : xs.mapM f = .ok ys) : ∀ x ∈ xs, ∃ y, f x = .ok y := by
  induction xs generalizing ys with
  | nil => simp
  | cons x xs ih =>
      rw [List.mapM_cons] at h
      obtain ⟨y, hy, h⟩ := bind_ok h
      obtain ⟨zs, hzs, _⟩ := bind_ok h
      intro z hz
      rcases List.mem_cons.mp hz with rfl | hz
      · exact ⟨y, hy⟩
      · exact ih hzs z hz

theorem normalizeResult_pass {parsed : List (Text × Value)} {result : SopQualityReviewResult}
    (h : normalizeResult parsed = .ok result) (hpass : result.qualityResult = some .pass) :
    PassingReview parsed := by
  obtain ⟨qualityResult, hquality, h⟩ := bind_ok h
  split at h
  · cases h
  next summary hsummary =>
    obtain ⟨items, hitems, h⟩ := bind_ok h
    obtain ⟨findings, hfindings, h⟩ := bind_ok h
    cases h
    cases hpass
    refine ⟨normalizeQualityResult_pass hquality, ⟨summary, nonBlank_some hsummary⟩, ?_⟩
    intro value hvalue
    rw [hvalue] at hitems
    cases value with
    | arr items' =>
        cases hitems
        refine ⟨items, rfl, fun item hitem => ?_⟩
        obtain ⟨finding, hfinding⟩ := mapM_ok hfindings item hitem
        exact normalizeFinding_ok hfinding
    | null | bool | int | float | str | obj => cases hitems

theorem stripCodeFence_reading (output : Text) :
    ∃ text, Reading output text ∧ stripCodeFence (strip output) <:+: text := by
  unfold stripCodeFence
  split
  · dsimp only
    split
    · refine ⟨_, .inr ⟨_, ?_, rfl⟩, strip_isInfix _⟩
      exact (List.dropLast_prefix _).isInfix.trans (List.tail_suffix _).isInfix
    · exact ⟨_, .inl rfl, List.infix_rfl⟩
  · exact ⟨_, .inl rfl, List.infix_rfl⟩

theorem loadJsonObject_contained {output : Text} {parsed : List (Text × Value)}
    (h : loadJsonObject limits output = .ok parsed) : ContainsObject output parsed := by
  unfold loadJsonObject at h
  split at h
  · cases h
  next candidate hcandidate =>
    split at h
    next after hdecode =>
      cases h
      obtain ⟨lexeme, rfl, hdenotes⟩ := rawDecode_reads _ _ _ hdecode
      obtain ⟨text, hreading, hwithin⟩ := stripCodeFence_reading output
      refine ⟨text, lexeme, hreading, ?_, hdenotes⟩
      exact (List.prefix_append lexeme after).isInfix.trans
        ((findFrom_suffix hcandidate).isInfix.trans hwithin)
    all_goals cases h

/-- The step runs into the recursion limit only where the decoder does. -/
theorem loadJsonObject_recursionError {output : Text}
    (h : loadJsonObject limits output = .error .recursionError) :
    ∃ candidate, findFrom 0x7b (stripCodeFence (strip output)) = some candidate ∧
      rawDecode limits candidate = .error .recursionError := by
  unfold loadJsonObject at h
  split at h
  · cases h
  next candidate hcandidate =>
    split at h
    all_goals try cases h
    next hdecode => exact ⟨candidate, hcandidate, hdecode⟩
    next hdecode => exact absurd hdecode (scanOnce_ne_unfinished _ _)

theorem resultFromReviewOutput_pass {output : Text} {result : SopQualityReviewResult}
    (h : resultFromReviewOutput limits output = .ok result)
    (hpass : result.qualityResult = some .pass) :
    ∃ parsed, ContainsObject output parsed ∧ PassingReview parsed := by
  unfold resultFromReviewOutput at h
  split at h
  next hresult =>
    cases h
    obtain ⟨parsed, hparsed, hnormalized⟩ := bind_ok hresult
    exact ⟨parsed, loadJsonObject_contained hparsed, normalizeResult_pass hnormalized hpass⟩
  · cases h
    cases hpass
  · cases h

theorem summarizeReview_pass {output : Text} {update : SopQualityState}
    (h : summarizeReview limits output = .ok update) (hpass : YieldsPass update) :
    ∃ parsed, ContainsObject output parsed ∧ PassingReview parsed := by
  obtain ⟨result, hresult, h⟩ := bind_ok h
  cases h
  refine resultFromReviewOutput_pass hresult ?_
  rcases hpass with hpass | ⟨_, hsome, hpass⟩
  · exact hpass
  · cases hsome
    exact hpass

theorem yieldsPass_summarizeFindings (state : SopQualityState) :
    YieldsPass (summarizeFindings state) ↔ state.qualityResult.getD .pass = .pass := by
  simp [YieldsPass, summarizeFindings]

/-- White space contains no object. -/
theorem not_contains_of_blank {output : Text} {parsed : List (Text × Value)}
    (h : IsBlank output) : ¬ContainsObject output parsed := by
  rintro ⟨text, lexeme, hreading, hwithin, hdenotes⟩
  have hstrip : strip output = [] := strip_eq_nil.mpr h
  have htext : text = [] := by
    rcases hreading with rfl | ⟨lines, hlines, rfl⟩
    · exact hstrip
    · rw [hstrip] at hlines
      rw [List.infix_nil.mp hlines]
      rfl
  rw [htext, List.infix_nil] at hwithin
  have hpos := hdenotes.length_pos
  rw [hwithin] at hpos
  exact absurd hpos (by simp)

theorem summarizeResultState_of_blank (limits : Limits) {state : SopQualityState}
    (hnone : state.result = none)
    (hblank : ∀ output, state.reviewOutput = some output → IsBlank output) :
    summarizeResultState limits state = .ok (summarizeFindings state) := by
  unfold summarizeResultState
  rw [hnone]
  dsimp only
  split
  next output houtput => rw [if_pos (strip_eq_nil.mpr (hblank output houtput))]
  · rfl

theorem not_reviewed_of_blank {state : SopQualityState}
    (hblank : ∀ output, state.reviewOutput = some output → IsBlank output) :
    ¬Reviewed state := by
  rintro ⟨output, parsed, houtput, hcontains, _⟩
  exact not_contains_of_blank (hblank output houtput) hcontains

/-- With an answer that is not blank, the step fails closed. -/
theorem reviewed_of_pass {state update : SopQualityState} {output : Text}
    (hnone : state.result = none) (houtput : state.reviewOutput = some output)
    (hblank : ¬IsBlank output) (h : summarizeResultState limits state = .ok update)
    (hpass : YieldsPass update) : Reviewed state := by
  unfold summarizeResultState at h
  rw [hnone, houtput] at h
  dsimp only at h
  rw [if_neg (fun hstrip => hblank (strip_eq_nil.mp hstrip))] at h
  obtain ⟨parsed, hcontains, hreview⟩ := summarizeReview_pass h hpass
  exact ⟨output, parsed, houtput, hcontains, hreview⟩

/-- The step fails closed unless there is no answer to read and the state has no other verdict:
then it takes the default, which is `pass`. -/
theorem fails_closed_iff (limits : Limits) (state : SopQualityState)
    (hnone : state.result = none) :
    FailsClosed limits state ↔
      (∃ output, state.reviewOutput = some output ∧ ¬IsBlank output) ∨
        ∃ verdict, state.qualityResult = some verdict ∧ verdict ≠ .pass := by
  by_cases hanswer : ∃ output, state.reviewOutput = some output ∧ ¬IsBlank output
  · obtain ⟨output, houtput, hblank⟩ := hanswer
    constructor
    · intro _
      exact .inl ⟨output, houtput, hblank⟩
    · intro _ update h hpass
      exact reviewed_of_pass hnone houtput hblank h hpass
  · have hblank : ∀ output, state.reviewOutput = some output → IsBlank output := by
      intro output houtput
      by_contra hnot
      exact hanswer ⟨output, houtput, hnot⟩
    have hstep := summarizeResultState_of_blank limits hnone hblank
    constructor
    · intro hclosed
      refine .inr ?_
      have hnot : ¬YieldsPass (summarizeFindings state) :=
        fun hpass => not_reviewed_of_blank hblank (hclosed _ hstep hpass)
      rw [yieldsPass_summarizeFindings] at hnot
      cases hverdict : state.qualityResult with
      | none => exact absurd (by rw [hverdict]; rfl) hnot
      | some verdict => exact ⟨verdict, rfl, fun h => hnot (by rw [hverdict, h]; rfl)⟩
    · rintro (h | ⟨verdict, hverdict, hne⟩)
      · exact absurd h hanswer
      · intro update h hpass
        rw [hstep] at h
        cases h
        rw [yieldsPass_summarizeFindings, hverdict] at hpass
        exact absurd hpass hne

/-- An answer that the schema does not admit is a warning. -/
theorem fails_closed_plain_text :
    FailsClosed ⟨1000, 4300⟩ { reviewOutput := some (ofString "Plain review text.") } :=
  (fails_closed_iff _ _ rfl).mpr
    (.inl ⟨_, rfl, fun h => absurd (h 0x50 (by decide)) (by decide)⟩)

/-- An empty answer passes the SOP. -/
theorem empty_answer_passes :
    ∃ limits state, state.result = none ∧ state.reviewOutput = some [] ∧
      ¬FailsClosed limits state := by
  refine ⟨⟨1000, 4300⟩, { reviewOutput := some [] }, rfl, rfl, fun h => ?_⟩
  have hblank : ∀ output, some [] = some output → IsBlank output := by
    rintro _ ⟨⟩
    simp [IsBlank]
  exact not_reviewed_of_blank hblank
    (h _ (summarizeResultState_of_blank _ rfl hblank) (.inr ⟨_, rfl, rfl⟩))

end Verdict

end ChangeQuality.SopReview
