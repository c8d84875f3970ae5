import ChangeQuality.SopRunner
import ChangeQuality.SopReview

/-!
The verdict of a run of the SOP quality graph, in the three places that record it: the column of the
check, the stored result, and the payload that is submitted.
-/

namespace ChangeQuality.SopVerdicts

open ChangeQuality.Values
open ChangeQuality.Texts
open ChangeQuality.JsonDecoding (Limits bind_ok)
open ChangeQuality.SopTables
open ChangeQuality.SopRepository
open ChangeQuality.SopRunner
open ChangeQuality.SopReview

section State

/-- The string of a text. A lone surrogate is no character of a string here. -/
def characters (text : Text) : String :=
  String.ofList (text.map Char.ofNat)

def verdictName : SopQualityResultValue → String
  | .pass => "pass"
  | .warn => "warn"
  | .fail => "fail"

def readText (value : Json) : Option Text :=
  value.asStr?.map ofString

def readVerdict (value : Json) : Option SopQualityResultValue :=
  [.pass, .warn, .fail].find? fun verdict => value == .str (verdictName verdict)

def readSeverity (value : Json) : Option SopQualityFindingSeverity :=
  [.low, .medium, .high].find? fun severity => value == .str (characters severity.text)

def readFinding (value : Json) : Option SopQualityFinding := do
  let severity ← readSeverity (value.get "severity")
  let title ← readText (value.get "title")
  let recommendation ← readText (value.get "recommendation")
  pure { severity, title, recommendation }

def readFindings : Json → Option (List SopQualityFinding)
  | .arr items => items.mapM readFinding
  | _ => none

def readResult (value : Json) : Option SopQualityReviewResult :=
  value.asObj?.map fun result =>
    { qualityResult := readVerdict (result.get "quality_result")
      summary := readText (result.get "summary")
      findings := readFindings (result.get "findings")
      reportMarkdown := readText (result.get "report_markdown")
      reviewOutput := readText (result.get "review_output") }

/-- The graph's state as the step that summarizes sees it. -/
def readState (state : Json) : SopQualityState :=
  { reviewOutput := readText (state.get "review_output")
    findings := readFindings (state.get "findings")
    summary := readText (state.get "summary")
    qualityResult := readVerdict (state.get "quality_result")
    reportMarkdown := readText (state.get "report_markdown")
    result := readResult (state.get "result") }

/-- The entry of a key that may be missing. -/
def entry (key : String) (value : Option Json) : List (String × Json) :=
  (value.map fun item => (key, item)).toList

def writeText (text : Text) : Json :=
  .str (characters text)

def writeVerdict (verdict : SopQualityResultValue) : Json :=
  .str (verdictName verdict)

def writeFinding (finding : SopQualityFinding) : Json :=
  .obj [("severity", writeText finding.severity.text), ("title", writeText finding.title),
    ("recommendation", writeText finding.recommendation)]

def writeFindings (findings : List SopQualityFinding) : Json :=
  .arr (findings.map writeFinding)

def resultEntries (result : SopQualityReviewResult) : List (String × Json) :=
  entry "quality_result" (result.qualityResult.map writeVerdict) ++
    entry "summary" (result.summary.map writeText) ++
    entry "findings" (result.findings.map writeFindings) ++
    entry "report_markdown" (result.reportMarkdown.map writeText) ++
    entry "review_output" (result.reviewOutput.map writeText)

def writeResult (result : SopQualityReviewResult) : Json :=
  .obj (resultEntries result)

def stateEntries (update : SopQualityState) : List (String × Json) :=
  entry "summary" (update.summary.map writeText) ++
    entry "report_markdown" (update.reportMarkdown.map writeText) ++
    entry "quality_result" (update.qualityResult.map writeVerdict) ++
    entry "findings" (update.findings.map writeFindings) ++
    entry "result" (update.result.map writeResult)

def exception : Raised → Exn
  | .valueError message => .valueError message
  | .typeError message => .other "TypeError" message
  | .recursionError => .other "RecursionError" "maximum recursion depth exceeded"

/-- `_summarize_result_state` on the graph's state. -/
def summarizeState (limits : Limits) (state : Json) : Except Exn Json :=
  match summarizeResultState limits (readState state) with
  | .ok update => .ok (.obj (stateEntries update))
  | .error e => .error (exception e)

/-- The collaborators of a run whose answers are read by the code of the graph's nodes. -/
def summarizing (limits : Limits) (c : Collaborators) : Collaborators :=
  { c with summarizeResultState := summarizeState limits }

end State

section Run

variable (c : Collaborators)

/-- Some outcomes of its awaits lead the program to the value. -/
inductive Returns {α : Type} : Program α → α → Prop
  | done (value : α) : Returns (.done value) value
  | await {op : Op} {k : Except Exn (Reply op) → Program α} {value : α}
      (r : Except Exn (Reply op)) : Returns (k r) value → Returns (.await op k) value

/-- The state that `run_sop_quality_check` starts the graph with. -/
def initialState (check : SopQualityCheck) : Json :=
  .obj [("check_id", .str (toString check.id)), ("sop_id", .str check.sopId),
    ("env_key", .str check.envKey)]

/-- A run of the graph that ends normally, with the state after each node. -/
structure GraphRun (sessionId writer : Option SessionId) (initial : Json) where
  loaded : Json
  reviewed : Json
  summarized : Json
  final : Json
  load : Returns (runNode (loadSop c writer) initial) loaded
  review : Returns (runNode (reviewSop c sessionId writer) loaded) reviewed
  summarize : Returns (runNode (summarizeResult c writer) reviewed) summarized
  submit : Returns (runNode (submitResult c writer) summarized) final

/-- The payload of `submit_result`. -/
def submissionPayload (state result : Json) : Json :=
  Json.merge (.obj [("check_id", state.get "check_id"), ("sop_id", state.get "sop_id"),
    ("env_key", state.get "env_key"),
    ("sop_snapshot", (state.get "sop_snapshot").orElse (.obj []))]) result

namespace GraphRun

variable {c} {sessionId writer : Option SessionId} {initial : Json}
  (run : GraphRun c sessionId writer initial)

/-- The text that the agent's step has persisted. -/
def reviewOutput : String :=
  (run.reviewed.get "review_output").text

/-- The `quality_result` that `mark_terminal` is called with. -/
def column : Option String :=
  (run.final.get "quality_result").asStr?

def storedVerdict : Option String :=
  ((run.final.get "result").get "quality_result").asStr?

def submittedVerdict : Option String :=
  ((submissionPayload run.summarized (run.summarized.get "result")).get "quality_result").asStr?

/-- The three records of the verdict agree. -/
structure Agree : Prop where
  stored : run.column = run.storedVerdict
  submitted : run.column = run.submittedVerdict

end GraphRun

end Run

section Returning

variable {α β : Type}

theorem returns_bind {p : Program α} {f : α → Program β} {b : β} :
    Returns (p >>= f) b ↔ ∃ a, Returns p a ∧ Returns (f a) b := by
  rw [Coroutine.Program.bind_eq]
  induction p with
  | done a =>
      constructor
      · exact fun h => ⟨a, .done a, h⟩
      · rintro ⟨a', ha, hb⟩
        cases ha
        exact hb
  | raise e =>
      constructor
      · intro h
        cases h
      · rintro ⟨a, ha, _⟩
        cases ha
  | await op k ih =>
      constructor
      · intro h
        cases h with
        | await r hk =>
            obtain ⟨a, ha, hb⟩ := (ih r).mp hk
            exact ⟨a, .await r ha, hb⟩
      · rintro ⟨a, ha, hb⟩
        cases ha with
        | await r hk => exact .await r ((ih r).mpr ⟨a, hk, hb⟩)

theorem returns_pure {a b : α} : Returns (pure a : Program α) b ↔ b = a := by
  constructor
  · intro h
    cases h
    rfl
  · rintro rfl
    exact .done _

theorem returns_await {op : Op} (reply : Reply op) : Returns (SopRepository.await op) reply :=
  .await (.ok reply) (.done reply)

variable {c : Collaborators} {sessionId writer : Option SessionId}

theorem returns_runNode {node : Json → Program Json} {state state' : Json} :
    Returns (runNode node state) state' ↔
      ∃ update, Returns (node state) update ∧ state' = state.merge update := by
  unfold runNode
  rw [returns_bind]
  constructor
  · rintro ⟨update, hupdate, hrest⟩
    obtain ⟨_, _, hmerge⟩ := returns_bind.mp hrest
    exact ⟨update, hupdate, returns_pure.mp hmerge⟩
  · rintro ⟨update, hupdate, rfl⟩
    exact ⟨update, hupdate, returns_bind.mpr ⟨(), returns_await _, returns_pure.mpr rfl⟩⟩

/-- The runs of the compiled graph are those of its four nodes, one after the other. -/
theorem returns_ainvoke {initial final : Json} :
    Returns (ainvoke c sessionId writer initial) final ↔
      ∃ run : GraphRun c sessionId writer initial, run.final = final := by
  unfold ainvoke
  constructor
  · intro h
    obtain ⟨_, _, h⟩ := returns_bind.mp h
    obtain ⟨loaded, hload, h⟩ := returns_bind.mp h
    obtain ⟨reviewed, hreview, h⟩ := returns_bind.mp h
    obtain ⟨summarized, hsummarize, hsubmit⟩ := returns_bind.mp h
    exact ⟨⟨loaded, reviewed, summarized, final, hload, hreview, hsummarize, hsubmit⟩, rfl⟩
  · rintro ⟨run, rfl⟩
    refine returns_bind.mpr ⟨(), returns_await _, ?_⟩
    refine returns_bind.mpr ⟨run.loaded, run.load, ?_⟩
    refine returns_bind.mpr ⟨run.reviewed, run.review, ?_⟩
    exact returns_bind.mpr ⟨run.summarized, run.summarize, run.submit⟩

theorem loadSop_update {state update : Json} (h : Returns (loadSop c writer state) update) :
    ∃ snapshot messages,
      update = .obj [("sop_snapshot", snapshot), ("messages", messages)] := by
  obtain ⟨snapshot, _, h⟩ := returns_bind.mp h
  obtain ⟨_, _, h⟩ := returns_bind.mp h
  exact ⟨snapshot, _, returns_pure.mp h⟩

theorem reviewSop_update {state update : Json}
    (h : Returns (reviewSop c sessionId writer state) update) :
    ∃ text, update = .obj [("review_output", .str text)] := by
  obtain ⟨streams, _, h⟩ := returns_bind.mp h
  obtain ⟨text, _, h⟩ := returns_bind.mp h
  exact ⟨text, returns_pure.mp h⟩

theorem summarizeResult_update {state update : Json}
    (h : Returns (summarizeResult c writer state) update) :
    c.summarizeResultState state = .ok update := by
  unfold summarizeResult at h
  split at h
  · cases h
  next resultState hstate =>
    split at h
    · obtain ⟨_, _, h⟩ := returns_bind.mp h
      rw [returns_pure.mp h, hstate]
    · rw [returns_pure.mp h, hstate]

theorem submitResult_update {state update : Json}
    (h : Returns (submitResult c writer state) update) :
    ∃ result, (state.get "result").asObj? = some result ∧
      update = .obj [("submission_result", mockExternalSubmit (submissionPayload state result)),
        ("result", result.set "submission_result"
          (mockExternalSubmit (submissionPayload state result)))] := by
  unfold submitResult at h
  split at h
  · cases h
  next result hresult =>
    obtain ⟨_, _, h⟩ := returns_bind.mp h
    exact ⟨result, hresult, returns_pure.mp h⟩

end Returning

section Entries

theorem lookup_entry (key : String) (value : Option Json) (other : String) :
    (entry key value).lookup other = if other = key then value else none := by
  cases value with
  | none => simp [entry]
  | some item =>
      by_cases h : other = key
      · simp [entry, h]
      · simp [entry, List.lookup_cons, h, beq_eq_false_iff_ne.mpr h]

theorem reverse_entry (key : String) (value : Option Json) :
    (entry key value).reverse = entry key value := by
  cases value <;> rfl

theorem lookup_stateEntries (update : SopQualityState) :
    (stateEntries update).reverse.lookup "quality_result" =
        update.qualityResult.map writeVerdict ∧
      (stateEntries update).reverse.lookup "result" = update.result.map writeResult := by
  simp [stateEntries, List.lookup_append, lookup_entry, reverse_entry]

theorem lookup_resultEntries (result : SopQualityReviewResult) :
    (resultEntries result).lookup "quality_result" = result.qualityResult.map writeVerdict ∧
      (resultEntries result).reverse.lookup "quality_result" =
        result.qualityResult.map writeVerdict := by
  simp [resultEntries, List.lookup_append, lookup_entry, reverse_entry]

end Entries

section Agreement

variable {c : Collaborators} {limits : Limits} {check : SopQualityCheck}
  {sessionId writer : Option SessionId}

/-- What the first two nodes leave: the step that summarizes sees an answer and nothing else. -/
theorem reviewed_state {loaded reviewed : Json}
    (hload : Returns (runNode (loadSop c writer) (initialState check)) loaded)
    (hreview : Returns (runNode (reviewSop c sessionId writer) loaded) reviewed) :
    ∃ entries, reviewed = .obj entries ∧
      readState reviewed =
        { reviewOutput := some (ofString (reviewed.get "review_output").text) } ∧
      reviewed.get "quality_result" = .null ∧ reviewed.get "result" = .null := by
  obtain ⟨_, hload, hloaded⟩ := returns_runNode.mp hload
  obtain ⟨snapshot, messages, rfl⟩ := loadSop_update hload
  obtain ⟨_, hreview, hreviewed⟩ := returns_runNode.mp hreview
  obtain ⟨text, rfl⟩ := reviewSop_update hreview
  unfold initialState at hloaded
  rw [hloaded, Json.merge_obj, Json.merge_obj] at hreviewed
  have hget : ∀ key, reviewed.get key =
      ([("review_output", Json.str text)].lookup key).getD
        (([("messages", messages), ("sop_snapshot", snapshot)].lookup key).getD
          ((initialState check).get key)) := by
    intro key
    rw [hreviewed, Json.get_overlay, Json.get_overlay]
    rfl
  have houtput : reviewed.get "review_output" = .str text := hget _
  have hfindings : reviewed.get "findings" = .null := hget _
  have hsummary : reviewed.get "summary" = .null := hget _
  have hverdict : reviewed.get "quality_result" = .null := hget _
  have hreport : reviewed.get "report_markdown" = .null := hget _
  have hresult : reviewed.get "result" = .null := hget _
  refine ⟨_, hreviewed, ?_, hverdict, hresult⟩
  unfold readState
  rw [houtput, hfindings, hsummary, hverdict, hreport, hresult]
  rfl

theorem asStr_writeVerdict (verdict : Option SopQualityResultValue) :
    ((verdict.map writeVerdict).getD .null).asStr? = verdict.map verdictName := by
  cases verdict <;> rfl

theorem get_set_of_ne {entries : List (String × Json)} {key other : String} (h : other ≠ key)
    (item : Json) : ((Json.obj entries).set key item).get other = (Json.obj entries).get other := by
  change ((Json.setEntry key item entries).lookup other).getD .null = _
  rw [Json.lookup_setEntry, if_neg h]
  rfl

/-- The state after the step that summarizes has the result of its update, if any. -/
theorem summarized_result {reviewed : Json} {entries : List (String × Json)}
    (hentries : reviewed = .obj entries) (hresult : reviewed.get "result" = .null)
    (update : SopQualityState) :
    (reviewed.merge (.obj (stateEntries update))).get "result" =
      (update.result.map writeResult).getD .null := by
  rw [hentries] at hresult ⊢
  rw [Json.merge_obj, Json.get_overlay, (lookup_stateEntries update).2, hresult]

/-- The three places show what the step that summarizes gave: at the top of its update, and in its
result. -/
theorem recorded_verdicts
    (run : GraphRun (summarizing limits c) sessionId writer (initialState check)) :
    ∃ update result,
      summarizeResultState limits { reviewOutput := some (ofString run.reviewOutput) } =
        .ok update ∧ update.result = some result ∧
      run.column = update.qualityResult.map verdictName ∧
      run.storedVerdict = result.qualityResult.map verdictName ∧
      run.submittedVerdict = result.qualityResult.map verdictName := by
  obtain ⟨entries, hentries, hread, hverdict, hresult⟩ :=
    reviewed_state run.load run.review
  obtain ⟨_, hsummarize, hsummarized⟩ := returns_runNode.mp run.summarize
  have hstate := summarizeResult_update hsummarize
  change summarizeState limits run.reviewed = _ at hstate
  unfold summarizeState at hstate
  rw [hread] at hstate
  split at hstate
  next update hupdate =>
    obtain rfl := Except.ok.inj hstate
    have hresult' : run.summarized.get "result" =
        (update.result.map writeResult).getD .null := by
      rw [hsummarized]
      exact summarized_result hentries hresult update
    rw [hentries] at hverdict
    rw [hentries, Json.merge_obj] at hsummarized
    obtain ⟨_, hsubmit, hfinal⟩ := returns_runNode.mp run.submit
    obtain ⟨stored, hstored, rfl⟩ := submitResult_update hsubmit
    rw [hsummarized, Json.merge_obj] at hfinal
    cases hcase : update.result with
    | none =>
        rw [hresult', hcase] at hstored
        cases hstored
    | some result =>
        have hpresent : run.summarized.get "result" = writeResult result := by
          rw [hresult', hcase]
          rfl
        rw [hpresent] at hstored
        obtain rfl := Option.some.inj hstored
        refine ⟨update, result, hupdate, hcase, ?_, ?_, ?_⟩
        · have hcolumn : run.final.get "quality_result" =
              (update.qualityResult.map writeVerdict).getD .null := by
            rw [hfinal, Json.get_overlay]
            change (Json.obj (Json.overlay entries (stateEntries update))).get _ = _
            rw [Json.get_overlay, (lookup_stateEntries update).1, hverdict]
          unfold GraphRun.column
          rw [hcolumn, asStr_writeVerdict]
        · unfold GraphRun.storedVerdict
          rw [hfinal, Json.get_overlay]
          change (((writeResult result).set "submission_result" _).get _).asStr? = _
          rw [writeResult, get_set_of_ne (by decide)]
          change (((resultEntries result).lookup "quality_result").getD .null).asStr? = _
          rw [(lookup_resultEntries result).1, asStr_writeVerdict]
        · unfold GraphRun.submittedVerdict
          rw [hpresent]
          unfold submissionPayload writeResult
          rw [Json.merge_obj, Json.get_overlay, (lookup_resultEntries result).2]
          exact asStr_writeVerdict _
  · cases hstate

/-- Without a session the nodes have no message to write. -/
theorem returns_loadSop (state snapshot : Json) :
    ∃ loaded, Returns (runNode (loadSop c none) state) loaded :=
  ⟨_, returns_runNode.mpr ⟨_, returns_bind.mpr ⟨snapshot, returns_await _,
    returns_bind.mpr ⟨(), .done (), .done _⟩⟩, rfl⟩⟩

theorem returns_reviewSop (state : Json) (answer : String) :
    Returns (runNode (reviewSop c none none) state)
      (state.merge (.obj [("review_output", .str answer)])) := by
  refine returns_runNode.mpr ⟨_, returns_bind.mpr ⟨false, returns_await _, ?_⟩, rfl⟩
  refine returns_bind.mpr ⟨answer, ?_, .done _⟩
  exact returns_bind.mpr ⟨answer, returns_await _, returns_bind.mpr ⟨(), .done (), .done _⟩⟩

theorem returns_submitResult {state result : Json} (h : (state.get "result").asObj? = some result) :
    ∃ final, Returns (runNode (submitResult c none) state) final := by
  have hnode : ∃ update, Returns (submitResult c none state) update := by
    unfold submitResult
    rw [h]
    exact ⟨_, returns_bind.mpr ⟨(), .done (), .done _⟩⟩
  obtain ⟨update, hnode⟩ := hnode
  exact ⟨_, returns_runNode.mpr ⟨update, hnode, rfl⟩⟩

/-- Every answer that the step can summarize comes up in some run that ends normally. -/
theorem exists_run {answer : String} {update : SopQualityState} {result : SopQualityReviewResult}
    (hupdate : summarizeResultState limits { reviewOutput := some (ofString answer) } = .ok update)
    (hresult : update.result = some result) :
    ∃ run : GraphRun (summarizing limits c) none none (initialState check),
      run.reviewOutput = answer := by
  obtain ⟨loaded, hload⟩ :=
    @returns_loadSop (summarizing limits c) (initialState check) (.obj [])
  have hreview := @returns_reviewSop (summarizing limits c) loaded answer
  obtain ⟨entries, hentries, hread, _, hnone⟩ := reviewed_state hload hreview
  have houtput : ((loaded.merge (.obj [("review_output", .str answer)])).get
      "review_output").text = answer := by
    obtain ⟨_, hupdate, hloaded⟩ := returns_runNode.mp hload
    obtain ⟨_, _, rfl⟩ := loadSop_update hupdate
    unfold initialState at hloaded
    rw [hloaded, Json.merge_obj, Json.merge_obj, Json.get_overlay]
    rfl
  generalize hreviewed : loaded.merge (.obj [("review_output", .str answer)]) = reviewed at *
  have hstate : (summarizing limits c).summarizeResultState reviewed =
      .ok (.obj (stateEntries update)) := by
    change summarizeState limits reviewed = _
    unfold summarizeState
    rw [hread, houtput, hupdate]
  have hsummarized := summarized_result hentries hnone update
  rw [hresult] at hsummarized
  have hsummarize : Returns (runNode (summarizeResult (summarizing limits c) none) reviewed)
      (reviewed.merge (.obj (stateEntries update))) := by
    refine returns_runNode.mpr ⟨_, ?_, rfl⟩
    unfold summarizeResult
    rw [hstate]
    dsimp only
    split
    · exact returns_bind.mpr ⟨(), .done (), .done _⟩
    · exact .done _
  obtain ⟨final, hsubmit⟩ := @returns_submitResult (summarizing limits c) _ (writeResult result)
    (congrArg Json.asObj? hsummarized)
  exact ⟨⟨loaded, reviewed, _, final, hload, hreview, hsummarize, hsubmit⟩, houtput⟩

/-- The verdict of the column, the one in the stored result and the submitted one agree exactly if
the agent's answer is not blank: for a blank answer the step that summarizes gives no verdict at the
top of its update. -/
theorem verdicts_agree_iff (limits : Limits) (c : Collaborators) (check : SopQualityCheck)
    (sessionId writer : Option SessionId)
    (run : GraphRun (summarizing limits c) sessionId writer (initialState check)) :
    run.Agree ↔ ¬IsBlank (ofString run.reviewOutput) := by
  obtain ⟨update, result, hupdate, hresult, hcolumn, hstored, hsubmitted⟩ := recorded_verdicts run
  constructor
  · intro hagree hblank
    rw [summarizeResultState_of_blank limits rfl] at hupdate
    · obtain rfl := Except.ok.inj hupdate
      obtain rfl := Option.some.inj hresult
      have heq := hagree.stored
      rw [hcolumn, hstored] at heq
      cases heq
    · rintro output ⟨⟩
      exact hblank
  · intro hblank
    have hsame : update.qualityResult = result.qualityResult := by
      unfold summarizeResultState at hupdate
      dsimp only at hupdate
      rw [if_neg fun hstrip => hblank (strip_eq_nil.mp hstrip)] at hupdate
      obtain ⟨reviewed, _, hpure⟩ := bind_ok hupdate
      cases hpure
      obtain rfl := Option.some.inj hresult
      rfl
    constructor
    · rw [hcolumn, hstored, hsame]
    · rw [hcolumn, hsubmitted, hsame]

/-- A check whose run has neither session nor listeners. -/
def collaborators : Collaborators where
  checkpointer := false
  sessionRepository := false
  broadcast := false
  sessionBroadcast := false
  userMessage := fun state => state
  summarizeResultState := fun state => .ok state

def sopCheck : SopQualityCheck :=
  NewCheck.toRow
    { sopId := "sop-1"
      envKey := "prod"
      graphName := "sop_quality"
      graphVersion := "sop-quality@1"
      sopSnapshot := .obj []
      createdBy := none
      sessionId := none
      threadId := "thread-1" } 1

theorem verdicts_agree_plain_text :
    ∃ run : GraphRun (summarizing ⟨1000, 4300⟩ collaborators) none none (initialState sopCheck),
      run.reviewOutput = "Ready." ∧ run.Agree := by
  have hsome : (match summarizeResultState ⟨1000, 4300⟩
      { reviewOutput := some (ofString "Ready.") } with
      | .ok update => update.result.isSome
      | .error _ => false) = true := by
    decide
  split at hsome
  next update hupdate =>
    obtain ⟨result, hresult⟩ := Option.isSome_iff_exists.mp hsome
    obtain ⟨run, houtput⟩ := @exists_run collaborators _ sopCheck _ _ _ hupdate hresult
    refine ⟨run, houtput, (verdicts_agree_iff _ _ _ _ _ run).mpr ?_⟩
    rw [houtput]
    exact fun hblank => absurd (hblank 0x52 (by decide)) (by decide)
  · cases hsome

/-- For an empty answer the column has no verdict, and the stored result passes the SOP. -/
theorem blank_answer_diverges :
    ¬ ∀ (limits : Limits) (c : Collaborators) (check : SopQualityCheck)
        (sessionId writer : Option SessionId)
        (run : GraphRun (summarizing limits c) sessionId writer (initialState check)),
        run.Agree := by
  intro h
  have hempty : ofString "" = [] := by decide
  have hupdate := @summarizeResultState_of_blank ⟨1000, 4300⟩
    { reviewOutput := some (ofString "") } rfl (by
      rintro output ⟨⟩ c hc
      rw [hempty] at hc
      cases hc)
  obtain ⟨run, houtput⟩ := @exists_run collaborators _ sopCheck _ _ _ hupdate rfl
  obtain ⟨update, result, hstep, hresult, hcolumn, hstored, _⟩ := recorded_verdicts run
  rw [houtput, hupdate] at hstep
  obtain rfl := Except.ok.inj hstep
  obtain rfl := Option.some.inj hresult
  have hagree := (h _ _ _ _ _ run).stored
  rw [hcolumn, hstored] at hagree
  cases hagree

end Agreement

end ChangeQuality.SopVerdicts
