import ChangeQuality.NodeHistory
import ChangeQuality.SopColumns
import ChangeQuality.SopConclusions
import ChangeQuality.SopSequences

/-!
The detail of a check that the service returns. It is put together from three statements, between
which the tables may change, and its nodes are read off the messages of the session, or off the row
of the check where there are none.
-/

namespace ChangeQuality.SopDetails

open ChangeQuality.Values
open ChangeQuality.Records
open ChangeQuality.JsonDecoding (Limits)
open ChangeQuality.SequencedLog (pageAfter Numbered)
open ChangeQuality.SopTables
open ChangeQuality.SopRepository
open ChangeQuality.SopRunner
open ChangeQuality.SopSystem
open ChangeQuality.SopEffects
open ChangeQuality.SopInvariant
open ChangeQuality.SopDiscipline
open ChangeQuality.SopTransactions
open ChangeQuality.SopOutcomes (proceed)
open ChangeQuality.SopVerdicts
open ChangeQuality.SopScripts
open ChangeQuality.SopTranscripts
open ChangeQuality.SopColumns
open ChangeQuality.SopConclusions
open ChangeQuality.SopSequences (Grown grown_applyAll)
open ChangeQuality.NodeProjection
open ChangeQuality.SessionStream (stepOf)
open ChangeQuality.SessionView (readKey)
open ChangeQuality.NodeHistory (persisted)
open ChangeQuality.ReadCommitted
open ChangeQuality.Coroutine
open ChangeQuality.Interference

/-- An entry of `nodes`, of which the text comes from the tables as it is. -/
structure NodeEntry where
  status : NodeStatus
  streamText : Json

structure SopQualityDisplayState where
  latestSequence : Nat
  nodes : List (String × NodeEntry)
  isRunning : Bool

structure SopQualityCheckDetail where
  checkId : CheckId
  sopId : String
  envKey : String
  status : CheckStatus
  qualityResult : Option String
  latestSequence : Nat
  errorSummary : Option String
  graphName : String
  graphVersion : String
  threadId : String
  checkpointNs : String
  currentCheckpointId : Option String
  result : Option Json
  error : Option Json
  displayState : SopQualityDisplayState
  sessionId : Option SessionId

/-- Why there is no detail. -/
inductive DetailError where
  | notFound (id : CheckId)
  /-- A finding that is no object has no `get`. -/
  | attributeError
  /-- The model has objects in the columns of the result and of the error. -/
  | validationError

section Display

/-- `nodes[step] = entry`, where there is an entry. -/
def enter (step : String) (entry : Option NodeEntry) (nodes : List (String × NodeEntry)) :
    List (String × NodeEntry) :=
  match entry with
  | some entry => put step entry nodes
  | none => nodes

-- What `str` makes of a value that is no string is left open.
variable (str : Json → String)

/-- `_findings_text`. -/
def findingsText (findings : List Json) : Except DetailError String :=
  if findings.isEmpty then .ok "未发现明显结构性问题。"
  else do
    let lines ← findings.mapM fun item =>
      match item.asObj? with
      | some item => .ok ("- " ++ str (item.getD "title" (.str "问题")))
      | none => .error .attributeError
    .ok ("\n".intercalate lines)

/-- `_submission_text`. -/
def submissionText (submissionResult : Json) : String :=
  let status := (submissionResult.get "external_status").orElse (submissionResult.get "status")
  "External submission: " ++ str (status.orElse (.str "completed")) ++ "."

def asArr? : Json → Option (List Json)
  | .arr items => some items
  | _ => none

def displayStateFromGraphValues (values : Json) (latestSequence : Nat) (isRunning : Bool) :
    Except DetailError SopQualityDisplayState := do
  let underWay : NodeStatus := if isRunning then .running else .done
  let findings ← match asArr? (values.get "findings") with
    | some findings => do
        let text ← findingsText str findings
        .ok (some { status := underWay, streamText := .str text })
    | none => .ok none
  let snapshot : Option NodeEntry :=
    if (values.get "sop_snapshot").truthy then
      some { status := .done, streamText := .str "SOP 快照已读取。" }
    else none
  let review := (values.get "review_output").asStr?.map fun output : String =>
    { status := underWay, streamText := .str output : NodeEntry }
  let result := ((values.get "result").asObj?.filter Json.truthy).map fun result =>
    { status := .done
      streamText := ((result.get "report_markdown").orElse (result.get "summary")).orElse (.str "")
      : NodeEntry }
  let submission := ((values.get "submission_result").asObj?.filter Json.truthy).map
    fun submissionResult : Json =>
      { status := .done, streamText := .str (submissionText str submissionResult) : NodeEntry }
  .ok {
    latestSequence
    nodes := enter "submit_result" submission (enter "summarize_result" result
      (enter "summarize_result" findings (enter "review_sop" review
        (enter "load_sop" snapshot []))))
    isRunning }

/-- `values[key] = result[key]`, for a value of the kind. -/
def copyEntry (result : Json) (key : String) (kind : Json → Bool) (values : Json) : Json :=
  if kind (result.get key) then values.set key (result.get key) else values

def graphValuesFromCheck (check : SopQualityCheck) : Json :=
  let values : Json := .obj [("sop_snapshot", check.sopSnapshot)]
  match check.result.bind Json.asObj? with
  | none => values
  | some result =>
      copyEntry result "submission_result" (fun value => value.asObj?.isSome)
        (copyEntry result "review_output" (fun value => value.asStr?.isSome)
          (copyEntry result "quality_result" (fun value => value.asStr?.isSome)
            (copyEntry result "findings" (fun value => (asArr? value).isSome)
              (values.set "result" result))))

/-- The state that `display_state_from_session_messages` returns, whose texts are strings. -/
def ofMessages (state : DisplayState) : SopQualityDisplayState where
  latestSequence := state.latestSequence
  nodes := state.nodes.map fun (step, node) =>
    (step, { status := node.status, streamText := .str node.streamText })
  isRunning := state.isRunning

def errorSummary (error : Option Json) : Option String :=
  (error.bind Json.asObj?).bind fun error => (error.get "message").asStr?

/-- A column that the response model takes for an object. -/
def objectColumn : Option Json → Except DetailError (Option Json)
  | none => .ok none
  | some (.obj entries) => .ok (some (.obj entries))
  | some _ => .error .validationError

/-- The display state that `check_to_detail` chooses. -/
def displayStateOfCheck (check : SopQualityCheck) (latestSequence : Nat)
    (messages : List Message) : Except DetailError SopQualityDisplayState :=
  let messageDicts := messages.map fun message => messageToDisplayDict (persisted message)
  let isRunning := check.status.active
  if messageDicts.isEmpty then
    displayStateFromGraphValues str (graphValuesFromCheck check) latestSequence isRunning
  else .ok (ofMessages (displayStateFromSessionMessages messageDicts latestSequence isRunning))

def checkToDetail (check : SopQualityCheck) (latestSequence : Nat) (messages : List Message) :
    Except DetailError SopQualityCheckDetail := do
  let displayState ← displayStateOfCheck str check latestSequence messages
  let result ← objectColumn check.result
  let error ← objectColumn check.error
  .ok {
    checkId := check.id
    sopId := check.sopId
    envKey := check.envKey
    status := check.status
    qualityResult := check.qualityResult
    latestSequence
    errorSummary := errorSummary check.error
    graphName := check.graphName
    graphVersion := check.graphVersion
    threadId := check.threadId
    checkpointNs := check.checkpointNs
    currentCheckpointId := check.currentCheckpointId
    result
    error
    displayState
    sessionId := check.sessionId }

/-- `get_check_detail`. Each of its three statements reads what is committed when it runs: the row,
the latest sequence of the events, and the messages of the session. -/
def getCheckDetail (atRow atSequence atMessages : Db) (id : CheckId) :
    Except DetailError SopQualityCheckDetail :=
  match atRow.check id with
  | none => .error (.notFound id)
  | some check =>
      let messages := match check.sessionId with
        | some sid => pageAfter (·.sequence) (atMessages.messagesOf sid) 0 500
        | none => []
      checkToDetail str check (atSequence.latestSequence id) messages

end Display

section Script

/-- The node of a row. -/
def rowStep (row : Message) : String :=
  (row.additionalKwargs.get "step").text

/-- What the detail shows of the rows of a session: a node for each, of which the last is under way
in a check that is. -/
def shown (isRunning : Bool) : List Message → List (String × NodeEntry)
  | [] => []
  | [row] =>
      [(rowStep row, {
        status := if isRunning then .running else .done, streamText := .str row.content })]
  | row :: next :: rows =>
      (rowStep row, { status := .done, streamText := .str row.content }) ::
        shown isRunning (next :: rows)

/-- Every row has a node of the graph, and no two rows have the same. -/
structure Distinct (rows : List Message) : Prop where
  read : ∀ row ∈ rows, readKey (persisted row).additionalKwargs "step" = some (rowStep row)
  ordered : ∀ row ∈ rows, rowStep row ∈ orderedSteps
  nodup : (rows.map rowStep).Nodup

variable {limits : Limits} {sid : SessionId} {sopId answer : String} {rows : List Message}

theorem Distinct.sublist {rows' : List Message} (h : Distinct rows) (hrows : rows'.Sublist rows) :
    Distinct rows' where
  read row hrow := h.read row (hrows.mem hrow)
  ordered row hrow := h.ordered row (hrows.mem hrow)
  nodup := h.nodup.sublist (hrows.map rowStep)

theorem Distinct.known (h : Distinct rows) : Known (rows.map persisted) := by
  intro message hmessage step hstep
  obtain ⟨row, hrow, rfl⟩ := List.mem_map.mp hmessage
  have hread := h.read row hrow
  have hsome : stepOf (persisted row).additionalKwargs = some (rowStep row) :=
    (Option.filter_eq_some_iff.mp hread).1
  obtain rfl : rowStep row = step := Option.some.inj (hsome.symm.trans hstep)
  exact h.ordered row hrow

theorem Distinct.steps (h : Distinct rows) : stepsOf (rows.map persisted) = rows.map rowStep := by
  rw [stepsOf, List.filterMap_map, ← List.filterMap_eq_map]
  exact List.filterMap_congr h.read

theorem Distinct.chunks (h : Distinct rows) {row : Message} (hrow : row ∈ rows) :
    chunksOf (rows.map persisted) (rowStep row) = [row.content] := by
  have hcongr : chunksOf (rows.map persisted) (rowStep row) =
      rows.filterMap fun other => if rowStep other = rowStep row then some other.content
        else none := by
    rw [chunksOf, List.filterMap_map]
    refine List.filterMap_congr fun other hother => ?_
    simp only [Function.comp_apply, h.read other hother, Option.some.injEq]
    rfl
  rw [hcongr]
  clear hcongr
  induction rows with
  | nil => cases hrow
  | cons other rows ih =>
      have hnodup := List.nodup_cons.mp h.nodup
      rcases List.mem_cons.mp hrow with rfl | hrow
      · have hrest : rows.filterMap (fun other => if rowStep other = rowStep row then
            some other.content else none) = [] := by
          refine List.filterMap_eq_nil_iff.mpr fun other hother => if_neg fun hsame => ?_
          exact hnodup.1 (hsame ▸ List.mem_map_of_mem hother)
        rw [List.filterMap_cons, if_pos rfl]
        exact congrArg (row.content :: ·) hrest
      · have hother : rowStep other ≠ rowStep row := fun hsame =>
          hnodup.1 (hsame ▸ List.mem_map_of_mem hrow)
        rw [List.filterMap_cons, if_neg hother]
        exact ih (h.sublist (List.sublist_cons_self other rows)) hrow

theorem shown_eq (isRunning : Bool) (h : (rows.map rowStep).Nodup) :
    shown isRunning rows = rows.map fun row => (rowStep row, {
      status := if isRunning ∧ (rows.map rowStep).getLast? = some (rowStep row) then .running
        else .done
      streamText := .str row.content }) := by
  induction rows with
  | nil => rfl
  | cons row rows ih =>
      cases rows with
      | nil => simp [shown]
      | cons next rows =>
          have hnodup := List.nodup_cons.mp h
          have hlast : ((row :: next :: rows).map rowStep).getLast? =
              ((next :: rows).map rowStep).getLast? := rfl
          have hhead : ((next :: rows).map rowStep).getLast? ≠ some (rowStep row) :=
            fun hsame => hnodup.1 (List.mem_of_getLast? hsame)
          have hdone : (if isRunning = true ∧ ((next :: rows).map rowStep).getLast? =
              some (rowStep row) then NodeStatus.running else .done) = .done :=
            if_neg fun h => hhead h.2
          rw [shown, ih hnodup.2, hlast]
          exact congrArg (fun status : NodeStatus =>
            (rowStep row, { status, streamText := .str row.content : NodeEntry }) :: _) hdone.symm

/-- The nodes of a session in which no two rows have the same. -/
theorem Distinct.nodes (h : Distinct rows) (latestSequence : Nat) (isRunning : Bool) :
    (ofMessages (displayStateFromSessionMessages
        (rows.map fun row => messageToDisplayDict (persisted row)) latestSequence
        isRunning)).nodes = shown isRunning rows := by
  have hmap : (rows.map fun row => messageToDisplayDict (persisted row)) =
      (rows.map persisted).map messageToDisplayDict := by rw [List.map_map]; rfl
  rw [hmap, shown_eq isRunning h.nodup]
  change (displayStateFromSessionMessages _ latestSequence isRunning).nodes.map _ = _
  rw [displayState_nodes h.known, h.steps, firsts_of_nodup h.nodup, List.map_map, List.map_map]
  refine List.map_congr_left fun row hrow => ?_
  simp only [Function.comp_apply, h.chunks hrow]
  rfl

/-- Rows are distinct whose nodes are part of the nodes of the graph, in order. -/
theorem distinct_of_steps (hread : ∀ row ∈ rows,
      readKey (persisted row).additionalKwargs "step" = some (rowStep row))
    (hsteps : rows.map rowStep <+: orderedSteps) : Distinct rows where
  read := hread
  ordered row hrow := hsteps.subset (List.mem_map_of_mem hrow)
  nodup := List.Nodup.sublist hsteps.sublist (by decide)

theorem distinct_script (limits : Limits) (sid : SessionId) (sopId answer : String) :
    Distinct (script limits sid sopId answer) := by
  unfold script closing
  split
  · refine distinct_of_steps (fun row hrow => ?_) (List.prefix_rfl (l := orderedSteps))
    simp only [List.mem_cons, List.not_mem_nil, or_false] at hrow
    rcases hrow with rfl | rfl | rfl | rfl <;> rfl
  · refine distinct_of_steps (fun row hrow => ?_) (List.take_prefix 2 orderedSteps)
    simp only [List.mem_cons, List.not_mem_nil, or_false] at hrow
    rcases hrow with rfl | rfl <;> rfl

end Script

section Fallback

variable {str : Json → String} {check : SopQualityCheck} {latestSequence : Nat} {isRunning : Bool}

theorem get_set (entries : List (String × Json)) (key : String) (item : Json) (other : String) :
    (Json.obj (Json.setEntry key item entries)).get other =
      if other = key then item else (Json.obj entries).get other := by
  change ((Json.setEntry key item entries).lookup other).getD .null = _
  rw [Json.lookup_setEntry]
  split <;> rfl

theorem copyEntry_obj (result : Json) (key : String) (kind : Json → Bool)
    (entries : List (String × Json)) : ∃ copied,
      copyEntry result key kind (.obj entries) = .obj copied ∧
        ∀ other, (Json.obj copied).get other =
          if other = key ∧ kind (result.get key) = true then result.get key
          else (Json.obj entries).get other := by
  unfold copyEntry
  split
  · rename_i hkind
    refine ⟨_, rfl, fun other => ?_⟩
    rw [get_set]
    simp [hkind]
  · rename_i hkind
    exact ⟨entries, rfl, fun other => by simp [hkind]⟩

/-- What the row of a check with a result gives the display to read. -/
theorem graphValues_get {entries : List (String × Json)} (h : check.result = some (.obj entries)) :
    (graphValuesFromCheck check).get "result" = .obj entries ∧
      asArr? ((graphValuesFromCheck check).get "findings") =
        asArr? ((Json.obj entries).get "findings") ∧
      ((graphValuesFromCheck check).get "submission_result").asObj? =
        ((Json.obj entries).get "submission_result").asObj? := by
  obtain ⟨v₁, h₁, hget₁⟩ := copyEntry_obj (.obj entries) "findings"
    (fun value => (asArr? value).isSome)
    (Json.setEntry "result" (.obj entries) [("sop_snapshot", check.sopSnapshot)])
  obtain ⟨v₂, h₂, hget₂⟩ := copyEntry_obj (.obj entries) "quality_result"
    (fun value => value.asStr?.isSome) v₁
  obtain ⟨v₃, h₃, hget₃⟩ := copyEntry_obj (.obj entries) "review_output"
    (fun value => value.asStr?.isSome) v₂
  obtain ⟨v₄, h₄, hget₄⟩ := copyEntry_obj (.obj entries) "submission_result"
    (fun value => value.asObj?.isSome) v₃
  have hvalues : graphValuesFromCheck check = .obj v₄ := by
    rw [← h₄, ← h₃, ← h₂, ← h₁]
    simp only [graphValuesFromCheck, h]
    rfl
  rw [hvalues, hget₄, hget₄, hget₄, hget₃, hget₃, hget₃, hget₂, hget₂, hget₂, hget₁, hget₁, hget₁,
    get_set, get_set, get_set]
  refine ⟨by simp, ?_, ?_⟩
  · cases hfindings : asArr? ((Json.obj entries).get "findings") with
    | none => simp [Json.get, List.lookup_cons, asArr?]
    | some findings => simp [hfindings]
  · cases hsubmission : ((Json.obj entries).get "submission_result").asObj? with
    | none => simp [Json.get, List.lookup_cons, Json.asObj?]
    | some submission => simp [hsubmission]

theorem findingsText_ok (findings : List SopReview.SopQualityFinding) :
    ∃ text, findingsText str (findings.map writeFinding) = .ok text := by
  have hlines : ∃ lines, (findings.map writeFinding).mapM (fun item : Json =>
      match item.asObj? with
      | some item => (.ok ("- " ++ str (item.getD "title" (.str "问题"))) : Except DetailError String)
      | none => .error .attributeError) = .ok lines := by
    induction findings with
    | nil => exact ⟨[], rfl⟩
    | cons finding findings ih =>
        obtain ⟨lines, hlines⟩ := ih
        rw [List.map_cons, List.mapM_cons, hlines]
        exact ⟨_, rfl⟩
  obtain ⟨lines, hlines⟩ := hlines
  unfold findingsText
  split
  · exact ⟨_, rfl⟩
  · rw [hlines]
    exact ⟨_, rfl⟩

/-- A row without a result shows no nodes. -/
theorem fallback_empty (hsnapshot : check.sopSnapshot = .obj []) (hresult : check.result = none) :
    displayStateFromGraphValues str (graphValuesFromCheck check) latestSequence isRunning =
      .ok { latestSequence, nodes := [], isRunning } := by
  simp only [graphValuesFromCheck, hsnapshot, hresult]
  rfl

theorem reviewOf_result {limits : Limits} {answer : String} {review : Review}
    (h : reviewOf limits answer = some review) : ∃ result, review.result = writeResult result := by
  unfold reviewOf at h
  split at h
  · obtain ⟨result, -, rfl⟩ := Option.map_eq_some_iff.mp h
    exact ⟨result, rfl⟩
  · cases h

/-- The value of a key whose text may be missing. -/
def TextOrNull (value : Json) : Prop :=
  value = .null ∨ ∃ s, value = .str s

theorem textOrNull_written (text : Option Texts.Text) :
    TextOrNull ((text.map writeText).getD .null) := by
  cases text with
  | none => exact .inl rfl
  | some text => exact .inr ⟨_, rfl⟩

theorem TextOrNull.orElse {value other : Json} (h : TextOrNull value) (hother : TextOrNull other) :
    TextOrNull (value.orElse other) := by
  unfold Json.orElse
  split
  · exact h
  · exact hother

theorem TextOrNull.orEmpty {value : Json} (h : TextOrNull value) :
    ∃ s, value.orElse (.str "") = .str s := by
  unfold Json.orElse
  rcases h with rfl | ⟨s, rfl⟩
  · exact ⟨_, rfl⟩
  · split <;> exact ⟨_, rfl⟩

/-- The text of `summarize_result` is a string, in the result as in the row that tells of it. -/
theorem report_eq (result : SopReview.SopQualityReviewResult) :
    ((((writeResult result).get "report_markdown").orElse ((writeResult result).get "summary")).orElse
      (.str "")) = .str (reportText (writeResult result)) := by
  have hreport : (writeResult result).get "report_markdown" =
      (result.reportMarkdown.map writeText).getD .null := by
    change ((resultEntries result).lookup "report_markdown").getD .null = _
    simp [resultEntries, List.lookup_append, lookup_entry]
  have hsummary : (writeResult result).get "summary" =
      (result.summary.map writeText).getD .null := by
    change ((resultEntries result).lookup "summary").getD .null = _
    simp [resultEntries, List.lookup_append, lookup_entry]
  obtain ⟨s, hs⟩ := ((textOrNull_written result.reportMarkdown).orElse
    (textOrNull_written result.summary)).orEmpty
  unfold reportText
  rw [hreport, hsummary, hs]
  rfl

/-- Where there is a result and a submission, they make the last two nodes. -/
theorem fallback_nodes (str : Json → String) (latestSequence : Nat) (isRunning : Bool)
    {values result submission : Json}
    (hresult : (values.get "result").asObj?.filter Json.truthy = some result)
    (hsubmission : (values.get "submission_result").asObj?.filter Json.truthy = some submission)
    (hfindings : ∀ findings, asArr? (values.get "findings") = some findings →
      ∃ text, findingsText str findings = .ok text) : ∃ nodes,
      displayStateFromGraphValues str values latestSequence isRunning = .ok {
        latestSequence
        nodes := put "submit_result" {
            status := .done, streamText := .str (submissionText str submission) }
          (put "summarize_result" {
            status := .done
            streamText :=
              ((result.get "report_markdown").orElse (result.get "summary")).orElse (.str "") }
            nodes)
        isRunning } := by
  unfold displayStateFromGraphValues
  rw [hresult, hsubmission]
  cases hsome : asArr? (values.get "findings") with
  | none => exact ⟨_, rfl⟩
  | some findings =>
      obtain ⟨text, htext⟩ := hfindings findings hsome
      simp only [htext]
      exact ⟨_, rfl⟩

/-- The row of a succeeded check shows the last two nodes as its session does. -/
theorem fallback_concluded (hstr : ∀ s, str (.str s) = s) {limits : Limits} {sid : SessionId}
    {answer : String} {review : Review} (hreview : reviewOf limits answer = some review)
    (hresult : check.result = some (storedResult check.id review)) : ∃ state,
      displayStateFromGraphValues str (graphValuesFromCheck check) latestSequence isRunning =
        .ok state ∧
      ∀ step ∈ ["summarize_result", "submit_result"],
        state.nodes.lookup step =
          (shown false (script limits sid check.sopId answer)).lookup step := by
  obtain ⟨result, hwritten⟩ := reviewOf_result hreview
  let submission : Json :=
    .obj [("external_status", .str "mock_submitted"), ("check_id", .str (toString check.id))]
  let entries := Json.setEntry "submission_result" submission (resultEntries result)
  have hstored : check.result = some (.obj entries) := by
    rw [hresult, storedResult, hwritten]
    rfl
  obtain ⟨hvalue, hfindings, hsubmission⟩ := graphValues_get hstored
  have hget : ∀ key, key ≠ "submission_result" →
      (Json.obj entries).get key = (writeResult result).get key := fun key hkey => by
    rw [get_set, if_neg hkey]
    rfl
  have htruthy : (Json.obj entries).truthy = true := by
    cases hentries : entries with
    | nil =>
        have hlookup := Json.lookup_setEntry "submission_result" submission (resultEntries result)
          "submission_result"
        rw [show Json.setEntry "submission_result" submission (resultEntries result) = [] from
          hentries] at hlookup
        simp at hlookup
    | cons entry rest => rfl
  have hkept : ((graphValuesFromCheck check).get "result").asObj?.filter Json.truthy =
      some (.obj entries) := by
    rw [hvalue]
    simp [Json.asObj?, htruthy]
  have hsubmitted : ((graphValuesFromCheck check).get "submission_result").asObj?.filter
      Json.truthy = some submission := by
    rw [hsubmission, get_set, if_pos rfl]
    rfl
  have hlisted : ∀ findings, asArr? ((graphValuesFromCheck check).get "findings") =
      some findings → ∃ text, findingsText str findings = .ok text := by
    intro findings hsome
    have hfound : (writeResult result).get "findings" =
        (result.findings.map writeFindings).getD .null := by
      change ((resultEntries result).lookup "findings").getD .null = _
      simp [resultEntries, List.lookup_append, lookup_entry]
    rw [hfindings, hget _ (by decide), hfound] at hsome
    cases hlist : result.findings with
    | none => simp [hlist, asArr?] at hsome
    | some list =>
        obtain rfl : list.map writeFinding = findings := by
          simpa [hlist, asArr?, writeFindings] using hsome
        exact findingsText_ok list
  obtain ⟨nodes, hnodes⟩ := fallback_nodes str latestSequence isRunning hkept hsubmitted hlisted
  refine ⟨_, hnodes, fun step hstep => ?_⟩
  have hscript : (shown false (script limits sid check.sopId answer)).lookup step =
      (put "submit_result" {
          status := .done, streamText := .str "External submission: mock_submitted." }
        (put "summarize_result" {
          status := .done, streamText := .str (reportText review.result) : NodeEntry }
          nodes)).lookup step := by
    unfold script closing
    rw [hreview, lookup_put, lookup_put]
    simp only [List.mem_cons, List.not_mem_nil, or_false] at hstep
    rcases hstep with rfl | rfl <;> rfl
  have hreport : (((Json.obj entries).get "report_markdown").orElse
      ((Json.obj entries).get "summary")).orElse (.str "") = .str (reportText review.result) := by
    rw [hget _ (by decide), hget _ (by decide), hwritten]
    exact report_eq result
  have htext : submissionText str submission = "External submission: mock_submitted." := by
    change "External submission: " ++ str (.str "mock_submitted") ++ "." = _
    rw [hstr]
    rfl
  rw [hscript, hreport, htext]

end Fallback

section Details

variable {str : Json → String} {limits : Limits} {sid : SessionId} {row : SopQualityCheck}
  {rows : List Message} {latestSequence : Nat}

/-- Messages are only added, and every check keeps its session and its SOP. -/
theorem grown_steps {c : Collaborators} {c₁ c₂ : Config}
    (hrun : Steps exec (Task c) unrestricted c₁ c₂) :
    Grown c₁.shared.store.committed c₂.shared.store.committed ∧
      Named c₁.shared.store.committed c₂.shared.store.committed := by
  induction hrun with
  | refl => exact ⟨.refl _, .refl _⟩
  | tail _ hstep ih =>
      cases hstep with
      | spawn _ _ => exact ih
      | resume _ _ hexec =>
          rcases committed_of_effect (exec_outcome hexec).effect with heq | ⟨-, -, heq⟩
          · exact ⟨ih.1.trans (heq ▸ .refl _), ih.2.trans (heq ▸ .refl _)⟩
          · exact ⟨ih.1.trans (heq ▸ grown_applyAll _ _), ih.2.trans (heq ▸ named_applyAll _ _)⟩

theorem objectColumn_obj (column : Option Json)
    (h : ∀ value, column = some value → ∃ entries, value = .obj entries) :
    objectColumn column = .ok column := by
  cases column with
  | none => rfl
  | some value =>
      obtain ⟨entries, rfl⟩ := h value rfl
      rfl

theorem checkToDetail_eq {displayState : SopQualityDisplayState}
    (hresult : ∀ value, row.result = some value → ∃ entries, value = .obj entries)
    (herror : ∀ value, row.error = some value → ∃ entries, value = .obj entries)
    (hdisplay : displayStateOfCheck str row latestSequence rows = .ok displayState) :
    ∃ detail, checkToDetail str row latestSequence rows = .ok detail ∧
      detail.status = row.status ∧ detail.result = row.result ∧
      detail.qualityResult = row.qualityResult ∧ detail.displayState = displayState := by
  simp only [checkToDetail, hdisplay, objectColumn_obj _ hresult, objectColumn_obj _ herror]
  exact ⟨_, rfl, rfl, rfl, rfl, rfl⟩

/-- The messages of a check are read completely. -/
theorem page_of_part {sopId answer : String} (h : rows <+: script limits sid sopId answer) :
    pageAfter (·.sequence) rows 0 500 = rows := by
  have hnumbered : Numbered (·.sequence) rows := by
    rw [List.prefix_iff_eq_take.mp h]
    exact Numbered.take (numbered_script limits sid sopId answer) _
  have hlength : rows.length ≤ 500 := by
    have hscript : (script limits sid sopId answer).length ≤ 4 := by
      unfold script closing
      split <;> simp
    exact le_trans h.length_le (by omega)
  rw [hnumbered.pageAfter_eq, List.drop_zero, List.take_of_length_le hlength]

/-- The nodes of a detail whose messages are part of the script, and whose row told the same when
the messages were some of them. -/
theorem Told.detail (str : Json → String) (htold : Told limits sid rows row)
    (htyped : Typed row) {later : List Message} {answer : String} (hgrown : rows <+: later)
    (hlater : later <+: script limits sid row.sopId answer) (latestSequence : Nat) :
    ∃ detail, checkToDetail str row latestSequence later = .ok detail ∧
      detail.status = row.status ∧ detail.result = row.result ∧
      detail.qualityResult = row.qualityResult ∧
      detail.displayState.nodes = shown row.status.active later := by
  have hresult : ∀ value, row.result = some value → ∃ entries, value = .obj entries := by
    intro value hvalue
    rcases htold.records.recorded with hnone | ⟨answer', review, hreview, -, hstored, -⟩
    · rw [hnone.result] at hvalue
      cases hvalue
    · obtain ⟨result, hwritten⟩ := reviewOf_result hreview
      rw [hstored, storedResult, hwritten] at hvalue
      exact ⟨_, (Option.some.inj hvalue).symm⟩
  have hnodes : ∃ displayState, displayStateOfCheck str row latestSequence later =
      .ok displayState ∧ displayState.nodes = shown row.status.active later := by
    simp only [displayStateOfCheck]
    split
    · rename_i hempty
      obtain rfl : later = [] := by simpa using hempty
      obtain rfl : rows = [] := List.prefix_nil.mp hgrown
      have hnone : row.result = none := by
        rcases htold.records.recorded with hnone | ⟨answer', review, -, hlines, -, -⟩
        · exact hnone.result
        · cases hlines
      exact ⟨_, fallback_empty htyped.snapshot hnone, rfl⟩
    · refine ⟨_, rfl, ((distinct_script limits sid row.sopId answer).sublist
        hlater.sublist).nodes latestSequence row.status.active⟩
  obtain ⟨displayState, hdisplay, hshown⟩ := hnodes
  obtain ⟨detail, hdetail, hstatus, hkept, hquality, rfl⟩ :=
    checkToDetail_eq hresult htyped.error hdisplay
  exact ⟨detail, hdetail, hstatus, hkept, hquality, hshown⟩

/-- In every interleaving of runs, starts and startups, with failures at any await, the detail of a
check whose three statements meet the tables at three times is given, and shows the rows of a part of
the script of the graph, of which the last is under way if the check is. The detail of a check that
has succeeded shows the whole script and what it comes to, and the row alone would show the last two
nodes the same. -/
theorem detail_of_steps (limits : Limits) (c : Collaborators) (str : Json → String)
    (hstr : ∀ s, str (.str s) = s) {w : World} (hidle : Idle w) (hw : WellFormed w)
    (hconsistent : Consistent limits w.store.committed) (htyped : TypedTables w.store.committed)
    {c₁ c₂ c₃ : Config}
    (h₁ : Steps exec (Task (summarizing limits c)) unrestricted (.idle w) c₁)
    (h₂ : Steps exec (Task (summarizing limits c)) unrestricted c₁ c₂)
    (h₃ : Steps exec (Task (summarizing limits c)) unrestricted c₂ c₃) {id : CheckId}
    {row : SopQualityCheck} {sid : SessionId}
    (hrow : c₁.shared.store.committed.check id = some row) (hsid : row.sessionId = some sid) :
    ∃ detail answer later,
      getCheckDetail str c₁.shared.store.committed c₂.shared.store.committed
        c₃.shared.store.committed id = .ok detail ∧ detail.status = row.status ∧
      later <+: script limits sid row.sopId answer ∧
      detail.displayState.nodes = shown row.status.active later ∧
      (row.status = .succeeded → ∃ review state, reviewOf limits answer = some review ∧
        later = script limits sid row.sopId answer ∧
        detail.result = some (storedResult id review) ∧
        detail.qualityResult = review.qualityResult ∧
        displayStateFromGraphValues str (graphValuesFromCheck row)
          (c₂.shared.store.committed.latestSequence id) false = .ok state ∧
        ∀ step ∈ ["summarize_result", "submit_result"],
          state.nodes.lookup step = detail.displayState.nodes.lookup step) := by
  obtain ⟨history, hscripted⟩ := scripted_of_steps hidle hw hconsistent h₁
  obtain ⟨history', hscripted'⟩ := scripted_of_steps hidle hw hconsistent ((h₁.trans h₂).trans h₃)
  have htold := hscripted.told id row sid hrow hsid
  have hrowTyped : Typed row :=
    (typed_steps hidle htyped h₁).committed row (List.mem_of_find?_eq_some hrow)
  obtain ⟨hgrown, hnamed⟩ := grown_steps (h₂.trans h₃)
  obtain ⟨row', hrow', hsid', hsop⟩ := hnamed id row hrow
  have hpart := hgrown.messages sid
  obtain ⟨answer, hlater⟩ := (hscripted'.told id row' sid hrow' (hsid'.trans hsid)).spoken
  rw [hsop] at hlater
  obtain ⟨detail, hdetail, hstatus, hresult, hquality, hnodes⟩ :=
    Told.detail str htold hrowTyped hpart hlater
      (c₂.shared.store.committed.latestSequence id)
  have hgiven : getCheckDetail str c₁.shared.store.committed c₂.shared.store.committed
      c₃.shared.store.committed id = .ok detail := by
    simp only [getCheckDetail, hrow, hsid]
    rw [page_of_part hlater]
    exact hdetail
  refine ⟨detail, answer, _, hgiven, hstatus, hlater, hnodes, fun hsucceeded => ?_⟩
  obtain ⟨answer', review, hreview, hlines, hstored, hverdict⟩ :=
    htold.records.succeeded hsucceeded
  rw [hlines] at hpart
  obtain rfl := answer_of_prefix (hpart.trans hlater)
  have hwhole := script_maximal hpart hlater
  have hid : row.id = id := Db.check_id hrow
  obtain ⟨state, hstate, hsame⟩ := fallback_concluded hstr hreview hstored
  refine ⟨review, state, hreview, hwhole, hresult.trans (hid ▸ hstored), hquality.trans hverdict,
    hstate, fun step hstep => ?_⟩
  rw [hsame step hstep, hnodes, hwhole, hsucceeded]
  rfl

theorem detail_plainConversation : ∃ (c' : Config) (detail : SopQualityCheckDetail)
    (answer : String), follow exec unrestricted (.idle (oneCheck .pending)) plainConversation =
      some c' ∧
    getCheckDetail Json.text c'.shared.store.committed c'.shared.store.committed
      c'.shared.store.committed 0 = .ok detail ∧ detail.status = .succeeded ∧
    detail.displayState.nodes = shown false (script ⟨1000, 4300⟩ 0 "sop-1" answer) := by
  have hrun : ∃ (c' : Config) (row : SopQualityCheck),
      follow exec unrestricted (.idle (oneCheck .pending)) plainConversation = some c' ∧
        c'.shared.store.committed.check 0 = some row ∧ row.sessionId = some 0 ∧
        row.status = .succeeded ∧ row.sopId = "sop-1" := ⟨_, _, rfl, rfl, rfl, rfl, rfl⟩
  obtain ⟨c', row, hfollow, hrow, hsid, hsucceeded, hsop⟩ := hrun
  have hspawn : ∀ p ∈ started plainConversation,
      Task (summarizing ⟨1000, 4300⟩ collaborators) p := by
    simpa [plainConversation, started, proceed, answering] using .run 0
  obtain ⟨detail, answer, later, hdetail, hstatus, -, hnodes, hdone⟩ :=
    detail_of_steps ⟨1000, 4300⟩ collaborators Json.text (fun _ => rfl) (idle_oneCheck .pending)
      (wellFormed_oneCheck .pending) (consistent_oneCheck _) typed_oneCheck
      (follow_steps hspawn hfollow) .refl .refl hrow hsid
  obtain ⟨review, state, -, hlater, -⟩ := hdone hsucceeded
  refine ⟨c', detail, answer, hfollow, hdetail, hstatus.trans hsucceeded, ?_⟩
  rw [hnodes, hlater, hsucceeded, hsop]
  rfl

end Details

end ChangeQuality.SopDetails
