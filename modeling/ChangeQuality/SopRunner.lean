import ChangeQuality.SopRepository

/-!
The background run of a check, the request that starts one, and the interruption of leftover checks
at startup. LangGraph, the agents and the checkpointer are operations of the environment.
-/

namespace ChangeQuality.SopRunner

open ChangeQuality.Values
open ChangeQuality.SopTables
open ChangeQuality.SopRepository
open ChangeQuality.Coroutine.Program (ensuring)

/-- The optional collaborators of `run_sop_quality_check`, and the pure texts of graph nodes that
the run only passes on. -/
structure Collaborators where
  checkpointer : Bool
  sessionRepository : Bool
  broadcast : Bool
  sessionBroadcast : Bool
  userMessage : Json → Json
  summarizeResultState : Json → Except Exn Json

section Graph

variable (c : Collaborators)

/-- `append_step_message`; without a session the writer of the run does nothing. -/
def appendStepMessage (writer : Option SessionId) (step role content : String)
    (additionalKwargs : Json) : Program Unit :=
  match writer with
  | none => pure ()
  | some sessionId => do
      let merged := additionalKwargs.set "step" (.str step)
      let message ← appendMessage sessionId role content merged
      await .commit
      if c.sessionBroadcast then await (.publishMessage message) else pure ()

/-- `_session_live_event_publisher`. -/
def publishLive (sessionId : Option SessionId) (event : Json) : Program Unit :=
  match sessionId with
  | none => pure ()
  | some sessionId =>
      if c.sessionBroadcast then
        await (.publishDelta sessionId (event.set "session_id" (.num sessionId)))
      else pure ()

/-- The `message_delta` event of a step. -/
def deltaEvent (sessionId : Option SessionId) (content : String) (kwargs : Json) : Json :=
  .obj [("type", .str "message_delta"),
    ("session_id", match sessionId with
      | some sessionId => .num sessionId
      | none => .null),
    ("sequence", .null), ("role", .str "assistant"), ("content", .str content),
    ("additional_kwargs", kwargs)]

/-- The loop of `_run_astream`, with the text collected so far. -/
def publishChunks (sessionId : Option SessionId) (step : String) (thinkingPublished : Bool)
    (text : String) : List Chunk → Program String
  | [] => do
      await .agentStreamEnd
      pure text
  | chunk :: chunks => do
      let thinking := !thinkingPublished && chunk.hasReasoning
      if thinking then
        publishLive c sessionId (deltaEvent sessionId "" (.obj [("step", .str step),
          ("channel", .str "thinking"), ("status", .str "started")]))
      else pure ()
      if chunk.content = "" then
        publishChunks sessionId step (thinkingPublished || thinking) text chunks
      else do
        publishLive c sessionId (deltaEvent sessionId chunk.content
          (.obj [("step", .str step), ("channel", .str "content")]))
        publishChunks sessionId step (thinkingPublished || thinking) (text ++ chunk.content) chunks

/-- `DeepAgentStreamRunner.run_step`. -/
def runStep (sessionId writer : Option SessionId) (streams : Bool) (step : String)
    (payload : Json) : Program String := do
  let finalText ←
    if streams then do
      let chunks ← await (.agentStream payload)
      publishChunks c sessionId step false "" chunks
    else await (.agentInvoke payload)
  appendStepMessage c writer step "assistant" finalText
    (.obj [("kind", .str "final_message"), ("step", .str step)])
  pure finalText

def loadSop (writer : Option SessionId) (state : Json) : Program Json := do
  let stored := state.getD "sop_snapshot" (.obj [])
  let sopId := (state.get "sop_id").orElse (stored.getD "sop_id" (.str ""))
  let envKey := (state.get "env_key").orElse (stored.getD "env_key" (.str ""))
  let snapshot ← await (.getSop sopId.text envKey.text)
  let content := "已读取 SOP " ++ sopId.text ++ "。"
  appendStepMessage c writer "load_sop" "assistant" content
    (.obj [("kind", .str "step_message"), ("step", .str "load_sop")])
  pure (.obj [("sop_snapshot", snapshot),
    ("messages", .arr [.obj [("role", .str "assistant"), ("content", .str content)]])])

def reviewSop (sessionId writer : Option SessionId) (state : Json) : Program Json := do
  let streams ← await .createAgent
  let finalText ← runStep c sessionId writer streams "review_sop"
    (.obj [("messages", .arr [c.userMessage state])])
  pure (.obj [("review_output", .str finalText)])

def summarizeResult (writer : Option SessionId) (state : Json) : Program Json :=
  match c.summarizeResultState state with
  | .error e => throw e
  | .ok resultState =>
    match (resultState.get "result").asObj? with
    | some result => do
        let content :=
          ((result.get "report_markdown").orElse (result.get "summary")).orElse (.str "")
        appendStepMessage c writer "summarize_result" "assistant" content.text
          (.obj [("kind", .str "step_message"), ("step", .str "summarize_result"),
            ("channel", .str "summary")])
        pure resultState
    | none => pure resultState

/-- `_mock_external_submit`. -/
def mockExternalSubmit (payload : Json) : Json :=
  .obj [("external_status", .str "mock_submitted"), ("check_id", payload.get "check_id")]

/-- `_submission_text`. -/
def submissionText (submission : Json) : String :=
  match submission with
  | .obj _ =>
      let status := (submission.get "external_status").orElse (submission.get "status")
      "External submission: " ++ (status.orElse (.str "completed")).text ++ "."
  | _ => "External submission completed."

def submitResult (writer : Option SessionId) (state : Json) : Program Json :=
  match (state.get "result").asObj? with
  | none => throw (.valueError "SOP quality result is missing before submission.")
  | some result => do
      let payload := Json.merge (.obj [("check_id", state.get "check_id"),
        ("sop_id", state.get "sop_id"), ("env_key", state.get "env_key"),
        ("sop_snapshot", (state.get "sop_snapshot").orElse (.obj []))]) result
      let submission := mockExternalSubmit payload
      appendStepMessage c writer "submit_result" "assistant" (submissionText submission)
        (.obj [("kind", .str "step_message"), ("step", .str "submit_result"),
          ("channel", .str "summary")])
      pure (.obj [("submission_result", submission),
        ("result", result.set "submission_result" submission)])

/-- A node of the graph: LangGraph saves a checkpoint of the state that the node has updated. -/
def runNode (node : Json → Program Json) (state : Json) : Program Json := do
  let update ← node state
  await .saveCheckpoint
  pure (state.merge update)

/-- `graph.ainvoke` on the compiled graph: the four nodes in the order of its edges. -/
def ainvoke (sessionId writer : Option SessionId) (initialState : Json) : Program Json := do
  await .saveCheckpoint
  let state ← runNode (loadSop c writer) initialState
  let state ← runNode (reviewSop c sessionId writer) state
  let state ← runNode (summarizeResult c writer) state
  runNode (submitResult c writer) state

/-- `_checkpoint_id_from_config`. -/
def checkpointIdFromConfig (config : Json) : Option String :=
  match ((config.orElse (.obj [])).get "configurable").asObj? with
  | some configurable => (configurable.get "checkpoint_id").asStr?
  | none => none

/-- `_latest_checkpoint_id`. -/
def latestCheckpointId : Program (Option String) :=
  if c.checkpointer then do
    let config ← await .graphState
    pure (checkpointIdFromConfig config)
  else pure none

end Graph

section Runner

variable (c : Collaborators) (id : CheckId)

/-- `_publish_event`. -/
def publishEvent (event : SopQualityEvent) : Program Unit :=
  if c.broadcast then await (.publishEvent event) else pure ()

/-- `set_status` where the run has a session repository and the check has a session. -/
def setSessionStatus (sessionId : Option SessionId) (status : SessionStatus) : Program Unit :=
  match c.sessionRepository, sessionId with
  | true, some sessionId => do
      let _ ← setStatus sessionId status
      pure ()
  | _, _ => pure ()

/-- `_mark_failed`. -/
def markFailed (e : Exn) : Program Json := do
  let error : Json := .obj [("type", .str e.typeName), ("message", .str e.text)]
  let check ← getCheck id
  let _ ← markTerminal id .failed none none (some error)
  setSessionStatus c (check.bind fun (check, _) => check.sessionId) .failed
  let failedEvent ← appendEvent id .failed none none none (some e.text)
  await .commit
  publishEvent c failedEvent
  pure (.obj [("status", .str "failed"), ("error", error)])

/-- The part of the run that follows the graph: the checkpoint is recorded. -/
def recordCheckpoint : Program Unit := do
  match ← latestCheckpointId c with
  | some checkpointId => do
      let _ ← setCurrentCheckpoint id checkpointId
      let checkpointEvent ←
        appendEvent id .checkpoint none (some checkpointId) none (some "Checkpoint saved.")
      await .commit
      publishEvent c checkpointEvent
  | none => pure ()

/-- The end of a successful run. -/
def markSucceeded (sessionId : Option SessionId) (finalState : Json) : Program Json := do
  let _ ← markTerminal id .succeeded (finalState.get "quality_result").asStr?
    (finalState.get "result").asObj? none
  setSessionStatus c sessionId .completed
  let completedEvent ←
    appendEvent id .completed none none none (some "SOP quality check completed.")
  await .commit
  publishEvent c completedEvent
  pure (.obj [("status", .str "succeeded"), ("result", finalState.get "result")])

/-- The body of the `try` of `run_sop_quality_check`. -/
def tryRun : Program Json := do
  match ← markRunning id with
  | none => pure (.obj [("status", .str "skipped")])
  | some check => do
      let startedEvent ←
        appendEvent id .started none none none (some "SOP quality check started.")
      await .commit
      await (.note (.started id))
      publishEvent c startedEvent
      let writer := if c.sessionRepository then check.sessionId else none
      let finalState ← ainvoke c check.sessionId writer (.obj [
        ("check_id", .str (toString check.id)), ("sop_id", .str check.sopId),
        ("env_key", .str check.envKey)])
      recordCheckpoint c id
      markSucceeded c id check.sessionId finalState

def runSopQualityCheck : Program Json :=
  (tryRun c id).tryCatch (markFailed c id)

/-- `async with open_postgres_checkpointer(setup=True)`. -/
def withCheckpointer {α : Type} (body : Program α) : Program α := do
  await .openCheckpointer
  ensuring body (await .closeCheckpointer)

def runSopQualityCheckWithNewSession : Program Json :=
  ensuring
    ((withCheckpointer
        (runSopQualityCheck { c with checkpointer := true, sessionRepository := true } id)).tryCatch
      fun e => do
        await (.note (.lastResort id))
        markFailed { c with checkpointer := true, sessionRepository := true } id e)
    (await .close)

end Runner

/-- The background task of a check; `start_check` commits the check before it schedules the task. -/
def backgroundRun (c : Collaborators) (id : CheckId) : Program Unit := do
  await (.startBackground id)
  let _ ← runSopQualityCheckWithNewSession c id

/-- `interrupt_leftover_sop_quality_checks`. -/
def interruptLeftoverSopQualityChecks : Program Unit :=
  ensuring
    (do
      let _ ← interruptActiveChecksOnStartup
      await .commit)
    (await .close)

section Service

structure CheckStartResult where
  checkId : CheckId
  status : CheckStatus
  created : Bool
  statusUrl : String
  streamUrl : String

/-- `_result`. -/
def checkStartResult (id : CheckId) (status : CheckStatus) (created : Bool) : CheckStartResult :=
  { checkId := id
    status
    created
    statusUrl := "/api/sop-quality-checks/" ++ toString id
    streamUrl := "/api/sop-quality-checks/" ++ toString id ++ "/stream" }

/-- `_status_from_check`. -/
def statusFromCheck : Option (SopQualityCheck × Nat) → CheckStatus
  | none => .running
  | some (check, _) => check.status

/-- `SopQualityService.start_check`. -/
def startCheck (environments : List String) (sopId envKey : String) (createdBy : Option String) :
    Program CheckStartResult := do
  if envKey ∈ environments then
    match ← getActiveCheck sopId envKey with
    | some (active, _) => pure (checkStartResult active.id active.status false)
    | none => do
        let session ← createSession (some ("SOP 质量检查：" ++ sopId))
        let created : Except CheckId SopQualityCheck ←
          Coroutine.Program.tryCatch
            (do
              let check ← createCheck
                { sopId
                  envKey
                  graphName := "sop_quality"
                  graphVersion := "sop-quality@1"
                  sopSnapshot := .obj []
                  createdBy
                  sessionId := some session.id
                  threadId := session.threadId }
              pure (.ok check))
            fun
              | .activeCheckExists active => pure (.error active)
              | e => throw e
        match created with
        | .error active => do
            let check ← getCheck active
            pure (checkStartResult active (statusFromCheck check) false)
        | .ok check => do
            let _ ← appendEvent check.id .created none none none none
            await .commit
            await (.schedule check.id)
            pure (checkStartResult check.id .pending true)
  else
    throw (.keyError envKey)

/-- The request around `start_check`, whose database session is closed when it has ended. -/
def startCheckRequest (environments : List String) (sopId envKey : String)
    (createdBy : Option String) : Program CheckStartResult :=
  ensuring (startCheck environments sopId envKey createdBy) (await .close)

end Service

end ChangeQuality.SopRunner
