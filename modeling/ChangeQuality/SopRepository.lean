import ChangeQuality.Coroutine
import ChangeQuality.SopTables

/-!
`SopQualityCheckRepository` and `SessionRepository`, translated await by await, over the operations
that the SOP quality backend awaits. A task has one database session, so the repositories of a task
share it.
-/

namespace ChangeQuality.SopRepository

open ChangeQuality.Values
open ChangeQuality.SopTables

/-- The exceptions; those that some `except` clause tells apart have a constructor of their own. -/
inductive Exn where
  | keyError (key : String)
  | integrityError (message : String)
  | activeCheckExists (id : CheckId)
  | valueError (message : String)
  | other (type message : String)
  deriving DecidableEq

/-- `type(exc).__name__`. -/
def Exn.typeName : Exn → String
  | .keyError _ => "KeyError"
  | .integrityError _ => "IntegrityError"
  | .activeCheckExists _ => "ActiveSopQualityCheckExistsError"
  | .valueError _ => "ValueError"
  | .other type _ => type

/-- `str(exc)`. -/
def Exn.text : Exn → String
  | .keyError key => key
  | .integrityError message => message
  | .activeCheckExists id => toString id
  | .valueError message => message
  | .other _ message => message

/-- What `create_check` is called with. -/
structure NewCheck where
  sopId : String
  envKey : String
  graphName : String
  graphVersion : String
  sopSnapshot : Json
  createdBy : Option String
  sessionId : Option SessionId
  threadId : String

/-- `SopQualityCheck(...)` as `create_check` builds it. -/
def NewCheck.toRow (values : NewCheck) (id : CheckId) : SopQualityCheck :=
  { id
    sessionId := values.sessionId
    sopId := values.sopId
    envKey := values.envKey
    graphName := values.graphName
    graphVersion := values.graphVersion
    threadId := values.threadId
    checkpointNs := ""
    currentCheckpointId := none
    status := .pending
    qualityResult := none
    sopSnapshot := values.sopSnapshot
    result := none
    error := none
    createdBy := values.createdBy }

/-- One chunk of a model's stream, as far as the runner looks at it. -/
structure Chunk where
  hasReasoning : Bool
  content : String

/-- A place of the source that the conditions on runs speak of. It is no await: it never fails and
changes no table. -/
inductive Note where
  /-- `mark_terminal` returned early, on a check that already has an outcome. -/
  | alreadyTerminal (id : CheckId) (outcome : CheckStatus)
  /-- The transaction of `mark_running` has been committed. -/
  | started (id : CheckId)
  /-- The handler of `run_sop_quality_check_with_new_session` was entered. -/
  | lastResort (id : CheckId)
  /-- `start_check` has been called. -/
  | called (sopId envKey : String)
  /-- `start_check` has returned. -/
  | answered (id : CheckId) (created : Bool)

/-- What the modelled code awaits. A write stands where the flush that sends it happens. -/
inductive Op where
  /-- `session.get`: an instance that the session still holds is not read again. -/
  | getCheck (id : CheckId)
  | latestSequence (id : CheckId)
  | lockCheck (id : CheckId)
  | refreshCheck (id : CheckId)
  | updateCheck (check : SopQualityCheck) (patch : CheckPatch)
  | insertEvent (event : SopQualityEvent)
  | selectActive
  | activeCheck (sopId envKey : String)
  | insertCheck (values : NewCheck)
  | insertSession (title : Option String)
  | getSession (id : SessionId)
  | updateSession (session : Session) (status : SessionStatus)
  | lockSession (id : SessionId)
  | latestMessage (id : SessionId)
  | insertMessage (message : Message)
  | flush
  | commit
  | rollback
  /-- The exit of `async with async_session()`. -/
  | close
  | publishEvent (event : SopQualityEvent)
  | publishMessage (message : Message)
  | publishDelta (id : SessionId) (event : Json)
  | schedule (id : CheckId)
  /-- The event loop starts the background run of a check that has been committed. -/
  | startBackground (id : CheckId)
  | openCheckpointer
  | closeCheckpointer
  | saveCheckpoint
  | graphState
  | getSop (sopId envKey : String)
  /-- `create_deepagents`, which reads the providers in the task's database session and tells
  whether the agent can stream. -/
  | createAgent
  | agentStream (payload : Json)
  /-- The stream ends, or raises after the chunks that it gave. -/
  | agentStreamEnd
  | agentInvoke (payload : Json)
  | note (n : Note)

abbrev Reply : Op → Type
  | .getCheck _ | .activeCheck _ _ => Option SopQualityCheck
  | .latestSequence _ | .latestMessage _ => Nat
  | .lockCheck _ | .lockSession _ | .createAgent => Bool
  | .refreshCheck _ | .updateCheck _ _ | .insertCheck _ => SopQualityCheck
  | .insertEvent _ => SopQualityEvent
  | .selectActive => List SopQualityCheck
  | .getSession _ => Option Session
  | .insertSession _ | .updateSession _ _ => Session
  | .insertMessage _ => Message
  | .graphState | .getSop _ _ => Json
  | .agentStream _ => List Chunk
  | .agentInvoke _ => String
  | _ => Unit

abbrev Program := Coroutine.Program Reply Exn

def await (op : Op) : Program (Reply op) :=
  Coroutine.Program.perform op

section Checks

/-- `get_check`, with the `latest_sequence` that it attaches to the instance. -/
def getCheck (id : CheckId) : Program (Option (SopQualityCheck × Nat)) := do
  match ← await (.getCheck id) with
  | some check => do
      let latest ← await (.latestSequence id)
      pure (some (check, latest))
  | none => pure none

def getActiveCheck (sopId envKey : String) : Program (Option (SopQualityCheck × Nat)) := do
  match ← await (.activeCheck sopId envKey) with
  | some active => do
      let latest ← await (.latestSequence active.id)
      pure (some (active, latest))
  | none => pure none

def requireCheck (id : CheckId) : Program (SopQualityCheck × Nat) := do
  match ← getCheck id with
  | some check => pure check
  | none => throw (.keyError (toString id))

def lockCheck (id : CheckId) : Program Unit := do
  if ← await (.lockCheck id) then pure () else throw (.keyError (toString id))

def nextSequence (id : CheckId) : Program Nat := do
  lockCheck id
  let latest ← await (.latestSequence id)
  pure (latest + 1)

def createCheck (values : NewCheck) : Program SopQualityCheck := do
  match ← getActiveCheck values.sopId values.envKey with
  | some (active, _) => throw (.activeCheckExists active.id)
  | none =>
      (await (.insertCheck values)).tryCatch fun
        | .integrityError message => do
            await .rollback
            match ← getActiveCheck values.sopId values.envKey with
            | some (active, _) => throw (.activeCheckExists active.id)
            | none => throw (.integrityError message)
        | e => throw e

def markRunning (id : CheckId) : Program (Option SopQualityCheck) := do
  let _ ← requireCheck id
  lockCheck id
  let check ← await (.refreshCheck id)
  if check.status ≠ .pending then
    pure none
  else do
    let check ← await (.updateCheck check { status := some .running })
    pure (some check)

def markTerminal (id : CheckId) (status : CheckStatus) (qualityResult : Option String)
    (result error : Option Json) : Program SopQualityCheck := do
  let _ ← requireCheck id
  let check ← await (.refreshCheck id)
  if check.status.active then
    await (.updateCheck check
      { status := some status
        qualityResult := some qualityResult
        result := some result
        error := some error })
  else do
    await (.note (.alreadyTerminal id status))
    pure check

def setCurrentCheckpoint (id : CheckId) (checkpointId : String) : Program SopQualityCheck := do
  let (check, _) ← requireCheck id
  await (.updateCheck check { currentCheckpointId := some (some checkpointId) })

def appendEvent (id : CheckId) (type : EventType)
    (node checkpointId taskId message : Option String) : Program SopQualityEvent := do
  let sequence ← nextSequence id
  await (.insertEvent { checkId := id, sequence, type, node, checkpointId, taskId, message })

/-- The loop of `interrupt_active_checks_on_startup`; the status is sent by the autoflush of the
first statement of `append_event`. -/
def interruptEach : List SopQualityCheck → Program (List SopQualityCheck)
  | [] => pure []
  | check :: checks => do
      let check ← await (.updateCheck check { status := some .interrupted })
      let _ ← appendEvent check.id .interrupted none none none
        (some "Service startup interrupted previous SOP quality check.")
      let rest ← interruptEach checks
      pure (check :: rest)

def interruptActiveChecksOnStartup : Program (List SopQualityCheck) := do
  let checks ← await .selectActive
  let checks ← interruptEach checks
  await .flush
  pure checks

end Checks

section Sessions

def createSession (title : Option String) : Program Session :=
  await (.insertSession title)

def setStatus (id : SessionId) (status : SessionStatus) : Program (Session × Nat) := do
  match ← await (.getSession id) with
  | none => throw (.keyError (toString id))
  | some session => do
      let session ← await (.updateSession session status)
      let latest ← await (.latestMessage id)
      pure (session, latest)

def lockSession (id : SessionId) : Program Unit := do
  if ← await (.lockSession id) then pure () else throw (.keyError (toString id))

def nextMessageSequence (id : SessionId) : Program Nat := do
  lockSession id
  let latest ← await (.latestMessage id)
  pure (latest + 1)

def appendMessage (id : SessionId) (role content : String) (additionalKwargs : Json) :
    Program Message := do
  let sequence ← nextMessageSequence id
  await (.insertMessage { sessionId := id, sequence, role, content, additionalKwargs })

end Sessions

end ChangeQuality.SopRepository
