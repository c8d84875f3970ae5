import ChangeQuality.McpServers

/-!
`McpServerRepository` and `McpRuntimeManager`, translated await by await. A function of the
repository takes the database session it was built on.
-/

namespace ChangeQuality.McpRuntime

open ChangeQuality.Values
open ChangeQuality.McpServers
open ChangeQuality.Coroutine.Program (ensuring)

/-- What the manager is constructed with, and the texts that other code computes for it. -/
structure Settings where
  singleInstanceConfirmed : Bool
  operationTimeoutSeconds : Option Nat
  sanitizeMcpError : Exn → McpServer → String

/-- The body of `except Exception`, which lets a cancellation pass. -/
def exceptException {α : Type} (p : Program α) (handler : Exn → Program α) : Program α :=
  p.tryCatch fun e => if e.isException then handler e else throw e

section Repository

variable (conn : Conn)

def getServer (id : ServerId) : Program (Option McpServer) :=
  await (.selectServer conn id)

def requireServer (id : ServerId) : Program McpServer := do
  match ← getServer conn id with
  | some server => pure server
  | none => throw .keyError

def updateServer (id : ServerId) (values : McpServerPatch) : Program McpServer := do
  let _ ← requireServer conn id
  await (.updateServer conn id values)

def deleteServer (id : ServerId) : Program Unit := do
  let _ ← requireServer conn id
  await (.deleteServer conn id)

def updateDesiredState (id : ServerId) (desiredState : McpDesiredState) : Program McpServer :=
  updateServer conn id { desiredState := some desiredState }

def updateRuntimeStatus (id : ServerId) (runtimeStatus : McpServerRuntimeStatus)
    (lastError : Option String) : Program McpServer := do
  let _ ← requireServer conn id
  await (.updateServer conn id
    { runtimeStatus := some runtimeStatus, lastError := some lastError })

def toolName (tool : Json) : Program String :=
  match (tool.get "name").asStr? with
  | some name => pure name
  | none => throw (.valueError "MCP tool is missing a valid name.")

/-- The row that `replace_tools` builds for one tool. -/
def toolModel (id : ServerId) (tool : Json) : Program McpServerTool := do
  let name ← toolName tool
  pure {
    serverId := id
    name
    description := (tool.get "description").asStr?
    inputSchema := (tool.get "input_schema").asObj?.getD (.obj []) }

def toolModels (id : ServerId) : List Json → Program (List McpServerTool)
  | [] => pure []
  | tool :: tools => do
      let row ← toolModel id tool
      let rows ← toolModels id tools
      pure (row :: rows)

def replaceTools (id : ServerId) (tools : List Json) : Program Unit := do
  await (.deleteTools conn id)
  let rows ← toolModels id tools
  await (.insertTools conn rows)

end Repository

/-- `async with self._lock_for(server_id)`. -/
def withLock {α : Type} (id : ServerId) (body : Program α) : Program α := do
  if ← await (.tryAcquire id) then
    ensuring body (await (.release id))
  else
    await (.acquired id)
    ensuring body (await (.release id))

/-- `async with self._repository_context()`. -/
def withRepository {α : Type} (body : Program α) : Program α :=
  ensuring body (await (.close .runtime))

section Manager

variable (cfg : Settings)

/-- `_run_operation`: a timeout of the wait is raised again with a fixed message. -/
def runOperation (op : Op) : Program (Reply op) :=
  match cfg.operationTimeoutSeconds with
  | none => await op
  | some _ => (await op).tryCatch fun
      | .timeout _ => throw (.timeout "MCP operation timed out.")
      | e => throw e

def requireRuntimeEnabled : Program Unit :=
  if cfg.singleInstanceConfirmed then pure () else throw .runtimeNotEnabled

def requireSupportedTransport (server : McpServer) : Program Unit :=
  match server.transport with
  | .stdio | .http => pure ()
  | .other name => throw (.unsupportedTransport name)

structure McpLifecycleResponse where
  serverId : ServerId
  desiredState : McpDesiredState
  runtimeStatus : McpServerRuntimeStatus
  lastError : Option String
  toolCount : Nat

def response (id : ServerId) : Program McpLifecycleResponse := do
  let server ← requireServer .runtime id
  let toolCount ← await (.countTools .runtime id)
  pure {
    serverId := server.id
    desiredState := server.desiredState
    runtimeStatus := server.runtimeStatus
    lastError := server.lastError
    toolCount }

/-- The end of the failure branches: the error is stored and the exception raised again. -/
def recordFailure {α : Type} (server : McpServer) (e : Exn) : Program α := do
  let _ ← updateRuntimeStatus .runtime server.id .error (some (cfg.sanitizeMcpError e server))
  await (.commit .runtime)
  throw e

def startLocked (id : ServerId) : Program McpLifecycleResponse :=
  withRepository do
    let server ← requireServer .runtime id
    requireSupportedTransport server
    let _ ← updateDesiredState .runtime id .running
    match ← await (.handleOf id) with
    | some _ => do
        let _ ← updateRuntimeStatus .runtime id .running none
        await (.commit .runtime)
        response id
    | none => do
        let _ ← updateRuntimeStatus .runtime id .starting none
        let (handle, tools) ←
          exceptException (runOperation cfg (.probeStart server)) (recordFailure cfg server)
        -- from here on the handle exists, and a failure stops it before it is recorded
        exceptException
          (do
            replaceTools .runtime id tools
            let _ ← updateRuntimeStatus .runtime id .running none)
          (fun e => do
            runOperation cfg (.probeStop handle)
            recordFailure cfg server e)
        await (.setHandle id handle)
        await (.commit .runtime)
        response id

def start (id : ServerId) : Program McpLifecycleResponse := do
  requireRuntimeEnabled cfg
  withLock id (startLocked cfg id)

def stopLocked (id : ServerId) : Program McpLifecycleResponse :=
  withRepository do
    let server ← requireServer .runtime id
    let _ ← updateDesiredState .runtime id .stopped
    let _ ← updateRuntimeStatus .runtime id .stopping none
    match ← await (.handleOf id) with
    | some handle => do
        exceptException (runOperation cfg (.probeStop handle)) (recordFailure cfg server)
        await (.popHandle id)
    | none => pure ()
    let _ ← updateRuntimeStatus .runtime id .stopped none
    await (.commit .runtime)
    response id

def stop (id : ServerId) : Program McpLifecycleResponse :=
  withLock id (stopLocked cfg id)

def restart (id : ServerId) : Program McpLifecycleResponse := do
  requireRuntimeEnabled cfg
  withLock id do
    let _ ← stopLocked cfg id
    startLocked cfg id

/-- The part of `_check_locked` that stores the tools it found. -/
def storeCheck (id : ServerId) (status : McpServerRuntimeStatus) (tools : List Json) :
    Program Unit := do
  replaceTools .runtime id tools
  let _ ← updateRuntimeStatus .runtime id status none
  await (.commit .runtime)

def checkLocked (id : ServerId) : Program McpLifecycleResponse :=
  withRepository do
    let server ← requireServer .runtime id
    requireSupportedTransport server
    match ← await (.handleOf id) with
    | some handle =>
        exceptException
          (do
            let tools ← runOperation cfg (.probeListTools handle)
            storeCheck id .running tools)
          (recordFailure cfg server)
    | none => do
        let (temporary, tools) ←
          exceptException (runOperation cfg (.probeStart server)) (recordFailure cfg server)
        -- the `finally` clause has a temporary handle to stop only once the probe has started
        ensuring
          (exceptException (storeCheck id .stopped tools) (recordFailure cfg server))
          (runOperation cfg (.probeStop temporary))
    response id

def check (id : ServerId) : Program McpLifecycleResponse := do
  requireRuntimeEnabled cfg
  withLock id (checkLocked cfg id)

/-- A call of the manager by itself. -/
inductive LifecycleCall where
  | start (id : ServerId)
  | stop (id : ServerId)
  | restart (id : ServerId)
  | check (id : ServerId)

def LifecycleCall.run : LifecycleCall → Program Unit
  | .start id => do let _ ← McpRuntime.start cfg id
  | .stop id => do let _ ← McpRuntime.stop cfg id
  | .restart id => do let _ ← McpRuntime.restart cfg id
  | .check id => do let _ ← McpRuntime.check cfg id

def mcpRuntimeNotEnabledMessage : String :=
  "MCP runtime requires mcp_runtime_single_instance=true."

/-- What `start_enabled_servers` does with one server when the runtime is not enabled. -/
def refuseStartup (server : McpServer) : Program Unit :=
  withRepository do
    let _ ← updateRuntimeStatus .runtime server.id .error (some mcpRuntimeNotEnabledMessage)
    await (.commit .runtime)

/-- What it does with one server otherwise: a failed start is stored unless the start did so. -/
def startAtStartup (server : McpServer) : Program Unit :=
  exceptException (do let _ ← start cfg server.id) fun e =>
    withRepository do
      let current ← requireServer .runtime server.id
      if current.runtimeStatus ≠ .error ∨ current.lastError.getD "" = "" then
        let _ ← updateRuntimeStatus .runtime server.id .error
          (some (cfg.sanitizeMcpError e server))
        await (.commit .runtime)

def forEachServer (body : McpServer → Program Unit) : List McpServer → Program Unit
  | [] => pure ()
  | server :: servers => do
      body server
      forEachServer body servers

/-- `start_enabled_servers`, from the rows that `list_startup_servers` has returned. -/
def startEnabledServers (servers : List McpServer) : Program Unit :=
  if cfg.singleInstanceConfirmed then forEachServer (startAtStartup cfg) servers
  else forEachServer refuseStartup servers

/-- `is_running`. -/
def isRunning (id : ServerId) : Program Bool := do
  let handle ← await (.handleOf id)
  pure handle.isSome

end Manager

end ChangeQuality.McpRuntime
