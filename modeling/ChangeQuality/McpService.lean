import ChangeQuality.McpRuntime

/-!
`McpServerService`: the configuration of a server is edited under the same per-server lock as its
lifecycle operations.
-/

namespace ChangeQuality.McpService

open ChangeQuality.Values
open ChangeQuality.McpServers
open ChangeQuality.McpRuntime
open ChangeQuality.Coroutine.Program (ensuring)

/-- A field of a PATCH payload: absent, explicitly null, or given. -/
inductive Field (α : Type) where
  | unset
  | null
  | set (value : α)

namespace Field

variable {α β : Type}

/-- The entry of `merged` for a column that is not nullable; `none` is Python's `None`. -/
def merge : Field α → α → Option α
  | .unset, stored => some stored
  | .null, _ => none
  | .set value, _ => some value

/-- The entry of `merged` for a nullable column. -/
def mergeNullable : Field α → Option α → Option α
  | .unset, stored => stored
  | .null, _ => none
  | .set value, _ => some value

/-- `validated[key]` for a key that the payload carries. -/
def pick : Field α → β → Option β
  | .unset, _ => none
  | _, validated => some validated

end Field

structure McpServerUpdate where
  name : Field String := .unset
  command : Field String := .unset
  args : Field (List String) := .unset
  env : Field (List (String × String)) := .unset
  url : Field String := .unset
  headers : Field (List (String × String)) := .unset
  enabled : Field Bool := .unset
  desiredState : Field McpDesiredState := .unset

/-- The model validator of `McpServerCreate`; `httpUrl` is the URL type's parser followed by
`str`. -/
def validateTransportFields (httpUrl : String → Option String) (values : McpServerCreate) :
    Option McpServerCreate :=
  match values.transport with
  | .stdio =>
      match values.command with
      | none => none
      | some command =>
          if command = "" then none
          else if strip command = "" then none
          else some { values with command := some (strip command) }
  | .http =>
      match values.url with
      | none => none
      | some url =>
          if url = "" ∨ strip url = "" then none
          else (httpUrl url).map fun normalized => { values with url := some normalized }
  | .other _ => none

/-- `McpServerCreate(**merged)`, for the stored row overlaid with the payload. -/
def validatedMerge (httpUrl : String → Option String) (server : McpServer)
    (payload : McpServerUpdate) : Option McpServerCreate := do
  let name ← payload.name.merge server.name
  let args ← payload.args.merge server.args
  let env ← payload.env.merge server.env
  let headers ← payload.headers.merge server.headers
  let enabled ← payload.enabled.merge server.enabled
  let desiredState ← payload.desiredState.merge server.desiredState
  validateTransportFields httpUrl {
    name
    transport := server.transport
    command := payload.command.mergeNullable server.command
    args
    env
    url := payload.url.mergeNullable server.url
    headers
    enabled
    desiredState }

def validatedUpdateValues (httpUrl : String → Option String) (server : McpServer)
    (payload : McpServerUpdate) : Option McpServerPatch :=
  (validatedMerge httpUrl server payload).map fun validated =>
    { name := payload.name.pick validated.name
      command := payload.command.pick validated.command
      args := payload.args.pick validated.args
      env := payload.env.pick validated.env
      url := payload.url.pick validated.url
      headers := payload.headers.pick validated.headers
      enabled := payload.enabled.pick validated.enabled
      desiredState := payload.desiredState.pick validated.desiredState }

def shouldStartAfterSave (server : McpServer) : Bool :=
  server.enabled && server.desiredState = .running

/-- `_run_lifecycle`. -/
def runLifecycle {α : Type} (operation : Program α) : Program α :=
  operation.tryCatch fun e => if e.isKeyError then throw .notFound else throw e

/-- `except IntegrityError: raise McpServerNameConflictError`. -/
def exceptIntegrityError {α : Type} (p : Program α) : Program α :=
  p.tryCatch fun
    | .integrityError => throw .nameConflict
    | e => throw e

section Service

variable (cfg : Settings) (httpUrl : String → Option String)

/-- The tail of a save: start the server if its row asks for it, and reload the row. -/
def startAfterSave (server : McpServer) : Program McpServer := do
  if shouldStartAfterSave server then
    let _ ← runLifecycle (start cfg server.id)
    let reloaded ← await (.reloadServer .request server.id)
    pure (reloaded.getD server)
  else
    pure server

def createServer (payload : McpServerCreate) : Program McpServer := do
  let server ← exceptIntegrityError do
    let server ← await (.insertServer .request payload)
    await (.commit .request)
    pure server
  startAfterSave cfg server

/-- `get_server` of the service. -/
def getServerOrNotFound (id : ServerId) : Program McpServer := do
  match ← getServer .request id with
  | some server => pure server
  | none => throw .notFound

def updateServer (id : ServerId) (payload : McpServerUpdate) : Program McpServer :=
  withLock id do
    let server ← getServerOrNotFound id
    let live ← isRunning id
    if server.runtimeStatus = .running ∨ live then
      throw .updateConflict
    else
      match validatedUpdateValues httpUrl server payload with
      | none => throw .validation
      | some values => do
          let server ← exceptIntegrityError do
            let server ← McpRuntime.updateServer .request id values
            await (.commit .request)
            pure server
          startAfterSave cfg server

def deleteServer (id : ServerId) : Program Unit :=
  withLock id do
    let server ← getServerOrNotFound id
    let live ← isRunning id
    if server.runtimeStatus = .running ∨ live then
      let _ ← runLifecycle (stopLocked cfg id)
    McpRuntime.deleteServer .request id
    await (.commit .request)

/-- A call of the service, in the request that carries it: the request's database session is
closed when the call has ended. -/
inductive ServiceCall where
  | create (payload : McpServerCreate)
  | update (id : ServerId) (payload : McpServerUpdate)
  | delete (id : ServerId)
  | start (id : ServerId)
  | stop (id : ServerId)
  | restart (id : ServerId)
  | check (id : ServerId)

def discard {α : Type} (p : Program α) : Program Unit := do
  let _ ← p

def ServiceCall.run : ServiceCall → Program Unit
  | .create payload => discard (createServer cfg payload)
  | .update id payload => discard (updateServer cfg httpUrl id payload)
  | .delete id => deleteServer cfg id
  | .start id => discard (runLifecycle (McpRuntime.start cfg id))
  | .stop id => discard (runLifecycle (McpRuntime.stop cfg id))
  | .restart id => discard (runLifecycle (McpRuntime.restart cfg id))
  | .check id => discard (runLifecycle (McpRuntime.check cfg id))

/-- The program of a request. -/
def request (call : ServiceCall) : Program Unit :=
  ensuring (call.run cfg httpUrl) (await (.close .request))

end Service

end ChangeQuality.McpService
