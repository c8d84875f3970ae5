import ChangeQuality.Values
import ChangeQuality.Coroutine
import ChangeQuality.ReadCommitted

/-!
The MCP server tables, the operations that the service, the runtime manager and their repository
await, and the exceptions they raise.
-/

namespace ChangeQuality.McpServers

open ChangeQuality.Values

abbrev ServerId := Nat
abbrev TaskId := Nat

/-- A live inner session, named by the order in which the probe started it. -/
abbrev Handle := Nat

inductive McpTransport where
  | stdio
  | http
  | other (name : String)
  deriving DecidableEq

inductive McpDesiredState where
  | running
  | stopped
  deriving DecidableEq

inductive McpServerRuntimeStatus where
  | unknown
  | starting
  | running
  | stopping
  | stopped
  | error
  deriving DecidableEq

/-- A row of `mcp_servers`. -/
structure McpServer where
  id : ServerId
  name : String
  transport : McpTransport
  command : Option String
  args : List String
  env : List (String × String)
  url : Option String
  headers : List (String × String)
  enabled : Bool
  desiredState : McpDesiredState
  runtimeStatus : McpServerRuntimeStatus
  lastError : Option String
  deriving DecidableEq

/-- A row of `mcp_server_tools`. -/
structure McpServerTool where
  serverId : ServerId
  name : String
  description : Option String
  inputSchema : Json

/-- The validated configuration of a server. -/
structure McpServerCreate where
  name : String
  transport : McpTransport
  command : Option String := none
  args : List String := []
  env : List (String × String) := []
  url : Option String := none
  headers : List (String × String) := []
  enabled : Bool := false
  desiredState : McpDesiredState := .stopped

/-- `McpServer(**values)`, with the column defaults. -/
def McpServerCreate.toRow (values : McpServerCreate) (id : ServerId) : McpServer :=
  { id
    name := values.name
    transport := values.transport
    command := values.command
    args := values.args
    env := values.env
    url := values.url
    headers := values.headers
    enabled := values.enabled
    desiredState := values.desiredState
    runtimeStatus := .unknown
    lastError := none }

structure Db where
  servers : List McpServer
  tools : List McpServerTool

def Db.server (db : Db) (id : ServerId) : Option McpServer :=
  db.servers.find? fun row => row.id = id

/-- The columns that an `UPDATE` of a server row sets. -/
structure McpServerPatch where
  name : Option String := none
  command : Option (Option String) := none
  args : Option (List String) := none
  env : Option (List (String × String)) := none
  url : Option (Option String) := none
  headers : Option (List (String × String)) := none
  enabled : Option Bool := none
  desiredState : Option McpDesiredState := none
  runtimeStatus : Option McpServerRuntimeStatus := none
  lastError : Option (Option String) := none
  deriving DecidableEq

def McpServerPatch.apply (patch : McpServerPatch) (row : McpServer) : McpServer :=
  { row with
    name := patch.name.getD row.name
    command := patch.command.getD row.command
    args := patch.args.getD row.args
    env := patch.env.getD row.env
    url := patch.url.getD row.url
    headers := patch.headers.getD row.headers
    enabled := patch.enabled.getD row.enabled
    desiredState := patch.desiredState.getD row.desiredState
    runtimeStatus := patch.runtimeStatus.getD row.runtimeStatus
    lastError := patch.lastError.getD row.lastError }

/-- The columns of a patch that differ from the loaded row, which are those that a flush sends. -/
def McpServerPatch.net (patch : McpServerPatch) (row : McpServer) : McpServerPatch :=
  { name := patch.name.filter (· ≠ row.name)
    command := patch.command.filter (· ≠ row.command)
    args := patch.args.filter (· ≠ row.args)
    env := patch.env.filter (· ≠ row.env)
    url := patch.url.filter (· ≠ row.url)
    headers := patch.headers.filter (· ≠ row.headers)
    enabled := patch.enabled.filter (· ≠ row.enabled)
    desiredState := patch.desiredState.filter (· ≠ row.desiredState)
    runtimeStatus := patch.runtimeStatus.filter (· ≠ row.runtimeStatus)
    lastError := patch.lastError.filter (· ≠ row.lastError) }

inductive Write where
  | insertServer (row : McpServer)
  | updateServer (id : ServerId) (patch : McpServerPatch)
  | deleteServer (id : ServerId)
  | deleteTools (id : ServerId)
  | insertTools (rows : List McpServerTool)

/-- What a write does to the tables; deleting a server cascades to its tools. -/
def schema : ReadCommitted.Schema Db Write ServerId where
  apply
    | .insertServer row, db => { db with servers := db.servers ++ [row] }
    | .updateServer id patch, db =>
        { db with servers := db.servers.map fun row =>
            if row.id = id then patch.apply row else row }
    | .deleteServer id, db =>
        { servers := db.servers.filter fun row => row.id ≠ id
          tools := db.tools.filter fun tool => tool.serverId ≠ id }
    | .deleteTools id, db =>
        { db with tools := db.tools.filter fun tool => tool.serverId ≠ id }
    | .insertTools rows, db => { db with tools := db.tools ++ rows }
  rowsOf
    | .insertServer row => [row.id]
    | .updateServer id _ => [id]
    | .deleteServer id => [id]
    | .deleteTools _ => []
    | .insertTools _ => []

/-- The exceptions that some `except` clause of the modelled code tells apart. -/
inductive Exn where
  | keyError
  | integrityError
  | notFound
  | nameConflict
  | updateConflict
  | validation
  | runtimeNotEnabled
  | unsupportedTransport (name : String)
  | commandNotAllowed (command : String)
  | timeout (message : String)
  | valueError (message : String)
  | cancelled
  | other (type message : String)
  deriving DecidableEq

/-- `isinstance(exc, Exception)`: `asyncio.CancelledError` is not one. -/
def Exn.isException : Exn → Bool
  | .cancelled => false
  | _ => true

/-- `isinstance(exc, KeyError)`: `McpServerNotFoundError` is a subclass. -/
def Exn.isKeyError : Exn → Bool
  | .keyError | .notFound => true
  | _ => false

/-- A task has up to two database sessions: that of its request and that of the runtime manager's
repository context. -/
inductive Conn where
  | request
  | runtime
  deriving DecidableEq

/-- What the modelled code awaits or does atomically. -/
inductive Op where
  /-- The synchronous part of `asyncio.Lock.acquire`: take a free lock or join its waiters. -/
  | tryAcquire (id : ServerId)
  /-- `await fut` of a waiter. -/
  | acquired (id : ServerId)
  | release (id : ServerId)
  | selectServer (conn : Conn) (id : ServerId)
  | reloadServer (conn : Conn) (id : ServerId)
  | insertServer (conn : Conn) (values : McpServerCreate)
  | updateServer (conn : Conn) (id : ServerId) (patch : McpServerPatch)
  | deleteServer (conn : Conn) (id : ServerId)
  | deleteTools (conn : Conn) (id : ServerId)
  | insertTools (conn : Conn) (rows : List McpServerTool)
  | countTools (conn : Conn) (id : ServerId)
  | commit (conn : Conn)
  /-- The exit of `async with async_session()`. -/
  | close (conn : Conn)
  | handleOf (id : ServerId)
  | setHandle (id : ServerId) (handle : Handle)
  | popHandle (id : ServerId)
  | probeStart (server : McpServer)
  | probeListTools (handle : Handle)
  | probeStop (handle : Handle)

abbrev Reply : Op → Type
  | .tryAcquire _ => Bool
  | .selectServer _ _ | .reloadServer _ _ => Option McpServer
  | .insertServer _ _ | .updateServer _ _ _ => McpServer
  | .countTools _ _ => Nat
  | .handleOf _ => Option Handle
  | .probeStart _ => Handle × List Json
  | .probeListTools _ => List Json
  | _ => Unit

abbrev Program := Coroutine.Program Reply Exn

def await (op : Op) : Program (Reply op) :=
  Coroutine.Program.perform op

end ChangeQuality.McpServers
