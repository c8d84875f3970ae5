import ChangeQuality.Interpretation
import ChangeQuality.McpSystem
import ChangeQuality.McpWorkers

/-!
`McpRuntimeManager` over a `TaskOwnedMcpProbe`: what the manager awaits of its probe is carried out
by coroutines that talk to worker tasks, and the worker tasks run between the awaits of its calls.
-/

namespace ChangeQuality.McpTasks

open ChangeQuality.Values
open ChangeQuality.McpServers
open ChangeQuality.McpRuntime
open ChangeQuality.McpWorkers
open ChangeQuality.Coroutine
open ChangeQuality.Interpretation

/-- A call of the manager. -/
inductive ManagerCall where
  | start (id : ServerId)
  | stop (id : ServerId)
  | restart (id : ServerId)
  | check (id : ServerId)
  | shutdown
  deriving DecidableEq

/-- What a task awaits or does atomically. -/
inductive TaskOp where
  /-- What the manager awaits of its locks, its repository and its registry. -/
  | manager (op : Op)
  /-- `list(self._handles.items())`. -/
  | handles
  | createTask (server : McpServer)
  /-- `await started`. -/
  | started (handle : Handle)
  | cancelTask (handle : Handle)
  /-- `await task` of a worker task that was cancelled: a further cancellation goes to the worker
  task, so only the end of that one ends the wait. -/
  | joined (handle : Handle)
  | taskDone (handle : Handle)
  /-- `await handle.task` of a task that is done. -/
  | taskResult (handle : Handle)
  /-- `_send` up to where it waits: a command for a task that is done is not accepted. -/
  | put (handle : Handle) (name : CommandName)
  /-- `await future`. -/
  | replied (handle : Handle) (future : Nat)
  /-- The event loop runs a worker task up to its next suspension. -/
  | work (handle : Handle)
  /-- A task that waits for the end of a worker task is cancelled. -/
  | interrupt (handle : Handle)
  /-- The first and the last move of a call, for the record. -/
  | began (call : ManagerCall)
  | returned (status : Option McpServerRuntimeStatus)

abbrev TaskReply : TaskOp → Type
  | .manager op => Reply op
  | .handles => List (ServerId × Handle)
  | .createTask _ => Handle
  | .started _ | .replied _ _ => List Json
  | .taskDone _ => Bool
  | .put _ _ => Option Nat
  | _ => Unit

abbrev TaskProgram := Coroutine.Program TaskReply Exn

def await (op : TaskOp) : TaskProgram (TaskReply op) :=
  Coroutine.Program.perform op

/-- `with suppress(BaseException)`. -/
def suppress (p : TaskProgram Unit) : TaskProgram Unit :=
  p.tryCatch fun _ => pure ()

namespace TaskOwnedMcpProbe

def start (server : McpServer) : TaskProgram (Handle × List Json) := do
  let handle ← await (.createTask server)
  let tools ← (await (.started handle)).tryCatch fun e => do
    await (.cancelTask handle)
    suppress (await (.joined handle))
    throw e
  pure (handle, tools)

/-- `_send`. -/
def send (handle : Handle) (name : CommandName) : TaskProgram (List Json) := do
  match ← await (.put handle name) with
  | none => do
      await (.taskResult handle)
      throw (.other "RuntimeError" "MCP runtime worker is not running.")
  | some future => await (.replied handle future)

def listTools (handle : Handle) : TaskProgram (List Json) :=
  send handle .listTools

def stop (handle : Handle) : TaskProgram Unit :=
  Program.ensuring (do let _ ← send handle .stop) do
    if ← await (.taskDone handle) then suppress (await (.taskResult handle))

end TaskOwnedMcpProbe

/-- How the operations of the manager are carried out. -/
def carryOut : (op : Op) → TaskProgram (Reply op)
  | .probeStart server => TaskOwnedMcpProbe.start server
  | .probeListTools handle => TaskOwnedMcpProbe.listTools handle
  | .probeStop handle => TaskOwnedMcpProbe.stop handle
  | op => await (.manager op)

section Calls

variable (cfg : Settings)

/-- What `shutdown` does with one server. -/
def shutdownServer (id : ServerId) (handle : Handle) : McpServers.Program Unit :=
  withRepository do
    let server ← requireServer .runtime id
    let stopped ←
      exceptException (do runOperation cfg (.probeStop handle); pure true) fun e => do
        let _ ← updateRuntimeStatus .runtime id .error (some (cfg.sanitizeMcpError e server))
        McpServers.await (.commit .runtime)
        pure false
    if stopped then
      McpServers.await (.popHandle id)
      let _ ← updateRuntimeStatus .runtime id .stopped none
      McpServers.await (.commit .runtime)

def shutdownServers : List (ServerId × Handle) → TaskProgram Unit
  | [] => pure ()
  | (id, handle) :: servers => do
      interpret carryOut (shutdownServer cfg id handle)
      shutdownServers servers

def shutdown : TaskProgram Unit := do
  let servers ← await .handles
  shutdownServers cfg servers

/-- A call that answers with the state of its server. -/
def answering (p : McpServers.Program McpLifecycleResponse) : TaskProgram Unit := do
  let response ← interpret carryOut p
  await (.returned (some response.runtimeStatus))

def body : ManagerCall → TaskProgram Unit
  | .start id => answering (McpRuntime.start cfg id)
  | .stop id => answering (McpRuntime.stop cfg id)
  | .restart id => answering (McpRuntime.restart cfg id)
  | .check id => answering (McpRuntime.check cfg id)
  | .shutdown => do
      shutdown cfg
      await (.returned none)

def run (call : ManagerCall) : TaskProgram Unit := do
  await (.began call)
  body cfg call

/-- What may be started at any time: calls, steps of workers, and further cancellations. -/
inductive Runs : TaskProgram Unit → Prop
  | call (call : ManagerCall) : Runs (run cfg call)
  | work (handle : Handle) : Runs (await (.work handle))
  | interrupt (handle : Handle) : Runs (await (.interrupt handle))

end Calls

/-- Who answers for a worker: the task that created it, until the registry has its handle. -/
inductive Owner where
  | nobody
  | task (t : TaskId)
  | registry
  deriving DecidableEq

/-- What is recorded of a call. -/
structure CallRecord where
  call : ManagerCall
  /-- The workers that had terminated when the call began. -/
  endedBefore : Handle → Bool
  /-- The registry has given the call a handle whose worker had terminated. -/
  foundEnded : Bool := false
  /-- It has given the call one whose worker had terminated when the call began. -/
  foundBefore : Bool := false
  /-- The handle that the call has last found in the registry or put there. -/
  handle : Option Handle := none
  /-- What the registry held for the server when the call gave the lock back. -/
  left : Option Handle := none
  /-- The status that the call has returned. -/
  status : Option McpServerRuntimeStatus := none

/-- The manager with the worker tasks. `owner`, `abandoned` (a worker was cancelled by the task that
created it), `stopper` (whose stop a worker has carried out) and `record` are history. -/
structure World where
  manager : McpSystem.World
  worker : Handle → Worker := fun _ => {}
  nextWorker : Handle := 0
  owner : Handle → Owner := fun _ => .nobody
  abandoned : Handle → Bool := fun _ => false
  stopper : Handle → Option TaskId := fun _ => none
  record : TaskId → Option CallRecord := fun _ => none

namespace World

/-- A new manager, over a database in any state. -/
def initial (manager : McpSystem.World) : World :=
  { manager := { manager with handles := [], lock := fun _ => {} } }

/-- `self._handles.get(server_id)`. -/
def registered (w : World) (id : ServerId) : Option Handle :=
  w.manager.handles.lookup id

/-- `handle.task.done()`. -/
def ended (w : World) (h : Handle) : Bool :=
  (w.worker h).done

def setWorker (w : World) (h : Handle) (x : Worker) : World :=
  { w with worker := Function.update w.worker h x }

def setRecord (w : World) (t : TaskId) (f : CallRecord → CallRecord) : World :=
  { w with record := Function.update w.record t ((w.record t).map f) }

end World

/-- The environment's choice: how an operation of the manager goes, that an await returns or is
interrupted, and what the inner probe answers. -/
inductive TaskChoice where
  | manager (choice : McpSystem.Choice)
  | proceed
  | interrupt (error : Exn)
  | inner (outcome : Except Exn (List Json))

/-- What an operation of the manager adds to the history. -/
def note (t : TaskId) (w : World) : (op : Op) → Except Exn (Reply op) → World
  | .handleOf _, .ok found =>
      w.setRecord t fun record =>
        { record with
          handle := found
          foundEnded := record.foundEnded || (found.map w.ended).getD false
          foundBefore := record.foundBefore || (found.map record.endedBefore).getD false }
  | .setHandle _ handle, .ok _ =>
      { w.setRecord t fun record => { record with handle := some handle } with
        owner := Function.update w.owner handle .registry }
  | .release id, .ok _ => w.setRecord t fun record => { record with left := w.registered id }
  | _, _ => w

/-- The caller whose stop a step of the worker answers. -/
def stoppedFor (outcome : Except Exn (List Json)) (x : Worker) : Option TaskId :=
  match x.phase, outcome with
  | .stopping n, .ok _ => if x.pending n then (x.replies[n]?).map Reply.caller else none
  | _, _ => none

/-- An await is interrupted by a cancellation, or by the timeout around it. -/
def Interrupts (cfg : Settings) (e : Exn) : Prop :=
  e = .cancelled ∨ cfg.operationTimeoutSeconds.isSome ∧ e = .timeout ""

instance (cfg : Settings) (e : Exn) : Decidable (Interrupts cfg e) :=
  inferInstanceAs (Decidable (_ ∨ _))

def exec (cfg : Settings) : Semantics TaskReply Exn TaskId TaskChoice World
  | t, .manager op, .manager choice, w =>
      (McpSystem.exec t op choice w.manager).map fun (r, manager) =>
        (r, note t { w with manager } op r)
  | _, .handles, .proceed, w => some (.ok w.manager.handles, w)
  | t, .createTask _, .proceed, w =>
      some (.ok w.nextWorker,
        { w with
          worker := Function.update w.worker w.nextWorker {}
          owner := Function.update w.owner w.nextWorker (.task t)
          nextWorker := w.nextWorker + 1 })
  | _, .started h, .proceed, w =>
      match (w.worker h).started with
      | .done outcome => some (outcome, w)
      | _ => none
  | _, .started h, .interrupt e, w =>
      if Interrupts cfg e then
        some (.error e,
          w.setWorker h { w.worker h with started := (w.worker h).started.cancel })
      else none
  | _, .cancelTask h, .proceed, w =>
      some (.ok (), { w.setWorker h (w.worker h).cancel with
        abandoned := Function.update w.abandoned h true })
  | _, .joined h, .proceed, w | _, .taskResult h, .proceed, w =>
      match (w.worker h).phase with
      | .ended none => some (.ok (), w)
      | .ended (some e) => some (.error e, w)
      | _ => none
  | _, .taskDone h, .proceed, w => some (.ok (w.ended h), w)
  | t, .put h name, .proceed, w =>
      match (w.worker h).put t name with
      | none => some (.ok none, w)
      | some x => some (.ok (some (w.worker h).replies.length), w.setWorker h x)
  | _, .replied h n, .proceed, w =>
      match (w.worker h).future n with
      | some (.done outcome) => some (outcome, w)
      | _ => none
  | _, .replied h n, .interrupt e, w =>
      if Interrupts cfg e then some (.error e, w.setWorker h ((w.worker h).giveUp n)) else none
  | _, .work h, .inner outcome, w =>
      if h < w.nextWorker then
        ((w.worker h).work outcome).map fun x =>
          (.ok (), { w.setWorker h x with
            stopper := Function.update w.stopper h
              ((stoppedFor outcome (w.worker h)).or (w.stopper h)) })
      else none
  | _, .interrupt h, .proceed, w =>
      if w.abandoned h then some (.ok (), w.setWorker h (w.worker h).cancel) else none
  | t, .began call, .proceed, w =>
      some (.ok (), { w with
        record := Function.update w.record t (some { call, endedBefore := w.ended }) })
  | t, .returned status, .proceed, w =>
      some (.ok (), w.setRecord t fun record => { record with status })
  | _, _, _, _ => none

abbrev Config := Coroutine.Config TaskReply Exn TaskId World

/-- The states that a new manager reaches, in any interleaving of calls and worker tasks. -/
def Reachable (cfg : Settings) (allowed : TaskId → TaskOp → TaskChoice → World → Prop)
    (c : Config) : Prop :=
  ∃ manager, Steps (exec cfg) (Runs cfg) allowed (.idle (World.initial manager)) c

end ChangeQuality.McpTasks
