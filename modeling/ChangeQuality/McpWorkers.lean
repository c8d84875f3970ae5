import ChangeQuality.McpServers
import ChangeQuality.Runs

/-!
`TaskOwnedMcpProbe`: the worker task that owns an inner handle, the queue of its commands, and the
futures that the callers of `_send` wait for.
-/

namespace ChangeQuality.McpWorkers

open ChangeQuality.Values
open ChangeQuality.McpServers
open ChangeQuality.Runs

/-- `asyncio.Future`; the result of a stop, `None`, is an empty list. -/
inductive Future where
  | pending
  | done (outcome : Except Exn (List Json))
  | cancelled

namespace Future

/-- `_set_future_result` and `_set_future_exception`. -/
def set (outcome : Except Exn (List Json)) : Future → Future
  | .pending => .done outcome
  | future => future

/-- `Future.cancel`. -/
def cancel : Future → Future
  | .pending => .cancelled
  | future => future

def isPending : Future → Bool
  | .pending => true
  | _ => false

end Future

inductive CommandName where
  | listTools
  | stop
  deriving DecidableEq

/-- `_TaskOwnedMcpCommand`; its future is named by its place among those of the worker. -/
structure Command where
  name : CommandName
  future : Nat

/-- A future of a command, and the task that waits for it. -/
structure Reply where
  caller : TaskId
  future : Future

/-- Where the worker is suspended. -/
inductive Phase where
  | starting
  | waiting
  | listing (future : Nat)
  | stopping (future : Nat)
  | ended (exception : Option Exn)

/-- A worker task with its queue. `innerStarted` and `stopInvoked` record what has happened to the
inner handle. -/
structure Worker where
  phase : Phase := .starting
  started : Future := .pending
  commands : List Command := []
  replies : List Reply := []
  cancelRequested : Bool := false
  innerStarted : Bool := false
  stopInvoked : Bool := false

namespace Worker

/-- `task.done()`. -/
def done (w : Worker) : Bool :=
  match w.phase with
  | .ended _ => true
  | _ => false

/-- The state of a command's future. -/
def future (w : Worker) (n : Nat) : Option Future :=
  (w.replies[n]?).map Reply.future

def pending (w : Worker) (n : Nat) : Bool :=
  ((w.future n).map Future.isPending).getD false

def modifyReply (w : Worker) (n : Nat) (f : Future → Future) : Worker :=
  { w with replies := w.replies.modify n fun reply => { reply with future := f reply.future } }

def answer (w : Worker) (n : Nat) (outcome : Except Exn (List Json)) : Worker :=
  w.modifyReply n (Future.set outcome)

/-- `_send` up to where it waits: a command for a task that is done is not accepted. -/
def put (caller : TaskId) (name : CommandName) (w : Worker) : Option Worker :=
  if w.done then none
  else some
    { w with
      commands := w.commands ++ [{ name, future := w.replies.length }]
      replies := w.replies ++ [{ caller, future := .pending }] }

/-- The wait for a command's future is interrupted by a timeout or a cancellation. -/
def giveUp (n : Nat) (w : Worker) : Worker :=
  w.modifyReply n Future.cancel

/-- `task.cancel()`. -/
def cancel (w : Worker) : Worker :=
  if w.done then w else { w with cancelRequested := true }

/-- The loop goes on: `await commands.get()` is not suspended where the queue has a command. -/
def next (w : Worker) : Worker :=
  match w.commands with
  | [] => { w with phase := .waiting }
  | { name := .listTools, future } :: commands => { w with phase := .listing future, commands }
  | { name := .stop, future } :: commands =>
      { w with phase := .stopping future, commands, stopInvoked := true }

/-- The task ends with an exception, past the outer `except BaseException`. -/
def crash (w : Worker) (e : Exn) : Worker :=
  { w with phase := .ended (some e), started := w.started.set (.error e) }

/-- The inner call of a command has failed: the loop goes on after an `Exception` only. -/
def refuse (w : Worker) (n : Nat) (e : Exn) : Worker :=
  let answered := w.answer n (.error e)
  if e.isException then answered.next else answered.crash e

/-- `_run` from one suspension to the next, where the inner probe answers with `outcome`. A
requested cancellation reaches the task in its wait for a command, or else the inner probe, which
answers it. -/
def work (outcome : Except Exn (List Json)) (w : Worker) : Option Worker :=
  match w.phase with
  | .starting =>
      match outcome with
      | .ok tools => some
          ({ w with started := w.started.set (.ok tools), innerStarted := true
                    cancelRequested := false } : Worker).next
      | .error e => some (w.crash e)
  | .waiting =>
      if w.cancelRequested then some (w.crash .cancelled)
      else if w.commands.isEmpty then none
      else some w.next
  | .listing n =>
      match outcome with
      | .ok tools => some ({ w with cancelRequested := false }.answer n (.ok tools)).next
      | .error e => some ({ w with cancelRequested := false }.refuse n e)
  | .stopping n =>
      match outcome with
      | .ok _ => some { w.answer n (.ok []) with phase := .ended none }
      | .error e => some ({ w with cancelRequested := false }.refuse n e)
  | .ended _ => none

/-- The step of the worker is its last one. -/
def exits (outcome : Except Exn (List Json)) (w : Worker) : Bool :=
  match w.phase, outcome with
  | .starting, .error _ => true
  | .waiting, _ => w.cancelRequested
  | .listing _, .error e => !e.isException
  | .stopping _, .ok _ => true
  | .stopping _, .error e => !e.isException
  | _, _ => false

end Worker

end ChangeQuality.McpWorkers
