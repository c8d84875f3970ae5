import ChangeQuality.SopRunner

/-!
The environment of the SOP quality backend: PostgreSQL under READ COMMITTED with row locks, one ORM
session per task with its own loaded copies, and external services. Failures are the environment's
choice, at every await.
-/

namespace ChangeQuality.SopSystem

open ChangeQuality.Values
open ChangeQuality.SopTables
open ChangeQuality.SopRepository
open ChangeQuality.SopRunner
open ChangeQuality.ReadCommitted

abbrev TaskId := Nat

/-- How far a background run has got, as its notes tell. -/
inductive Phase where
  | fresh
  | started (id : CheckId)
  | lastResort (id : CheckId)
  deriving DecidableEq

structure World where
  store : Store Db Write Key TaskId
  /-- The instances that the database session of a task has loaded. -/
  checks : TaskId → List SopQualityCheck
  sessions : TaskId → List Session
  /-- The database sessions that reject statements until they are rolled back. -/
  invalid : TaskId → Bool
  nextCheck : CheckId
  nextSession : SessionId
  phase : TaskId → Phase

/-- What an external service answers. -/
inductive Answer where
  | nothing
  | json (value : Json)
  | flag (value : Bool)
  | chunks (value : List Chunk)
  | text (value : String)

/-- What the environment may do with an await. `kept` tells whether the instances of the session
are still referenced; `poisons` tells whether a failure leaves the session unusable. -/
inductive Choice where
  | succeed (answer : Answer) (kept : Bool)
  | fail (error : Exn) (poisons : Bool)

namespace World

variable (w : World) (t : TaskId)

def view : Db :=
  w.store.view schema t

def heldCheck (kept : Bool) (id : CheckId) : Option SopQualityCheck :=
  if kept then (w.checks t).find? fun row => row.id = id else none

def heldSession (kept : Bool) (id : SessionId) : Option Session :=
  if kept then (w.sessions t).find? fun row => row.id = id else none

def loadCheck (row : SopQualityCheck) : World :=
  { w with
    checks := Function.update w.checks t
      (row :: (w.checks t).filter fun other => other.id ≠ row.id) }

def loadSession (row : Session) : World :=
  { w with
    sessions := Function.update w.sessions t
      (row :: (w.sessions t).filter fun other => other.id ≠ row.id) }

def withStore (store : Store Db Write Key TaskId) : World :=
  { w with store }

/-- Lock a row for update. -/
def lock (k : Key) : Option World :=
  (w.store.lock t k).map w.withStore

def write (wr : Write) : Option World :=
  (w.store.write schema t wr).map w.withStore

/-- End the transaction of a task and expire what its session has loaded. -/
def reset (invalid : Bool) : World :=
  { w with
    store := w.store.rollback t
    checks := Function.update w.checks t []
    sessions := Function.update w.sessions t []
    invalid := Function.update w.invalid t invalid }

/-- The effect of a note on the phase of a run. -/
def noted : Note → World
  | .alreadyTerminal _ _ | .called _ _ | .answered _ _ => w
  | .started id => { w with phase := Function.update w.phase t (.started id) }
  | .lastResort id =>
      match w.phase t with
      | .started _ => { w with phase := Function.update w.phase t (.lastResort id) }
      | _ => w

end World

/-- The operations that send a statement in the task's database session. -/
def usesSession : Op → Bool
  | .rollback | .close | .publishEvent _ | .publishMessage _ | .publishDelta _ _ | .schedule _
  | .startBackground _ | .openCheckpointer | .closeCheckpointer | .saveCheckpoint | .graphState | .getSop _ _
  | .agentStream _ | .agentStreamEnd | .agentInvoke _ | .note _ => false
  | _ => true

/-- The operations that flush; a flush that fails always leaves the session unusable. -/
def flushes : Op → Bool
  | .updateCheck _ _ | .insertEvent _ | .insertCheck _ | .insertSession _ | .updateSession _ _
  | .insertMessage _ | .flush => true
  | _ => false

/-- The operations that cannot fail. -/
def infallible : Op → Bool
  | .close | .startBackground _ | .note _ => true
  | _ => false

/-- The outcome of an operation that does not fail. -/
def succeed (t : TaskId) (answer : Answer) (kept : Bool) (w : World) :
    (op : Op) → Option (Reply op × World)
  | .getCheck id =>
      match w.heldCheck t kept id with
      | some check => some (some check, w)
      | none =>
          match (w.view t).check id with
          | some row => some (some row, w.loadCheck t row)
          | none => some (none, w)
  | .latestSequence id => some ((w.view t).latestSequence id, w)
  | .lockCheck id =>
      match (w.view t).check id with
      | some _ => (w.lock t (.check id)).map fun w' => (true, w')
      | none => some (false, w)
  | .refreshCheck id => ((w.view t).check id).map fun row => (row, w.loadCheck t row)
  | .updateCheck check patch =>
      let row := patch.apply check
      -- a change of the status comes with a time stamp, so that its UPDATE is always sent
      if patch.status = none ∧ (patch.net check).currentCheckpointId = none then
        some (row, w.loadCheck t row)
      else
        (w.write t (.updateCheck check.id (patch.net check))).map fun w' =>
          (row, w'.loadCheck t row)
  | .insertEvent event =>
      if ((w.view t).check event.checkId).isSome ∧
          ((w.view t).eventsOf event.checkId).all fun other => other.sequence ≠ event.sequence then
        (w.write t (.insertEvent event)).map fun w' => (event, w')
      else none
  | .selectActive =>
      let checks := (w.view t).activeChecks.map fun row => (w.heldCheck t kept row.id).getD row
      some (checks, checks.foldl (fun w check => w.loadCheck t check) w)
  | .activeCheck sopId envKey =>
      match (w.view t).activeCheck sopId envKey with
      | none => some (none, w)
      | some row =>
          let check := (w.heldCheck t kept row.id).getD row
          some (some check, w.loadCheck t check)
  | .insertCheck values =>
      let row := values.toRow w.nextCheck
      if ((w.view t).activeCheck values.sopId values.envKey).isNone ∧
          values.sessionId.all fun sessionId => ((w.view t).session sessionId).isSome then
        (w.write t (.insertCheck row)).map fun w' =>
          (row, { w'.loadCheck t row with nextCheck := w.nextCheck + 1 })
      else none
  | .insertSession title =>
      match answer with
      | .text threadId =>
          let row : Session := { id := w.nextSession, threadId, status := .active, title }
          if (w.view t).sessions.all fun other => other.threadId ≠ threadId then
            (w.write t (.insertSession row)).map fun w' =>
              (row, { w'.loadSession t row with nextSession := w.nextSession + 1 })
          else none
      | _ => none
  | .getSession id =>
      match w.heldSession t kept id with
      | some session => some (some session, w)
      | none =>
          match (w.view t).session id with
          | some row => some (some row, w.loadSession t row)
          | none => some (none, w)
  | .updateSession session status =>
      let patch : SessionPatch := some status
      let row := patch.apply session
      (w.write t (.updateSession session.id (patch.net session))).map fun w' =>
        (row, w'.loadSession t row)
  | .lockSession id =>
      match (w.view t).session id with
      | some _ => (w.lock t (.session id)).map fun w' => (true, w')
      | none => some (false, w)
  | .latestMessage id => some ((w.view t).latestMessage id, w)
  | .insertMessage message =>
      if ((w.view t).session message.sessionId).isSome ∧
          ((w.view t).messagesOf message.sessionId).all fun other =>
            other.sequence ≠ message.sequence then
        (w.write t (.insertMessage message)).map fun w' => (message, w')
      else none
  | .commit => some ((), w.withStore (w.store.commit schema t))
  | .rollback | .close => some ((), w.reset t false)
  | .startBackground id =>
      if (w.store.committed.check id).isSome then some ((), w) else none
  | .note n => some ((), w.noted t n)
  | .createAgent =>
      match answer with
      | .flag streams => some (streams, w)
      | _ => none
  | .agentStream _ =>
      match answer with
      | .chunks chunks => some (chunks, w)
      | _ => none
  | .agentInvoke _ =>
      match answer with
      | .text text => some (text, w)
      | _ => none
  | .graphState | .getSop _ _ =>
      match answer with
      | .json value => some (value, w)
      | _ => none
  | .flush | .publishEvent _ | .publishMessage _ | .publishDelta _ _ | .schedule _
  | .openCheckpointer | .closeCheckpointer | .saveCheckpoint | .agentStreamEnd => some ((), w)

def exec : Coroutine.Semantics Reply Exn TaskId Choice World
  | t, op, .succeed answer kept, w =>
      if usesSession op && w.invalid t then none
      else (succeed t answer kept w op).map fun (reply, w') => (.ok reply, w')
  | t, op, .fail error poisons, w =>
      if infallible op then none
      else if usesSession op && (poisons || flushes op) then some (.error error, w.reset t true)
      else some (.error error, w)

abbrev Config := Coroutine.Config Reply Exn TaskId World

/-- No task has begun a transaction. -/
structure Idle (w : World) : Prop where
  pending : ∀ t, w.store.pending t = []
  owner : ∀ k, w.store.owner k = none
  checks : ∀ t, w.checks t = []
  sessions : ∀ t, w.sessions t = []
  invalid : ∀ t, w.invalid t = false
  phase : ∀ t, w.phase t = .fresh

/-- The tasks of the backend: the background run of a check, the interruption at startup, and the
request that starts a check. -/
inductive Task (c : Collaborators) : Program Unit → Prop
  | run (id : CheckId) : Task c (backgroundRun c id)
  | startup : Task c interruptLeftoverSopQualityChecks
  | start (environments : List String) (sopId envKey : String) (createdBy : Option String) :
      Task c (do let _ ← startCheckRequest environments sopId envKey createdBy)

end ChangeQuality.SopSystem
