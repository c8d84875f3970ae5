import Mathlib.Data.List.Dedup
import Mathlib.Data.List.Nodup
import ChangeQuality.Values
import ChangeQuality.ReadCommitted

/-!
The tables of the SOP quality checks and of their sessions, the writes that the ORM flushes, and
the parts of the tables that one row lock protects.
-/

namespace ChangeQuality.SopTables

open ChangeQuality.Values
open ChangeQuality.ReadCommitted

abbrev CheckId := Nat
abbrev SessionId := Nat

inductive CheckStatus where
  | pending
  | running
  | succeeded
  | failed
  | cancelled
  | interrupted
  deriving DecidableEq

/-- Membership in `ACTIVE_CHECK_STATUSES`. -/
def CheckStatus.active : CheckStatus → Bool
  | .pending | .running => true
  | _ => false

inductive EventType where
  | created
  | started
  | checkpoint
  | completed
  | failed
  | cancelled
  | interrupted
  deriving DecidableEq

/-- Membership in `TERMINAL_EVENT_TYPES`. -/
def EventType.terminal : EventType → Bool
  | .completed | .failed | .cancelled | .interrupted => true
  | _ => false

inductive SessionStatus where
  | active
  | completed
  | failed
  | interrupted
  deriving DecidableEq

/-- A row of `sop_quality_checks`. -/
structure SopQualityCheck where
  id : CheckId
  sessionId : Option SessionId
  sopId : String
  envKey : String
  graphName : String
  graphVersion : String
  threadId : String
  checkpointNs : String
  currentCheckpointId : Option String
  status : CheckStatus
  qualityResult : Option String
  sopSnapshot : Json
  result : Option Json
  error : Option Json
  createdBy : Option String

/-- A row of `sop_quality_events`. -/
structure SopQualityEvent where
  checkId : CheckId
  sequence : Nat
  type : EventType
  node : Option String
  checkpointId : Option String
  taskId : Option String
  message : Option String
  deriving DecidableEq

/-- A row of `sessions`. -/
structure Session where
  id : SessionId
  threadId : String
  status : SessionStatus
  title : Option String

/-- A row of `messages`. -/
structure Message where
  sessionId : SessionId
  sequence : Nat
  role : String
  content : String
  additionalKwargs : Json

structure Db where
  checks : List SopQualityCheck
  events : List SopQualityEvent
  sessions : List Session
  messages : List Message

namespace Db

def check (db : Db) (id : CheckId) : Option SopQualityCheck :=
  db.checks.find? fun row => row.id = id

def session (db : Db) (id : SessionId) : Option Session :=
  db.sessions.find? fun row => row.id = id

def eventsOf (db : Db) (id : CheckId) : List SopQualityEvent :=
  db.events.filter fun event => event.checkId = id

def messagesOf (db : Db) (id : SessionId) : List Message :=
  db.messages.filter fun message => message.sessionId = id

/-- `coalesce(max(sequence), 0)` over the events of a check. -/
def latestSequence (db : Db) (id : CheckId) : Nat :=
  ((db.eventsOf id).map (·.sequence)).foldl max 0

/-- `coalesce(max(sequence), 0)` over the messages of a session. -/
def latestMessage (db : Db) (id : SessionId) : Nat :=
  ((db.messagesOf id).map (·.sequence)).foldl max 0

/-- The rows with an active status, each read once by its primary key. -/
def activeChecks (db : Db) : List SopQualityCheck :=
  ((db.checks.map (·.id)).dedup.filterMap db.check).filter fun row => row.status.active

/-- The active check of a subject; the partial unique index allows one. -/
def activeCheck (db : Db) (sopId envKey : String) : Option SopQualityCheck :=
  db.activeChecks.find? fun row => row.sopId = sopId ∧ row.envKey = envKey

end Db

/-- The columns that an `UPDATE` of a check sets. -/
structure CheckPatch where
  status : Option CheckStatus := none
  qualityResult : Option (Option String) := none
  result : Option (Option Json) := none
  error : Option (Option Json) := none
  currentCheckpointId : Option (Option String) := none

def CheckPatch.apply (patch : CheckPatch) (row : SopQualityCheck) : SopQualityCheck :=
  { row with
    status := patch.status.getD row.status
    qualityResult := patch.qualityResult.getD row.qualityResult
    result := patch.result.getD row.result
    error := patch.error.getD row.error
    currentCheckpointId := patch.currentCheckpointId.getD row.currentCheckpointId }

/-- The columns of a patch that differ from the loaded row, which are those that a flush sends. -/
def CheckPatch.net (patch : CheckPatch) (row : SopQualityCheck) : CheckPatch :=
  { status := patch.status.filter (· ≠ row.status)
    qualityResult := patch.qualityResult.filter (· ≠ row.qualityResult)
    result := patch.result.filter fun result => !(result == row.result)
    error := patch.error.filter fun error => !(error == row.error)
    currentCheckpointId := patch.currentCheckpointId.filter (· ≠ row.currentCheckpointId) }

/-- The columns of a session that an `UPDATE` sets, besides its time stamp. -/
abbrev SessionPatch := Option SessionStatus

def SessionPatch.apply (patch : SessionPatch) (row : Session) : Session :=
  { row with status := patch.getD row.status }

def SessionPatch.net (patch : SessionPatch) (row : Session) : SessionPatch :=
  patch.filter (· ≠ row.status)

inductive Write where
  | insertCheck (row : SopQualityCheck)
  | updateCheck (id : CheckId) (patch : CheckPatch)
  | insertEvent (row : SopQualityEvent)
  | insertSession (row : Session)
  | updateSession (id : SessionId) (patch : SessionPatch)
  | insertMessage (row : Message)

/-- What is locked: a check, a session, or the entry of a subject in the unique index over the
active checks. -/
inductive Key where
  | check (id : CheckId)
  | session (id : SessionId)
  | subject (sopId envKey : String)
  deriving DecidableEq

/-- What a write does to the tables. The code locks the parent row before it inserts an event or a
message. -/
def schema : Schema Db Write Key where
  apply
    | .insertCheck row, db => { db with checks := db.checks ++ [row] }
    | .updateCheck id patch, db =>
        { db with checks := db.checks.map fun row => if row.id = id then patch.apply row else row }
    | .insertEvent row, db => { db with events := db.events ++ [row] }
    | .insertSession row, db => { db with sessions := db.sessions ++ [row] }
    | .updateSession id patch, db =>
        { db with
          sessions := db.sessions.map fun row => if row.id = id then patch.apply row else row }
    | .insertMessage row, db => { db with messages := db.messages ++ [row] }
  rowsOf
    | .insertCheck row => [.check row.id, .subject row.sopId row.envKey]
    | .updateCheck id _ => [.check id]
    | .insertEvent row => [.check row.checkId]
    | .insertSession row => [.session row.id]
    | .updateSession id _ => [.session id]
    | .insertMessage row => [.session row.sessionId]

section Effects

variable {db : Db} {id id' : CheckId} {sid sid' : SessionId}

theorem Db.check_id {row : SopQualityCheck} (h : db.check id = some row) : row.id = id := by
  simpa using List.find?_some h

theorem Db.session_id {row : Session} (h : db.session sid = some row) : row.id = sid := by
  simpa using List.find?_some h

theorem Db.mem_activeChecks {row : SopQualityCheck} (h : row ∈ db.activeChecks) :
    db.check row.id = some row ∧ row.status.active = true := by
  obtain ⟨hmem, hactive⟩ := List.mem_filter.mp h
  obtain ⟨id, -, hcheck⟩ := List.mem_filterMap.mp hmem
  exact ⟨Db.check_id hcheck ▸ hcheck, hactive⟩

theorem Db.nodup_activeChecks (db : Db) : (db.activeChecks.map (·.id)).Nodup := by
  have hids : ((((db.checks.map (·.id)).dedup.filterMap db.check).map (·.id))).Nodup := by
    rw [List.map_filterMap]
    refine (List.nodup_dedup _).filterMap fun id id' key hkey hkey' => ?_
    obtain ⟨row, hrow, rfl⟩ := Option.map_eq_some_iff.mp hkey
    obtain ⟨row', hrow', heq⟩ := Option.map_eq_some_iff.mp hkey'
    exact ((Db.check_id hrow).symm.trans heq.symm).trans (Db.check_id hrow')
  exact hids.sublist (List.filter_sublist.map _)

theorem Db.mem_of_activeCheck {sopId envKey : String} {row : SopQualityCheck}
    (h : db.activeCheck sopId envKey = some row) : row ∈ db.activeChecks :=
  List.mem_of_find?_eq_some h

/-- Looking a row up by its key in a table of which one row was replaced under the same key. -/
theorem find?_map_update {α : Type} (key : α → Nat) {f : α → α} (hf : ∀ a, key (f a) = key a)
    (rows : List α) (k k' : Nat) :
    (rows.map fun a => if key a = k then f a else a).find? (fun a => key a = k') =
      (rows.find? fun a => key a = k').map fun a => if key a = k then f a else a := by
  rw [List.find?_map]
  congr 2
  funext a
  simp only [Function.comp]
  split <;> simp [hf]

theorem check_insertCheck (row : SopQualityCheck) :
    (schema.apply (.insertCheck row) db).check id =
      (db.check id).or (if row.id = id then some row else none) := by
  by_cases h : row.id = id <;> simp [schema, Db.check, List.find?_append, h]

theorem check_updateCheck (patch : CheckPatch) :
    (schema.apply (.updateCheck id' patch) db).check id =
      if id = id' then (db.check id).map patch.apply else db.check id := by
  have hmap : (schema.apply (.updateCheck id' patch) db).check id =
      (db.check id).map fun row => if row.id = id' then patch.apply row else row :=
    find?_map_update SopQualityCheck.id (f := patch.apply) (fun _ => rfl) db.checks id' id
  rw [hmap]
  cases hrow : db.check id with
  | none => simp
  | some row =>
      simp only [Option.map_some, Db.check_id hrow]
      split <;> rfl

theorem eventsOf_insertEvent (row : SopQualityEvent) :
    (schema.apply (.insertEvent row) db).eventsOf id =
      db.eventsOf id ++ if row.checkId = id then [row] else [] := by
  by_cases h : row.checkId = id <;> simp [schema, Db.eventsOf, h]

theorem session_insertSession (row : Session) :
    (schema.apply (.insertSession row) db).session sid =
      (db.session sid).or (if row.id = sid then some row else none) := by
  by_cases h : row.id = sid <;> simp [schema, Db.session, List.find?_append, h]

theorem session_updateSession (patch : SessionPatch) :
    (schema.apply (.updateSession sid' patch) db).session sid =
      if sid = sid' then (db.session sid).map patch.apply else db.session sid := by
  have hmap : (schema.apply (.updateSession sid' patch) db).session sid =
      (db.session sid).map fun row => if row.id = sid' then patch.apply row else row :=
    find?_map_update Session.id (f := patch.apply) (fun _ => rfl) db.sessions sid' sid
  rw [hmap]
  cases hrow : db.session sid with
  | none => simp
  | some row =>
      simp only [Option.map_some, Db.session_id hrow]
      split <;> rfl

theorem messagesOf_insertMessage (row : Message) :
    (schema.apply (.insertMessage row) db).messagesOf sid =
      db.messagesOf sid ++ if row.sessionId = sid then [row] else [] := by
  by_cases h : row.sessionId = sid <;> simp [schema, Db.messagesOf, h]

end Effects

/-- What the row lock of a check protects: the row and the events of the check. -/
def checkAspect (id : CheckId) :
    Aspect schema (.check id) (Option SopQualityCheck × List SopQualityEvent) where
  read db := (db.check id, db.eventsOf id)
  frame wr db hrow := by
    cases wr with
    | insertCheck row =>
        have hne : row.id ≠ id := fun h => hrow (by simp [schema, h])
        rw [check_insertCheck]
        simp only [hne, if_false, Option.or_none]
        rfl
    | updateCheck id' patch =>
        have hne : id ≠ id' := fun h => hrow (by simp [schema, h])
        rw [check_updateCheck, if_neg hne]
        rfl
    | insertEvent row =>
        have hne : row.checkId ≠ id := fun h => hrow (by simp [schema, h])
        rw [eventsOf_insertEvent, if_neg hne, List.append_nil]
        rfl
    | _ => rfl
  congr wr db db' h := by
    obtain ⟨hcheck, hevents⟩ := Prod.mk.inj h
    cases wr with
    | insertCheck row => exact Prod.ext (by simp only [check_insertCheck, hcheck]) hevents
    | updateCheck id' patch => exact Prod.ext (by simp only [check_updateCheck, hcheck]) hevents
    | insertEvent row => exact Prod.ext hcheck (by simp only [eventsOf_insertEvent, hevents])
    | _ => exact h

/-- What the row lock of a session protects: the row and the messages of the session. -/
def sessionAspect (sid : SessionId) :
    Aspect schema (.session sid) (Option Session × List Message) where
  read db := (db.session sid, db.messagesOf sid)
  frame wr db hrow := by
    cases wr with
    | insertSession row =>
        have hne : row.id ≠ sid := fun h => hrow (by simp [schema, h])
        rw [session_insertSession]
        simp only [hne, if_false, Option.or_none]
        rfl
    | updateSession sid' patch =>
        have hne : sid ≠ sid' := fun h => hrow (by simp [schema, h])
        rw [session_updateSession, if_neg hne]
        rfl
    | insertMessage row =>
        have hne : row.sessionId ≠ sid := fun h => hrow (by simp [schema, h])
        rw [messagesOf_insertMessage, if_neg hne, List.append_nil]
        rfl
    | _ => rfl
  congr wr db db' h := by
    obtain ⟨hsession, hmessages⟩ := Prod.mk.inj h
    cases wr with
    | insertSession row =>
        exact Prod.ext (by simp only [session_insertSession, hsession]) hmessages
    | updateSession sid' patch =>
        exact Prod.ext (by simp only [session_updateSession, hsession]) hmessages
    | insertMessage row =>
        exact Prod.ext hsession (by simp only [messagesOf_insertMessage, hmessages])
    | _ => exact h

end ChangeQuality.SopTables
