import ChangeQuality.McpService

/-!
The environment of the MCP requests: the database, the registry of live handles, and one
`asyncio.Lock` per server. Failures are the environment's choice, at every await.
-/

namespace ChangeQuality.McpSystem

open ChangeQuality.Values
open ChangeQuality.McpServers

/-- `asyncio.Lock`: a lock is not re-entrant, and its waiters are served in order. -/
structure AsyncLock where
  holder : Option TaskId := none
  waiters : List TaskId := []

abbrev Txn := TaskId × Conn

structure World where
  store : ReadCommitted.Store Db Write ServerId Txn
  /-- The instances that each database session has loaded. -/
  loaded : Txn → List McpServer
  /-- The sessions whose transaction needs a rollback. -/
  invalid : Txn → Bool
  handles : List (ServerId × Handle)
  lock : ServerId → AsyncLock
  nextServer : ServerId
  nextHandle : Handle

/-- What the environment may answer to an await. A failure of a statement may leave the database
session unusable. -/
inductive Choice where
  | succeed (tools : List Json)
  | fail (error : Exn) (poisons : Bool)

namespace World

/-- The instance that a session has loaded for a row. -/
def instance? (w : World) (x : Txn) (id : ServerId) : Option McpServer :=
  (w.loaded x).find? fun row => row.id = id

def load (w : World) (x : Txn) (row : McpServer) : World :=
  { w with
    loaded := Function.update w.loaded x
      (row :: (w.loaded x).filter fun other => other.id ≠ row.id) }

def unload (w : World) (x : Txn) (id : ServerId) : World :=
  { w with
    loaded := Function.update w.loaded x
      ((w.loaded x).filter fun other => other.id ≠ id) }

def view (w : World) (x : Txn) : Db :=
  w.store.view schema x

def write (w : World) (x : Txn) (wr : Write) : Option World :=
  (w.store.write schema x wr).map fun store => { w with store }

/-- A failed statement: the transaction is rolled back and its session rejects statements. -/
def poison (w : World) (x : Txn) : World :=
  { w with store := w.store.rollback x, invalid := Function.update w.invalid x true }

def setLock (w : World) (id : ServerId) (lock : AsyncLock) : World :=
  { w with lock := Function.update w.lock id lock }

end World

/-- The database session that an operation uses. -/
def sessionOf : Op → Option Conn
  | .selectServer conn _ | .reloadServer conn _ | .insertServer conn _ | .updateServer conn _ _
  | .deleteServer conn _ | .deleteTools conn _ | .insertTools conn _ | .countTools conn _
  | .commit conn => some conn
  | _ => none

/-- The operations that neither suspend the task nor reach the database cannot fail. -/
def synchronous : Op → Bool
  | .tryAcquire _ | .release _ | .close _ | .handleOf _ | .setHandle _ _ | .popHandle _ => true
  | _ => false

/-- `fut` of a cancelled waiter leaves the queue. -/
def abandon (t : TaskId) (op : Op) (w : World) : World :=
  match op with
  | .acquired id =>
      w.setLock id { w.lock id with waiters := (w.lock id).waiters.filter (· ≠ t) }
  | _ => w

/-- The outcome of an operation that does not fail. -/
def succeed (t : TaskId) (tools : List Json) (w : World) :
    (op : Op) → Option (Reply op × World)
  | .tryAcquire id =>
      if (w.lock id).holder = none ∧ (w.lock id).waiters = [] then
        some (true, w.setLock id { holder := some t })
      else
        some (false, w.setLock id
          { w.lock id with waiters := (w.lock id).waiters ++ [t] })
  | .acquired id =>
      if (w.lock id).holder = none ∧ (w.lock id).waiters.head? = some t then
        some ((), w.setLock id { holder := some t, waiters := (w.lock id).waiters.tail })
      else none
  | .release id => some ((), w.setLock id { w.lock id with holder := none })
  | .selectServer conn id =>
      match (w.view (t, conn)).server id with
      | none => some (none, w)
      | some row =>
          match w.instance? (t, conn) id with
          -- a query does not overwrite an instance that the session already holds
          | some server => some (some server, w)
          | none => some (some row, w.load (t, conn) row)
  | .reloadServer conn id =>
      match (w.view (t, conn)).server id with
      | none => some (none, w)
      | some row => some (some row, w.load (t, conn) row)
  | .insertServer conn values =>
      if (w.view (t, conn)).servers.any fun row => row.name = values.name then none
      else
        let row := values.toRow w.nextServer
        (w.write (t, conn) (.insertServer row)).map fun w' =>
          (row, { w'.load (t, conn) row with nextServer := w.nextServer + 1 })
  | .updateServer conn id patch =>
      match w.instance? (t, conn) id with
      | none => none
      | some server =>
          let row := patch.apply server
          let net := patch.net server
          if (w.view (t, conn)).servers.any fun other =>
              other.id ≠ id ∧ net.name = some other.name then none
          else if net = {} then some (row, w.load (t, conn) row)
          else (w.write (t, conn) (.updateServer id net)).map fun w' =>
            (row, w'.load (t, conn) row)
  | .deleteServer conn id =>
      (w.write (t, conn) (.deleteServer id)).map fun w' => ((), w'.unload (t, conn) id)
  | .deleteTools conn id => (w.write (t, conn) (.deleteTools id)).map fun w' => ((), w')
  | .insertTools conn rows =>
      if ((w.view (t, conn)).tools ++ rows).map (fun row => (row.serverId, row.name)) |>.Nodup then
        (w.write (t, conn) (.insertTools rows)).map fun w' => ((), w')
      else none
  | .countTools conn id =>
      some (((w.view (t, conn)).tools.filter fun row => row.serverId = id).length, w)
  | .commit conn => some ((), { w with store := w.store.commit schema (t, conn) })
  | .close conn =>
      some ((), { w with
        store := w.store.rollback (t, conn)
        loaded := Function.update w.loaded (t, conn) []
        invalid := Function.update w.invalid (t, conn) false })
  | .handleOf id => some (w.handles.lookup id, w)
  | .setHandle id handle =>
      some ((), { w with handles := w.handles.filter (·.1 ≠ id) ++ [(id, handle)] })
  | .popHandle id => some ((), { w with handles := w.handles.filter (·.1 ≠ id) })
  | .probeStart _ => some ((w.nextHandle, tools), { w with nextHandle := w.nextHandle + 1 })
  | .probeListTools _ => some (tools, w)
  | .probeStop _ => some ((), w)

/-- A session that needs a rollback rejects every statement. -/
def rejected (t : TaskId) (op : Op) (w : World) : Bool :=
  match sessionOf op with
  | some conn => w.invalid (t, conn)
  | none => false

def exec : Coroutine.Semantics Reply Exn TaskId Choice World
  | t, op, .succeed tools, w =>
      if rejected t op w then none
      else (succeed t tools w op).map fun (reply, w') => (.ok reply, w')
  | t, op, .fail error poisons, w =>
      if synchronous op then none
      else
        match poisons, sessionOf op with
        | true, some conn => some (.error error, w.poison (t, conn))
        | _, _ => some (.error error, abandon t op w)

/-- A successful operation was carried out. -/
theorem exec_succeed {t : TaskId} {op : Op} {tools : List Json} {w w' : World}
    {r : Except Exn (Reply op)} (h : exec t op (.succeed tools) w = some (r, w')) :
    ∃ reply, r = .ok reply ∧ succeed t tools w op = some (reply, w') := by
  simp only [exec] at h
  split at h
  · simp at h
  · obtain ⟨⟨reply, w₁⟩, hsucceed, heq⟩ := Option.map_eq_some_iff.mp h
    obtain ⟨rfl, rfl⟩ := Prod.mk.inj heq
    exact ⟨reply, rfl, hsucceed⟩

/-- A failed operation changes at most the queue it waited in or its own session. -/
theorem exec_fail {t : TaskId} {op : Op} {e : Exn} {poisons : Bool} {w w' : World}
    {r : Except Exn (Reply op)} (h : exec t op (.fail e poisons) w = some (r, w')) :
    synchronous op = false ∧ r = .error e ∧
      (w' = abandon t op w ∨ ∃ conn, sessionOf op = some conn ∧ w' = w.poison (t, conn)) := by
  simp only [exec] at h
  split at h
  · simp at h
  · rename_i hsync
    refine ⟨by simpa using hsync, ?_⟩
    split at h
    · rename_i conn hconn
      obtain ⟨rfl, rfl⟩ := Prod.mk.inj (Option.some.inj h)
      exact ⟨rfl, .inr ⟨conn, hconn, rfl⟩⟩
    · obtain ⟨rfl, rfl⟩ := Prod.mk.inj (Option.some.inj h)
      exact ⟨rfl, .inl rfl⟩

/-- No request is in flight: every lock is free. -/
def Quiet (w : World) : Prop :=
  ∀ id, w.lock id = {}

abbrev Config := Coroutine.Config Reply Exn TaskId World

end ChangeQuality.McpSystem
