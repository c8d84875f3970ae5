import ChangeQuality.Histories
import ChangeQuality.McpFailures
import ChangeQuality.McpPrograms

/-!
The tool snapshot of a server across a start or a check, for every failure at every await. Which
statements of the call came about is kept in a record, and decides what is left of the snapshot.
-/

namespace ChangeQuality.McpSnapshots

open ChangeQuality.Values
open ChangeQuality.McpServers
open ChangeQuality.McpRuntime
open ChangeQuality.McpPrograms
open ChangeQuality.McpSystem
open ChangeQuality.ReadCommitted
open ChangeQuality.Coroutine
open ChangeQuality.Interference
open ChangeQuality.Histories
open ChangeQuality.Solo

/-- The stored tools of a server. -/
def snapshot (id : ServerId) (db : Db) : List McpServerTool :=
  db.tools.filter fun tool => tool.serverId = id

/-- `_tool_name`, `_tool_description` and `_tool_input_schema` of one tool. -/
def toolRow (id : ServerId) (tool : Json) : Option McpServerTool :=
  (tool.get "name").asStr?.map fun name =>
    { serverId := id
      name
      description := (tool.get "description").asStr?
      inputSchema := (tool.get "input_schema").asObj?.getD (.obj []) }

/-- The rows of a list of tools, all of which need a name. -/
def toolRows (id : ServerId) : List Json → Option (List McpServerTool)
  | [] => some []
  | tool :: tools => do
      let row ← toolRow id tool
      let rows ← toolRows id tools
      some (row :: rows)

/-- What came about during a call. -/
inductive Entry where
  | probed (tools : List Json)
  | deleted
  | inserted
  | committed
  | closed

def entries : Entries Reply Exn TaskId World Entry
  | _, .probeStart _, .ok (_, tools), _ => [.probed tools]
  | _, .probeListTools _, .ok tools, _ => [.probed tools]
  | _, .deleteTools _ _, .ok _, _ => [.deleted]
  | _, .insertTools _ _, .ok _, _ => [.inserted]
  | _, .commit _, .ok _, _ => [.committed]
  | _, .close _, .ok _, _ => [.closed]
  | _, _, _, _ => []

/-- What the statements of a call put in the place of the snapshot: in the open transaction since its
`DELETE`, and in what was committed. -/
structure Trail where
  tools : List Json := []
  unsaved : Option (List McpServerTool) := none
  saved : Option (List McpServerTool) := none

def Trail.add (id : ServerId) (trail : Trail) : Entry → Trail
  | .probed tools => { trail with tools }
  | .deleted => { trail with unsaved := some [] }
  | .inserted => { trail with unsaved := toolRows id trail.tools }
  | .committed => { trail with unsaved := none, saved := trail.unsaved.or trail.saved }
  | .closed => { trail with unsaved := none }

def trail (id : ServerId) (log : List Entry) : Trail :=
  log.foldl (Trail.add id) {}

/-- The calls, with the lock of the server around them. -/
inductive Call where
  | start
  | check

def Call.program (cfg : Settings) (id : ServerId) : Call → Program McpLifecycleResponse
  | .start => McpRuntime.start cfg id
  | .check => McpRuntime.check cfg id

/-- The manager opens a database session of its own for the call. -/
structure FreshSession (t : TaskId) (w : World) : Prop where
  pending : w.store.pending (t, .runtime) = []
  valid : w.invalid (t, .runtime) = false

/-- The call may raise, with this record of what came about. -/
def Fails (cfg : Settings) (t : TaskId) (call : Call) (id : ServerId) (w : World) (e : Exn)
    (w' : World) (log : List Entry) : Prop :=
  MayEnd (recording exec entries) t (call.program cfg id) (w, []) (.error e) (w', log)

section Snapshots

variable {t : TaskId} {id : ServerId} {old : List McpServerTool}

/-- The record says what the session sees of the snapshot and what is committed of it. -/
structure Recorded (t : TaskId) (id : ServerId) (old : List McpServerTool)
    (s : World × List Entry) : Prop where
  committed : snapshot id s.1.store.committed = (trail id s.2).saved.getD old
  sees : s.1.invalid (t, .runtime) = false → snapshot id (s.1.view (t, .runtime)) =
    ((trail id s.2).unsaved.or (trail id s.2).saved).getD old
  rejects : s.1.invalid (t, .runtime) = true → s.1.store.pending (t, .runtime) = []

/-- What a start or a check may await: the tools of its server are deleted before others are
inserted, and those inserted are the ones of the probe. -/
def CallPre (id : ServerId) (op : Op) (s : World × List Entry) : Prop :=
  match op with
  | .insertServer _ _ | .deleteServer _ _ => False
  | .insertTools conn rows =>
      conn = .runtime ∧ (trail id s.2).unsaved = some [] ∧
        toolRows id (trail id s.2).tools = some rows
  | .deleteTools conn id' => conn = .runtime ∧ id' = id
  | op => ∀ conn, sessionOf op = some conn ∨ op = .close conn → conn = .runtime

theorem toolRow_serverId {tool : Json} {row : McpServerTool} (h : toolRow id tool = some row) :
    row.serverId = id := by
  obtain ⟨name, -, rfl⟩ := Option.map_eq_some_iff.mp h
  rfl

theorem toolRows_serverId {tools : List Json} {rows : List McpServerTool}
    (h : toolRows id tools = some rows) : ∀ row ∈ rows, row.serverId = id := by
  induction tools generalizing rows with
  | nil =>
      obtain rfl := Option.some.inj h
      simp
  | cons tool tools ih =>
      simp only [toolRows, Option.bind_eq_bind, Option.bind_eq_some_iff] at h
      obtain ⟨row, hrow, rest, hrest, heq⟩ := h
      obtain rfl := Option.some.inj heq
      intro other hother
      rcases List.mem_cons.mp hother with rfl | hother
      · exact toolRow_serverId hrow
      · exact ih hrest other hother

/-- `replace_tools` builds the rows or finds a tool without a name. -/
theorem toolModels_eq (id : ServerId) (tools : List Json) :
    toolModels id tools =
      match toolRows id tools with
      | some rows => .done rows
      | none => .raise (.valueError "MCP tool is missing a valid name.") := by
  induction tools with
  | nil => rfl
  | cons tool tools ih =>
      cases hname : (tool.get "name").asStr? with
      | none =>
          rw [toolModels, McpFailures.toolModel_unnamed id hname]
          simp only [toolRows, toolRow, hname]
          rfl
      | some name =>
          rw [toolModels, ih]
          simp only [toolModel, toolName, toolRows, toolRow, hname]
          cases toolRows id tools <;> rfl

@[simp] theorem trail_nil : trail id [] = {} := rfl

theorem trail_append (log more : List Entry) :
    trail id (log ++ more) = more.foldl (Trail.add id) (trail id log) :=
  List.foldl_append ..

/-- A failed operation enters nothing. -/
theorem entries_error {op : Op} {e : Exn} {w : World} :
    entries t op (.error e) w = [] := by
  cases op <;> rfl

theorem not_rejected {op : Op} {tools : List Json} {w w' : World} {r : Except Exn (Reply op)}
    (h : exec t op (.succeed tools) w = some (r, w')) : rejected t op w = false := by
  by_contra hrejected
  simp [exec, hrejected] at h

theorem snapshot_update (db : Db) (id' : ServerId) (patch : McpServerPatch) :
    snapshot id (schema.apply (.updateServer id' patch) db) = snapshot id db := rfl

theorem snapshot_deleteTools (db : Db) :
    snapshot id (schema.apply (.deleteTools id) db) = [] := by
  simp [snapshot, schema, List.filter_filter]

theorem snapshot_insertTools (db : Db) {rows : List McpServerTool}
    (hrows : ∀ row ∈ rows, row.serverId = id) :
    snapshot id (schema.apply (.insertTools rows) db) = snapshot id db ++ rows := by
  have hall : rows.filter (fun tool => tool.serverId = id) = rows :=
    List.filter_eq_self.mpr fun row hrow => by simp [hrows row hrow]
  simp only [snapshot, schema, List.filter_append, hall]

/-- The record stays true where neither the session nor the tables change. -/
theorem Recorded.congr {w w' : World} {log log' : List Entry} (h : Recorded t id old (w, log))
    (hstore : w'.store = w.store) (hinvalid : w'.invalid = w.invalid)
    (hunsaved : (trail id log').unsaved = (trail id log).unsaved)
    (hsaved : (trail id log').saved = (trail id log).saved) : Recorded t id old (w', log') := by
  refine ⟨?_, ?_, ?_⟩
  · simpa only [hstore, hsaved] using h.committed
  · simpa only [World.view, hstore, hinvalid, hunsaved, hsaved] using h.sees
  · simpa only [hstore, hinvalid] using h.rejects

/-- A statement of the session writes. -/
theorem Recorded.write {w w' : World} {log log' : List Entry} {wr : Write}
    (h : Recorded t id old (w, log)) (hvalid : w.invalid (t, .runtime) = false)
    (hwrite : w.write (t, .runtime) wr = some w')
    (hsnapshot : ∀ db, snapshot id db = ((trail id log).unsaved.or (trail id log).saved).getD old →
      snapshot id (schema.apply wr db) =
        ((trail id log').unsaved.or (trail id log').saved).getD old)
    (hsaved : (trail id log').saved = (trail id log).saved) : Recorded t id old (w', log') := by
  obtain ⟨store, hstore, rfl⟩ := Option.map_eq_some_iff.mp hwrite
  refine ⟨?_, fun _ => ?_, fun hinvalid => ?_⟩
  · simpa only [Store.committed_write hstore, hsaved] using h.committed
  · change snapshot id (store.view schema (t, .runtime)) = _
    rw [Store.view_write hstore]
    exact hsnapshot _ (h.sees hvalid)
  · cases hvalid.symm.trans hinvalid

/-- What operations other than statements that write, commits and closings leave alone. -/
theorem succeed_store {op : Op} {tools : List Json} {w w' : World} {reply : Reply op}
    (h : succeed t tools w op = some (reply, w'))
    (hop : match op with
      | .insertServer _ _ | .updateServer _ _ _ | .deleteServer _ _ | .deleteTools _ _
      | .insertTools _ _ | .commit _ | .close _ => False
      | _ => True) :
    w'.store = w.store ∧ w'.invalid = w.invalid := by
  cases op <;> grind [succeed, World.setLock, World.load]

theorem Recorded.updateServer {conn : Conn} {id' : ServerId} {patch : McpServerPatch}
    {tools : List Json} {w w' : World} {log : List Entry} {reply : McpServer}
    (h : Recorded t id old (w, log)) (hconn : conn = .runtime)
    (hvalid : w.invalid (t, .runtime) = false)
    (hsucceed : succeed t tools w (.updateServer conn id' patch) = some (reply, w')) :
    Recorded t id old (w', log) := by
  subst hconn
  simp only [succeed] at hsucceed
  split at hsucceed
  · simp at hsucceed
  · split at hsucceed
    · simp at hsucceed
    · split at hsucceed
      · obtain ⟨-, rfl⟩ := Prod.mk.inj (Option.some.inj hsucceed)
        exact h.congr rfl rfl rfl rfl
      · obtain ⟨mid, hwrite, heq⟩ := Option.map_eq_some_iff.mp hsucceed
        obtain ⟨-, rfl⟩ := Prod.mk.inj heq
        have hmid : Recorded t id old (mid, log) :=
          h.write hvalid hwrite (fun db hdb => (snapshot_update db id' _).trans hdb) rfl
        exact hmid.congr rfl rfl rfl rfl

theorem Recorded.deleteTools {tools : List Json} {w w' : World} {log : List Entry} {reply : Unit}
    (h : Recorded t id old (w, log)) (hvalid : w.invalid (t, .runtime) = false)
    (hsucceed : succeed t tools w (.deleteTools .runtime id) = some (reply, w')) :
    Recorded t id old (w', log ++ [.deleted]) := by
  simp only [succeed] at hsucceed
  obtain ⟨mid, hwrite, heq⟩ := Option.map_eq_some_iff.mp hsucceed
  obtain ⟨-, rfl⟩ := Prod.mk.inj heq
  refine h.write hvalid hwrite (fun db _ => ?_) (by simp [trail_append, Trail.add])
  simp [snapshot_deleteTools, trail_append, Trail.add]

theorem Recorded.insertTools {rows : List McpServerTool} {tools : List Json} {w w' : World}
    {log : List Entry} {reply : Unit} (h : Recorded t id old (w, log))
    (hvalid : w.invalid (t, .runtime) = false) (hunsaved : (trail id log).unsaved = some [])
    (hrows : toolRows id (trail id log).tools = some rows)
    (hsucceed : succeed t tools w (.insertTools .runtime rows) = some (reply, w')) :
    Recorded t id old (w', log ++ [.inserted]) := by
  simp only [succeed] at hsucceed
  split at hsucceed
  · obtain ⟨mid, hwrite, heq⟩ := Option.map_eq_some_iff.mp hsucceed
    obtain ⟨-, rfl⟩ := Prod.mk.inj heq
    refine h.write hvalid hwrite (fun db hdb => ?_) (by simp [trail_append, Trail.add])
    rw [hunsaved] at hdb
    simp [snapshot_insertTools db (toolRows_serverId hrows), hdb, trail_append, Trail.add, hrows]
  · simp at hsucceed

theorem Recorded.commit {w : World} {log : List Entry} (h : Recorded t id old (w, log))
    (hvalid : w.invalid (t, .runtime) = false) :
    Recorded t id old ({ w with store := w.store.commit schema (t, .runtime) },
      log ++ [.committed]) := by
  have hsaved : (trail id (log ++ [.committed])).saved =
      (trail id log).unsaved.or (trail id log).saved := by
    simp [trail_append, Trail.add]
  have hunsaved : (trail id (log ++ [.committed])).unsaved = none := by
    simp [trail_append, Trail.add]
  refine ⟨?_, fun _ => ?_, fun hinvalid => ?_⟩
  · rw [hsaved]
    exact h.sees hvalid
  · rw [hunsaved, hsaved, Option.none_or]
    simpa [World.view, Store.view, Store.commit] using h.sees hvalid
  · cases hvalid.symm.trans hinvalid

/-- A rollback leaves the session with what is committed. -/
theorem Recorded.close {w : World} {log : List Entry} (h : Recorded t id old (w, log)) :
    Recorded t id old ({ w with
      store := w.store.rollback (t, .runtime)
      loaded := Function.update w.loaded (t, .runtime) []
      invalid := Function.update w.invalid (t, .runtime) false }, log ++ [.closed]) := by
  have hsaved : (trail id (log ++ [.closed])).saved = (trail id log).saved := by
    simp [trail_append, Trail.add]
  have hunsaved : (trail id (log ++ [.closed])).unsaved = none := by
    simp [trail_append, Trail.add]
  refine ⟨?_, fun _ => ?_, fun _ => by simp [Store.rollback]⟩
  · rw [hsaved]
    exact h.committed
  · rw [hunsaved, hsaved, Option.none_or]
    simpa [World.view, Store.view, Store.rollback] using h.committed

theorem Recorded.poison {w : World} {log : List Entry} (h : Recorded t id old (w, log)) :
    Recorded t id old (w.poison (t, .runtime), log) := by
  refine ⟨h.committed, fun hvalid => ?_, fun _ => ?_⟩
  · simp [World.poison] at hvalid
  · simp [World.poison, Store.rollback]

/-- Every operation of a call keeps the record true. -/
theorem Recorded.keeps {op : Op} {choice : Choice} {r : Except Exn (Reply op)}
    {s s' : World × List Entry} (h : Recorded t id old s) (hpre : CallPre id op s)
    (hstep : recording exec entries t op choice s = some (r, s')) : Recorded t id old s' := by
  obtain ⟨w, log⟩ := s
  obtain ⟨w', log'⟩ := s'
  obtain ⟨hexec, hlog⟩ := recording_eq_some hstep
  change exec t op choice w = some (r, w') at hexec
  obtain rfl : log' = log ++ entries t op r w := hlog
  cases choice with
  | fail e poisons =>
      obtain ⟨-, rfl, rfl | ⟨conn, hconn, rfl⟩⟩ := exec_fail hexec
      · rw [entries_error, List.append_nil]
        cases op <;> exact h.congr rfl rfl rfl rfl
      · rw [entries_error, List.append_nil]
        obtain rfl : conn = .runtime := by
          cases op <;> simp_all [CallPre, sessionOf]
        exact h.poison
  | succeed tools =>
      have hvalid : ∀ conn, sessionOf op = some conn → conn = .runtime →
          w.invalid (t, .runtime) = false := by
        rintro conn hconn rfl
        simpa [rejected, hconn] using not_rejected hexec
      obtain ⟨reply, rfl, hsucceed⟩ := exec_succeed hexec
      cases op with
      | insertServer conn values => exact hpre.elim
      | deleteServer conn id' => exact hpre.elim
      | updateServer conn id' patch =>
          have hconn : conn = .runtime := hpre conn (.inl rfl)
          simpa [entries] using h.updateServer hconn (hvalid conn rfl hconn) hsucceed
      | deleteTools conn id' =>
          obtain ⟨rfl, rfl⟩ := hpre
          exact h.deleteTools (hvalid _ rfl rfl) hsucceed
      | insertTools conn rows =>
          obtain ⟨rfl, hunsaved, hrows⟩ := hpre
          exact h.insertTools (hvalid _ rfl rfl) hunsaved hrows hsucceed
      | commit conn =>
          obtain rfl : conn = .runtime := hpre conn (.inl rfl)
          obtain ⟨-, rfl⟩ := Prod.mk.inj (Option.some.inj hsucceed)
          exact h.commit (hvalid _ rfl rfl)
      | close conn =>
          obtain rfl : conn = .runtime := hpre conn (.inr rfl)
          obtain ⟨-, rfl⟩ := Prod.mk.inj (Option.some.inj hsucceed)
          exact h.close
      | probeStart server =>
          obtain ⟨hstore, hinvalid⟩ := succeed_store hsucceed trivial
          obtain ⟨handle, found⟩ := reply
          exact h.congr hstore hinvalid (by simp [entries, trail_append, Trail.add])
            (by simp [entries, trail_append, Trail.add])
      | probeListTools handle =>
          obtain ⟨hstore, hinvalid⟩ := succeed_store hsucceed trivial
          exact h.congr hstore hinvalid (by simp [entries, trail_append, Trail.add])
            (by simp [entries, trail_append, Trail.add])
      | _ =>
          obtain ⟨hstore, hinvalid⟩ := succeed_store hsucceed trivial
          exact h.congr hstore hinvalid (by simp [entries]) (by simp [entries])

end Snapshots

section Calls

variable {cfg : Settings} {t : TaskId} {id : ServerId} {old : List McpServerTool} {α : Type}

/-- The call as the only task. -/
def callProtocol (t : TaskId) (id : ServerId) (old : List McpServerTool) :
    Protocol (recording exec entries) unrestricted :=
  alone t (Recorded t id old) (CallPre id) fun h hpre hstep => h.keeps hpre hstep

/-- The probe has returned the tools. -/
def Probed (id : ServerId) (tools : List Json) (s : World × List Entry) : Prop :=
  (trail id s.2).tools = tools

/-- From a state with `A`, the program awaits only what a call may. -/
def Works (t : TaskId) (id : ServerId) (old : List McpServerTool) (A : World × List Entry → Prop)
    (p : Program α) : Prop :=
  Triple (callProtocol t id old) t A p (fun _ _ => True) fun _ _ => True

/-- The operations that a call may await in any state. -/
def Plain (id : ServerId) (op : Op) : Prop :=
  ∀ s, CallPre id op s

theorem stable (A : World × List Entry → Prop) : Stable (callProtocol t id old) t A :=
  alone_stable A

theorem works_of_uses {A : World × List Entry → Prop} {p : Program α} (hp : Uses (Plain id) p) :
    Works t id old A p :=
  Triple.weaken
    (Triple.of_uses (A := fun _ => True) (stable _) (fun _ s hop _ _ => ⟨rfl, hop s⟩)
      (fun _ _ _ _ _ _ _ _ _ _ => trivial) hp)
    (fun _ _ _ => trivial) (fun _ _ _ _ => trivial) fun _ _ _ _ => trivial

theorem Works.bind {β : Type} {A : World × List Entry → Prop} {p : Program α}
    {f : α → Program β} (hp : Uses (Plain id) p) (hf : ∀ a, Works t id old (fun _ => True) (f a)) :
    Works t id old A (p.bind f) :=
  Triple.bind (works_of_uses hp) hf

theorem plain_runtime {op : Op} (hop : ∀ s, CallPre id op s = ∀ conn,
    sessionOf op = some conn ∨ op = .close conn → conn = .runtime)
    (hconn : ∀ conn, sessionOf op = some conn ∨ op = .close conn → conn = .runtime) :
    Plain id op :=
  fun s => (hop s).mpr hconn

theorem plain_select (id' : ServerId) : Plain id (.selectServer .runtime id') :=
  plain_runtime (fun _ => rfl) (by simp [sessionOf])

theorem plain_update (id' : ServerId) (patch : McpServerPatch) :
    Plain id (.updateServer .runtime id' patch) :=
  plain_runtime (fun _ => rfl) (by simp [sessionOf])

theorem plain_commit : Plain id (.commit .runtime) :=
  plain_runtime (fun _ => rfl) (by simp [sessionOf])

theorem plain_close : Plain id (.close .runtime) :=
  plain_runtime (fun _ => rfl) (by simp [sessionOf])

theorem plain_handleOf (id' : ServerId) : Plain id (.handleOf id') :=
  plain_runtime (fun _ => rfl) (by simp [sessionOf])

theorem plain_probeStop (handle : Handle) : Plain id (.probeStop handle) :=
  plain_runtime (fun _ => rfl) (by simp [sessionOf])

theorem uses_status {id' : ServerId} {status : McpServerRuntimeStatus}
    {lastError : Option String} :
    Uses (Plain id) (updateRuntimeStatus .runtime id' status lastError) :=
  uses_updateRuntimeStatus (plain_select id') (plain_update id' _)

theorem uses_answer : Uses (Plain id) (response id) :=
  uses_response (plain_select id) (plain_runtime (fun _ => rfl) (by simp [sessionOf]))

theorem uses_record (server : McpServer) (e : Exn) :
    Uses (Plain id) (recordFailure (α := α) cfg server e) :=
  uses_recordFailure cfg e (plain_select _) (plain_update _) plain_commit

/-- What the probe returns is on record. -/
theorem triple_probe {op : Op} {found : Reply op → List Json}
    (hop : Plain id op) (hentry : ∀ a w, entries t op (.ok a) w = [.probed (found a)]) :
    Triple (callProtocol t id old) t (fun _ => True) (runOperation cfg op)
      (fun a => Probed id (found a)) fun _ _ => True := by
  have hawait : Triple (callProtocol t id old) t (fun _ => True) (await op)
      (fun a => Probed id (found a)) fun _ _ => True := by
    refine Triple.perform (stable _) (fun _ => stable _) (fun _ => stable _)
      (fun s _ _ => ⟨rfl, hop s⟩) ?_
    intro s choice r s' _ _ _ _ hstep
    obtain ⟨-, hlog⟩ := recording_eq_some hstep
    cases r with
    | error e => trivial
    | ok a =>
        change (trail id s'.2).tools = found a
        rw [hlog, trail_append, hentry]
        rfl
  unfold runOperation
  split
  · exact hawait
  · refine Triple.tryCatch hawait fun e => ?_
    cases e <;> exact Triple.raise (stable _) fun _ _ h => h

theorem triple_probeStart (server : McpServer) :
    Triple (callProtocol t id old) t (fun _ => True) (runOperation cfg (.probeStart server))
      (fun a => Probed id a.2) fun _ _ => True :=
  triple_probe (plain_runtime (fun _ => rfl) (by simp [sessionOf])) fun _ _ => rfl

theorem triple_probeListTools (handle : Handle) :
    Triple (callProtocol t id old) t (fun _ => True) (runOperation cfg (.probeListTools handle))
      (fun a => Probed id a) fun _ _ => True :=
  triple_probe (plain_runtime (fun _ => rfl) (by simp [sessionOf])) fun _ _ => rfl

/-- The old tools are deleted before the names of the new ones are looked at. -/
theorem works_replaceTools (tools : List Json) :
    Works t id old (Probed id tools) (replaceTools .runtime id tools) := by
  have hdelete : Triple (callProtocol t id old) t (Probed id tools) (await (.deleteTools .runtime id))
      (fun _ s => Probed id tools s ∧ (trail id s.2).unsaved = some []) fun _ _ => True := by
    refine Triple.perform (stable _) (fun _ => stable _) (fun _ => stable _)
      (fun s _ _ => ⟨rfl, rfl, rfl⟩) ?_
    intro s choice r s' _ hprobed _ _ hstep
    obtain ⟨-, hlog⟩ := recording_eq_some hstep
    cases r with
    | error e => trivial
    | ok a =>
        change (trail id s'.2).tools = tools ∧ (trail id s'.2).unsaved = some []
        rw [hlog, trail_append]
        exact ⟨hprobed, rfl⟩
  refine Triple.bind hdelete fun _ => ?_
  change Triple _ _ _ ((toolModels id tools).bind _) _ _
  rw [toolModels_eq]
  cases hrows : toolRows id tools with
  | none => exact Triple.raise (stable _) fun _ _ _ => trivial
  | some rows =>
      refine Triple.perform (stable _) (fun _ => stable _) (fun _ => stable _) ?_ ?_
      · rintro s - ⟨hprobed, hunsaved⟩
        have htools : (trail id s.2).tools = tools := hprobed
        exact ⟨rfl, rfl, hunsaved, by rw [htools, hrows]⟩
      · rintro s choice (e | a) s' - - - - -
        · trivial
        · trivial

theorem Works.exceptException {A : World × List Entry → Prop} {p : Program α}
    {handler : Exn → Program α} (hp : Works t id old A p)
    (hhandler : ∀ e, Uses (Plain id) (handler e)) :
    Works t id old A (exceptException p handler) := by
  refine Triple.tryCatch hp fun e => ?_
  split
  · exact works_of_uses (hhandler e)
  · exact works_of_uses trivial

theorem Works.ensuring {A : World × List Entry → Prop} {p : Program α} {cleanup : Program Unit}
    (hp : Works t id old A p) (hcleanup : Uses (Plain id) cleanup) :
    Works t id old A (p.ensuring cleanup) :=
  Triple.ensuring (fun _ => stable _) (fun _ => stable _) hp (fun _ => works_of_uses hcleanup)
    fun _ => works_of_uses hcleanup

/-- The probe is started, or its failure is recorded. -/
theorem triple_tryProbe {op : Op} {Q : Reply op → World × List Entry → Prop} (server : McpServer)
    (hprobe : Triple (callProtocol t id old) t (fun _ => True) (runOperation cfg op) Q
      fun _ _ => True) :
    Triple (callProtocol t id old) t (fun _ => True)
      (McpRuntime.exceptException (runOperation cfg op) (recordFailure cfg server)) Q
      fun _ _ => True := by
  refine Triple.tryCatch hprobe fun e => ?_
  split
  · refine Triple.weaken (Triple.bind (works_of_uses uses_status) fun _ =>
      Triple.bind (works_of_uses (uses_await plain_commit)) fun _ => ?_)
      (fun _ _ h => h) (fun _ _ _ h => h) fun _ _ _ h => h
    exact Triple.raise (stable _) fun _ _ _ => trivial
  · exact Triple.raise (stable _) fun _ _ _ => trivial

theorem works_startLocked : Works t id old (fun _ => True) (startLocked cfg id) := by
  refine Works.ensuring ?_ (uses_await plain_close)
  refine Works.bind (uses_requireServer (plain_select id)) fun server => ?_
  refine Works.bind (uses_requireSupportedTransport server) fun _ => ?_
  refine Works.bind (uses_updateServer (plain_select id) (plain_update id _)) fun _ => ?_
  refine Works.bind (uses_await (plain_handleOf id)) fun found => ?_
  have hcommit : Uses (Plain id) (await (.commit .runtime) >>= fun _ => response id) :=
    Uses.bind (uses_await plain_commit) fun _ => uses_answer
  cases found with
  | some handle =>
      exact works_of_uses (Uses.bind uses_status fun _ => hcommit)
  | none =>
      refine Works.bind uses_status fun _ => ?_
      refine Triple.bind (triple_tryProbe server (triple_probeStart server)) ?_
      rintro ⟨handle, tools⟩
      refine Triple.bind (B := fun _ _ => True) (Works.exceptException ?_ fun e => ?_) fun _ => ?_
      · exact Triple.bind (works_replaceTools tools) fun _ =>
          works_of_uses (Uses.bind uses_status fun _ => trivial)
      · exact Uses.bind (uses_runOperation cfg (plain_probeStop handle)) fun _ =>
          uses_record server e
      · refine works_of_uses (Uses.bind (uses_await ?_) fun _ => hcommit)
        exact plain_runtime (fun _ => rfl) (by simp [sessionOf])

theorem works_storeCheck (status : McpServerRuntimeStatus) (tools : List Json) :
    Works t id old (Probed id tools) (storeCheck id status tools) :=
  Triple.bind (works_replaceTools tools) fun _ =>
    works_of_uses (Uses.bind uses_status fun _ => uses_await plain_commit)

theorem works_checkLocked : Works t id old (fun _ => True) (checkLocked cfg id) := by
  refine Works.ensuring ?_ (uses_await plain_close)
  refine Works.bind (uses_requireServer (plain_select id)) fun server => ?_
  refine Works.bind (uses_requireSupportedTransport server) fun _ => ?_
  refine Works.bind (uses_await (plain_handleOf id)) fun found => ?_
  cases found with
  | some handle =>
      refine Triple.bind (B := fun _ _ => True) (Works.exceptException ?_ (uses_record server))
        fun _ => works_of_uses uses_answer
      exact Triple.bind (triple_probeListTools handle) fun tools => works_storeCheck .running tools
  | none =>
      refine Triple.bind (triple_tryProbe server (triple_probeStart server)) ?_
      rintro ⟨temporary, tools⟩
      refine Triple.bind (B := fun _ _ => True) (Works.ensuring ?_
        (uses_runOperation cfg (plain_probeStop temporary))) fun _ => works_of_uses uses_answer
      exact Works.exceptException (works_storeCheck .stopped tools) (uses_record server)

theorem Works.withLock {p : Program α} (hp : Works t id old (fun _ => True) p) :
    Works t id old (fun _ => True) (withLock id p) := by
  have hrelease : Works t id old (fun _ => True) (p.ensuring (await (.release id))) :=
    Works.ensuring hp (uses_await (plain_runtime (fun _ => rfl) (by simp [sessionOf])))
  refine Works.bind (uses_await (plain_runtime (fun _ => rfl) (by simp [sessionOf])))
    fun taken => ?_
  cases taken with
  | true => exact hrelease
  | false =>
      refine Works.bind (uses_await (plain_runtime (fun _ => rfl) (by simp [sessionOf])))
        fun _ => hrelease

theorem works_call (call : Call) : Works t id old (fun _ => True) (call.program cfg id) := by
  cases call with
  | start => exact Works.bind (uses_requireRuntimeEnabled cfg) fun _ => works_startLocked.withLock
  | check => exact Works.bind (uses_requireRuntimeEnabled cfg) fun _ => works_checkLocked.withLock

end Calls

/-- The tools of the server that are committed after the call are those before it. -/
def SnapshotKept (id : ServerId) (w w' : World) : Prop :=
  (snapshot id w'.store.committed).Perm (snapshot id w.store.committed)

/-- What the call committed in the place of the snapshot, if anything, is the snapshot. -/
def SavesNothingElse (id : ServerId) (w : World) (log : List Entry) : Prop :=
  ∀ rows, (trail id log).saved = some rows → rows.Perm (snapshot id w.store.committed)

/-- A server with one stored tool, before a call. -/
def probedWorld : World :=
  { McpFailures.stoppedWorld with
    store :=
      { committed :=
          { servers := [McpFailures.stoppedServer]
            tools := [{ serverId := 0, name := "read", description := none, inputSchema := .obj [] }] }
        pending := fun _ => []
        owner := fun _ => none } }

def plainSettings : Settings :=
  { singleInstanceConfirmed := true
    operationTimeoutSeconds := some 10
    sanitizeMcpError := fun _ _ => "MCP operation failed." }

/-- What the environment answers when the probe returns the tools. -/
def answers (tools : List Json) (op : Op) (s : World × List Entry) : Choice :=
  (McpFailures.probeReturns tools).choice 0 op s.1

/-- The environment when the probe raises. -/
def unreachable (op : Op) (_ : World × List Entry) : Choice :=
  match op with
  | .probeStart _ => .fail (.timeout "") false
  | _ => .succeed []

end ChangeQuality.McpSnapshots
