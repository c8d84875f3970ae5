import ChangeQuality.McpRedaction
import ChangeQuality.McpSystem
import ChangeQuality.Solo
import Mathlib.Data.List.Nodup

/-!
Failures of a start or a check: what is committed for the server when the call raises.
-/

namespace ChangeQuality.McpFailures

open ChangeQuality.Values
open ChangeQuality.McpServers
open ChangeQuality.McpRuntime
open ChangeQuality.McpRedaction
open ChangeQuality.McpSystem
open ChangeQuality.ReadCommitted
open ChangeQuality.Solo
open ChangeQuality.Coroutine.Program (ensuring)

/-- What fails during a call, all of it exceptions that `except Exception` catches but for what the
probe raises. `flush` is what the database raises when it refuses to flush the tools, and `unusable`
what it raises for a statement on a session that needs a rollback. -/
structure Faults where
  probe : Except Exn (List Json)
  flush : Option Exn
  cleanUp : Option Exn
  unusable : Exn
  flush_isException : ∀ e ∈ flush, e.isException = true
  cleanUp_isException : ∀ e ∈ cleanUp, e.isException = true
  unusable_isException : unusable.isException = true

def toolKey (tool : McpServerTool) : ServerId × String :=
  (tool.serverId, tool.name)

/-- The unique index of `mcp_server_tools` admits the rows. -/
def admits (w : World) (x : Txn) (rows : List McpServerTool) : Bool :=
  decide (((w.view x).tools ++ rows).map toolKey).Nodup

/-- What the environment answers: the database is healthy apart from the flush of the tools. -/
def Faults.choice (f : Faults) (t : TaskId) (op : Op) (w : World) : Choice :=
  if rejected t op w then .fail f.unusable false
  else
    match op with
    | .probeStart _ | .probeListTools _ =>
        match f.probe with
        | .ok tools => .succeed tools
        | .error e => .fail e false
    | .probeStop _ =>
        match f.cleanUp with
        | none => .succeed []
        | some e => .fail e false
    | .insertTools conn rows =>
        match f.flush with
        | some e => .fail e true
        | none => if admits w (t, conn) rows then .succeed [] else .fail .integrityError true
    | _ => .succeed []

/-- The settings of a manager that redacts errors. -/
def settings (singleInstanceConfirmed : Bool) (operationTimeoutSeconds : Option Nat)
    (isWord : Char → Bool) (str : Exn → String) : Settings :=
  { singleInstanceConfirmed
    operationTimeoutSeconds
    sanitizeMcpError := sanitizeMcpError isWord str }

inductive Call where
  | start
  | check
  deriving DecidableEq

/-- `_start_locked` and `_check_locked`. -/
def Call.program (cfg : Settings) (id : ServerId) : Call → Program McpLifecycleResponse
  | .start => startLocked cfg id
  | .check => checkLocked cfg id

/-- What the task of the call ends with, and in which state. -/
abbrev Ends {α : Type} (f : Faults) (t : TaskId) (p : Program α) (w : World)
    (r : Except Exn α) (w' : World) : Prop :=
  Yields exec (f.choice t) t p w r w'

section Sessions

variable {f : Faults} {t : TaskId} {id : ServerId} {db : Db} {handles : List (ServerId × Handle)}
  {row : McpServer} {w w' : World}

/-- The database session of a call: what is committed, and the row as the session sees it. -/
structure Session (t : TaskId) (id : ServerId) (db : Db) (handles : List (ServerId × Handle))
    (row : McpServer) (w : World) : Prop where
  valid : w.invalid (t, .runtime) = false
  sees : (w.view (t, .runtime)).server id = some row
  cached : w.instance? (t, .runtime) id = none ∨ w.instance? (t, .runtime) id = some row
  free : w.store.owner id = none ∨ w.store.owner id = some (t, .runtime)
  unique : ((w.view (t, .runtime)).tools.map toolKey).Nodup
  committed : w.store.committed = db
  handles : w.handles = handles

/-- A session whose flush failed: nothing was committed, and it rejects every statement. -/
structure Unusable (t : TaskId) (db : Db) (handles : List (ServerId × Handle)) (w : World) :
    Prop where
  invalid : w.invalid (t, .runtime) = true
  committed : w.store.committed = db
  handles : w.handles = handles

theorem server_id {db : Db} (h : db.server id = some row) : row.id = id := by
  simpa using List.find?_some h

theorem apply_id (patch : McpServerPatch) (row : McpServer) : (patch.apply row).id = row.id :=
  rfl

/-- A flush sends what differs, which makes the row what the patch makes it. -/
theorem net_apply (patch : McpServerPatch) (row : McpServer) :
    (patch.net row).apply row = patch.apply row := by
  have hget : ∀ {α : Type} [DecidableEq α] (new : Option α) (old : α),
      (new.filter (· ≠ old)).getD old = new.getD old := by
    intro α _ new old
    cases new with
    | none => rfl
    | some a => by_cases h : a = old <;> simp [Option.filter, h]
  simp only [McpServerPatch.apply, McpServerPatch.net, hget]

theorem server_update {db : Db} {patch : McpServerPatch} (h : db.server id = some row) :
    (schema.apply (.updateServer id patch) db).server id = some (patch.apply row) := by
  have hid := server_id h
  simp only [Db.server, schema, List.find?_map] at h ⊢
  have hsame : ((fun row : McpServer => decide (row.id = id)) ∘ fun row : McpServer =>
      if row.id = id then patch.apply row else row) = fun row => decide (row.id = id) := by
    funext other
    by_cases hother : other.id = id <;> simp [hother, apply_id]
  rw [hsame, h, Option.map_some, if_pos hid]

theorem instance_load (w : World) (x : Txn) (server : McpServer) :
    (w.load x server).instance? x server.id = some server := by
  simp [World.instance?, World.load]

theorem ends_await {op : Op} (tools : List Json) {reply : McpServers.Reply op}
    (hrejected : rejected t op w = false) (hchoice : f.choice t op w = .succeed tools)
    (h : succeed t tools w op = some (reply, w')) : Ends f t (await op) w (.ok reply) w' := by
  refine Yields.perform ?_
  rw [hchoice]
  simp [exec, hrejected, h]

theorem ends_await_fail {op : Op} {e : Exn} (hchoice : f.choice t op w = .fail e false)
    (hsync : synchronous op = false) : Ends f t (await op) w (.error e) (abandon t op w) := by
  refine Yields.perform ?_
  rw [hchoice]
  simp [exec, hsync]

theorem Session.rejected (h : Session t id db handles row w) {op : Op}
    (hop : sessionOf op = some .runtime ∨ sessionOf op = none) : rejected t op w = false := by
  rcases hop with hop | hop <;> simp [McpSystem.rejected, hop, h.valid]

/-- The session with its instance of the row loaded. -/
def Session.Loaded (t : TaskId) (id : ServerId) (row : McpServer) (w : World) : Prop :=
  w.instance? (t, .runtime) id = some row

theorem Session.load (h : Session t id db handles row w) :
    Session t id db handles row (w.load (t, .runtime) row) := by
  have hid := server_id h.sees
  exact ⟨h.valid, h.sees, .inr (hid ▸ instance_load w _ row), h.free, h.unique, h.committed,
    h.handles⟩

theorem ends_requireServer (h : Session t id db handles row w) :
    ∃ w', Ends f t (requireServer .runtime id) w (.ok row) w' ∧
      Session t id db handles row w' ∧ Session.Loaded t id row w' := by
  have hrejected : McpSystem.rejected t (.selectServer .runtime id) w = false :=
    h.rejected (.inl rfl)
  have hchoice : f.choice t (.selectServer .runtime id) w = .succeed [] := by
    simp [Faults.choice, hrejected]
  rcases h.cached with hnone | hsome
  · have hsucceed : succeed t [] w (.selectServer .runtime id) =
        some (some row, w.load (t, .runtime) row) := by
      simp [succeed, h.sees, hnone]
    exact ⟨_, (ends_await _ hrejected hchoice hsucceed).bind .done, h.load,
      server_id h.sees ▸ instance_load w _ row⟩
  · have hsucceed : succeed t [] w (.selectServer .runtime id) = some (some row, w) := by
      simp [succeed, h.sees, hsome]
    exact ⟨w, (ends_await _ hrejected hchoice hsucceed).bind .done, h, hsome⟩

/-- A flush of the row, whose instance is loaded. -/
theorem ends_flushServer {patch : McpServerPatch} (h : Session t id db handles row w)
    (hloaded : Session.Loaded t id row w) (hname : patch.name = none) :
    ∃ w', Ends f t (await (.updateServer .runtime id patch)) w (.ok (patch.apply row)) w' ∧
      Session t id db handles (patch.apply row) w' := by
  have hid := server_id h.sees
  have hrejected : McpSystem.rejected t (.updateServer .runtime id patch) w = false :=
    h.rejected (.inl rfl)
  have hchoice : f.choice t (.updateServer .runtime id patch) w = .succeed [] := by
    simp [Faults.choice, hrejected]
  have hnetname : (patch.net row).name = none := by simp [McpServerPatch.net, hname]
  by_cases hnet : patch.net row = {}
  · have hsame : patch.apply row = row := by
      rw [← net_apply, hnet]
      rfl
    refine ⟨w.load (t, .runtime) row, ends_await _ hrejected hchoice ?_, ?_⟩
    · simp [succeed, show w.instance? (t, .runtime) id = some row from hloaded, hnet, hsame]
    · rw [hsame]
      exact h.load
  · have hfree : ∀ k ∈ schema.rowsOf (.updateServer id (patch.net row)),
        w.store.owner k = none ∨ w.store.owner k = some (t, .runtime) := by
      simpa [schema] using h.free
    obtain ⟨store, hstore⟩ := Option.isSome_iff_exists.mp (Store.write_isSome _ hfree)
    have hview := Store.view_write hstore
    refine ⟨({ w with store } : World).load (t, .runtime) (patch.apply row),
      ends_await _ hrejected hchoice ?_, ?_⟩
    · simp [succeed, show w.instance? (t, .runtime) id = some row from hloaded, hnet, hnetname,
        World.write, hstore]
    · refine ⟨h.valid, ?_, .inr ?_, Store.owner_write hstore h.free, ?_, ?_, h.handles⟩
      · change (store.view schema (t, .runtime)).server id = some (patch.apply row)
        rw [hview, ← net_apply]
        exact server_update h.sees
      · exact hid ▸ instance_load _ _ _
      · change ((store.view schema (t, .runtime)).tools.map toolKey).Nodup
        rw [hview]
        exact h.unique
      · exact (Store.committed_write hstore).trans h.committed

/-- `require_server` and a flush of the row. -/
theorem ends_updateServer (patch : McpServerPatch) (h : Session t id db handles row w)
    (hname : patch.name = none) :
    ∃ w', Ends f t (McpRuntime.updateServer .runtime id patch) w (.ok (patch.apply row)) w' ∧
      Session t id db handles (patch.apply row) w' := by
  obtain ⟨w₁, hrequire, h₁, hloaded⟩ := ends_requireServer (f := f) h
  obtain ⟨w₂, hflush, h₂⟩ := ends_flushServer (f := f) h₁ hloaded hname
  exact ⟨w₂, hrequire.bind hflush, h₂⟩

theorem ends_commit (h : Session t id db handles row w) :
    ∃ w', Ends f t (await (.commit .runtime)) w (.ok ()) w' ∧
      ∃ db', db'.server id = some row ∧ Session t id db' handles row w' := by
  have hrejected : McpSystem.rejected t (.commit .runtime) w = false := h.rejected (.inl rfl)
  have hchoice : f.choice t (.commit .runtime) w = .succeed [] := by
    simp [Faults.choice, hrejected]
  refine ⟨{ w with store := w.store.commit schema (t, .runtime) },
    ends_await _ hrejected hchoice rfl, w.view (t, .runtime), h.sees, h.valid, ?_, h.cached, ?_, ?_,
    rfl, h.handles⟩
  · simpa [World.view, Store.view, Store.commit] using h.sees
  · change w.store.release (t, .runtime) id = none ∨ _
    rcases h.free with howner | howner <;> simp [Store.release, howner]
  · simpa [World.view, Store.view, Store.commit] using h.unique

/-- What the tools of a probe come to when they are stored. -/
inductive Storing where
  | stored
  | unnamed
  | refused
  deriving DecidableEq

/-- `_tool_name` of every tool. -/
def toolNames : List Json → Option (List String)
  | [] => some []
  | tool :: tools => do
      let name ← (tool.get "name").asStr?
      let names ← toolNames tools
      some (name :: names)

def Faults.storing (f : Faults) (tools : List Json) : Storing :=
  match toolNames tools with
  | none => .unnamed
  | some names => if f.flush = none ∧ names.Nodup then .stored else .refused

theorem toolModel_named {tool : Json} {name : String} (id : ServerId)
    (hname : (tool.get "name").asStr? = some name) :
    ∃ row, toolModel id tool = .done row ∧ toolKey row = (id, name) := by
  refine ⟨⟨id, name, (tool.get "description").asStr?,
    (tool.get "input_schema").asObj?.getD (.obj [])⟩, ?_, rfl⟩
  simp only [toolModel, toolName, hname]
  rfl

theorem toolModel_unnamed {tool : Json} (id : ServerId) (hname : (tool.get "name").asStr? = none) :
    toolModel id tool = .raise (.valueError "MCP tool is missing a valid name.") := by
  simp only [toolModel, toolName, hname]
  rfl

/-- The rows are built from the tools in order, or a name is missing. -/
theorem toolModels_eq (id : ServerId) (tools : List Json) :
    (∃ names rows, toolNames tools = some names ∧ toolModels id tools = .done rows ∧
        rows.map toolKey = names.map (id, ·)) ∨
      toolNames tools = none ∧
        toolModels id tools = .raise (.valueError "MCP tool is missing a valid name.") := by
  induction tools with
  | nil => exact .inl ⟨[], [], rfl, rfl, rfl⟩
  | cons tool tools ih =>
      cases hname : (tool.get "name").asStr? with
      | none =>
          refine .inr ⟨by simp [toolNames, hname], ?_⟩
          rw [toolModels, toolModel_unnamed id hname]
          rfl
      | some name =>
          obtain ⟨row, hrow, hkey⟩ := toolModel_named id hname
          rcases ih with ⟨names, rows, hnames, hrows, hkeys⟩ | ⟨hnames, hrows⟩
          · refine .inl ⟨name :: names, row :: rows, by simp [toolNames, hname, hnames], ?_, ?_⟩
            · rw [toolModels, hrow, hrows]
              rfl
            · rw [List.map_cons, List.map_cons, hkey, hkeys]
          · refine .inr ⟨by simp [toolNames, hname, hnames], ?_⟩
            rw [toolModels, hrow, hrows]
            rfl

/-- The tools of the server are deleted first. -/
theorem ends_deleteTools (h : Session t id db handles row w) :
    ∃ w', Ends f t (await (.deleteTools .runtime id)) w (.ok ()) w' ∧
      Session t id db handles row w' ∧
      ∀ tool ∈ (w'.view (t, .runtime)).tools, tool.serverId ≠ id := by
  have hrejected : McpSystem.rejected t (.deleteTools .runtime id) w = false := h.rejected (.inl rfl)
  have hchoice : f.choice t (.deleteTools .runtime id) w = .succeed [] := by
    simp [Faults.choice, hrejected]
  obtain ⟨store, hstore⟩ := Option.isSome_iff_exists.mp
    (Store.write_isSome (S := schema) (s := w.store) (t := (t, .runtime)) (.deleteTools id)
      (by simp [schema]))
  have hview := Store.view_write hstore
  refine ⟨{ w with store }, ends_await _ hrejected hchoice (by simp [succeed, World.write, hstore]),
    ⟨h.valid, ?_, h.cached, Store.owner_write hstore h.free, ?_,
      (Store.committed_write hstore).trans h.committed, h.handles⟩, ?_⟩
  · change (store.view schema (t, .runtime)).server id = some row
    rw [hview]
    exact h.sees
  · change ((store.view schema (t, .runtime)).tools.map toolKey).Nodup
    rw [hview]
    exact h.unique.sublist (List.filter_sublist.map toolKey)
  · change ∀ tool ∈ (store.view schema (t, .runtime)).tools, tool.serverId ≠ id
    rw [hview]
    intro tool htool
    simpa [schema] using (List.mem_filter.mp htool).2

theorem nodup_toolKeys {old rows : List McpServerTool} {names : List String}
    (hold : (old.map toolKey).Nodup) (hother : ∀ tool ∈ old, tool.serverId ≠ id)
    (hkeys : rows.map toolKey = names.map (id, ·)) :
    ((old ++ rows).map toolKey).Nodup ↔ names.Nodup := by
  have hnames : (names.map (id, ·)).Nodup ↔ names.Nodup :=
    List.nodup_map_iff fun _ _ h => congrArg Prod.snd h
  rw [List.map_append, List.nodup_append, hkeys, hnames]
  constructor
  · exact fun h => h.2.1
  · refine fun h => ⟨hold, h, ?_⟩
    intro key hkey other hother' heq
    obtain ⟨tool, htool, rfl⟩ := List.mem_map.mp hkey
    obtain ⟨name, -, rfl⟩ := List.mem_map.mp hother'
    exact hother tool htool (congrArg Prod.fst heq)

/-- The rows of the tools are flushed. -/
theorem ends_insertTools {names : List String} {rows : List McpServerTool}
    (h : Session t id db handles row w)
    (hother : ∀ tool ∈ (w.view (t, .runtime)).tools, tool.serverId ≠ id)
    (hkeys : rows.map toolKey = names.map (id, ·)) (hflush : f.flush = none) (hnodup : names.Nodup) :
    ∃ w', Ends f t (await (.insertTools .runtime rows)) w (.ok ()) w' ∧
      Session t id db handles row w' := by
  have hrejected : McpSystem.rejected t (.insertTools .runtime rows) w = false := h.rejected (.inl rfl)
  have hkeysNodup := (nodup_toolKeys h.unique hother hkeys).mpr hnodup
  have hadmits : admits w (t, .runtime) rows = true := decide_eq_true hkeysNodup
  have hchoice : f.choice t (.insertTools .runtime rows) w = .succeed [] := by
    simp [Faults.choice, hrejected, hflush, hadmits]
  obtain ⟨store, hstore⟩ := Option.isSome_iff_exists.mp
    (Store.write_isSome (S := schema) (s := w.store) (t := (t, .runtime)) (.insertTools rows)
      (by simp [schema]))
  have hview := Store.view_write hstore
  have hsucceed : succeed t [] w (.insertTools .runtime rows) = some ((), { w with store }) := by
    simp only [succeed, World.write, hstore]
    exact if_pos hkeysNodup
  refine ⟨{ w with store }, ends_await _ hrejected hchoice hsucceed,
    h.valid, ?_, h.cached, Store.owner_write hstore h.free, ?_,
    (Store.committed_write hstore).trans h.committed, h.handles⟩
  · change (store.view schema (t, .runtime)).server id = some row
    rw [hview]
    exact h.sees
  · change ((store.view schema (t, .runtime)).tools.map toolKey).Nodup
    rw [hview]
    exact hkeysNodup

/-- The flush of the rows is refused: the session needs a rollback from here on. -/
theorem ends_insertTools_refused {names : List String} {rows : List McpServerTool}
    (h : Session t id db handles row w)
    (hother : ∀ tool ∈ (w.view (t, .runtime)).tools, tool.serverId ≠ id)
    (hkeys : rows.map toolKey = names.map (id, ·)) (hrefused : ¬(f.flush = none ∧ names.Nodup)) :
    ∃ e w', e.isException = true ∧ Ends f t (await (.insertTools .runtime rows)) w (.error e) w' ∧
      Unusable t db handles w' := by
  have hrejected : McpSystem.rejected t (.insertTools .runtime rows) w = false := h.rejected (.inl rfl)
  have hpoison : Unusable t db handles (w.poison (t, .runtime)) :=
    ⟨Function.update_self .., h.committed, h.handles⟩
  have hends : ∀ e, f.choice t (.insertTools .runtime rows) w = .fail e true →
      Ends f t (await (.insertTools .runtime rows)) w (.error e) (w.poison (t, .runtime)) := by
    intro e hchoice
    refine Yields.perform ?_
    rw [hchoice]
    rfl
  cases hflush : f.flush with
  | some e =>
      refine ⟨e, _, f.flush_isException e hflush, hends e ?_, hpoison⟩
      simp [Faults.choice, hrejected, hflush]
  | none =>
      have hadmits : admits w (t, .runtime) rows = false := by
        refine decide_eq_false fun hkeysNodup => hrefused ⟨hflush, ?_⟩
        exact (nodup_toolKeys h.unique hother hkeys).mp hkeysNodup
      refine ⟨.integrityError, _, rfl, hends _ ?_, hpoison⟩
      simp [Faults.choice, hrejected, hflush, hadmits]

/-- What `replace_tools` ends with, by what the tools come to. -/
def Replaced (f : Faults) (t : TaskId) (id : ServerId) (db : Db) (handles : List (ServerId × Handle))
    (row : McpServer) (tools : List Json) (w : World) : Storing → Prop
  | .stored => ∃ w', Ends f t (replaceTools .runtime id tools) w (.ok ()) w' ∧
      Session t id db handles row w'
  | .unnamed => ∃ e w', e.isException = true ∧
      Ends f t (replaceTools .runtime id tools) w (.error e) w' ∧ Session t id db handles row w'
  | .refused => ∃ e w', e.isException = true ∧
      Ends f t (replaceTools .runtime id tools) w (.error e) w' ∧ Unusable t db handles w'

theorem ends_replaceTools (tools : List Json) (h : Session t id db handles row w) :
    Replaced f t id db handles row tools w (f.storing tools) := by
  obtain ⟨w₁, hdelete, h₁, hother⟩ := ends_deleteTools (f := f) h
  rcases toolModels_eq id tools with ⟨names, rows, hnames, hrows, hkeys⟩ | ⟨hnames, hrows⟩
  · have hrest {r : Except Exn Unit} {w' : World}
        (hinsert : Ends f t (await (.insertTools .runtime rows)) w₁ r w') :
        Ends f t (replaceTools .runtime id tools) w r w' := by
      refine hdelete.bind ?_
      change Ends f t ((toolModels id tools).bind _) w₁ r w'
      rw [hrows]
      exact hinsert
    by_cases hstored : f.flush = none ∧ names.Nodup
    · obtain ⟨w₂, hinsert, h₂⟩ := ends_insertTools h₁ hother hkeys hstored.1 hstored.2
      simp only [Faults.storing, hnames, if_pos hstored]
      exact ⟨w₂, hrest hinsert, h₂⟩
    · obtain ⟨e, w₂, he, hinsert, h₂⟩ := ends_insertTools_refused h₁ hother hkeys hstored
      simp only [Faults.storing, hnames, if_neg hstored]
      exact ⟨e, w₂, he, hrest hinsert, h₂⟩
  · simp only [Faults.storing, hnames]
    refine ⟨.valueError "MCP tool is missing a valid name.", w₁, rfl, hdelete.bind ?_, h₁⟩
    change Ends f t ((toolModels id tools).bind _) w₁ _ w₁
    rw [hrows]
    exact .raise

theorem ends_requireServer_unusable (id : ServerId) (h : Unusable t db handles w) :
    Ends f t (requireServer .runtime id) w (.error f.unusable) w := by
  have hrejected : McpSystem.rejected t (.selectServer .runtime id) w = true := h.invalid
  have hchoice : f.choice t (.selectServer .runtime id) w = .fail f.unusable false := by
    simp [Faults.choice, hrejected]
  exact (ends_await_fail hchoice rfl).bind_error

variable {cfg : Settings} {server : McpServer} {α : Type} {p : Program α} {e : Exn}

/-- The row of a server whose failure was recorded. -/
def failedRow (cfg : Settings) (e : Exn) (server row : McpServer) : McpServer :=
  { row with runtimeStatus := .error, lastError := some (cfg.sanitizeMcpError e server) }

theorem ends_recordFailure (cfg : Settings) (h : Session t id db handles row w)
    (hid : server.id = id) (e : Exn) :
    ∃ w', Ends f t (recordFailure cfg server e : Program α) w (.error e) w' ∧
      w'.store.committed.server id = some (failedRow cfg e server row) ∧ w'.handles = handles := by
  subst hid
  obtain ⟨w₁, hupdate, h₁⟩ := ends_updateServer (f := f)
    { runtimeStatus := some .error, lastError := some (some (cfg.sanitizeMcpError e server)) }
    h rfl
  obtain ⟨w₂, hcommit, db', hdb', h₂⟩ := ends_commit (f := f) h₁
  refine ⟨w₂, hupdate.bind (hcommit.bind .raise), ?_, h₂.handles⟩
  rw [h₂.committed]
  exact hdb'

/-- Recording a failure is a statement on the session, which does not take it any more. -/
theorem ends_recordFailure_unusable (h : Unusable t db handles w) :
    Ends f t (recordFailure cfg server e : Program α) w (.error f.unusable) w :=
  ends_requireServer_unusable server.id h |>.bind_error |>.bind_error

theorem ends_runOperation {op : Op} {reply : McpServers.Reply op}
    (h : Ends f t (await op) w (.ok reply) w') :
    Ends f t (runOperation cfg op) w (.ok reply) w' := by
  unfold runOperation
  cases cfg.operationTimeoutSeconds with
  | none => exact h
  | some seconds => exact h.tryCatch

theorem ends_runOperation_error (cfg : Settings) {op : Op} (h : Ends f t (await op) w (.error e) w') :
    ∃ e', e'.isException = e.isException ∧ Ends f t (runOperation cfg op) w (.error e') w' := by
  unfold runOperation
  cases cfg.operationTimeoutSeconds with
  | none => exact ⟨e, rfl, h⟩
  | some seconds =>
      cases e with
      | timeout message => exact ⟨.timeout "MCP operation timed out.", rfl, h.tryCatch_error .raise⟩
      | _ => exact ⟨_, rfl, h.tryCatch_error .raise⟩

theorem ends_except_error {handler : Exn → Program α} {r : Except Exn α} {w₁ : World}
    (hp : Ends f t p w (.error e) w₁) (he : e.isException = true)
    (hhandler : Ends f t (handler e) w₁ r w') : Ends f t (exceptException p handler) w r w' := by
  refine hp.tryCatch_error ?_
  rw [if_pos he]
  exact hhandler

theorem ends_except_pass {handler : Exn → Program α} (hp : Ends f t p w (.error e) w')
    (he : e.isException = false) : Ends f t (exceptException p handler) w (.error e) w' := by
  refine hp.tryCatch_error ?_
  rw [he]
  exact .raise

/-- The exit of the repository context leaves what is committed. -/
theorem ends_withRepository {r : Except Exn α} (hp : Ends f t p w r w') :
    ∃ w'', Ends f t (withRepository p) w r w'' ∧ w''.store.committed = w'.store.committed ∧
      w''.handles = w'.handles :=
  ⟨_, hp.ensuring (ends_await [] (by rfl) (by rfl) rfl), rfl, rfl⟩

theorem ends_handleOf (h : Session t id db handles row w) :
    Ends f t (await (.handleOf id)) w (.ok (handles.lookup id)) w :=
  ends_await [] rfl rfl (by rw [← h.handles]; rfl)

theorem ends_setHandle (handle : Handle) (h : Session t id db handles row w) :
    ∃ w', Ends f t (await (.setHandle id handle)) w (.ok ()) w' ∧
      Session t id db (handles.filter (·.1 ≠ id) ++ [(id, handle)]) row w' :=
  ⟨_, ends_await [] rfl rfl rfl, h.valid, h.sees, h.cached, h.free, h.unique, h.committed,
    by rw [← h.handles]⟩

theorem ends_response (h : Session t id db handles row w) :
    ∃ r w', Ends f t (response id) w (.ok r) w' ∧ w'.handles = handles ∧
      w'.store.committed = db := by
  obtain ⟨w₁, hrequire, h₁, -⟩ := ends_requireServer (f := f) h
  have hrejected : McpSystem.rejected t (.countTools .runtime id) w₁ = false := h₁.rejected (.inl rfl)
  have hchoice : f.choice t (.countTools .runtime id) w₁ = .succeed [] := by
    simp [Faults.choice, hrejected]
  exact ⟨_, w₁, hrequire.bind ((ends_await _ hrejected hchoice rfl).bind .done), h₁.handles,
    h₁.committed⟩

/-- What a part of a call comes to: no failure, a failure that is recorded, one that leaves the tables
as they were, or one that leaves the server as stopped. -/
inductive Outcome where
  | unharmed
  | recorded
  | lost
  | overwritten
  deriving DecidableEq

/-- A failure that is recorded for the server. -/
structure Shown (cfg : Settings) (call : Call) (server : McpServer) (db : Db) : Prop where
  row : ∃ row, db.server server.id = some row ∧ row.runtimeStatus = .error ∧
    (∃ exc, row.lastError = some (cfg.sanitizeMcpError exc server)) ∧
    (call = .start → row.desiredState = .running)

def Comes (f : Faults) (t : TaskId) (cfg : Settings) (call : Call) (server : McpServer) (db : Db)
    (handles : List (ServerId × Handle)) (p : Program α) (w : World) : Outcome → Prop
  | .unharmed => ∃ r w', Ends f t p w r w' ∧ ∀ e, r = .error e → e.isException = false
  | .recorded => ∃ e w', Ends f t p w (.error e) w' ∧ e.isException = true ∧
      Shown cfg call server w'.store.committed ∧ w'.handles = handles
  | .lost => ∃ e w', Ends f t p w (.error e) w' ∧ e.isException = true ∧
      w'.store.committed = db ∧ w'.handles = handles
  | .overwritten => ∃ e w', Ends f t p w (.error e) w' ∧ e.isException = true ∧
      ∃ row, w'.store.committed.server server.id = some row ∧ row.runtimeStatus = .stopped

/-- What comes of a part that is reached comes of the whole. -/
theorem Comes.after {β : Type} {call : Call} {server : McpServer} {k : β → Program α} {b : β}
    {w₁ : World} {o : Outcome} {p : Program β} (hp : Ends f t p w (.ok b) w₁)
    (h : Comes f t cfg call server db handles (k b) w₁ o) :
    Comes f t cfg call server db handles (p.bind k) w o := by
  cases o with
  | unharmed =>
      obtain ⟨r, w', hends, hr⟩ := h
      exact ⟨r, w', hp.bind hends, hr⟩
  | recorded =>
      obtain ⟨e, w', hends, hrest⟩ := h
      exact ⟨e, w', hp.bind hends, hrest⟩
  | lost =>
      obtain ⟨e, w', hends, hrest⟩ := h
      exact ⟨e, w', hp.bind hends, hrest⟩
  | overwritten =>
      obtain ⟨e, w', hends, hrest⟩ := h
      exact ⟨e, w', hp.bind hends, hrest⟩

/-- What comes of a call that runs its probe; `live` says that a check found a live handle. -/
def Faults.outcome (f : Faults) (live : Bool) (call : Call) : Outcome :=
  match f.probe with
  | .error e => if e.isException then .recorded else .unharmed
  | .ok tools =>
      match f.storing tools, call with
      | .stored, .start => .unharmed
      | .stored, .check => if live ∨ f.cleanUp = none then .unharmed else .overwritten
      | .unnamed, .start => if f.cleanUp = none then .recorded else .lost
      | .unnamed, .check => .recorded
      | .refused, _ => .lost

theorem ends_probeStart (cfg : Settings) (server : McpServer) {tools : List Json}
    (hprobe : f.probe = .ok tools)
    (h : Session t id db handles row w) :
    ∃ handle w', Ends f t (runOperation cfg (.probeStart server)) w (.ok (handle, tools)) w' ∧
      Session t id db handles row w' := by
  have hchoice : f.choice t (.probeStart server) w = .succeed tools := by
    simp [Faults.choice, McpSystem.rejected, sessionOf, hprobe]
  exact ⟨w.nextHandle, { w with nextHandle := w.nextHandle + 1 },
    ends_runOperation (ends_await _ rfl hchoice rfl),
    h.valid, h.sees, h.cached, h.free, h.unique, h.committed, h.handles⟩

theorem ends_probeStart_error (cfg : Settings) (server : McpServer) (hprobe : f.probe = .error e) :
    ∃ e', e'.isException = e.isException ∧
      Ends f t (runOperation cfg (.probeStart server)) w (.error e') w := by
  refine ends_runOperation_error cfg (ends_await_fail ?_ rfl)
  simp [Faults.choice, McpSystem.rejected, sessionOf, hprobe]

theorem ends_probeListTools (cfg : Settings) (handle : Handle) {tools : List Json}
    (hprobe : f.probe = .ok tools) :
    Ends f t (runOperation cfg (.probeListTools handle)) w (.ok tools) w := by
  refine ends_runOperation (ends_await tools rfl ?_ rfl)
  simp [Faults.choice, McpSystem.rejected, sessionOf, hprobe]

theorem ends_probeListTools_error (cfg : Settings) (handle : Handle) (hprobe : f.probe = .error e) :
    ∃ e', e'.isException = e.isException ∧
      Ends f t (runOperation cfg (.probeListTools handle)) w (.error e') w := by
  refine ends_runOperation_error cfg (ends_await_fail ?_ rfl)
  simp [Faults.choice, McpSystem.rejected, sessionOf, hprobe]

theorem ends_probeStop {handle : Handle} (hstop : f.cleanUp = none) :
    Ends f t (runOperation cfg (.probeStop handle)) w (.ok ()) w := by
  have hchoice : f.choice t (.probeStop handle) w = .succeed [] := by
    simp [Faults.choice, McpSystem.rejected, sessionOf, hstop]
  exact ends_runOperation (ends_await _ rfl hchoice rfl)

theorem ends_probeStop_error (cfg : Settings) (handle : Handle) (hstop : f.cleanUp = some e) :
    ∃ e', e'.isException = true ∧
      Ends f t (runOperation cfg (.probeStop handle)) w (.error e') w := by
  have hchoice : f.choice t (.probeStop handle) w = .fail e false := by
    simp [Faults.choice, McpSystem.rejected, sessionOf, hstop]
  obtain ⟨e', he', hends⟩ := ends_runOperation_error cfg (ends_await_fail hchoice rfl)
  exact ⟨e', he'.trans (f.cleanUp_isException e hstop), hends⟩

theorem shown_failedRow {call : Call} {db' : Db} (hid : server.id = id)
    (hrow : db'.server id = some (failedRow cfg e server row))
    (hdesired : call = .start → row.desiredState = .running) : Shown cfg call server db' :=
  ⟨⟨failedRow cfg e server row, hid ▸ hrow, rfl, ⟨e, rfl⟩, hdesired⟩⟩

/-- A probe that raises is recorded when it raises an `Exception`. -/
theorem probe_comes {β : Type} {call : Call} {live : Bool} {k : α → Program β} {e' : Exn}
    (h : Session t id db handles row w) (hid : server.id = id)
    (hdesired : call = .start → row.desiredState = .running)
    (hends : Ends f t p w (.error e') w) (he : e'.isException = e.isException)
    (hprobe : f.probe = .error e) :
    Comes f t cfg call server db handles
      ((exceptException p (recordFailure cfg server)).bind k) w (f.outcome live call) := by
  cases hcaught : e.isException with
  | true =>
      obtain ⟨w', hrecord, hrow, hhandles⟩ := ends_recordFailure (f := f) cfg h hid e'
      rw [show f.outcome live call = .recorded by simp [Faults.outcome, hprobe, hcaught]]
      exact ⟨e', w', (ends_except_error hends (he.trans hcaught) hrecord).bind_error,
        he.trans hcaught, shown_failedRow hid hrow hdesired, hhandles⟩
  | false =>
      rw [show f.outcome live call = .unharmed by simp [Faults.outcome, hprobe, hcaught]]
      refine ⟨.error e', w, (ends_except_pass hends (he.trans hcaught)).bind_error, ?_⟩
      rintro _ ⟨rfl⟩
      exact he.trans hcaught

/-- `_start_locked` from where its probe has started. -/
def startStoring (cfg : Settings) (id : ServerId) (server : McpServer) (handle : Handle)
    (tools : List Json) : Program McpLifecycleResponse := do
  exceptException
    (do
      replaceTools .runtime id tools
      let _ ← updateRuntimeStatus .runtime id .running none)
    (fun e => do
      runOperation cfg (.probeStop handle)
      recordFailure cfg server e)
  await (.setHandle id handle)
  await (.commit .runtime)
  response id

/-- `_start_locked` from where it finds no live handle. -/
def startFresh (cfg : Settings) (id : ServerId) (server : McpServer) :
    Program McpLifecycleResponse := do
  let _ ← updateRuntimeStatus .runtime id .starting none
  let (handle, tools) ←
    exceptException (runOperation cfg (.probeStart server)) (recordFailure cfg server)
  startStoring cfg id server handle tools

theorem startStoring_comes {handle : Handle} {tools : List Json} (hprobe : f.probe = .ok tools)
    (h : Session t id db handles row w) (hid : server.id = id)
    (hdesired : row.desiredState = .running) :
    Comes f t cfg .start server db handles (startStoring cfg id server handle tools) w
      (f.outcome false .start) := by
  have hreplaced := ends_replaceTools (f := f) tools h
  cases hstoring : f.storing tools with
  | stored =>
      rw [hstoring] at hreplaced
      obtain ⟨w₁, hreplace, h₁⟩ := hreplaced
      obtain ⟨w₂, hrunning, h₂⟩ := ends_updateServer (f := f)
        { runtimeStatus := some .running, lastError := some none } h₁ rfl
      obtain ⟨w₃, hset, h₃⟩ := ends_setHandle (f := f) handle h₂
      obtain ⟨w₄, hcommit, db', -, h₄⟩ := ends_commit (f := f) h₃
      obtain ⟨r, w₅, hresponse, -⟩ := ends_response (f := f) h₄
      rw [show f.outcome false .start = .unharmed by simp [Faults.outcome, hprobe, hstoring]]
      refine ⟨.ok r, w₅, (Yields.tryCatch (a := ()) ?_).bind (hset.bind (hcommit.bind hresponse)),
        by simp⟩
      exact hreplace.bind (hrunning.bind .done)
  | unnamed =>
      rw [hstoring] at hreplaced
      obtain ⟨e, w₁, he, hreplace, h₁⟩ := hreplaced
      cases hcleanUp : f.cleanUp with
      | none =>
          obtain ⟨w₂, hrecord, hrow, hhandles⟩ := ends_recordFailure (f := f)
            (α := Unit) cfg h₁ hid e
          rw [show f.outcome false .start = .recorded by
            simp [Faults.outcome, hprobe, hstoring, hcleanUp]]
          refine ⟨e, w₂, (ends_except_error hreplace.bind_error he ?_).bind_error, he,
            shown_failedRow hid hrow fun _ => hdesired, hhandles⟩
          exact (ends_probeStop hcleanUp).bind hrecord
      | some _ =>
          obtain ⟨e', he', hstop⟩ := ends_probeStop_error cfg handle (t := t)
            (w := w₁) hcleanUp
          rw [show f.outcome false .start = .lost by simp [Faults.outcome, hprobe, hstoring, hcleanUp]]
          refine ⟨e', w₁, (ends_except_error hreplace.bind_error he ?_).bind_error, he',
            h₁.committed, h₁.handles⟩
          exact hstop.bind_error
  | refused =>
      rw [hstoring] at hreplaced
      obtain ⟨e, w₁, he, hreplace, h₁⟩ := hreplaced
      rw [show f.outcome false .start = .lost by simp [Faults.outcome, hprobe, hstoring]]
      cases hcleanUp : f.cleanUp with
      | none =>
          refine ⟨f.unusable, w₁, (ends_except_error hreplace.bind_error he ?_).bind_error,
            f.unusable_isException, h₁.committed, h₁.handles⟩
          exact (ends_probeStop hcleanUp).bind (ends_recordFailure_unusable h₁)
      | some _ =>
          obtain ⟨e', he', hstop⟩ := ends_probeStop_error cfg handle (t := t)
            (w := w₁) hcleanUp
          refine ⟨e', w₁, (ends_except_error hreplace.bind_error he ?_).bind_error, he',
            h₁.committed, h₁.handles⟩
          exact hstop.bind_error

theorem startFresh_comes (h : Session t id db handles row w) (hid : server.id = id)
    (hdesired : row.desiredState = .running) :
    Comes f t cfg .start server db handles (startFresh cfg id server) w (f.outcome false .start) := by
  obtain ⟨w₁, hstarting, h₁⟩ := ends_updateServer (f := f)
    { runtimeStatus := some .starting, lastError := some none } h rfl
  refine .after hstarting ?_
  cases hprobe : f.probe with
  | error e =>
      obtain ⟨e', he', hends⟩ := ends_probeStart_error cfg server (t := t)
        (w := w₁) hprobe
      exact probe_comes h₁ hid (fun _ => hdesired) hends he' hprobe
  | ok tools =>
      obtain ⟨handle, w₂, hprobed, h₂⟩ := ends_probeStart cfg server hprobe h₁
      exact .after hprobed.tryCatch (startStoring_comes hprobe h₂ hid hdesired)

/-- What storing the tools of a check ends with, with its `except` clause. -/
def Kept (f : Faults) (t : TaskId) (cfg : Settings) (id : ServerId) (server : McpServer) (db : Db)
    (handles : List (ServerId × Handle)) (status : McpServerRuntimeStatus) (p : Program Unit)
    (w : World) : Storing → Prop
  | .stored => ∃ w' db' row', Ends f t p w (.ok ()) w' ∧ row'.runtimeStatus = status ∧
      db'.server id = some row' ∧ Session t id db' handles row' w'
  | .unnamed => ∃ e w', Ends f t p w (.error e) w' ∧ e.isException = true ∧
      Shown cfg .check server w'.store.committed ∧ w'.handles = handles
  | .refused => ∃ e w', Ends f t p w (.error e) w' ∧ e.isException = true ∧
      w'.store.committed = db ∧ w'.handles = handles

theorem storeCheck_kept (cfg : Settings) (tools : List Json) (status : McpServerRuntimeStatus)
    {p : Program Unit}
    {w₁ : World}
    (hp : ∀ r w', Ends f t (storeCheck id status tools) w₁ r w' → Ends f t p w r w')
    (h : Session t id db handles row w₁) (hid : server.id = id) :
    Kept f t cfg id server db handles status (exceptException p (recordFailure cfg server)) w
      (f.storing tools) := by
  have hreplaced := ends_replaceTools (f := f) tools h
  cases hstoring : f.storing tools with
  | stored =>
      rw [hstoring] at hreplaced
      obtain ⟨w₂, hreplace, h₂⟩ := hreplaced
      obtain ⟨w₃, hstatus, h₃⟩ := ends_updateServer (f := f)
        { runtimeStatus := some status, lastError := some none } h₂ rfl
      obtain ⟨w₄, hcommit, db', hdb', h₄⟩ := ends_commit (f := f) h₃
      have hstored := hp _ _ (hreplace.bind (hstatus.bind hcommit))
      exact ⟨w₄, db', _, hstored.tryCatch, rfl, hdb', h₄⟩
  | unnamed =>
      rw [hstoring] at hreplaced
      obtain ⟨e, w₂, he, hreplace, h₂⟩ := hreplaced
      obtain ⟨w₃, hrecord, hrow, hhandles⟩ := ends_recordFailure (f := f)
        (α := Unit) cfg h₂ hid e
      exact ⟨e, w₃, ends_except_error (hp _ _ hreplace.bind_error) he hrecord, he,
        shown_failedRow hid hrow (by simp), hhandles⟩
  | refused =>
      rw [hstoring] at hreplaced
      obtain ⟨e, w₂, he, hreplace, h₂⟩ := hreplaced
      exact ⟨f.unusable, w₂, ends_except_error (hp _ _ hreplace.bind_error) he
        (ends_recordFailure_unusable h₂), f.unusable_isException, h₂.committed, h₂.handles⟩

/-- `_check_locked` from where it finds a live handle. -/
def checkLive (cfg : Settings) (id : ServerId) (server : McpServer) (handle : Handle) :
    Program McpLifecycleResponse := do
  exceptException
    (do
      let tools ← runOperation cfg (.probeListTools handle)
      storeCheck id .running tools)
    (recordFailure cfg server)
  response id

/-- `_check_locked` from where its temporary handle has started. -/
def checkTemporary (cfg : Settings) (id : ServerId) (server : McpServer) (temporary : Handle)
    (tools : List Json) : Program McpLifecycleResponse := do
  ensuring
    (exceptException (storeCheck id .stopped tools) (recordFailure cfg server))
    (runOperation cfg (.probeStop temporary))
  response id

theorem checkLive_comes {handle : Handle} (h : Session t id db handles row w)
    (hid : server.id = id) :
    Comes f t cfg .check server db handles (checkLive cfg id server handle) w
      (f.outcome true .check) := by
  cases hprobe : f.probe with
  | error e =>
      obtain ⟨e', he', hends⟩ := ends_probeListTools_error cfg handle (t := t)
        (w := w) hprobe
      exact probe_comes h hid (by simp) hends.bind_error he' hprobe
  | ok tools =>
      have hlist := ends_probeListTools cfg handle (t := t) (w := w) hprobe
      have hkept := storeCheck_kept cfg tools .running
        (fun r w' hstore => hlist.bind hstore) h hid
      cases hstoring : f.storing tools with
      | stored =>
          rw [hstoring] at hkept
          obtain ⟨w₁, db', row', hstored, -, -, h₁⟩ := hkept
          obtain ⟨r, w₂, hresponse, -⟩ := ends_response (f := f) h₁
          rw [show f.outcome true .check = .unharmed by simp [Faults.outcome, hprobe, hstoring]]
          exact ⟨.ok r, w₂, hstored.bind hresponse, by simp⟩
      | unnamed =>
          rw [hstoring] at hkept
          obtain ⟨e, w₁, hends, he, hrest⟩ := hkept
          rw [show f.outcome true .check = .recorded by simp [Faults.outcome, hprobe, hstoring]]
          exact ⟨e, w₁, hends.bind_error, he, hrest⟩
      | refused =>
          rw [hstoring] at hkept
          obtain ⟨e, w₁, hends, he, hrest⟩ := hkept
          rw [show f.outcome true .check = .lost by simp [Faults.outcome, hprobe, hstoring]]
          exact ⟨e, w₁, hends.bind_error, he, hrest⟩

/-- The clean-up stop comes after what the call has committed. -/
theorem checkTemporary_comes {temporary : Handle} {tools : List Json} (hprobe : f.probe = .ok tools)
    (h : Session t id db handles row w) (hid : server.id = id) :
    Comes f t cfg .check server db handles (checkTemporary cfg id server temporary tools) w
      (f.outcome false .check) := by
  have hkept := storeCheck_kept (f := f) cfg tools .stopped
    (fun _ _ hstore => hstore) h hid
  have hensured {r : Except Exn Unit} {w₁ : World} (hends : Ends f t
      (exceptException (storeCheck id .stopped tools) (recordFailure cfg server)) w r w₁) :
      (f.cleanUp = none ∧ Ends f t (ensuring
        (exceptException (storeCheck id .stopped tools) (recordFailure cfg server))
        (runOperation cfg (.probeStop temporary))) w r w₁) ∨
      ∃ e', f.cleanUp ≠ none ∧ e'.isException = true ∧ Ends f t (ensuring
        (exceptException (storeCheck id .stopped tools) (recordFailure cfg server))
        (runOperation cfg (.probeStop temporary))) w (.error e') w₁ := by
    cases hcleanUp : f.cleanUp with
    | none => exact .inl ⟨rfl, hends.ensuring (ends_probeStop hcleanUp)⟩
    | some e =>
        obtain ⟨e', he', hstop⟩ := ends_probeStop_error cfg temporary (t := t)
          (w := w₁) hcleanUp
        exact .inr ⟨e', by simp, he', hends.ensuring_error hstop⟩
  cases hstoring : f.storing tools with
  | stored =>
      rw [hstoring] at hkept
      obtain ⟨w₁, db', row', hstored, hstatus, hrow, h₁⟩ := hkept
      rcases hensured hstored with ⟨hcleanUp, hends⟩ | ⟨e', hcleanUp, he', hends⟩
      · obtain ⟨r, w₂, hresponse, -⟩ := ends_response (f := f) h₁
        rw [show f.outcome false .check = .unharmed by
          simp [Faults.outcome, hprobe, hstoring, hcleanUp]]
        exact ⟨.ok r, w₂, hends.bind hresponse, by simp⟩
      · rw [show f.outcome false .check = .overwritten by
          simp [Faults.outcome, hprobe, hstoring, hcleanUp]]
        refine ⟨e', w₁, hends.bind_error, he', row', ?_, hstatus⟩
        rw [h₁.committed, hid]
        exact hrow
  | unnamed =>
      rw [hstoring] at hkept
      obtain ⟨e, w₁, hrecorded, he, hrest⟩ := hkept
      rw [show f.outcome false .check = .recorded by simp [Faults.outcome, hprobe, hstoring]]
      rcases hensured hrecorded with ⟨-, hends⟩ | ⟨e', -, he', hends⟩
      · exact ⟨e, w₁, hends.bind_error, he, hrest⟩
      · exact ⟨e', w₁, hends.bind_error, he', hrest⟩
  | refused =>
      rw [hstoring] at hkept
      obtain ⟨e, w₁, hlost, he, hrest⟩ := hkept
      rw [show f.outcome false .check = .lost by simp [Faults.outcome, hprobe, hstoring]]
      rcases hensured hlost with ⟨-, hends⟩ | ⟨e', -, he', hends⟩
      · exact ⟨e, w₁, hends.bind_error, he, hrest⟩
      · exact ⟨e', w₁, hends.bind_error, he', hrest⟩

/-- `_check_locked` from where it finds no live handle. -/
def checkFresh (cfg : Settings) (id : ServerId) (server : McpServer) :
    Program McpLifecycleResponse := do
  let (temporary, tools) ←
    exceptException (runOperation cfg (.probeStart server)) (recordFailure cfg server)
  checkTemporary cfg id server temporary tools

theorem checkFresh_comes (h : Session t id db handles row w) (hid : server.id = id) :
    Comes f t cfg .check server db handles (checkFresh cfg id server) w
      (f.outcome false .check) := by
  cases hprobe : f.probe with
  | error e =>
      obtain ⟨e', he', hends⟩ := ends_probeStart_error cfg server (t := t)
        (w := w) hprobe
      exact probe_comes h hid (by simp) hends he' hprobe
  | ok tools =>
      obtain ⟨handle, w₁, hprobed, h₁⟩ := ends_probeStart cfg server hprobe h
      exact .after hprobed.tryCatch (checkTemporary_comes hprobe h₁ hid)

end Sessions

/-- The state in which a call begins: its session is fresh, the row can be locked, and its transport
is a supported one. -/
structure Ready (t : TaskId) (id : ServerId) (row : McpServer) (w : World) : Prop where
  valid : w.invalid (t, .runtime) = false
  pending : w.store.pending (t, .runtime) = []
  loaded : w.loaded (t, .runtime) = []
  committed : w.store.committed.server id = some row
  free : w.store.owner id = none
  unique : (w.store.committed.tools.map toolKey).Nodup
  transport : row.transport = .stdio ∨ row.transport = .http

section Calls

variable {f : Faults} {t : TaskId} {id : ServerId} {row : McpServer} {w w' : World} {cfg : Settings}

theorem Ready.session (h : Ready t id row w) :
    Session t id w.store.committed w.handles row w := by
  have hview : w.view (t, .runtime) = w.store.committed := by
    simp [World.view, Store.view, h.pending]
  refine ⟨h.valid, hview ▸ h.committed, .inl ?_, .inl h.free, hview ▸ h.unique, rfl, rfl⟩
  simp [World.instance?, h.loaded]

/-- What comes of a call. -/
def Call.outcome (f : Faults) (registered : Bool) : Call → Outcome
  | .start => if registered then .unharmed else f.outcome false .start
  | .check => f.outcome registered .check

theorem supported (h : row.transport = .stdio ∨ row.transport = .http) :
    requireSupportedTransport row = .done () := by
  rcases h with h | h <;> simp only [requireSupportedTransport, h] <;> rfl

/-- What comes of the body comes of the repository context. -/
theorem Comes.within {α : Type} {call : Call} {db : Db} {handles : List (ServerId × Handle)}
    {p : Program α} {o : Outcome} (h : Comes f t cfg call row db handles p w o) :
    Comes f t cfg call row db handles (withRepository p) w o := by
  cases o with
  | unharmed =>
      obtain ⟨r, w', hends, hr⟩ := h
      obtain ⟨w'', hclosed, -, -⟩ := ends_withRepository hends
      exact ⟨r, w'', hclosed, hr⟩
  | recorded =>
      obtain ⟨e, w', hends, he, hshown, hhandles⟩ := h
      obtain ⟨w'', hclosed, hcommitted, hsame⟩ := ends_withRepository hends
      exact ⟨e, w'', hclosed, he, hcommitted ▸ hshown, hsame.trans hhandles⟩
  | lost =>
      obtain ⟨e, w', hends, he, hdb, hhandles⟩ := h
      obtain ⟨w'', hclosed, hcommitted, hsame⟩ := ends_withRepository hends
      exact ⟨e, w'', hclosed, he, hcommitted.trans hdb, hsame.trans hhandles⟩
  | overwritten =>
      obtain ⟨e, w', hends, he, hrow⟩ := h
      obtain ⟨w'', hclosed, hcommitted, -⟩ := ends_withRepository hends
      exact ⟨e, w'', hclosed, he, hcommitted ▸ hrow⟩

theorem start_comes (h : Ready t id row w) :
    Comes f t cfg .start row w.store.committed w.handles (startLocked cfg id) w
      (Call.outcome f (w.handles.lookup id).isSome .start) := by
  have hid := server_id h.committed
  obtain ⟨w₁, hrequire, h₁, -⟩ := ends_requireServer (f := f) h.session
  obtain ⟨w₂, hdesired, h₂⟩ := ends_updateServer (f := f)
    { desiredState := some .running } h₁ rfl
  refine .within (.after hrequire ?_)
  rw [supported h.transport]
  refine .after .done (.after hdesired (.after (ends_handleOf h₂) ?_))
  cases hlive : w.handles.lookup id with
  | none => exact startFresh_comes h₂ hid rfl
  | some handle =>
      obtain ⟨w₃, hrunning, h₃⟩ := ends_updateServer (f := f)
        { runtimeStatus := some .running, lastError := some none } h₂ rfl
      obtain ⟨w₄, hcommit, db', -, h₄⟩ := ends_commit (f := f) h₃
      obtain ⟨r, w₅, hresponse, -⟩ := ends_response (f := f) h₄
      exact ⟨.ok r, w₅, hrunning.bind (hcommit.bind hresponse), by simp⟩

theorem check_comes (h : Ready t id row w) :
    Comes f t cfg .check row w.store.committed w.handles (checkLocked cfg id) w
      (Call.outcome f (w.handles.lookup id).isSome .check) := by
  have hid := server_id h.committed
  obtain ⟨w₁, hrequire, h₁, -⟩ := ends_requireServer (f := f) h.session
  refine .within (.after hrequire ?_)
  rw [supported h.transport]
  refine .after .done (.after (ends_handleOf h₁) ?_)
  cases hlive : w.handles.lookup id with
  | none => exact checkFresh_comes h₁ hid
  | some handle => exact checkLive_comes h₁ hid

theorem call_comes (cfg : Settings) (call : Call) (h : Ready t id row w) :
    Comes f t cfg call row w.store.committed w.handles (call.program cfg id) w
      (call.outcome f (w.handles.lookup id).isSome) := by
  cases call with
  | start => exact start_comes h
  | check => exact check_comes h

/-- A call always ends. -/
theorem call_ends (call : Call) (h : Ready t id row w) :
    ∃ r w', Ends f t (call.program cfg id) w r w' := by
  have hcomes := call_comes (f := f) cfg call h
  cases houtcome : call.outcome f (w.handles.lookup id).isSome <;> rw [houtcome] at hcomes
  case unharmed =>
    obtain ⟨r, w', hends, -⟩ := hcomes
    exact ⟨r, w', hends⟩
  all_goals
    obtain ⟨e, w', hends, -⟩ := hcomes
    exact ⟨.error e, w', hends⟩

end Calls

/-- The committed row shows the failure of a call: its status is `error`, its text is that of some
exception without the secrets of `server`, and after a start the server is meant to run. -/
structure ShowsFailure (isWord : Char → Bool) (str : Exn → String) (call : Call)
    (server : McpServer) (db : Db) : Prop where
  row : ∃ row text exc, db.server server.id = some row ∧ row.runtimeStatus = .error ∧
    row.lastError = some text ∧ text ≠ "" ∧ text = sanitizeMcpError isWord str exc server ∧
    (call = .start → row.desiredState = .running)

theorem showsFailure_iff {isWord : Char → Bool} {str : Exn → String} {single : Bool}
    {seconds : Option Nat} {call : Call} {server : McpServer} {db : Db} :
    ShowsFailure isWord str call server db ↔
      Shown (settings single seconds isWord str) call server db := by
  constructor
  · rintro ⟨row, text, exc, hrow, hstatus, htext, -, rfl, hdesired⟩
    exact ⟨row, hrow, hstatus, ⟨exc, htext⟩, hdesired⟩
  · rintro ⟨row, hrow, hstatus, ⟨exc, htext⟩, hdesired⟩
    exact ⟨row, _, exc, hrow, hstatus, htext, sanitizeMcpError_ne_empty isWord str exc server, rfl,
      hdesired⟩

/-- If the call raises an `Exception`, the committed row shows the failure and no handle was
registered. -/
def FailureRecorded (f : Faults) (t : TaskId) (single : Bool) (seconds : Option Nat)
    (isWord : Char → Bool) (str : Exn → String) (call : Call) (server : McpServer) (w : World) :
    Prop :=
  ∀ e w', Ends f t (call.program (settings single seconds isWord str) server.id) w (.error e) w' →
    e.isException = true →
      ShowsFailure isWord str call server w'.store.committed ∧
        ∀ entry ∈ w'.handles, entry ∈ w.handles

/-- When a failure is recorded: the tools of the probe can be stored, or the failure of storing them
can still be recorded, or the committed row already shows a failure. -/
def Recoverable (f : Faults) (call : Call) (registered : Bool) (shown : Prop) : Prop :=
  ∀ tools, f.probe = .ok tools → ¬(call = .start ∧ registered = true) →
    match f.storing tools with
    | .stored => call = .check → registered = false → f.cleanUp = none
    | .unnamed => call = .start → f.cleanUp = none ∨ shown
    | .refused => shown

/-- Whether an outcome leaves a row that shows a failure, if it showed one before or not. -/
def Outcome.Shows (shown : Prop) : Outcome → Prop
  | .unharmed | .recorded => True
  | .lost => shown
  | .overwritten => False

section Recording

variable {f : Faults} {t : TaskId} {single : Bool} {seconds : Option Nat} {isWord : Char → Bool}
  {str : Exn → String} {call : Call} {server : McpServer} {w : World} {shown : Prop}

theorem recoverable_iff {registered : Bool} :
    Recoverable f call registered shown ↔ (call.outcome f registered).Shows shown := by
  unfold Recoverable
  cases hprobe : f.probe with
  | error e =>
      have houtcome : (call.outcome f registered).Shows shown := by
        cases call <;> cases registered <;> cases he : e.isException <;>
          simp [Call.outcome, Faults.outcome, hprobe, he, Outcome.Shows]
      simp [houtcome]
  | ok tools =>
      simp only [Except.ok.injEq, forall_eq']
      cases hstoring : f.storing tools <;> cases call <;> cases registered <;>
        cases hcleanUp : f.cleanUp <;>
          simp [Call.outcome, Faults.outcome, hprobe, hstoring, hcleanUp, Outcome.Shows]

theorem recorded_iff_shows (h : Ready t server.id server w) :
    FailureRecorded f t single seconds isWord str call server w ↔
      (call.outcome f (w.handles.lookup server.id).isSome).Shows
        (ShowsFailure isWord str call server w.store.committed) := by
  have hcomes := call_comes (f := f) (settings single seconds isWord str) call h
  cases houtcome : call.outcome f (w.handles.lookup server.id).isSome <;>
    rw [houtcome] at hcomes <;> simp only [Outcome.Shows]
  case unharmed =>
    obtain ⟨r, w', hends, hr⟩ := hcomes
    refine iff_true_intro fun e w'' hraised he => ?_
    have hnot := hr e (hends.unique hraised).1
    exact absurd he (by simp [hnot])
  case recorded =>
    obtain ⟨e', w', hends, -, hshown, hhandles⟩ := hcomes
    refine iff_true_intro fun e w'' hraised he => ?_
    obtain ⟨-, rfl⟩ := hends.unique hraised
    exact ⟨showsFailure_iff.mpr hshown, fun entry hentry => hhandles ▸ hentry⟩
  case lost =>
    obtain ⟨e', w', hends, he', hdb, hhandles⟩ := hcomes
    constructor
    · intro hrecorded
      rw [← hdb]
      exact (hrecorded e' w' hends he').1
    · intro hshown e w'' hraised he
      obtain ⟨-, rfl⟩ := hends.unique hraised
      exact ⟨hdb ▸ hshown, fun entry hentry => hhandles ▸ hentry⟩
  case overwritten =>
    obtain ⟨e', w', hends, he', row, hrow, hstopped⟩ := hcomes
    refine iff_false_intro fun hrecorded => ?_
    obtain ⟨⟨row', -, -, hrow', hstatus, -⟩⟩ := (hrecorded e' w' hends he').1
    obtain rfl := Option.some.inj (hrow.symm.trans hrow')
    rw [hstopped] at hstatus
    cases hstatus

/-- **Recorded failures.** The failure of a start or a check is committed exactly when it can be. -/
theorem failure_recorded_iff (h : Ready t server.id server w) :
    FailureRecorded f t single seconds isWord str call server w ↔
      Recoverable f call (w.handles.lookup server.id).isSome
        (ShowsFailure isWord str call server w.store.committed) :=
  (recorded_iff_shows h).trans recoverable_iff.symm

end Recording

/-- A server that was never started. -/
def stoppedServer : McpServer where
  id := 0
  name := "tools"
  transport := .stdio
  command := some "npx"
  args := []
  env := [("KEY", "hunter2")]
  url := none
  headers := []
  enabled := true
  desiredState := .stopped
  runtimeStatus := .stopped
  lastError := none

def stoppedWorld : World where
  store :=
    { committed := { servers := [stoppedServer], tools := [] }
      pending := fun _ => []
      owner := fun _ => none }
  loaded := fun _ => []
  invalid := fun _ => false
  handles := []
  lock := fun _ => {}
  nextServer := 1
  nextHandle := 0

theorem stoppedWorld_ready (t : TaskId) : Ready t 0 stoppedServer stoppedWorld :=
  ⟨rfl, rfl, rfl, rfl, rfl, List.nodup_nil, .inl rfl⟩

/-- A probe that returns the tools, with nothing else that fails. -/
def probeReturns (tools : List Json) : Faults where
  probe := .ok tools
  flush := none
  cleanUp := none
  unusable := .other "PendingRollbackError" "This Session's transaction has been rolled back."
  flush_isException := by simp
  cleanUp_isException := by simp
  unusable_isException := rfl

def namedTool (name : String) : Json :=
  .obj [("name", .str name)]

/-- A start of a server whose probe returns an unnamed tool. -/
theorem failure_recorded_unnamed :
    FailureRecorded (probeReturns [.obj []]) 0 true (some 10) Char.isAlphanum (fun _ => "no name")
      .start stoppedServer stoppedWorld :=
  (failure_recorded_iff (stoppedWorld_ready 0)).mpr (by
    rintro tools ⟨rfl⟩ -
    exact fun _ => .inl rfl)

/-- Two tools of one name: the flush is refused, and the failure cannot be recorded. -/
theorem failure_lost_duplicates :
    Ready 0 stoppedServer.id stoppedServer stoppedWorld ∧
      ¬ FailureRecorded (probeReturns [namedTool "read", namedTool "read"]) 0 true (some 10)
        Char.isAlphanum (fun _ => "duplicate") .start stoppedServer stoppedWorld := by
  refine ⟨stoppedWorld_ready 0, ?_⟩
  rw [recorded_iff_shows (stoppedWorld_ready 0)]
  rintro ⟨row, -, -, hrow, hstatus, -⟩
  obtain rfl := Option.some.inj hrow
  cases hstatus

end ChangeQuality.McpFailures
