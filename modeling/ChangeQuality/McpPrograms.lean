import ChangeQuality.Interference
import ChangeQuality.McpService

/-!
What the parts of the MCP programs await. A property of operations that holds of what the repository
functions await holds of what the programs made of them await.
-/

namespace ChangeQuality.McpPrograms

open ChangeQuality.Values
open ChangeQuality.McpServers
open ChangeQuality.McpRuntime
open ChangeQuality.McpService
open ChangeQuality.Interference
open ChangeQuality.Coroutine.Program (ensuring)

variable {S : Op → Prop} {conn : Conn} {id : ServerId}

theorem uses_await {op : Op} (h : S op) : Uses S (await op) :=
  Uses.perform h

theorem uses_requireServer (hselect : S (.selectServer conn id)) :
    Uses S (requireServer conn id) := by
  refine Uses.bind (uses_await hselect) fun found => ?_
  cases found <;> trivial

theorem uses_updateServer {values : McpServerPatch} (hselect : S (.selectServer conn id))
    (hupdate : S (.updateServer conn id values)) :
    Uses S (McpRuntime.updateServer conn id values) :=
  Uses.bind (uses_requireServer hselect) fun _ => uses_await hupdate

theorem uses_deleteServer (hselect : S (.selectServer conn id))
    (hdelete : S (.deleteServer conn id)) : Uses S (McpRuntime.deleteServer conn id) :=
  Uses.bind (uses_requireServer hselect) fun _ => uses_await hdelete

theorem uses_updateRuntimeStatus {status : McpServerRuntimeStatus} {lastError : Option String}
    (hselect : S (.selectServer conn id))
    (hupdate : S (.updateServer conn id
      { runtimeStatus := some status, lastError := some lastError })) :
    Uses S (updateRuntimeStatus conn id status lastError) :=
  Uses.bind (uses_requireServer hselect) fun _ => uses_await hupdate

theorem uses_toolModels (id : ServerId) (tools : List Json) : Uses S (toolModels id tools) := by
  induction tools with
  | nil => trivial
  | cons tool tools ih =>
      refine Uses.bind (Uses.bind ?_ fun _ => trivial) fun row => Uses.bind ih fun _ => trivial
      cases h : (tool.get "name").asStr? <;> simp [toolName, h] <;> trivial

theorem uses_replaceTools (tools : List Json) (hdelete : S (.deleteTools conn id))
    (hinsert : ∀ rows, S (.insertTools conn rows)) : Uses S (replaceTools conn id tools) :=
  Uses.bind (uses_await hdelete) fun _ =>
    Uses.bind (uses_toolModels id tools) fun rows => uses_await (hinsert rows)

theorem uses_exceptException {α : Type} {p : Program α} {handler : Exn → Program α}
    (hp : Uses S p) (hhandler : ∀ e, Uses S (handler e)) :
    Uses S (exceptException p handler) := by
  refine Uses.tryCatch hp fun e => ?_
  cases he : e.isException
  · trivial
  · exact hhandler e

theorem uses_withRepository {α : Type} {p : Program α} (hp : Uses S p)
    (hclose : S (.close .runtime)) : Uses S (withRepository p) :=
  Uses.ensuring hp (uses_await hclose)

theorem uses_withLock {α : Type} {p : Program α} (htry : S (.tryAcquire id))
    (hacquired : S (.acquired id)) (hrelease : S (.release id)) (hp : Uses S p) :
    Uses S (withLock id p) := by
  have hensuring := Uses.ensuring hp (uses_await hrelease)
  refine Uses.bind (uses_await htry) fun taken => ?_
  cases taken with
  | true => exact hensuring
  | false => exact Uses.bind (uses_await hacquired) fun _ => hensuring

theorem uses_runOperation (cfg : Settings) {op : Op} (hop : S op) :
    Uses S (runOperation cfg op) := by
  cases h : cfg.operationTimeoutSeconds with
  | none =>
      simp only [McpRuntime.runOperation, h]
      exact uses_await hop
  | some seconds =>
      simp only [McpRuntime.runOperation, h]
      refine Uses.tryCatch (uses_await hop) fun e => ?_
      cases e <;> trivial

theorem uses_requireRuntimeEnabled (cfg : Settings) : Uses S (requireRuntimeEnabled cfg) := by
  unfold requireRuntimeEnabled
  split <;> trivial

theorem uses_requireSupportedTransport (server : McpServer) :
    Uses S (requireSupportedTransport server) := by
  cases h : server.transport <;> simp only [requireSupportedTransport, h] <;> trivial

theorem uses_response (hselect : S (.selectServer .runtime id))
    (hcount : S (.countTools .runtime id)) : Uses S (response id) :=
  Uses.bind (uses_requireServer hselect) fun _ => Uses.bind (uses_await hcount) fun _ => trivial

theorem uses_recordFailure {α : Type} (cfg : Settings) {server : McpServer} (e : Exn)
    (hselect : S (.selectServer .runtime server.id))
    (hupdate : ∀ patch, S (.updateServer .runtime server.id patch))
    (hcommit : S (.commit .runtime)) : Uses S (recordFailure (α := α) cfg server e) :=
  Uses.bind (uses_updateRuntimeStatus hselect (hupdate _)) fun _ =>
    Uses.bind (uses_await hcommit) fun _ => trivial

/-- The patch sets nothing but the states of a server. -/
def StatesOnly (patch : McpServerPatch) : Prop :=
  patch = { desiredState := patch.desiredState, runtimeStatus := patch.runtimeStatus,
            lastError := patch.lastError }

/-- What a lifecycle operation awaits between acquiring and releasing the lock of a server. -/
def LifecycleOp : Op → Prop
  | .selectServer .runtime _ | .deleteTools .runtime _ | .insertTools .runtime _
  | .countTools .runtime _ | .commit .runtime | .close .runtime | .handleOf _ | .setHandle _ _
  | .popHandle _ | .probeStart _ | .probeListTools _ | .probeStop _ => True
  | .updateServer .runtime _ patch => StatesOnly patch
  | _ => False

section Lifecycle

variable (cfg : Settings)

theorem uses_lifecycleStatus (id : ServerId) (status : McpServerRuntimeStatus)
    (lastError : Option String) :
    Uses LifecycleOp (updateRuntimeStatus .runtime id status lastError) :=
  uses_updateRuntimeStatus trivial rfl

theorem uses_lifecycleDesired (id : ServerId) (desired : McpDesiredState) :
    Uses LifecycleOp (updateDesiredState .runtime id desired) :=
  uses_updateServer trivial rfl

theorem uses_lifecycleFailure {α : Type} (server : McpServer) (e : Exn) :
    Uses LifecycleOp (recordFailure (α := α) cfg server e) :=
  Uses.bind (uses_lifecycleStatus server.id .error _) fun _ =>
    Uses.bind (uses_await trivial) fun _ => trivial

theorem uses_lifecycleResponse (id : ServerId) : Uses LifecycleOp (response id) :=
  uses_response trivial trivial

theorem uses_lifecycleTools (id : ServerId) (tools : List Json) :
    Uses LifecycleOp (replaceTools .runtime id tools) :=
  uses_replaceTools tools trivial fun _ => trivial

theorem uses_storeCheck (id : ServerId) (status : McpServerRuntimeStatus) (tools : List Json) :
    Uses LifecycleOp (storeCheck id status tools) :=
  Uses.bind (uses_lifecycleTools id tools) fun _ =>
    Uses.bind (uses_lifecycleStatus id status none) fun _ => uses_await trivial

/-- The probe, with its failure recorded. -/
theorem uses_lifecycleProbe {op : Op} (server : McpServer) (hop : LifecycleOp op) :
    Uses LifecycleOp (exceptException (runOperation cfg op) (recordFailure cfg server)) :=
  uses_exceptException (uses_runOperation cfg hop) (uses_lifecycleFailure cfg server)

theorem uses_startLocked (id : ServerId) : Uses LifecycleOp (startLocked cfg id) := by
  refine uses_withRepository ?_ trivial
  refine Uses.bind (uses_requireServer trivial) fun server => ?_
  refine Uses.bind (uses_requireSupportedTransport server) fun _ => ?_
  refine Uses.bind (uses_lifecycleDesired id .running) fun _ => ?_
  refine Uses.bind (uses_await trivial) fun found => ?_
  cases found with
  | some handle =>
      refine Uses.bind (uses_lifecycleStatus id .running none) fun _ => ?_
      exact Uses.bind (uses_await trivial) fun _ => uses_lifecycleResponse id
  | none =>
      refine Uses.bind (uses_lifecycleStatus id .starting none) fun _ => ?_
      refine Uses.bind (uses_lifecycleProbe cfg server trivial) fun (handle, tools) => ?_
      refine Uses.bind (uses_exceptException ?_ fun e => ?_) fun _ => ?_
      · refine Uses.bind (uses_lifecycleTools id tools) fun _ => ?_
        exact Uses.bind (uses_lifecycleStatus id .running none) fun _ => trivial
      · exact Uses.bind (uses_runOperation cfg trivial) fun _ => uses_lifecycleFailure cfg server e
      · refine Uses.bind (uses_await trivial) fun _ => ?_
        exact Uses.bind (uses_await trivial) fun _ => uses_lifecycleResponse id

theorem uses_stopLocked (id : ServerId) : Uses LifecycleOp (stopLocked cfg id) := by
  refine uses_withRepository ?_ trivial
  refine Uses.bind (uses_requireServer trivial) fun server => ?_
  refine Uses.bind (uses_lifecycleDesired id .stopped) fun _ => ?_
  refine Uses.bind (uses_lifecycleStatus id .stopping none) fun _ => ?_
  refine Uses.bind (uses_await trivial) fun found => ?_
  have hrest : Uses LifecycleOp (do
      let _ ← updateRuntimeStatus .runtime id .stopped none
      await (.commit .runtime)
      response id) :=
    Uses.bind (uses_lifecycleStatus id .stopped none) fun _ =>
      Uses.bind (uses_await trivial) fun _ => uses_lifecycleResponse id
  cases found with
  | none => exact hrest
  | some handle =>
      refine Uses.bind (uses_lifecycleProbe cfg server trivial) fun _ => ?_
      exact Uses.bind (uses_await trivial) fun _ => hrest

theorem uses_checkLocked (id : ServerId) : Uses LifecycleOp (checkLocked cfg id) := by
  refine uses_withRepository ?_ trivial
  refine Uses.bind (uses_requireServer trivial) fun server => ?_
  refine Uses.bind (uses_requireSupportedTransport server) fun _ => ?_
  refine Uses.bind (uses_await trivial) fun found => ?_
  cases found with
  | some handle =>
      refine Uses.bind (uses_exceptException ?_ (uses_lifecycleFailure cfg server))
        fun _ => uses_lifecycleResponse id
      exact Uses.bind (uses_runOperation cfg trivial) fun tools => uses_storeCheck id .running tools
  | none =>
      refine Uses.bind (uses_lifecycleProbe cfg server trivial) fun (temporary, tools) => ?_
      refine Uses.bind (Uses.ensuring ?_ (uses_runOperation cfg trivial))
        fun _ => uses_lifecycleResponse id
      exact uses_exceptException (uses_storeCheck id .stopped tools)
        (uses_lifecycleFailure cfg server)

end Lifecycle

end ChangeQuality.McpPrograms
