import ChangeQuality.Histories
import ChangeQuality.McpOwnership

/-!
What the live runtimes were launched with. The launches are kept in a record, and the row of a server
with a registered handle keeps the configuration of the launch, whatever fails and whatever the
other tasks do.
-/

namespace ChangeQuality.McpLaunches

open ChangeQuality.Values
open ChangeQuality.McpServers
open ChangeQuality.McpRuntime
open ChangeQuality.McpService
open ChangeQuality.McpSystem
open ChangeQuality.McpLocks
open ChangeQuality.McpPrograms
open ChangeQuality.McpOwnership
open ChangeQuality.ReadCommitted
open ChangeQuality.Coroutine
open ChangeQuality.Interference
open ChangeQuality.Histories

/-- What a server is launched with. -/
structure LaunchConfig where
  transport : McpTransport
  command : Option String
  args : List String
  env : List (String × String)
  url : Option String
  headers : List (String × String)
  deriving DecidableEq

def launchConfig (server : McpServer) : LaunchConfig where
  transport := server.transport
  command := server.command
  args := server.args
  env := server.env
  url := server.url
  headers := server.headers

/-- A launch that succeeded. -/
structure Launch where
  handle : Handle
  config : LaunchConfig

def entries : Entries Reply Exn TaskId World Launch
  | _, .probeStart server, .ok (handle, _), _ => [{ handle, config := launchConfig server }]
  | _, _, _, _ => []

abbrev System := World × List Launch

/-- The handle was launched once, and with that configuration. -/
def LaunchedWith (log : List Launch) (handle : Handle) (config : LaunchConfig) : Prop :=
  { handle, config } ∈ log ∧ ∀ launch ∈ log, launch.handle = handle → launch.config = config

/-- If a handle is registered for the server, its committed row has the configuration with which the
handle was launched. -/
def LiveUnchanged (id : ServerId) (s : System) : Prop :=
  ∀ handle, s.1.handles.lookup id = some handle →
    ∃ row, s.1.store.committed.server id = some row ∧
      LaunchedWith s.2 handle (launchConfig row)

/-- The write updates or deletes the row of the server. -/
def Edits (id : ServerId) : Write → Prop
  | .updateServer id' _ | .deleteServer id' => id' = id
  | _ => False

section Rows

/-- A row that is there stays, with its configuration. -/
def carries : RowRelation where
  holds row row' := ∀ server, row = some server →
    ∃ server', row' = some server' ∧ launchConfig server' = launchConfig server
  refl row server h := ⟨server, h, rfl⟩
  trans h₁ h₂ server h := by
    obtain ⟨mid, hmid, hconfig⟩ := h₁ server h
    obtain ⟨server', hserver', hconfig'⟩ := h₂ mid hmid
    exact ⟨server', hserver', hconfig'.trans hconfig⟩

/-- The patch leaves the configuration alone. -/
structure ConfigFree (patch : McpServerPatch) : Prop where
  command : patch.command = none
  args : patch.args = none
  env : patch.env = none
  url : patch.url = none
  headers : patch.headers = none

/-- The runtime manager's sessions write neither rows nor configurations. -/
def Soft : Write → Prop
  | .updateServer _ patch => ConfigFree patch
  | .insertServer _ | .deleteServer _ => False
  | .deleteTools _ | .insertTools _ => True

theorem ConfigFree.net {patch : McpServerPatch} (h : ConfigFree patch) (server : McpServer) :
    ConfigFree (patch.net server) :=
  ⟨by simp [McpServerPatch.net, h.command], by simp [McpServerPatch.net, h.args],
    by simp [McpServerPatch.net, h.env], by simp [McpServerPatch.net, h.url],
    by simp [McpServerPatch.net, h.headers]⟩

theorem ConfigFree.launchConfig {patch : McpServerPatch} (h : ConfigFree patch)
    (server : McpServer) :
    McpLaunches.launchConfig (patch.apply server) = McpLaunches.launchConfig server := by
  simp [McpLaunches.launchConfig, McpServerPatch.apply, h.command, h.args, h.env, h.url, h.headers]

theorem respects_of_not_edits {id : ServerId} {wr : Write} (h : ¬ Edits id wr) :
    Respects carries id wr := by
  intro row server hserver
  subst hserver
  cases wr with
  | insertServer new => exact ⟨server, rfl, rfl⟩
  | updateServer id' patch =>
      have hne : ¬ id' = id := h
      exact ⟨server, by simp [onRow, hne], rfl⟩
  | deleteServer id' =>
      have hne : ¬ id' = id := h
      exact ⟨server, by simp [onRow, hne], rfl⟩
  | deleteTools id' => exact ⟨server, rfl, rfl⟩
  | insertTools rows => exact ⟨server, rfl, rfl⟩

theorem respects_of_soft {id : ServerId} {wr : Write} (h : Soft wr) : Respects carries id wr := by
  cases wr with
  | insertServer new => exact h.elim
  | deleteServer id' => exact h.elim
  | updateServer id' patch =>
      intro row server hserver
      subst hserver
      by_cases hid : id' = id
      · exact ⟨patch.apply server, by simp [onRow, hid], ConfigFree.launchConfig h server⟩
      · exact ⟨server, by simp [onRow, hid], rfl⟩
  | deleteTools id' => exact respects_of_not_edits not_false
  | insertTools rows => exact respects_of_not_edits not_false

end Rows

/-- What a task must have established before an operation. -/
def LaunchPre (t : TaskId) (op : Op) (s : System) : Prop :=
  match op with
  | .release id | .popHandle id => (s.1.lock id).holder = some t
  | .setHandle id handle =>
      (s.1.lock id).holder = some t ∧ ∃ row, s.1.store.committed.server id = some row ∧
        { handle, config := launchConfig row } ∈ s.2
  | .commit .request =>
      ∀ wr ∈ s.1.store.pending (t, .request), ∀ id, Edits id wr →
        (s.1.lock id).holder = some t ∧ s.1.handles.lookup id = none
  | .updateServer .runtime _ patch => ConfigFree patch
  | .insertServer .runtime _ | .deleteServer .runtime _ => False
  | _ => True

/-- What holds between two steps. -/
structure LaunchInv (s : System) : Prop where
  numbered : ∀ launch ∈ s.2, launch.handle < s.1.nextHandle
  unique : ∀ launch ∈ s.2, ∀ other ∈ s.2, launch.handle = other.handle →
    launch.config = other.config
  soft : ∀ t, ∀ wr ∈ s.1.store.pending (t, .runtime), Soft wr
  live : ∀ id, LiveUnchanged id s

section Steps

variable {t : TaskId} {op : Op} {choice : Choice} {s s' : System} {r : Except Exn (Reply op)}

theorem LaunchInv.launchedWith (h : LaunchInv s) {handle : Handle} {config : LaunchConfig}
    (hmem : { handle, config } ∈ s.2) : LaunchedWith s.2 handle config :=
  ⟨hmem, fun launch hlaunch heq => h.unique launch hlaunch _ hmem heq⟩

/-- What a task commits respects the rows of the servers whose lock it does not hold. -/
theorem LaunchInv.ownerPre (h : LaunchInv s) (hpre : LaunchPre t op s) :
    OwnerPre carries t op s.1 := by
  cases op with
  | release id => exact hpre
  | popHandle id => exact hpre
  | setHandle id handle => exact hpre.1
  | commit conn =>
      intro wr hwr id hheld
      cases conn with
      | runtime => exact respects_of_soft (h.soft t wr hwr)
      | request => exact respects_of_not_edits fun hedits => hheld (hpre wr hwr id hedits).1
  | _ => trivial

theorem exec_nextHandle {w w' : World} (h : exec t op choice w = some (r, w')) :
    w'.nextHandle = w.nextHandle ∧ entries t op r w = [] ∨
      ∃ config, w'.nextHandle = w.nextHandle + 1 ∧
        entries t op r w = [{ handle := w.nextHandle, config }] := by
  cases choice with
  | fail e poisons =>
      obtain ⟨-, rfl, rfl | ⟨conn, -, rfl⟩⟩ := exec_fail h
      · cases op <;> exact .inl ⟨rfl, rfl⟩
      · cases op <;> exact .inl ⟨rfl, rfl⟩
  | succeed tools =>
      obtain ⟨reply, rfl, hsucceed⟩ := exec_succeed h
      cases op with
      | probeStart server =>
          obtain ⟨rfl, rfl⟩ := Prod.mk.inj (Option.some.inj hsucceed)
          exact .inr ⟨launchConfig server, rfl, rfl⟩
      | _ =>
          refine .inl ⟨?_, rfl⟩
          grind [succeed, World.setLock, World.load, World.unload, World.write_eq_some,
            Option.map_eq_some_iff]

/-- The record of launches stays one of distinct handles. -/
theorem LaunchInv.log (h : LaunchInv s) (hstep : recording exec entries t op choice s = some (r, s')) :
    (∀ launch ∈ s'.2, launch.handle < s'.1.nextHandle) ∧
      ∀ launch ∈ s'.2, ∀ other ∈ s'.2, launch.handle = other.handle →
        launch.config = other.config := by
  obtain ⟨hexec, hlog⟩ := recording_eq_some hstep
  rcases exec_nextHandle hexec with ⟨hnext, hnone⟩ | ⟨config, hnext, hentry⟩
  · rw [hlog, hnone, List.append_nil, hnext]
    exact ⟨h.numbered, h.unique⟩
  · rw [hlog, hentry, hnext]
    constructor
    · intro launch hlaunch
      rcases List.mem_append.mp hlaunch with hlaunch | hlaunch
      · exact Nat.lt_succ_of_lt (h.numbered launch hlaunch)
      · obtain rfl := List.mem_singleton.mp hlaunch
        exact Nat.lt_succ_self _
    · intro launch hlaunch other hother heq
      rcases List.mem_append.mp hlaunch with hlaunch | hlaunch <;>
        rcases List.mem_append.mp hother with hother | hother
      · exact h.unique launch hlaunch other hother heq
      · obtain rfl := List.mem_singleton.mp hother
        exact absurd (h.numbered launch hlaunch) (by simp [heq])
      · obtain rfl := List.mem_singleton.mp hlaunch
        exact absurd (h.numbered other hother) (by simp [← heq])
      · rw [List.mem_singleton.mp hlaunch, List.mem_singleton.mp hother]

theorem LaunchInv.soft_step (h : LaunchInv s) (hpre : LaunchPre t op s)
    (hexec : exec t op choice s.1 = some (r, s'.1)) :
    ∀ t', ∀ wr ∈ s'.1.store.pending (t', .runtime), Soft wr := by
  intro t' wr hwr
  by_cases ht : t' = t
  · subst ht
    rcases exec_pending hexec .runtime with heq | heq | ⟨new, hnew, heq⟩
    · exact h.soft t' wr (heq ▸ hwr)
    · simp [heq] at hwr
    · rw [heq, List.mem_append, List.mem_singleton] at hwr
      rcases hwr with hwr | rfl
      · exact h.soft t' wr hwr
      · cases hnew with
        | insertServer => exact hpre
        | updateServer _ => exact ConfigFree.net hpre _
        | deleteServer => exact hpre
        | deleteTools => trivial
        | insertTools => trivial
  · rw [exec_pending_ne hexec ht] at hwr
    exact h.soft t' wr hwr

/-- The row of a server with a live runtime stays, with its configuration. -/
theorem LaunchInv.row_step (h : LaunchInv s)
    (hexec : exec t op choice s.1 = some (r, s'.1)) {id : ServerId}
    (hedits : op = .commit .request → ∀ wr ∈ s.1.store.pending (t, .request), ¬ Edits id wr) :
    carries.holds (s.1.store.committed.server id) (s'.1.store.committed.server id) := by
  rcases exec_committed hexec with heq | ⟨conn, rfl, heq⟩
  · rw [heq]
    exact carries.refl _
  · rw [heq, server_view]
    refine onRowAll_relation carries.refl carries.trans (fun wr hwr => ?_) _
    cases conn with
    | runtime => exact respects_of_soft (h.soft t wr hwr)
    | request => exact respects_of_not_edits (hedits rfl wr hwr)

theorem LaunchInv.live_step (h : LaunchInv s) (hpre : LaunchPre t op s)
    (hstep : recording exec entries t op choice s = some (r, s')) (id : ServerId) :
    LiveUnchanged id s' := by
  obtain ⟨hexec, hlog⟩ := recording_eq_some hstep
  obtain ⟨-, hunique⟩ := h.log hstep
  have hlaunched : ∀ {handle config}, ({ handle, config } : Launch) ∈ s.2 →
      LaunchedWith s'.2 handle config := by
    intro handle config hmem
    have hmem' : ({ handle, config } : Launch) ∈ s'.2 := hlog ▸ List.mem_append_left _ hmem
    exact ⟨hmem', fun launch hlaunch heq => hunique launch hlaunch _ hmem' heq⟩
  intro handle hhandle
  rcases exec_lookup hexec id with hsame | ⟨set, rfl, hset⟩ | ⟨-, hpop⟩
  · rw [hsame] at hhandle
    obtain ⟨row, hrow, hrunning⟩ := h.live id handle hhandle
    have hcarries : carries.holds (s.1.store.committed.server id)
        (s'.1.store.committed.server id) := by
      refine h.row_step hexec ?_
      rintro rfl wr hwr hedits
      obtain ⟨-, hnone⟩ := hpre wr hwr id hedits
      simp [hnone] at hhandle
    obtain ⟨row', hrow', hconfig⟩ := hcarries row hrow
    exact ⟨row', hrow', hconfig ▸ hlaunched hrunning.1⟩
  · obtain rfl := Option.some.inj (hset.symm.trans hhandle)
    obtain ⟨-, row, hrow, hmem⟩ := hpre
    have hcommitted : s'.1.store.committed = s.1.store.committed := by
      simpa using exec_committed hexec
    exact ⟨row, by rw [hcommitted]; exact hrow, hlaunched hmem⟩
  · simp [hpop] at hhandle

end Steps

/-- The launches as a protocol between tasks. -/
def launchProtocol : Protocol (recording exec entries) unrestricted where
  inv := LaunchInv
  rely t s s' := OwnerRely carries t s.1 s'.1 ∧ ∀ launch ∈ s.2, launch ∈ s'.2
  pre := LaunchPre
  rely_refl _ _ := ⟨.refl, fun _ h => h⟩
  rely_trans h₁ h₂ := ⟨h₁.1.trans h₂.1, fun launch h => h₂.2 launch (h₁.2 launch h)⟩
  sound {t op choice s r s'} hinv hpre _ hstep := by
    obtain ⟨hexec, hlog⟩ := recording_eq_some hstep
    obtain ⟨hnumbered, hunique⟩ := hinv.log hstep
    refine ⟨⟨hnumbered, hunique, hinv.soft_step hpre hexec, hinv.live_step hpre hstep⟩, ?_⟩
    intro t' hne
    exact ⟨exec_ownerRely hexec (hinv.ownerPre hpre) hne,
      fun launch hlaunch => hlog ▸ List.mem_append_left _ hlaunch⟩

section Locked

variable {cfg : Settings} {t : TaskId} {id : ServerId} {s s' : System} {α : Type}

/-- What neither the other tasks nor the harmless operations of the task itself take away from it
under the lock of the server. -/
structure Steady (t : TaskId) (id : ServerId) (s s' : System) : Prop where
  held : (s'.1.lock id).holder = some t
  handle : s'.1.handles.lookup id = s.1.handles.lookup id
  row : carries.holds (s.1.store.committed.server id) (s'.1.store.committed.server id)
  request : s.1.store.pending (t, .request) = [] → s'.1.store.pending (t, .request) = []
  log : ∀ launch ∈ s.2, launch ∈ s'.2

/-- An assertion about a server whose lock the task holds. -/
structure Lasting (t : TaskId) (id : ServerId) (A : System → Prop) : Prop where
  held : ∀ s, A s → (s.1.lock id).holder = some t
  steady : ∀ {s s'}, A s → Steady t id s s' → A s'

theorem Lasting.stable {A : System → Prop} (hA : Lasting t id A) : Stable launchProtocol t A := by
  intro s s' _ h hrely _
  have hheld := hA.held s h
  exact hA.steady h ⟨hrely.1.holder id hheld, hrely.1.handle id hheld, hrely.1.row id hheld,
    fun hrequest => (hrely.1.pending .request).trans hrequest, hrely.2⟩

/-- The operations that a task may await at any time under the lock. -/
def Mild : Op → Prop
  | .release _ | .setHandle _ _ | .popHandle _ | .commit .request => False
  | .insertServer _ _ | .deleteServer _ _ => False
  | .updateServer conn _ patch => conn = .runtime ∧ ConfigFree patch
  | .deleteTools conn _ | .insertTools conn _ => conn = .runtime
  | _ => True

theorem Mild.pre {op : Op} (hop : Mild op) (s : System) : LaunchPre t op s := by
  cases op with
  | updateServer conn id patch =>
      obtain ⟨rfl, hfree⟩ := hop
      exact hfree
  | commit conn =>
      cases conn with
      | request => exact hop.elim
      | runtime => trivial
  | release _ => exact hop.elim
  | setHandle _ _ => exact hop.elim
  | popHandle _ => exact hop.elim
  | insertServer _ _ => exact hop.elim
  | deleteServer _ _ => exact hop.elim
  | _ => trivial

theorem Mild.request {op : Op} {choice : Choice} {r : Except Exn (Reply op)} {w w' : World}
    (hop : Mild op) (hexec : exec t op choice w = some (r, w'))
    (hrequest : w.store.pending (t, .request) = []) : w'.store.pending (t, .request) = [] := by
  rcases exec_pending hexec .request with heq | heq | ⟨wr, hwr, -⟩
  · exact heq.trans hrequest
  · exact heq
  · cases hwr with
    | insertServer => exact hop.elim
    | updateServer _ => cases hop.1
    | deleteServer => exact hop.elim
    | deleteTools => cases hop
    | insertTools => cases hop

theorem Mild.steady {op : Op} {choice : Choice} {r : Except Exn (Reply op)} (hop : Mild op)
    (hinv : LaunchInv s) (hheld : (s.1.lock id).holder = some t)
    (hstep : recording exec entries t op choice s = some (r, s')) : Steady t id s s' := by
  obtain ⟨hexec, hlog⟩ := recording_eq_some hstep
  have hpre : LaunchPre t op s := hop.pre s
  refine ⟨?_, ?_, hinv.row_step hexec ?_, hop.request hexec, ?_⟩
  · refine exec_holder hexec hheld ?_ (hinv.ownerPre hpre)
    rintro rfl
    exact hop.elim
  · rcases exec_lookup hexec id with heq | ⟨handle, rfl, -⟩ | ⟨rfl, -⟩
    · exact heq
    · exact hop.elim
    · exact hop.elim
  · rintro rfl
    exact hop.elim
  · exact fun launch hlaunch => hlog ▸ List.mem_append_left _ hlaunch

theorem triple_mild {A : System → Prop} {p : Program α} (hA : Lasting t id A) (hp : Uses Mild p) :
    Triple launchProtocol t A p (fun _ => A) fun _ => A :=
  Triple.of_uses hA.stable (fun _ s hop _ _ => hop.pre s)
    (fun _ _ _ s _ hop hinv h _ hstep => hA.steady h (hop.steady hinv (hA.held s h) hstep)) hp

/-- The task holds the lock, with nothing written by the session of its request. -/
structure Inside (t : TaskId) (id : ServerId) (s : System) : Prop where
  held : (s.1.lock id).holder = some t
  request : s.1.store.pending (t, .request) = []

/-- The server was read, and its configuration is that of the committed row. -/
structure Selected (t : TaskId) (id : ServerId) (server : McpServer) (s : System) : Prop
    extends Inside t id s where
  row : ∃ row, s.1.store.committed.server id = some row ∧ launchConfig row = launchConfig server

/-- The handle was launched with the configuration of the committed row. -/
structure Launched (t : TaskId) (id : ServerId) (handle : Handle) (s : System) : Prop
    extends Inside t id s where
  row : ∃ row, s.1.store.committed.server id = some row ∧
    { handle, config := launchConfig row } ∈ s.2

/-- No handle is registered. -/
structure Unregistered (t : TaskId) (id : ServerId) (s : System) : Prop extends Inside t id s where
  handle : s.1.handles.lookup id = none

theorem lasting_inside : Lasting t id (Inside t id) :=
  ⟨fun _ h => h.held, fun h hsteady => ⟨hsteady.held, hsteady.request h.request⟩⟩

theorem Inside.steady (h : Inside t id s) (hsteady : Steady t id s s') : Inside t id s' :=
  lasting_inside.steady h hsteady

theorem lasting_selected {server : McpServer} : Lasting t id (Selected t id server) := by
  refine ⟨fun _ h => h.held, fun h hsteady => ⟨h.toInside.steady hsteady, ?_⟩⟩
  obtain ⟨row, hrow, hconfig⟩ := h.row
  obtain ⟨row', hrow', hconfig'⟩ := hsteady.row row hrow
  exact ⟨row', hrow', hconfig'.trans hconfig⟩

theorem lasting_launched {handle : Handle} : Lasting t id (Launched t id handle) := by
  refine ⟨fun _ h => h.held, fun h hsteady => ⟨h.toInside.steady hsteady, ?_⟩⟩
  obtain ⟨row, hrow, hmem⟩ := h.row
  obtain ⟨row', hrow', hconfig⟩ := hsteady.row row hrow
  exact ⟨row', hrow', hconfig ▸ hsteady.log _ hmem⟩

theorem lasting_unregistered : Lasting t id (Unregistered t id) :=
  ⟨fun _ h => h.held, fun h hsteady =>
    ⟨h.toInside.steady hsteady, hsteady.handle.trans h.handle⟩⟩

/-- The runtime session of the task is as new. -/
structure Fresh (t : TaskId) (s : System) : Prop where
  pending : s.1.store.pending (t, .runtime) = []
  loaded : s.1.loaded (t, .runtime) = []

theorem Fresh.stable : Stable launchProtocol t (Fresh t) := by
  intro s s' _ h hrely _
  exact ⟨(hrely.1.pending .runtime).trans h.pending, (hrely.1.loaded .runtime).trans h.loaded⟩

/-- A program under the lock, which ends under it. -/
abbrev Keeps (t : TaskId) (id : ServerId) (A : System → Prop) (p : Program α)
    (Q : α → System → Prop) : Prop :=
  Triple launchProtocol t A p Q fun _ => Inside t id

theorem keeps_mild {A : System → Prop} {p : Program α} (hA : Lasting t id A)
    (hinside : ∀ s, A s → Inside t id s) (hp : Uses Mild p) : Keeps t id A p fun _ => A :=
  Triple.weaken (triple_mild hA hp) (fun _ _ h => h) (fun _ _ _ h => h)
    fun _ s _ h => hinside s h

theorem mild_updateRuntimeStatus {id' : ServerId} {status : McpServerRuntimeStatus}
    {lastError : Option String} : Uses Mild (updateRuntimeStatus .runtime id' status lastError) :=
  uses_updateRuntimeStatus trivial ⟨rfl, rfl, rfl, rfl, rfl, rfl⟩

theorem mild_updateDesiredState {id' : ServerId} {desired : McpDesiredState} :
    Uses Mild (updateDesiredState .runtime id' desired) :=
  uses_updateServer trivial ⟨rfl, rfl, rfl, rfl, rfl, rfl⟩

theorem mild_commit : Uses Mild (await (.commit .runtime)) :=
  uses_await trivial

theorem mild_response {id' : ServerId} : Uses Mild (response id') :=
  uses_response trivial trivial

theorem mild_recordFailure {server : McpServer} (e : Exn) :
    Uses Mild (recordFailure (α := α) cfg server e) :=
  Uses.bind mild_updateRuntimeStatus fun _ => Uses.bind mild_commit fun _ => trivial

theorem mild_replaceTools {id' : ServerId} (tools : List Json) :
    Uses Mild (replaceTools .runtime id' tools) :=
  uses_replaceTools tools rfl fun _ => rfl

/-- The first look at the row, in a fresh session: it is the committed one. -/
theorem triple_openServer :
    Keeps t id (fun s => Inside t id s ∧ Fresh t s) (requireServer .runtime id)
      fun server => Selected t id server := by
  have hstable : Stable launchProtocol t fun s => Inside t id s ∧ Fresh t s :=
    lasting_inside.stable.and Fresh.stable
  have hselect : Keeps t id (fun s => Inside t id s ∧ Fresh t s) (await (.selectServer .runtime id))
      fun reply s => Inside t id s ∧ ∀ server, reply = some server → Selected t id server s := by
    refine Triple.perform hstable (fun reply => ?_) (fun _ => lasting_inside.stable)
      (fun _ _ _ => trivial) ?_
    · intro s s' hinv h hrely hinv'
      exact ⟨lasting_inside.stable s s' hinv h.1 hrely hinv', fun server hserver =>
        lasting_selected.stable s s' hinv (h.2 server hserver) hrely hinv'⟩
    · rintro s choice r s' hinv ⟨h, hfresh⟩ _ _ hstep
      have hmild : Mild (.selectServer .runtime id) := trivial
      have hinside : Inside t id s' := h.steady (hmild.steady hinv h.held hstep)
      obtain ⟨hexec, -⟩ := recording_eq_some hstep
      cases choice with
      | fail e poisons =>
          obtain ⟨-, rfl, -⟩ := exec_fail hexec
          exact hinside
      | succeed tools =>
          obtain ⟨reply, rfl, hsucceed⟩ := exec_succeed hexec
          refine ⟨hinside, ?_⟩
          rintro server rfl
          have hview : s.1.view (t, .runtime) = s.1.store.committed := by
            simp [World.view, Store.view, hfresh.pending]
          have hnone : s.1.instance? (t, .runtime) id = none := by
            simp [World.instance?, hfresh.loaded]
          simp only [succeed, hview, hnone] at hsucceed
          split at hsucceed
          · cases (Prod.mk.inj (Option.some.inj hsucceed)).1
          · rename_i row hrow
            obtain ⟨hreply, hworld⟩ := Prod.mk.inj (Option.some.inj hsucceed)
            obtain rfl := Option.some.inj hreply
            exact ⟨hinside, row, hworld ▸ hrow, rfl⟩
  refine Triple.bind hselect fun reply => ?_
  cases reply with
  | none => exact Triple.raise lasting_inside.stable fun _ _ h => h.1
  | some server => exact Triple.done lasting_selected.stable fun _ _ h => h.2 server rfl

/-- A launch enters the record with the configuration that was read. -/
theorem triple_probeStart (server : McpServer) :
    Keeps t id (Selected t id server) (runOperation cfg (.probeStart server))
      fun reply => Launched t id reply.1 := by
  have hawait : Keeps t id (Selected t id server) (await (.probeStart server))
      fun reply => Launched t id reply.1 := by
    refine Triple.perform lasting_selected.stable (fun _ => lasting_launched.stable)
      (fun _ => lasting_inside.stable) (fun _ _ _ => trivial) ?_
    intro s choice r s' hinv h _ _ hstep
    have hmild : Mild (.probeStart server) := trivial
    have hselected := lasting_selected.steady h (hmild.steady hinv h.held hstep)
    obtain ⟨hexec, hlog⟩ := recording_eq_some hstep
    cases choice with
    | fail e poisons =>
        obtain ⟨-, rfl, -⟩ := exec_fail hexec
        exact hselected.toInside
    | succeed tools =>
        obtain ⟨⟨handle, found⟩, rfl, -⟩ := exec_succeed hexec
        obtain ⟨row, hrow, hconfig⟩ := hselected.row
        refine ⟨hselected.toInside, row, hrow, ?_⟩
        rw [hlog, hconfig]
        exact List.mem_append_right _ (by simp [entries])
  unfold runOperation
  split
  · exact hawait
  · refine Triple.tryCatch hawait fun e => ?_
    cases e <;> exact Triple.raise lasting_inside.stable fun _ _ h => h

theorem triple_setHandle (handle : Handle) :
    Keeps t id (Launched t id handle) (await (.setHandle id handle)) fun _ => Inside t id := by
  refine Triple.perform lasting_launched.stable (fun _ => lasting_inside.stable)
    (fun _ => lasting_inside.stable) (fun s _ h => ⟨h.held, h.row⟩) ?_
  intro s choice r s' _ h _ _ hstep
  obtain ⟨hexec, -⟩ := recording_eq_some hstep
  cases choice with
  | fail e poisons => simp [exec, synchronous] at hexec
  | succeed tools =>
      obtain ⟨reply, rfl, hsucceed⟩ := exec_succeed hexec
      obtain ⟨-, hworld⟩ := Prod.mk.inj (Option.some.inj hsucceed)
      exact ⟨hworld ▸ h.held, hworld ▸ h.request⟩

theorem triple_popHandle :
    Keeps t id (Inside t id) (await (.popHandle id)) fun _ => Unregistered t id := by
  refine Triple.perform lasting_inside.stable (fun _ => lasting_unregistered.stable)
    (fun _ => lasting_inside.stable) (fun s _ h => h.held) ?_
  intro s choice r s' _ h _ _ hstep
  obtain ⟨hexec, -⟩ := recording_eq_some hstep
  cases choice with
  | fail e poisons => simp [exec, synchronous] at hexec
  | succeed tools =>
      obtain ⟨reply, rfl, hsucceed⟩ := exec_succeed hexec
      obtain ⟨-, hworld⟩ := Prod.mk.inj (Option.some.inj hsucceed)
      refine ⟨⟨hworld ▸ h.held, hworld ▸ h.request⟩, ?_⟩
      rw [← hworld]
      exact lookup_filter_self id s.1.handles

theorem triple_handleOf :
    Keeps t id (Inside t id) (await (.handleOf id))
      fun reply s => Inside t id s ∧ (reply = none → Unregistered t id s) := by
  refine Triple.perform lasting_inside.stable (fun reply => ?_) (fun _ => lasting_inside.stable)
    (fun _ _ _ => trivial) ?_
  · intro s s' hinv h hrely hinv'
    exact ⟨lasting_inside.stable s s' hinv h.1 hrely hinv', fun hreply =>
      lasting_unregistered.stable s s' hinv (h.2 hreply) hrely hinv'⟩
  · intro s choice r s' _ h _ _ hstep
    obtain ⟨hexec, -⟩ := recording_eq_some hstep
    cases choice with
    | fail e poisons => simp [exec, synchronous] at hexec
    | succeed tools =>
        obtain ⟨reply, rfl, hsucceed⟩ := exec_succeed hexec
        obtain ⟨hreply, hworld⟩ := Prod.mk.inj (Option.some.inj hsucceed)
        have hinside : Inside t id s' := ⟨hworld ▸ h.held, hworld ▸ h.request⟩
        refine ⟨hinside, fun hnone => ⟨hinside, ?_⟩⟩
        rw [← hworld]
        exact hreply.trans hnone

/-- The repository context ends with its session as new. -/
theorem keeps_withRepository {p : Program α} {A B : System → Prop} (hB : Lasting t id B)
    (hinside : ∀ s, B s → Inside t id s) (hp : Keeps t id A p fun _ => B) :
    Triple launchProtocol t A (withRepository p) (fun _ s => B s ∧ Fresh t s)
      fun _ s => Inside t id s ∧ Fresh t s := by
  have hclose : ∀ {C : System → Prop}, Lasting t id C → Triple launchProtocol t C
      (await (.close .runtime)) (fun _ s => C s ∧ Fresh t s) fun _ s => C s ∧ Fresh t s := by
    intro C hC
    have hstable : Stable launchProtocol t fun s => C s ∧ Fresh t s := hC.stable.and Fresh.stable
    refine Triple.perform hC.stable (fun _ => hstable) (fun _ => hstable)
      (fun _ _ _ => trivial) ?_
    intro s choice r s' hinv h _ _ hstep
    have hmild : Mild (.close .runtime) := trivial
    have hkept : C s' := hC.steady h (hmild.steady hinv (hC.held s h) hstep)
    obtain ⟨hexec, -⟩ := recording_eq_some hstep
    cases choice with
    | fail e poisons => simp [exec, synchronous] at hexec
    | succeed tools =>
        obtain ⟨reply, rfl, hsucceed⟩ := exec_succeed hexec
        obtain ⟨-, hworld⟩ := Prod.mk.inj (Option.some.inj hsucceed)
        refine ⟨hkept, ?_, ?_⟩
        · rw [← hworld]
          exact Function.update_self ..
        · rw [← hworld]
          exact Function.update_self ..
  refine Triple.ensuring (fun _ => hB.stable.and Fresh.stable)
    (fun _ => lasting_inside.stable.and Fresh.stable) hp (fun _ => ?_) fun _ => hclose lasting_inside
  exact Triple.weaken (hclose hB) (fun _ _ h => h) (fun _ _ _ h => h)
    fun _ s _ h => ⟨hinside s h.1, h.2⟩

/-- `try ... except Exception` around a part that ends under the lock. -/
theorem keeps_exceptException {A : System → Prop} {p : Program α} {handler : Exn → Program α}
    {B : System → Prop} {Q : α → System → Prop}
    (hinside : ∀ s, B s → Inside t id s) (hp : Triple launchProtocol t A p Q fun _ => B)
    (hhandler : ∀ e, Keeps t id B (handler e) Q) :
    Keeps t id A (exceptException p handler) Q := by
  refine Triple.tryCatch hp fun e => ?_
  split
  · exact hhandler e
  · exact Triple.raise lasting_inside.stable fun s _ h => hinside s h

theorem keeps_inside {p : Program α} (hp : Uses Mild p) :
    Keeps t id (Inside t id) p fun _ => Inside t id :=
  keeps_mild lasting_inside (fun _ h => h) hp

/-- A failure that is stored is raised again. -/
theorem keeps_recordFailure {server : McpServer} {Q : α → System → Prop} (e : Exn) :
    Keeps t id (Inside t id) (recordFailure cfg server e) Q :=
  Triple.bind (keeps_inside mild_updateRuntimeStatus) fun _ =>
    Triple.bind (keeps_inside mild_commit) fun _ =>
      Triple.raise lasting_inside.stable fun _ _ h => h

theorem keeps_startLocked :
    Triple launchProtocol t (fun s => Inside t id s ∧ Fresh t s) (startLocked cfg id)
      (fun _ s => Inside t id s ∧ Fresh t s) fun _ s => Inside t id s ∧ Fresh t s := by
  refine keeps_withRepository lasting_inside (fun _ h => h)
    (Triple.bind triple_openServer fun server => ?_)
  have hselected : ∀ {β : Type} {p : Program β}, Uses Mild p →
      Keeps t id (Selected t id server) p fun _ => Selected t id server :=
    keeps_mild lasting_selected fun _ h => h.toInside
  refine Triple.bind (hselected (uses_requireSupportedTransport server)) fun _ => ?_
  refine Triple.bind (hselected mild_updateDesiredState) fun _ => ?_
  refine Triple.bind (hselected (uses_await trivial)) fun found => ?_
  have hcommit : Uses Mild (await (.commit .runtime) >>= fun _ => response id) :=
    Uses.bind mild_commit fun _ => mild_response
  cases found with
  | some handle =>
      refine Triple.weaken (keeps_inside ?_) (fun _ _ h => h.toInside) (fun _ _ _ h => h)
        fun _ _ _ h => h
      exact Uses.bind mild_updateRuntimeStatus fun _ => hcommit
  | none =>
      refine Triple.bind (hselected mild_updateRuntimeStatus) fun _ => ?_
      refine Triple.bind (keeps_exceptException (fun _ h => h) (triple_probeStart server)
        keeps_recordFailure) ?_
      rintro ⟨handle, tools⟩
      refine Triple.bind (B := fun _ => Launched t id handle)
        (keeps_exceptException (fun _ h => h.toInside) (triple_mild lasting_launched
          (Uses.bind (mild_replaceTools tools) fun _ =>
            Uses.bind mild_updateRuntimeStatus fun _ => trivial)) fun e => ?_) fun _ => ?_
      · refine Triple.weaken (Triple.bind (keeps_inside (uses_runOperation cfg ?_)) fun _ =>
          keeps_recordFailure e) (fun _ _ h => h.toInside) (fun _ _ _ h => h) fun _ _ _ h => h
        trivial
      · exact Triple.bind (triple_setHandle handle) fun _ => keeps_inside hcommit

/-- A stop that returns leaves no handle. -/
theorem keeps_stopLocked :
    Triple launchProtocol t (fun s => Inside t id s ∧ Fresh t s) (stopLocked cfg id)
      (fun _ s => Unregistered t id s ∧ Fresh t s) fun _ s => Inside t id s ∧ Fresh t s := by
  refine keeps_withRepository lasting_unregistered (fun _ h => h.toInside)
    (Triple.bind (B := fun _ => Inside t id) ?_ fun server => ?_)
  · exact Triple.weaken triple_openServer (fun _ _ h => h) (fun _ _ _ h => h.toInside)
      fun _ _ _ h => h
  refine Triple.bind (keeps_inside mild_updateDesiredState) fun _ => ?_
  refine Triple.bind (keeps_inside mild_updateRuntimeStatus) fun _ => ?_
  refine Triple.bind triple_handleOf fun found => ?_
  have hrest : Keeps t id (Unregistered t id) (do
      let _ ← updateRuntimeStatus .runtime id .stopped none
      await (.commit .runtime)
      response id) fun _ => Unregistered t id :=
    keeps_mild lasting_unregistered (fun _ h => h.toInside)
      (Uses.bind mild_updateRuntimeStatus fun _ => Uses.bind mild_commit fun _ => mild_response)
  cases found with
  | none =>
      exact Triple.weaken hrest (fun _ _ h => h.2 rfl) (fun _ _ _ h => h) fun _ _ _ h => h
  | some handle =>
      have hstop : Uses Mild (runOperation cfg (.probeStop handle)) := uses_runOperation cfg trivial
      refine Triple.weaken (Triple.bind (keeps_exceptException (fun _ h => h) (keeps_inside hstop)
        keeps_recordFailure) fun _ => ?_) (fun _ _ h => h.1) (fun _ _ _ h => h) fun _ _ _ h => h
      exact Triple.bind triple_popHandle fun _ => hrest

theorem mild_checkLocked : Uses Mild (checkLocked cfg id) := by
  refine uses_withRepository ?_ trivial
  refine Uses.bind (uses_requireServer trivial) fun server => ?_
  refine Uses.bind (uses_requireSupportedTransport server) fun _ => ?_
  refine Uses.bind (uses_await trivial) fun found => ?_
  have hstore : ∀ status tools, Uses Mild (storeCheck id status tools) := fun status tools =>
    Uses.bind (mild_replaceTools tools) fun _ =>
      Uses.bind mild_updateRuntimeStatus fun _ => mild_commit
  cases found with
  | some handle =>
      refine Uses.bind (uses_exceptException ?_ mild_recordFailure) fun _ => mild_response
      exact Uses.bind (uses_runOperation cfg trivial) fun tools => hstore .running tools
  | none =>
      refine Uses.bind (uses_exceptException (uses_runOperation cfg trivial) mild_recordFailure)
        fun (temporary, tools) => ?_
      refine Uses.bind (Uses.ensuring ?_ (uses_runOperation cfg trivial)) fun _ => mild_response
      exact uses_exceptException (hstore .stopped tools) mild_recordFailure

end Locked

end ChangeQuality.McpLaunches
