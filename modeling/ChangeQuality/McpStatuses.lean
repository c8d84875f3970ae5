import ChangeQuality.McpFailures
import ChangeQuality.McpOwnership

/-!
The shown status of a server and the registry of live handles, when no repository call fails. Every
operation of the runtime manager changes the two at different moments, and they agree again before
the lock of the server is free.
-/

namespace ChangeQuality.McpStatuses

open ChangeQuality.Values
open ChangeQuality.McpServers
open ChangeQuality.McpRuntime
open ChangeQuality.McpService
open ChangeQuality.McpSystem
open ChangeQuality.McpLocks
open ChangeQuality.McpPrograms
open ChangeQuality.McpOwnership
open ChangeQuality.ReadCommitted
open ChangeQuality.Coroutine
open ChangeQuality.Interference

/-- A status that says running or stopped is true of the registry. -/
def Shows (status : McpServerRuntimeStatus) (handle : Option Handle) : Prop :=
  (status = .running → handle.isSome = true) ∧ (status = .stopped → handle = none)

/-- The committed status of the server is true. -/
def Truthful (id : ServerId) (w : World) : Prop :=
  ∀ row, w.store.committed.server id = some row →
    Shows row.runtimeStatus (w.handles.lookup id)

/-- The condition on a run: no call of a repository fails. What the probes do, and whether a task is
cancelled while it waits for a lock, is left open. -/
def Healthy (_ : TaskId) (op : Op) (choice : Choice) (_ : World) : Prop :=
  match choice with
  | .succeed _ => True
  | .fail _ _ => sessionOf op = none

instance (t : TaskId) (op : Op) (choice : Choice) (w : World) :
    Decidable (Healthy t op choice w) :=
  match choice with
  | .succeed _ => inferInstanceAs (Decidable True)
  | .fail _ _ => inferInstanceAs (Decidable (sessionOf op = none))

section Rows

def statusOf (row : Option McpServer) : Option McpServerRuntimeStatus :=
  row.map fun server => server.runtimeStatus

/-- The status of the row stays as it is, or the row is a new one. -/
def follows : RowRelation where
  holds row row' := statusOf row' = statusOf row ∨ row = none ∧ statusOf row' = some .unknown
  refl _ := .inl rfl
  trans := by
    rintro row₁ row₂ row₃ (h₁ | ⟨rfl, h₁⟩) (h₂ | ⟨rfl, h₂⟩)
    · exact .inl (h₂.trans h₁)
    · exact .inr ⟨Option.map_eq_none_iff.mp h₁.symm, h₂⟩
    · exact .inr ⟨rfl, h₂.trans h₁⟩
    · simp [statusOf] at h₁

/-- A write that respects the status of every row. -/
def Harmless (wr : Write) : Prop :=
  ∀ id, Respects follows id wr

theorem harmless_update {id : ServerId} {patch : McpServerPatch} (h : patch.runtimeStatus = none) :
    Harmless (.updateServer id patch) := by
  intro id' row
  refine .inl ?_
  simp only [onRow]
  split
  · cases row <;> simp [statusOf, McpServerPatch.apply, h]
  · rfl

theorem harmless_insert {new : McpServer} (h : new.runtimeStatus = .unknown) :
    Harmless (.insertServer new) := by
  rintro id' (_ | row)
  · simp only [onRow, Option.none_or]
    split
    · exact .inr ⟨rfl, by simp [statusOf, h]⟩
    · exact .inl rfl
  · exact .inl rfl

theorem respects_update_ne {id id' : ServerId} (hne : id' ≠ id) (patch : McpServerPatch) :
    Respects follows id' (.updateServer id patch) :=
  fun row => .inl (by simp [onRow, Ne.symm hne])

theorem respects_delete_ne {id id' : ServerId} (hne : id' ≠ id) :
    Respects follows id' (.deleteServer id) :=
  fun row => .inl (by simp [onRow, Ne.symm hne])

/-- The status after a write depends on the status before only. -/
theorem statusOf_onRow {row row' : Option McpServer} (id : ServerId) (wr : Write)
    (h : statusOf row = statusOf row') : statusOf (onRow id wr row) = statusOf (onRow id wr row') := by
  cases row <;> cases row' <;> simp [statusOf] at h
  · rfl
  · rename_i server server'
    cases wr with
    | insertServer new => simpa [onRow, statusOf] using h
    | updateServer id' patch =>
        simp only [onRow]
        split <;> simp [statusOf, McpServerPatch.apply, h]
    | deleteServer id' =>
        simp only [onRow]
        split <;> simp [statusOf, h]
    | deleteTools id' => simpa [onRow, statusOf] using h
    | insertTools rows => simpa [onRow, statusOf] using h

theorem statusOf_onRowAll {row row' : Option McpServer} (id : ServerId) (ws : List Write)
    (h : statusOf row = statusOf row') :
    statusOf (onRowAll id ws row) = statusOf (onRowAll id ws row') := by
  induction ws generalizing row row' with
  | nil => exact h
  | cons wr ws ih => exact ih (statusOf_onRow id wr h)

theorem truthful_iff {id : ServerId} {w : World} :
    Truthful id w ↔ ∀ status, statusOf (w.store.committed.server id) = some status →
      Shows status (w.handles.lookup id) := by
  constructor
  · intro h status hstatus
    obtain ⟨row, hrow, rfl⟩ := Option.map_eq_some_iff.mp hstatus
    exact h row hrow
  · intro h row hrow
    exact h row.runtimeStatus (by simp [statusOf, hrow])

theorem Truthful.follows {id : ServerId} {w w' : World} (h : Truthful id w)
    (hhandle : w'.handles.lookup id = w.handles.lookup id)
    (hrow : follows.holds (w.store.committed.server id) (w'.store.committed.server id)) :
    Truthful id w' := by
  rw [truthful_iff] at h ⊢
  intro status hstatus
  rw [hhandle]
  rcases hrow with heq | ⟨-, hnew⟩
  · exact h status (heq ▸ hstatus)
  · obtain rfl := Option.some.inj (hnew.symm.trans hstatus)
    exact ⟨by simp, by simp⟩

end Rows

/-- The rows and the registry as a protocol between tasks: the status of a server whose lock is free
is true. -/
def statusProtocol : Protocol exec Healthy where
  inv w := ∀ id, (w.lock id).holder = none → Truthful id w
  rely := OwnerRely follows
  pre t op w := OwnerPre follows t op w ∧ ∀ id, op = .release id → Truthful id w
  rely_refl _ _ := .refl
  rely_trans := .trans
  sound {t op choice w r w'} hinv hpre _ hexec := by
    refine ⟨fun id hfree => ?_, fun t' hne => exec_ownerRely hexec hpre.1 hne⟩
    rcases exec_free hexec hfree with hbefore | rfl
    · have hheld : (w.lock id).holder ≠ some t := by simp [hbefore]
      exact (hinv id hbefore).follows (exec_lookup_not_held hexec hpre.1 hheld)
        (exec_row_not_held hexec hpre.1 hheld)
    · have hlookup : w'.handles.lookup id = w.handles.lookup id := by
        simpa using exec_lookup hexec id
      have hcommitted : w'.store.committed = w.store.committed := by
        simpa using exec_committed hexec
      exact (hpre.2 id rfl).follows hlookup (.inl (by rw [hcommitted]))

section Locked

variable {t : TaskId} {id : ServerId} {found : Option Handle} {status : McpServerRuntimeStatus}
  {settled : Prop} {w w' : World}

/-- The task holds the lock of the server, whose committed status is true. -/
structure Inside (t : TaskId) (id : ServerId) (w : World) : Prop where
  held : (w.lock id).holder = some t
  truthful : Truthful id w
  request : w.store.pending (t, .request) = []

/-- The sessions of the task are as new. -/
structure Fresh (t : TaskId) (w : World) : Prop where
  pending : ∀ conn, w.store.pending (t, conn) = []
  loaded : w.loaded (t, .runtime) = []

/-- The runtime session in the middle of an operation: what it sees of the status, and what the
registry has. What is committed need be true only where it says so. -/
structure At (t : TaskId) (id : ServerId) (found : Option Handle) (status : McpServerRuntimeStatus)
    (settled : Prop) (w : World) : Prop where
  held : (w.lock id).holder = some t
  entry : w.handles.lookup id = found
  request : w.store.pending (t, .request) = []
  only : ∀ wr ∈ w.store.pending (t, .runtime), ∀ id', id' ≠ id → Respects follows id' wr
  present : ∃ row, w.store.committed.server id = some row
  sees : statusOf ((w.view (t, .runtime)).server id) = some status
  cached : ∀ server, w.instance? (t, .runtime) id = some server → server.runtimeStatus = status
  truthful : settled → Truthful id w

theorem At.inside (h : At t id found status settled w) (hsettled : settled) : Inside t id w :=
  ⟨h.held, h.truthful hsettled, h.request⟩

theorem Inside.stable : Stable statusProtocol t (Inside t id) := by
  intro w w' _ h hrely _
  exact ⟨hrely.holder id h.held, h.truthful.follows (hrely.handle id h.held) (hrely.row id h.held),
    (hrely.pending .request).trans h.request⟩

theorem Fresh.stable : Stable statusProtocol t (Fresh t) := by
  intro w w' _ h hrely _
  exact ⟨fun conn => (hrely.pending conn).trans (h.pending conn),
    (hrely.loaded .runtime).trans h.loaded⟩

theorem At.stable : Stable statusProtocol t (At t id found status settled) := by
  intro w w' _ h hrely _
  have hrow := hrely.row id h.held
  have hpending := hrely.pending .runtime
  obtain ⟨row, hpresent⟩ := h.present
  have hstatus : statusOf (w'.store.committed.server id) =
      statusOf (w.store.committed.server id) := by
    rcases hrow with heq | ⟨hnone, -⟩
    · exact heq
    · simp [hpresent] at hnone
  refine ⟨hrely.holder id h.held, (hrely.handle id h.held).trans h.entry,
    (hrely.pending .request).trans h.request, ?_, ?_, ?_, ?_, fun hsettled => ?_⟩
  · rw [hpending]
    exact h.only
  · rw [hpresent] at hstatus
    obtain ⟨row', hrow', -⟩ := Option.map_eq_some_iff.mp hstatus
    exact ⟨row', hrow'⟩
  · rw [server_view, hpending, statusOf_onRowAll id _ hstatus, ← server_view]
    exact h.sees
  · simpa only [World.instance?, hrely.loaded .runtime] using h.cached
  · exact (h.truthful hsettled).follows (hrely.handle id h.held) hrow

theorem stable_false : Stable (statusProtocol) t fun _ => False :=
  Stable.const False

/-- The rule of a statement, which never fails. -/
theorem triple_statement {op : Op} {conn : Conn} {A : World → Prop} {Q : Reply op → World → Prop}
    (hop : sessionOf op = some conn) (hA : Stable statusProtocol t A)
    (hQ : ∀ a, Stable statusProtocol t (Q a))
    (hpre : ∀ w, A w → OwnerPre follows t op w)
    (hpost : ∀ w tools reply w', A w → exec t op (.succeed tools) w = some (.ok reply, w') →
      succeed t tools w op = some (reply, w') → Q reply w') :
    Triple statusProtocol t A (await op) Q fun _ _ => False := by
  refine Triple.perform hA hQ (fun _ => stable_false) (fun w _ h => ⟨hpre w h, ?_⟩) ?_
  · rintro id rfl
    simp [sessionOf] at hop
  · intro w choice r w' _ h _ hallowed hexec
    cases choice with
    | fail e poisons => simp [Healthy, hop] at hallowed
    | succeed tools =>
        obtain ⟨reply, rfl, hsucceed⟩ := exec_succeed hexec
        exact hpost w tools reply w' h hexec hsucceed

/-- Nothing that the assertions speak of changes. -/
structure Same (t : TaskId) (id : ServerId) (w w' : World) : Prop where
  lock : w'.lock = w.lock
  handles : w'.handles = w.handles
  committed : w'.store.committed = w.store.committed
  request : w'.store.pending (t, .request) = w.store.pending (t, .request)
  runtime : w'.store.pending (t, .runtime) = w.store.pending (t, .runtime) ∨
    ∃ wr, (∀ id' row, onRow id' wr row = row) ∧
      w'.store.pending (t, .runtime) = w.store.pending (t, .runtime) ++ [wr]
  cached : w'.instance? (t, .runtime) id = w.instance? (t, .runtime) id ∨
    w'.instance? (t, .runtime) id = (w.view (t, .runtime)).server id

theorem At.same (h : At t id found status settled w) (hsame : Same t id w w') :
    At t id found status settled w' := by
  have hsees : (w'.view (t, .runtime)).server id = (w.view (t, .runtime)).server id := by
    rw [server_view, server_view, hsame.committed]
    rcases hsame.runtime with heq | ⟨wr, hwr, heq⟩
    · rw [heq]
    · rw [heq, onRowAll_append, hwr]
  refine ⟨by rw [hsame.lock]; exact h.held, by rw [hsame.handles]; exact h.entry,
    hsame.request.trans h.request, ?_, by rw [hsame.committed]; exact h.present,
    hsees ▸ h.sees, ?_, fun hsettled => ?_⟩
  · intro wr hwr id' hne
    rcases hsame.runtime with heq | ⟨new, hnew, heq⟩
    · exact h.only wr (heq ▸ hwr) id' hne
    · rw [heq, List.mem_append, List.mem_singleton] at hwr
      rcases hwr with hwr | rfl
      · exact h.only wr hwr id' hne
      · exact fun row => .inl (by rw [hnew])
  · intro server hserver
    rcases hsame.cached with heq | heq
    · exact h.cached server (heq ▸ hserver)
    · have hstatus := h.sees
      rw [heq] at hserver
      rw [hserver] at hstatus
      exact Option.some.inj hstatus
  · exact (h.truthful hsettled).follows (by rw [hsame.handles]) (.inl (by rw [hsame.committed]))

/-- The operations that leave the row of the server and the registry alone. -/
def Neutral (id : ServerId) : Op → Prop
  | .selectServer conn id' => conn = .runtime ∧ id' = id
  | .deleteTools conn _ | .insertTools conn _ | .countTools conn _ => conn = .runtime
  | .handleOf _ | .probeStart _ | .probeListTools _ | .probeStop _ => True
  | _ => False

theorem neutral_same {op : Op} {choice : Choice} {r : Except Exn (Reply op)}
    (hop : Neutral id op) (hallowed : Healthy t op choice w)
    (hexec : exec t op choice w = some (r, w')) : Same t id w w' := by
  have hrefl : Same t id w w := ⟨rfl, rfl, rfl, rfl, .inl rfl, .inl rfl⟩
  cases choice with
  | fail e poisons =>
      have hsession : sessionOf op = none := hallowed
      obtain ⟨-, -, rfl | ⟨conn, hconn, -⟩⟩ := exec_fail hexec
      · cases op <;> first | exact hop.elim | exact hrefl
      · rw [hsession] at hconn
        cases hconn
  | succeed tools =>
      obtain ⟨reply, -, hsucceed⟩ := exec_succeed hexec
      cases op with
      | selectServer conn id' =>
          obtain ⟨rfl, rfl⟩ := hop
          simp only [succeed] at hsucceed
          split at hsucceed
          · obtain ⟨-, rfl⟩ := Prod.mk.inj (Option.some.inj hsucceed)
            exact hrefl
          · rename_i row hrow
            split at hsucceed
            · obtain ⟨-, rfl⟩ := Prod.mk.inj (Option.some.inj hsucceed)
              exact hrefl
            · obtain ⟨-, rfl⟩ := Prod.mk.inj (Option.some.inj hsucceed)
              refine ⟨rfl, rfl, rfl, rfl, .inl rfl, .inr ?_⟩
              rw [hrow, ← server_id hrow]
              exact McpFailures.instance_load w _ row
      | deleteTools conn id' =>
          obtain rfl : conn = .runtime := hop
          simp only [succeed] at hsucceed
          obtain ⟨mid, hmid, heq⟩ := Option.map_eq_some_iff.mp hsucceed
          obtain ⟨store, hstore, rfl⟩ := World.write_eq_some hmid
          obtain ⟨-, rfl⟩ := Prod.mk.inj heq
          obtain ⟨mid, hlocks, rfl⟩ := Store.write_eq_some hstore
          refine ⟨rfl, rfl, hlocks.committed, ?_, .inr ⟨.deleteTools id', fun _ _ => rfl, ?_⟩, .inl rfl⟩
          · simp [Store.record_pending_ne, hlocks.pending]
          · simp [hlocks.pending]
      | insertTools conn rows =>
          obtain rfl : conn = .runtime := hop
          simp only [succeed] at hsucceed
          split at hsucceed
          · obtain ⟨mid, hmid, heq⟩ := Option.map_eq_some_iff.mp hsucceed
            obtain ⟨store, hstore, rfl⟩ := World.write_eq_some hmid
            obtain ⟨-, rfl⟩ := Prod.mk.inj heq
            obtain ⟨mid, hlocks, rfl⟩ := Store.write_eq_some hstore
            refine ⟨rfl, rfl, hlocks.committed, ?_, .inr ⟨.insertTools rows, fun _ _ => rfl, ?_⟩, .inl rfl⟩
            · simp [Store.record_pending_ne, hlocks.pending]
            · simp [hlocks.pending]
          · simp at hsucceed
      | countTools conn id' =>
          obtain ⟨-, rfl⟩ := Prod.mk.inj (Option.some.inj hsucceed)
          exact hrefl
      | handleOf id' =>
          obtain ⟨-, rfl⟩ := Prod.mk.inj (Option.some.inj hsucceed)
          exact hrefl
      | probeStart server =>
          obtain ⟨-, rfl⟩ := Prod.mk.inj (Option.some.inj hsucceed)
          exact ⟨rfl, rfl, rfl, rfl, .inl rfl, .inl rfl⟩
      | probeListTools handle =>
          obtain ⟨-, rfl⟩ := Prod.mk.inj (Option.some.inj hsucceed)
          exact hrefl
      | probeStop handle =>
          obtain ⟨-, rfl⟩ := Prod.mk.inj (Option.some.inj hsucceed)
          exact hrefl
      | _ => exact hop.elim

theorem neutral_pre {op : Op} (hop : Neutral id op) (w : World) :
    OwnerPre follows t op w ∧ ∀ id', op = .release id' → Truthful id' w := by
  refine ⟨?_, ?_⟩
  · cases op <;> first | exact hop.elim | trivial
  · rintro id' rfl
    exact hop.elim

theorem triple_neutral {α : Type} {p : Program α} (hp : Uses (Neutral id) p) :
    Triple statusProtocol t (At t id found status settled) p
      (fun _ => At t id found status settled) fun _ => At t id found status settled :=
  Triple.of_uses At.stable (fun _ w hop _ _ => neutral_pre hop w)
    (fun _ _ _ _ _ hop _ h hallowed hexec => h.same (neutral_same hop hallowed hexec)) hp

theorem Inside.same (h : Inside t id w) (hsame : Same t id w w') : Inside t id w' :=
  ⟨by rw [hsame.lock]; exact h.held,
    h.truthful.follows (by rw [hsame.handles]) (.inl (by rw [hsame.committed])),
    hsame.request.trans h.request⟩

theorem triple_neutral_inside {α : Type} {p : Program α} (hp : Uses (Neutral id) p) :
    Triple statusProtocol t (Inside t id) p (fun _ => Inside t id) fun _ => Inside t id :=
  Triple.of_uses Inside.stable (fun _ w hop _ _ => neutral_pre hop w)
    (fun _ _ _ _ _ hop _ h hallowed hexec => h.same (neutral_same hop hallowed hexec)) hp

theorem At.sees_some (h : At t id found status settled w) :
    ∃ row, (w.view (t, .runtime)).server id = some row ∧ row.runtimeStatus = status :=
  Option.map_eq_some_iff.mp h.sees

/-- The row is there, so that it is found. -/
theorem triple_requireServer :
    Triple statusProtocol t (At t id found status settled) (requireServer .runtime id)
      (fun _ => At t id found status settled) fun _ _ => False := by
  have hselect : Triple statusProtocol t (At t id found status settled)
      (await (.selectServer .runtime id))
      (fun server w => At t id found status settled w ∧ server.isSome = true) fun _ _ => False := by
    refine triple_statement rfl At.stable (fun _ => At.stable.and (Stable.const _))
      (fun _ _ => trivial) ?_
    intro w tools reply w' h hexec hsucceed
    have hneutral : Neutral id (.selectServer .runtime id) := ⟨rfl, rfl⟩
    have hallowed : Healthy t (.selectServer .runtime id) (.succeed tools) w := trivial
    have hsame : Same t id w w' := neutral_same hneutral hallowed hexec
    refine ⟨h.same hsame, ?_⟩
    obtain ⟨row, hrow, -⟩ := h.sees_some
    simp only [succeed, hrow] at hsucceed
    split at hsucceed
    · obtain ⟨rfl, -⟩ := Prod.mk.inj (Option.some.inj hsucceed)
      rfl
    · obtain ⟨rfl, -⟩ := Prod.mk.inj (Option.some.inj hsucceed)
      rfl
  refine Triple.bind hselect fun server => ?_
  cases server with
  | none => exact Triple.of_false fun w _ h => by simp at h
  | some server => exact Triple.done At.stable fun _ _ h => h.1

theorem net_status (patch : McpServerPatch) (server : McpServer) :
    (patch.net server).runtimeStatus.getD server.runtimeStatus =
      patch.runtimeStatus.getD server.runtimeStatus := by
  cases h : patch.runtimeStatus with
  | none => simp [McpServerPatch.net, h]
  | some new =>
      by_cases hnew : new = server.runtimeStatus <;>
        simp [McpServerPatch.net, h, hnew, Option.filter]

/-- The session sees the status that it has flushed. -/
theorem At.updateServer {patch : McpServerPatch} {tools : List Json} {reply : McpServer}
    (h : At t id found status settled w)
    (hsucceed : succeed t tools w (.updateServer .runtime id patch) = some (reply, w')) :
    At t id found (patch.runtimeStatus.getD status) settled w' := by
  simp only [succeed] at hsucceed
  split at hsucceed
  · simp at hsucceed
  · rename_i server hserver
    have hid : server.id = id := by simpa using List.find?_some hserver
    obtain rfl : server.runtimeStatus = status := h.cached server hserver
    have hcached : ∀ w₀ : World, ∀ loaded,
        (w₀.load (t, .runtime) (patch.apply server)).instance? (t, .runtime) id = some loaded →
        loaded.runtimeStatus = patch.runtimeStatus.getD server.runtimeStatus := by
      intro w₀ loaded hloaded
      rw [← hid, ← McpFailures.apply_id patch, McpFailures.instance_load] at hloaded
      obtain rfl := Option.some.inj hloaded
      rfl
    split at hsucceed
    · simp at hsucceed
    · split at hsucceed
      · rename_i hnet
        have hsame : patch.runtimeStatus.getD server.runtimeStatus = server.runtimeStatus := by
          rw [← net_status, hnet]
          rfl
        obtain ⟨-, rfl⟩ := Prod.mk.inj (Option.some.inj hsucceed)
        refine ⟨h.held, h.entry, h.request, h.only, h.present, ?_, hcached w, h.truthful⟩
        rw [hsame]
        exact h.sees
      · obtain ⟨mid, hmid, heq⟩ := Option.map_eq_some_iff.mp hsucceed
        obtain ⟨store, hstore, rfl⟩ := World.write_eq_some hmid
        obtain ⟨-, rfl⟩ := Prod.mk.inj heq
        have hcommitted := Store.committed_write hstore
        obtain ⟨row, hrow, hstatus⟩ := h.sees_some
        refine ⟨h.held, h.entry, ?_, ?_, ?_, ?_, hcached _, fun hsettled => ?_⟩
        · obtain ⟨locked, hlocks, rfl⟩ := Store.write_eq_some hstore
          change (locked.record _ _).pending (t, .request) = []
          rw [Store.record_pending_ne (by simp), hlocks.pending]
          exact h.request
        · obtain ⟨locked, hlocks, rfl⟩ := Store.write_eq_some hstore
          intro wr hwr id' hne
          change wr ∈ (locked.record _ _).pending (t, .runtime) at hwr
          rw [Store.record_pending, hlocks.pending, List.mem_append, List.mem_singleton] at hwr
          rcases hwr with hwr | rfl
          · exact h.only wr hwr id' hne
          · exact respects_update_ne hne _
        · change ∃ row, store.committed.server id = some row
          rw [hcommitted]
          exact h.present
        · change statusOf ((store.view schema (t, .runtime)).server id) = _
          rw [Store.view_write hstore, server_apply]
          change statusOf (onRow id _ ((w.view (t, .runtime)).server id)) = _
          rw [hrow, ← net_status, ← hstatus]
          simp [onRow, statusOf, McpServerPatch.apply, hstatus]
        · refine (h.truthful hsettled).follows rfl (.inl ?_)
          change statusOf (store.committed.server id) = _
          rw [hcommitted]

theorem triple_flush (patch : McpServerPatch) :
    Triple statusProtocol t (At t id found status settled) (await (.updateServer .runtime id patch))
      (fun _ => At t id found (patch.runtimeStatus.getD status) settled) fun _ _ => False :=
  triple_statement rfl At.stable (fun _ => At.stable) (fun _ _ => trivial)
    fun _ _ _ _ h _ hsucceed => h.updateServer hsucceed

theorem triple_updateServer (patch : McpServerPatch) :
    Triple statusProtocol t (At t id found status settled)
      (McpRuntime.updateServer .runtime id patch)
      (fun _ => At t id found (patch.runtimeStatus.getD status) settled) fun _ _ => False :=
  Triple.bind triple_requireServer fun _ => triple_flush patch

theorem triple_updateRuntimeStatus (new : McpServerRuntimeStatus) (lastError : Option String) :
    Triple statusProtocol t (At t id found status settled)
      (updateRuntimeStatus .runtime id new lastError)
      (fun _ => At t id found new settled) fun _ _ => False :=
  Triple.bind triple_requireServer fun _ => triple_flush _

/-- What the session sees is committed, and is true if it is true of the registry. -/
theorem At.commit (h : At t id found status settled w) (hshows : Shows status found) :
    At t id found status True { w with store := w.store.commit schema (t, .runtime) } := by
  obtain ⟨row, hrow, hstatus⟩ := h.sees_some
  have hcommitted : (w.store.commit schema (t, .runtime)).committed.server id = some row := hrow
  have hview : (({ w with store := w.store.commit schema (t, .runtime) } : World).view
      (t, .runtime)).server id = some row := by
    simpa [World.view, Store.view, Store.commit] using hrow
  refine ⟨h.held, h.entry, ?_, ?_, ⟨row, hcommitted⟩, ?_, h.cached, fun _ => ?_⟩
  · change Function.update w.store.pending (t, .runtime) [] (t, .request) = []
    rw [Function.update_of_ne (by simp)]
    exact h.request
  · simp [Store.commit]
  · rw [hview]
    exact congrArg some hstatus
  · intro row' hrow'
    obtain rfl := Option.some.inj (hcommitted.symm.trans hrow')
    rw [h.entry, hstatus]
    exact hshows

theorem triple_commit (hshows : Shows status found) :
    Triple statusProtocol t (At t id found status settled) (await (.commit .runtime))
      (fun _ => At t id found status True) fun _ _ => False := by
  refine triple_statement rfl At.stable (fun _ => At.stable) (fun w h wr hwr id' hheld => ?_) ?_
  · refine h.only wr hwr id' ?_
    rintro rfl
    exact hheld h.held
  · intro w tools reply w' h _ hsucceed
    obtain ⟨-, rfl⟩ := Prod.mk.inj (Option.some.inj hsucceed)
    exact h.commit hshows

/-- The registry changes under the lock, and the committed status need not be true for a while. -/
theorem triple_setHandle (handle : Handle) :
    Triple statusProtocol t (At t id found status settled) (await (.setHandle id handle))
      (fun _ => At t id (some handle) status False) fun _ _ => False := by
  refine Triple.perform At.stable (fun _ => At.stable) (fun _ => stable_false)
    (fun w _ h => ⟨h.held, by simp⟩) ?_
  intro w choice r w' _ h _ _ hexec
  cases choice with
  | fail e poisons => simp [exec, synchronous] at hexec
  | succeed tools =>
      obtain ⟨reply, rfl, hsucceed⟩ := exec_succeed hexec
      obtain ⟨-, rfl⟩ := Prod.mk.inj (Option.some.inj hsucceed)
      refine ⟨h.held, ?_, h.request, h.only, h.present, h.sees, h.cached, False.elim⟩
      rw [List.lookup_append, lookup_filter_self]
      simp

theorem triple_popHandle :
    Triple statusProtocol t (At t id found status settled) (await (.popHandle id))
      (fun _ => At t id none status False) fun _ _ => False := by
  refine Triple.perform At.stable (fun _ => At.stable) (fun _ => stable_false)
    (fun w _ h => ⟨h.held, by simp⟩) ?_
  intro w choice r w' _ h _ _ hexec
  cases choice with
  | fail e poisons => simp [exec, synchronous] at hexec
  | succeed tools =>
      obtain ⟨reply, rfl, hsucceed⟩ := exec_succeed hexec
      obtain ⟨-, rfl⟩ := Prod.mk.inj (Option.some.inj hsucceed)
      exact ⟨h.held, lookup_filter_self id w.handles, h.request, h.only, h.present, h.sees,
        h.cached, False.elim⟩

theorem triple_handleOf :
    Triple statusProtocol t (At t id found status settled) (await (.handleOf id))
      (fun handle w => handle = found ∧ At t id found status settled w) fun _ _ => False := by
  refine Triple.perform At.stable (fun _ => (Stable.const _).and At.stable) (fun _ => stable_false)
    (fun w _ h => ⟨trivial, by simp⟩) ?_
  intro w choice r w' _ h _ _ hexec
  cases choice with
  | fail e poisons => simp [exec, synchronous] at hexec
  | succeed tools =>
      obtain ⟨reply, rfl, hsucceed⟩ := exec_succeed hexec
      obtain ⟨rfl, rfl⟩ := Prod.mk.inj (Option.some.inj hsucceed)
      exact ⟨h.entry, h⟩

/-- The first look at the row, in a fresh session: it is as it is committed. -/
theorem triple_openServer :
    Triple statusProtocol t (fun w => Inside t id w ∧ Fresh t w) (requireServer .runtime id)
      (fun server w => server.id = id ∧ ∃ found status, At t id found status True w)
      fun _ => Inside t id := by
  have hstable : Stable statusProtocol t fun w => Inside t id w ∧ Fresh t w :=
    Inside.stable.and Fresh.stable
  have hopened : Stable statusProtocol t fun w => ∃ found status, At t id found status True w :=
    .exists fun _ => .exists fun _ => At.stable
  have hselect : Triple statusProtocol t (fun w => Inside t id w ∧ Fresh t w)
      (await (.selectServer .runtime id))
      (fun reply w => (reply = none ∧ Inside t id w) ∨
        ∃ server, reply = some server ∧ server.id = id ∧ ∃ found status, At t id found status True w)
      fun _ _ => False := by
    refine triple_statement rfl hstable (fun reply => ?_) (fun _ _ => trivial) ?_
    · refine Stable.or ((Stable.const _).and Inside.stable) (.exists fun server => ?_)
      exact (Stable.const _).and ((Stable.const _).and hopened)
    · rintro w tools reply w' ⟨h, hfresh⟩ - hsucceed
      have hview : w.view (t, .runtime) = w.store.committed := by
        simp [World.view, Store.view, hfresh.pending]
      have hnone : w.instance? (t, .runtime) id = none := by
        simp [World.instance?, hfresh.loaded]
      simp only [succeed, hview, hnone] at hsucceed
      split at hsucceed
      · obtain ⟨rfl, rfl⟩ := Prod.mk.inj (Option.some.inj hsucceed)
        exact .inl ⟨rfl, h⟩
      · rename_i row hrow
        obtain ⟨rfl, rfl⟩ := Prod.mk.inj (Option.some.inj hsucceed)
        have hid := server_id hrow
        refine .inr ⟨row, rfl, hid, w.handles.lookup id, row.runtimeStatus, h.held, rfl, h.request,
          ?_, ⟨row, hrow⟩, ?_, ?_, fun _ => h.truthful⟩
        · intro wr hwr
          change wr ∈ w.store.pending (t, .runtime) at hwr
          simp [hfresh.pending] at hwr
        · change statusOf ((w.view (t, .runtime)).server id) = _
          rw [hview, hrow]
          rfl
        · intro server hserver
          rw [← hid, McpFailures.instance_load] at hserver
          obtain rfl := Option.some.inj hserver
          rfl
  refine Triple.bind (Triple.weaken hselect (fun _ _ h => h) (fun _ _ _ h => h)
    fun _ _ _ h => h.elim) fun reply => Triple.or ?_ ?_
  · cases reply with
    | none => exact Triple.raise Inside.stable fun _ _ h => h.2
    | some server => exact Triple.of_false fun _ _ h => by simp at h
  · cases reply with
    | none =>
        refine Triple.of_false ?_
        rintro w - ⟨server, hserver, -⟩
        simp at hserver
    | some server =>
        refine Triple.done ((Stable.const _).and hopened) ?_
        rintro w - ⟨server', hserver, hid, h⟩
        obtain rfl := Option.some.inj hserver
        exact ⟨hid, h⟩

end Locked

section Bodies

variable {cfg : Settings} {t : TaskId} {id : ServerId} {found : Option Handle}
  {status : McpServerRuntimeStatus} {settled : Prop} {α : Type}

/-- A body that ends under the lock, with a true status on both exits. -/
abbrev Settles (t : TaskId) (id : ServerId) (A : World → Prop) (p : Program α) : Prop :=
  Triple statusProtocol t A p (fun _ => Inside t id) fun _ => Inside t id

theorem weaken_false {A : World → Prop} {p : Program α} {Q : α → World → Prop}
    {E : Exn → World → Prop} (h : Triple statusProtocol t A p Q fun _ _ => False) :
    Triple statusProtocol t A p Q E :=
  Triple.weaken h (fun _ _ h => h) (fun _ _ _ h => h) fun _ _ _ h => h.elim

theorem settles_neutral {p : Program α} (hsettled : settled) (hp : Uses (Neutral id) p) :
    Settles t id (At t id found status settled) p :=
  Triple.weaken (triple_neutral hp) (fun _ _ h => h) (fun _ _ _ h => h.inside hsettled)
    fun _ _ _ h => h.inside hsettled

theorem neutral_response : Uses (Neutral id) (response id) :=
  uses_response ⟨rfl, rfl⟩ rfl

theorem neutral_replaceTools (tools : List Json) :
    Uses (Neutral id) (replaceTools .runtime id tools) :=
  uses_replaceTools tools rfl fun _ => rfl

/-- A failure is stored: an error is true of any registry. -/
theorem settles_recordFailure {server : McpServer} {Q : α → World → Prop} (hid : server.id = id)
    (e : Exn) :
    Triple statusProtocol t (At t id found status True) (recordFailure cfg server e) Q
      fun _ => Inside t id := by
  subst hid
  refine Triple.bind (weaken_false (triple_updateRuntimeStatus _ _)) fun _ => ?_
  refine Triple.bind (weaken_false (triple_commit ⟨by simp, by simp⟩)) fun _ => ?_
  exact Triple.raise Inside.stable fun _ _ h => h.inside trivial

/-- `try ... except Exception` around the parts that may fail. -/
theorem settles_exceptException {A : World → Prop} {p : Program α} {handler : Exn → Program α}
    {Q : α → World → Prop}
    (hp : Triple statusProtocol t A p Q fun _ => At t id found status True)
    (hhandler : ∀ e, Triple statusProtocol t (At t id found status True) (handler e) Q
      fun _ => Inside t id) :
    Triple statusProtocol t A (exceptException p handler) Q fun _ => Inside t id := by
  refine Triple.tryCatch hp fun e => ?_
  split
  · exact hhandler e
  · exact Triple.raise Inside.stable fun _ _ h => h.inside trivial

theorem triple_probe (op : Op) (hop : Neutral id op) :
    Triple statusProtocol t (At t id found status settled) (runOperation cfg op)
      (fun _ => At t id found status settled) fun _ => At t id found status settled :=
  triple_neutral (uses_runOperation cfg hop)

theorem settles_commit (hshows : Shows status found) :
    Settles t id (At t id found status settled) (await (.commit .runtime) >>= fun _ => response id) :=
  Triple.bind (weaken_false (triple_commit hshows)) fun _ =>
    settles_neutral trivial neutral_response

theorem settles_updateAndCommit (new : McpServerRuntimeStatus) (hshows : Shows new found) :
    Settles t id (At t id found status settled) (do
      let _ ← updateRuntimeStatus .runtime id new none
      await (.commit .runtime)
      response id) :=
  Triple.bind (weaken_false (triple_updateRuntimeStatus new none)) fun _ => settles_commit hshows

/-- The repository context ends with its session as new. -/
theorem settles_withRepository {p : Program α}
    (hp : Settles t id (fun w => Inside t id w ∧ Fresh t w) p) :
    Triple statusProtocol t (fun w => Inside t id w ∧ Fresh t w) (withRepository p)
      (fun _ w => Inside t id w ∧ Fresh t w) fun _ w => Inside t id w ∧ Fresh t w := by
  have hstable : Stable statusProtocol t fun w => Inside t id w ∧ Fresh t w :=
    Inside.stable.and Fresh.stable
  have hclose : Triple statusProtocol t (Inside t id) (await (.close .runtime))
      (fun _ w => Inside t id w ∧ Fresh t w) fun _ w => Inside t id w ∧ Fresh t w := by
    refine Triple.perform Inside.stable (fun _ => hstable) (fun _ => hstable)
      (fun _ _ _ => ⟨trivial, by simp⟩) ?_
    intro w choice r w' _ h _ _ hexec
    cases choice with
    | fail e poisons => simp [exec, synchronous] at hexec
    | succeed tools =>
        obtain ⟨reply, rfl, hsucceed⟩ := exec_succeed hexec
        obtain ⟨-, rfl⟩ := Prod.mk.inj (Option.some.inj hsucceed)
        have hrequest : Function.update w.store.pending (t, .runtime) [] (t, .request) = [] := by
          rw [Function.update_of_ne (by simp)]
          exact h.request
        refine ⟨⟨h.held, h.truthful, hrequest⟩, fun conn => ?_, Function.update_self ..⟩
        cases conn with
        | request => exact hrequest
        | runtime => exact Function.update_self ..
  exact Triple.ensuring (fun _ => hstable) (fun _ => hstable) hp (fun _ => hclose) fun _ => hclose

theorem settles_startLocked :
    Triple statusProtocol t (fun w => Inside t id w ∧ Fresh t w) (startLocked cfg id)
      (fun _ w => Inside t id w ∧ Fresh t w) fun _ w => Inside t id w ∧ Fresh t w := by
  refine settles_withRepository (Triple.bind triple_openServer fun server => ?_)
  rintro w hinv ⟨hid, found, status, h⟩
  refine Triple.bind (B := fun _ => At t id found status True)
    (Triple.weaken (triple_neutral (uses_requireSupportedTransport server)) (fun _ _ h => h)
      (fun _ _ _ h => h) fun _ _ _ h => h.inside trivial) (fun _ => ?_) w hinv h
  refine Triple.bind (weaken_false (triple_updateServer _)) fun _ => ?_
  refine Triple.bind (weaken_false triple_handleOf) fun handle => ?_
  rintro w hinv ⟨rfl, h⟩
  revert w
  cases handle with
  | some handle =>
      intro w hinv h
      exact settles_updateAndCommit .running ⟨fun _ => rfl, by simp⟩ w hinv h
  | none =>
      intro w hinv h
      refine Triple.bind (weaken_false (triple_updateRuntimeStatus .starting none)) (fun _ => ?_)
        w hinv h
      refine Triple.bind (settles_exceptException
        (triple_probe (.probeStart server) trivial) (settles_recordFailure hid)) ?_
      rintro ⟨handle, tools⟩
      refine Triple.bind (B := fun _ => At t id none .running True) (settles_exceptException
        (Triple.bind (triple_neutral (neutral_replaceTools tools)) fun _ =>
          Triple.bind (weaken_false (triple_updateRuntimeStatus .running none)) fun _ =>
            Triple.done At.stable fun _ _ h => h) fun e => ?_) fun _ => ?_
      · refine Triple.bind (Triple.weaken (triple_probe (.probeStop handle) trivial)
          (fun _ _ h => h) (fun _ _ _ h => h) fun _ _ _ h => h.inside trivial) fun _ => ?_
        exact settles_recordFailure hid e
      · refine Triple.bind (weaken_false (triple_setHandle handle)) fun _ => ?_
        exact settles_commit ⟨fun _ => rfl, by simp⟩

theorem settles_stopLocked :
    Triple statusProtocol t (fun w => Inside t id w ∧ Fresh t w) (stopLocked cfg id)
      (fun _ w => Inside t id w ∧ Fresh t w) fun _ w => Inside t id w ∧ Fresh t w := by
  refine settles_withRepository (Triple.bind triple_openServer fun server => ?_)
  rintro w hinv ⟨hid, found, status, h⟩
  refine Triple.bind (weaken_false (triple_updateServer _)) (fun _ => ?_) w hinv h
  refine Triple.bind (weaken_false (triple_updateRuntimeStatus .stopping none)) fun _ => ?_
  refine Triple.bind (weaken_false triple_handleOf) fun handle => ?_
  rintro w hinv ⟨rfl, h⟩
  revert w
  have hstopped : ∀ settled, Settles t id (At t id none .stopping settled) (do
      let _ ← updateRuntimeStatus .runtime id .stopped none
      await (.commit .runtime)
      response id) :=
    fun settled => settles_updateAndCommit .stopped ⟨by simp, fun _ => rfl⟩
  cases handle with
  | none => exact fun w hinv h => hstopped True w hinv h
  | some handle =>
      intro w hinv h
      refine Triple.bind (settles_exceptException (triple_probe (.probeStop handle) trivial)
        (settles_recordFailure hid)) (fun _ => ?_) w hinv h
      exact Triple.bind (weaken_false triple_popHandle) fun _ => hstopped False

/-- The tools are stored together with a status that is true of the registry. -/
theorem triple_storeCheck (new : McpServerRuntimeStatus) (tools : List Json)
    (hshows : Shows new found) :
    Triple statusProtocol t (At t id found status True) (storeCheck id new tools)
      (fun _ => At t id found new True) fun _ => At t id found status True :=
  Triple.bind (triple_neutral (neutral_replaceTools tools)) fun _ =>
    Triple.bind (weaken_false (triple_updateRuntimeStatus new none)) fun _ =>
      weaken_false (triple_commit hshows)

theorem settles_checkLocked :
    Triple statusProtocol t (fun w => Inside t id w ∧ Fresh t w) (checkLocked cfg id)
      (fun _ w => Inside t id w ∧ Fresh t w) fun _ w => Inside t id w ∧ Fresh t w := by
  refine settles_withRepository (Triple.bind triple_openServer fun server => ?_)
  rintro w hinv ⟨hid, found, status, h⟩
  refine Triple.bind (B := fun _ => At t id found status True)
    (Triple.weaken (triple_neutral (uses_requireSupportedTransport server)) (fun _ _ h => h)
      (fun _ _ _ h => h) fun _ _ _ h => h.inside trivial) (fun _ => ?_) w hinv h
  refine Triple.bind (weaken_false triple_handleOf) fun handle => ?_
  rintro w hinv ⟨rfl, h⟩
  revert w
  cases handle with
  | some handle =>
      intro w hinv h
      refine Triple.bind (settles_exceptException
        (Triple.bind (triple_probe (.probeListTools handle) trivial) fun tools =>
          triple_storeCheck .running tools ⟨fun _ => rfl, by simp⟩)
        (settles_recordFailure hid)) (fun _ => ?_) w hinv h
      exact settles_neutral trivial neutral_response
  | none =>
      intro w hinv h
      refine Triple.bind (settles_exceptException (triple_probe (.probeStart server) trivial)
        (settles_recordFailure hid)) ?_ w hinv h
      rintro ⟨temporary, tools⟩
      have hstop : Uses (Neutral id) (runOperation cfg (.probeStop temporary)) :=
        uses_runOperation cfg trivial
      refine Triple.bind (B := fun _ => At t id none .stopped True)
        (Triple.ensuring (fun _ => At.stable) (fun _ => Inside.stable)
          (settles_exceptException (triple_storeCheck .stopped tools ⟨by simp, fun _ => rfl⟩)
            (settles_recordFailure hid))
          (fun _ => Triple.weaken (triple_neutral hstop) (fun _ _ h => h) (fun _ _ _ h => h)
            fun _ _ _ h => h.inside trivial)
          fun _ => triple_neutral_inside hstop) fun _ => ?_
      exact settles_neutral trivial neutral_response

end Bodies

end ChangeQuality.McpStatuses
