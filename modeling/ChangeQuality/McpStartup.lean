import ChangeQuality.McpFailures
import ChangeQuality.McpOwnership

/-!
The start of the enabled servers when the application comes up. A start may fail at any of its
awaits; the context in which its failure is recorded does not.
-/

namespace ChangeQuality.McpStartup

open ChangeQuality.Values
open ChangeQuality.McpServers
open ChangeQuality.McpRuntime
open ChangeQuality.McpRedaction
open ChangeQuality.McpSystem
open ChangeQuality.McpLocks
open ChangeQuality.McpOwnership
open ChangeQuality.ReadCommitted
open ChangeQuality.Coroutine
open ChangeQuality.Coroutine.Program (ensuring)
open ChangeQuality.Interference
open ChangeQuality.Solo

/-- `list_startup_servers`. The order of the names is that of the database. -/
def listStartupServers (before : String → String → Bool) (db : Db) : List McpServer :=
  (db.servers.filter fun server => server.enabled ∧ server.desiredState = .running).mergeSort
    fun a b => before a.name b.name

/-- What may fail: the start of a server, which awaits under the lock of that server, with an
`Exception`. -/
def StartsFail (t : TaskId) (_ : Op) (choice : Choice) (w : World) : Prop :=
  match choice with
  | .succeed _ => True
  | .fail e _ => e.isException = true ∧ ∃ id, (w.lock id).holder = some t

/-- The runtime session of the task is as new, and no session has locked a row. -/
structure Closed (t : TaskId) (w : World) : Prop where
  owner : ∀ k, w.store.owner k = none
  pending : w.store.pending (t, .runtime) = []
  loaded : w.loaded (t, .runtime) = []
  valid : w.invalid (t, .runtime) = false

/-- No operation is in flight. -/
structure Idle (t : TaskId) (w : World) : Prop extends Closed t w where
  quiet : Quiet w

/-- The row shows an error, with its text. -/
def ShowsError (row : McpServer) : Prop :=
  row.runtimeStatus = .error ∧ ∃ text, row.lastError = some text ∧ text ≠ ""

/-- What is committed for the server is that it runs, with its handle registered, or its error. -/
def Settled (id : ServerId) (w : World) : Prop :=
  ∃ row, w.store.committed.server id = some row ∧
    (row.runtimeStatus = .running ∧ (w.handles.lookup id).isSome = true ∨ ShowsError row)

section Sessions

/-- What the manager awaits in the repository context of an operation on one server. -/
def ServerOp (id : ServerId) : Op → Prop
  | .selectServer .runtime id' | .setHandle id' _ => id' = id
  | .updateServer .runtime id' patch => id' = id ∧ patch.name = none
  | .deleteTools .runtime _ | .insertTools .runtime _ | .countTools .runtime _ | .commit .runtime
  | .close .runtime | .handleOf _ | .probeStart _ | .probeStop _ => True
  | _ => False

/-- The write changes the row of no other server, and neither adds nor deletes one. -/
structure Confined (id : ServerId) (wr : Write) : Prop where
  other : ∀ id' row, id' ≠ id → onRow id' wr row = row
  keeps : ∀ row, (onRow id wr row).isSome = row.isSome

/-- The task works on one server since `w₀`. -/
structure Within (t : TaskId) (id : ServerId) (w₀ w : World) : Prop where
  lock : w.lock = w₀.lock
  owner : ∀ k, w.store.owner k = none ∨ w.store.owner k = some (t, .runtime)
  confined : ∀ wr ∈ w.store.pending (t, .runtime), Confined id wr
  cached : w.invalid (t, .runtime) = false → ∀ server, w.instance? (t, .runtime) id = some server →
    (w.view (t, .runtime)).server id = some server
  present : (w.store.committed.server id).isSome = true
  rows : ∀ id', id' ≠ id → w.store.committed.server id' = w₀.store.committed.server id'
  entries : ∀ id', id' ≠ id → w.handles.lookup id' = w₀.handles.lookup id'

variable {t : TaskId} {id : ServerId} {op : Op} {choice : Choice} {w₀ w w' : World}
  {r : Except Exn (Reply op)}

theorem confined_all {ws : List Write} (h : ∀ wr ∈ ws, Confined id wr) :
    (∀ id' row, id' ≠ id → onRowAll id' ws row = row) ∧
      ∀ row, (onRowAll id ws row).isSome = row.isSome := by
  constructor
  · intro id' row hne
    exact onRowAll_relation (R := fun row row' => row' = row) (fun _ => rfl)
      (fun h₁ h₂ => h₂.trans h₁) (fun wr hwr row => (h wr hwr).other id' row hne) row
  · exact onRowAll_relation (R := fun row row' => row'.isSome = row.isSome) (fun _ => rfl)
      (fun h₁ h₂ => h₂.trans h₁) fun wr hwr row => (h wr hwr).keeps row

/-- The session sees the row of the server, and of the others nothing that is not committed. -/
theorem Within.view (h : Within t id w₀ w) :
    ((w.view (t, .runtime)).server id).isSome = true ∧
      ∀ id', id' ≠ id → (w.view (t, .runtime)).server id' = w.store.committed.server id' := by
  obtain ⟨hother, hkeeps⟩ := confined_all h.confined
  constructor
  · rw [server_view, hkeeps]
    exact h.present
  · intro id' hne
    rw [server_view, hother id' _ hne]

theorem confined_statement {conn : Conn} {wr : Write} (hop : ServerOp id op)
    (h : Statement t w op conn wr) : Confined id wr := by
  cases h with
  | insertServer => exact hop.elim
  | @updateServer conn id' patch server hserver =>
      cases conn with
      | request => exact hop.elim
      | runtime =>
          obtain ⟨rfl, -⟩ := hop
          exact ⟨fun id row hne => by simp [onRow, Ne.symm hne], fun row => by simp [onRow]⟩
  | deleteServer => exact hop.elim
  | deleteTools => exact ⟨fun _ _ _ => rfl, fun _ => rfl⟩
  | insertTools => exact ⟨fun _ _ _ => rfl, fun _ => rfl⟩

/-- An operation on the server uses the runtime session, if any. -/
theorem runtime_of_serverOp {conn : Conn} (hop : ServerOp id op)
    (hconn : sessionOf op = some conn) : conn = .runtime := by
  cases conn with
  | runtime => rfl
  | request => cases op <;> simp_all [ServerOp, sessionOf]

/-- A statement was carried out on a session that needs no rollback. -/
theorem valid_of_exec {tools : List Json} {conn : Conn} (hconn : sessionOf op = some conn)
    (hexec : exec t op (.succeed tools) w = some (r, w')) : w.invalid (t, conn) = false := by
  simp only [exec, rejected, hconn] at hexec
  cases hinvalid : w.invalid (t, conn) with
  | false => rfl
  | true => simp [hinvalid] at hexec

theorem write_view {x : Txn} {wr : Write} (h : w.write x wr = some w') :
    w'.view x = schema.apply wr (w.view x) := by
  obtain ⟨store, hstore, rfl⟩ := World.write_eq_some h
  exact Store.view_write hstore

theorem write_instance {x : Txn} {wr : Write} (h : w.write x wr = some w') :
    w'.instance? x id = w.instance? x id := by
  simp only [World.instance?, World.write_loaded h]

/-- What a session has loaded of the row is what it sees of it, unless it needs a rollback. -/
theorem Within.exec_cached (h : Within t id w₀ w) (hop : ServerOp id op)
    (hexec : exec t op choice w = some (r, w')) (hvalid : w'.invalid (t, .runtime) = false)
    (server : McpServer) (hserver : w'.instance? (t, .runtime) id = some server) :
    (w'.view (t, .runtime)).server id = some server := by
  cases choice with
  | fail e poisons =>
      obtain ⟨-, -, rfl | ⟨conn, hconn, rfl⟩⟩ := exec_fail hexec
      · cases op <;> first | exact hop.elim | exact h.cached hvalid server hserver
      · obtain rfl := runtime_of_serverOp hop hconn
        simp [World.poison] at hvalid
  | succeed tools =>
      obtain ⟨reply, -, hsucceed⟩ := exec_succeed hexec
      cases op with
      | selectServer conn id' =>
          obtain rfl := runtime_of_serverOp hop rfl
          obtain rfl : id' = id := hop
          simp only [succeed] at hsucceed
          split at hsucceed
          · obtain ⟨-, rfl⟩ := Prod.mk.inj (Option.some.inj hsucceed)
            exact h.cached hvalid server hserver
          next row hrow =>
            split at hsucceed
            · obtain ⟨-, rfl⟩ := Prod.mk.inj (Option.some.inj hsucceed)
              exact h.cached hvalid server hserver
            · obtain ⟨-, rfl⟩ := Prod.mk.inj (Option.some.inj hsucceed)
              rw [← McpOwnership.server_id hrow, McpFailures.instance_load] at hserver
              obtain rfl := Option.some.inj hserver
              exact hrow
      | updateServer conn id' patch =>
          have hbefore := valid_of_exec rfl hexec
          obtain rfl := runtime_of_serverOp hop rfl
          obtain ⟨rfl, -⟩ := hop
          simp only [succeed] at hsucceed
          split at hsucceed
          · simp at hsucceed
          next found hfound =>
            have hsees := h.cached hbefore found hfound
            have hid : found.id = id' := McpOwnership.server_id hsees
            split at hsucceed
            · simp at hsucceed
            · split at hsucceed
              next hnet =>
                obtain ⟨-, rfl⟩ := Prod.mk.inj (Option.some.inj hsucceed)
                rw [← hid, ← McpFailures.apply_id patch, McpFailures.instance_load] at hserver
                obtain rfl := Option.some.inj hserver
                have hsame : patch.apply found = found := by
                  rw [← McpFailures.net_apply, hnet]
                  rfl
                rw [hsame]
                exact hsees
              · obtain ⟨mid, hmid, heq⟩ := Option.map_eq_some_iff.mp hsucceed
                obtain ⟨-, rfl⟩ := Prod.mk.inj heq
                rw [← hid, ← McpFailures.apply_id patch, McpFailures.instance_load] at hserver
                obtain rfl := Option.some.inj hserver
                change (mid.view (t, .runtime)).server id' = _
                rw [write_view hmid, McpFailures.server_update hsees, McpFailures.net_apply]
      | deleteTools conn id' =>
          have hbefore := valid_of_exec rfl hexec
          obtain rfl := runtime_of_serverOp hop rfl
          simp only [succeed] at hsucceed
          obtain ⟨mid, hmid, heq⟩ := Option.map_eq_some_iff.mp hsucceed
          obtain ⟨-, rfl⟩ := Prod.mk.inj heq
          rw [write_instance hmid] at hserver
          rw [write_view hmid]
          exact h.cached hbefore server hserver
      | insertTools conn rows =>
          have hbefore := valid_of_exec rfl hexec
          obtain rfl := runtime_of_serverOp hop rfl
          simp only [succeed] at hsucceed
          split at hsucceed
          · obtain ⟨mid, hmid, heq⟩ := Option.map_eq_some_iff.mp hsucceed
            obtain ⟨-, rfl⟩ := Prod.mk.inj heq
            rw [write_instance hmid] at hserver
            rw [write_view hmid]
            exact h.cached hbefore server hserver
          · simp at hsucceed
      | commit conn =>
          obtain rfl := runtime_of_serverOp hop rfl
          obtain ⟨-, rfl⟩ := Prod.mk.inj (Option.some.inj hsucceed)
          have hsees := h.cached hvalid server hserver
          simpa [World.view, Store.view, Store.commit] using hsees
      | close conn =>
          cases conn with
          | request => exact hop.elim
          | runtime =>
              obtain ⟨-, rfl⟩ := Prod.mk.inj (Option.some.inj hsucceed)
              simp [World.instance?] at hserver
      | countTools conn id' =>
          obtain ⟨-, rfl⟩ := Prod.mk.inj (Option.some.inj hsucceed)
          exact h.cached hvalid server hserver
      | handleOf id' =>
          obtain ⟨-, rfl⟩ := Prod.mk.inj (Option.some.inj hsucceed)
          exact h.cached hvalid server hserver
      | setHandle id' handle =>
          obtain ⟨-, rfl⟩ := Prod.mk.inj (Option.some.inj hsucceed)
          exact h.cached hvalid server hserver
      | probeStart server' =>
          obtain ⟨-, rfl⟩ := Prod.mk.inj (Option.some.inj hsucceed)
          exact h.cached hvalid server hserver
      | probeStop handle =>
          obtain ⟨-, rfl⟩ := Prod.mk.inj (Option.some.inj hsucceed)
          exact h.cached hvalid server hserver
      | _ => exact hop.elim

theorem exec_owner (hop : ServerOp id op) (hexec : exec t op choice w = some (r, w'))
    (howner : ∀ k, w.store.owner k = none ∨ w.store.owner k = some (t, .runtime)) :
    ∀ k, w'.store.owner k = none ∨ w'.store.owner k = some (t, .runtime) := by
  have hrelease : ∀ x k, w.store.release x k = none ∨ w.store.release x k = some (t, .runtime) := by
    intro x k
    unfold Store.release
    split
    · exact .inl rfl
    · exact howner k
  have hchange := exec_change hexec
  generalize w'.store = store at hchange
  cases hchange with
  | stay => exact howner
  | @write conn wr _ hstatement hwrite =>
      have hconn : conn = .runtime := by
        cases hstatement <;> exact runtime_of_serverOp hop rfl
      subst hconn
      exact fun k => Store.owner_write hwrite (howner k)
  | commit _ => exact hrelease _
  | rollback => exact hrelease _

/-- An operation on the server keeps to the server. -/
theorem Within.exec (h : Within t id w₀ w) (hop : ServerOp id op)
    (hexec : McpSystem.exec t op choice w = some (r, w')) : Within t id w₀ w' := by
  have hnot : ¬ LockOp op := by
    intro hlock
    cases op <;> first | exact hlock.elim | exact hop.elim
  have hcommitted : ∀ id', (w'.store.committed.server id' = w.store.committed.server id') ∨
      w'.store.committed.server id' = (w.view (t, .runtime)).server id' := by
    intro id'
    rcases exec_committed hexec with heq | ⟨conn, rfl, heq⟩
    · exact .inl (by rw [heq])
    · obtain rfl := runtime_of_serverOp hop rfl
      exact .inr (by rw [heq])
  obtain ⟨hsees, hsame⟩ := h.view
  refine ⟨?_, exec_owner hop hexec h.owner, ?_, h.exec_cached hop hexec, ?_, ?_, ?_⟩
  · rcases exec_lock hexec with ⟨-, hlock⟩ | ⟨id', l, hchange, -⟩
    · exact hlock.trans h.lock
    · cases hchange <;> exact (hnot trivial).elim
  · intro wr hwr
    rcases exec_pending hexec .runtime with heq | heq | ⟨new, hnew, heq⟩
    · exact h.confined wr (heq ▸ hwr)
    · simp [heq] at hwr
    · rw [heq, List.mem_append, List.mem_singleton] at hwr
      rcases hwr with hwr | rfl
      · exact h.confined wr hwr
      · exact confined_statement hop hnew
  · rcases hcommitted id with heq | heq
    · rw [heq]
      exact h.present
    · rw [heq]
      exact hsees
  · intro id' hne
    rcases hcommitted id' with heq | heq
    · exact heq.trans (h.rows id' hne)
    · exact (heq.trans (hsame id' hne)).trans (h.rows id' hne)
  · intro id' hne
    refine Eq.trans ?_ (h.entries id' hne)
    rcases exec_lookup hexec id' with heq | ⟨handle, rfl, -⟩ | ⟨rfl, -⟩
    · exact heq
    · exact (hne hop).elim
    · exact hop.elim

theorem Closed.within (h : Closed t w) (hpresent : (w.store.committed.server id).isSome = true) :
    Within t id w w where
  lock := rfl
  owner k := .inl (h.owner k)
  confined wr hwr := by simp [h.pending] at hwr
  cached _ server hserver := by simp [World.instance?, h.loaded] at hserver
  present := hpresent
  rows _ _ := rfl
  entries _ _ := rfl

end Sessions

section Programs

variable {t : TaskId} {id : ServerId} {w₀ : World} {α β : Type}

/-- The task is within the start of a server. -/
def Locked (t : TaskId) (w : World) : Prop :=
  ∃ id, (w.lock id).holder = some t

/-- A part of the work on one server: from a state with `A` it comes to its end, with `Q` if it
returns. It raises nothing but an `Exception`, and only within a start. -/
def Works (t : TaskId) (id : ServerId) (w₀ : World) (A : World → Prop) (p : Program α)
    (Q : α → World → Prop) : Prop :=
  ∀ w, Within t id w₀ w → A w → Completes exec StartsFail t
    (outcome (fun a w' => Within t id w₀ w' ∧ Q a w')
      fun e w' => Within t id w₀ w' ∧ e.isException = true ∧ Locked t w₀) p w

variable {A B : World → Prop}

theorem Works.done {Q : α → World → Prop} {a : α}
    (h : ∀ w, Within t id w₀ w → A w → Q a w) : Works t id w₀ A (.done a) Q :=
  fun w hwithin hA => ⟨hwithin, h w hwithin hA⟩

theorem Works.raise {Q : α → World → Prop} {e : Exn} (hlocked : Locked t w₀)
    (he : e.isException = true) : Works t id w₀ A (.raise e) Q :=
  fun _ hwithin _ => ⟨hwithin, he, hlocked⟩

theorem Works.mono {p : Program α} {Q Q' : α → World → Prop} (h : Works t id w₀ A p Q)
    (hA : ∀ w, B w → A w) (hQ : ∀ a w, Q a w → Q' a w) : Works t id w₀ B p Q' := by
  intro w hwithin hB
  refine (h w hwithin (hA w hB)).mono ?_
  rintro (e | a) w' hr
  · exact hr
  · exact ⟨hr.1, hQ a w' hr.2⟩

theorem Works.of_fact {fact : Prop} {p : Program α} {Q : α → World → Prop}
    (h : fact → Works t id w₀ (fun _ => fact) p Q) : Works t id w₀ (fun _ => fact) p Q :=
  fun w hwithin hfact => h hfact w hwithin hfact

theorem Works.bind {p : Program α} {f : α → Program β} {Q : α → World → Prop}
    {Q' : β → World → Prop} (hp : Works t id w₀ A p Q) (hf : ∀ a, Works t id w₀ (Q a) (f a) Q') :
    Works t id w₀ A (p.bind f) Q' := by
  intro w hwithin hA
  refine Completes.bind ((hp w hwithin hA).mono ?_)
  rintro (e | a) w' hr
  · exact hr
  · exact hf a w' hr.1 hr.2

/-- What fails is an `Exception`, so the handler runs. -/
theorem Works.exceptException {p : Program α} {handler : Exn → Program α} {Q : α → World → Prop}
    (hp : Works t id w₀ A p Q)
    (hhandler : ∀ e, e.isException = true → Works t id w₀ (fun _ => True) (handler e) Q) :
    Works t id w₀ A (exceptException p handler) Q := by
  intro w hwithin hA
  refine Completes.tryCatch ((hp w hwithin hA).mono ?_)
  rintro (e | a) w' hr
  · change Completes _ _ _ _ (if e.isException then handler e else throw e) w'
    rw [if_pos hr.2.1]
    exact hhandler e hr.2.1 w' hr.1 trivial
  · exact hr

/-- The rule of one operation, which can fail within a start and is not blocked elsewhere. -/
theorem works_await {op : Op} {Q : Reply op → World → Prop} (hop : ServerOp id op)
    (hruns : ∀ w, Within t id w₀ w → A w → Locked t w₀ ∨
      rejected t op w = false ∧ (succeed t [] w op).isSome = true)
    (hpost : ∀ w tools reply w', Within t id w₀ w → A w →
      exec t op (.succeed tools) w = some (.ok reply, w') →
      succeed t tools w op = some (reply, w') → Q reply w') :
    Works t id w₀ A (await op) Q := by
  intro w hwithin hA
  have hsucceeds : rejected t op w = false → (succeed t [] w op).isSome = true →
      ∃ choice, StartsFail t op choice w ∧ (exec t op choice w).isSome = true := by
    intro hrejected hsome
    exact ⟨.succeed [], trivial, by simp [exec, hrejected, hsome]⟩
  refine ⟨?_, fun choice r w' hallowed hexec => ?_⟩
  · rcases hruns w hwithin hA with ⟨id', hheld⟩ | ⟨hrejected, hsome⟩
    · cases hsync : synchronous op with
      | false =>
          refine ⟨.fail .keyError false, ⟨rfl, id', ?_⟩, by simp [exec, hsync]⟩
          rw [hwithin.lock]
          exact hheld
      | true =>
          cases op <;> first
            | exact hop.elim
            | exact hsucceeds rfl rfl
            | cases hsync
    · exact hsucceeds hrejected hsome
  · have hwithin' := hwithin.exec hop hexec
    refine Completes.leave ?_
    cases choice with
    | fail e poisons =>
        obtain ⟨-, rfl, -⟩ := exec_fail hexec
        obtain ⟨he, id', hheld⟩ := hallowed
        refine ⟨hwithin', he, id', ?_⟩
        rw [← hwithin.lock]
        exact hheld
    | succeed tools =>
        obtain ⟨reply, rfl, hsucceed⟩ := exec_succeed hexec
        exact ⟨hwithin', hpost w tools reply w' hwithin hA hexec hsucceed⟩

/-- A statement of the session can go on: it can fail, or the session accepts it. -/
def Usable (t : TaskId) (w₀ w : World) : Prop :=
  Locked t w₀ ∨ w.invalid (t, .runtime) = false

/-- The session has the row of the server loaded. -/
structure Loaded (t : TaskId) (id : ServerId) (server : McpServer) (w : World) : Prop where
  valid : w.invalid (t, .runtime) = false
  cached : w.instance? (t, .runtime) id = some server

theorem Loaded.usable {server : McpServer} {w : World} (h : Loaded t id server w) :
    Usable t w₀ w :=
  .inr h.valid

theorem works_requireServer (hB : ∀ w row, B w → B (w.load (t, .runtime) row)) :
    Works t id w₀ (fun w => Usable t w₀ w ∧ B w) (requireServer .runtime id)
      fun server w => (server.id = id ∧ Loaded t id server w) ∧ B w := by
  have hselect : Works t id w₀ (fun w => Usable t w₀ w ∧ B w) (await (.selectServer .runtime id))
      fun found w => ∃ server, found = some server ∧
        (server.id = id ∧ Loaded t id server w) ∧ B w := by
    refine works_await rfl (fun w _ h => h.1.imp_right fun hvalid => ⟨hvalid, ?_⟩) ?_
    · simp only [succeed]
      split
      · rfl
      · split <;> rfl
    · intro w tools reply w' hwithin h hexec hsucceed
      have hvalid := valid_of_exec rfl hexec
      simp only [succeed] at hsucceed
      split at hsucceed
      next hnone =>
        have hsome := hwithin.view.1
        simp [hnone] at hsome
      next row hrow =>
        split at hsucceed
        next server hserver =>
          obtain ⟨rfl, rfl⟩ := Prod.mk.inj (Option.some.inj hsucceed)
          have hid := McpOwnership.server_id (hwithin.cached hvalid server hserver)
          exact ⟨server, rfl, ⟨hid, hvalid, hserver⟩, h.2⟩
        · obtain ⟨rfl, rfl⟩ := Prod.mk.inj (Option.some.inj hsucceed)
          have hid := McpOwnership.server_id hrow
          exact ⟨row, rfl, ⟨hid, hvalid, hid ▸ McpFailures.instance_load w _ row⟩, hB w row h.2⟩
  refine hselect.bind fun found => ?_
  cases found with
  | none =>
      rintro w - ⟨server, hfound, -⟩
      cases hfound
  | some server =>
      refine Works.done ?_
      rintro w - ⟨server', hfound, h⟩
      obtain rfl := Option.some.inj hfound
      exact h

/-- A flush of the row, whose instance is loaded. -/
theorem works_flushServer {server : McpServer} {C : List (ServerId × Handle) → Prop}
    (patch : McpServerPatch) (hname : patch.name = none) :
    Works t id w₀ (fun w => (server.id = id ∧ Loaded t id server w) ∧ C w.handles)
      (await (.updateServer .runtime id patch))
      fun _ w => Loaded t id (patch.apply server) w ∧ C w.handles := by
  have hnetname : (patch.net server).name = none := by simp [McpServerPatch.net, hname]
  refine works_await ⟨rfl, hname⟩ (fun w hwithin h => .inr ⟨h.1.2.valid, ?_⟩) ?_
  · obtain ⟨⟨-, hloaded⟩, -⟩ := h
    have hwrite : (w.write (t, .runtime) (.updateServer id (patch.net server))).isSome = true := by
      rw [World.write, Option.isSome_map]
      refine Store.write_isSome _ fun k hk => ?_
      exact hwithin.owner k
    simp only [succeed, hloaded.cached, hnetname]
    split
    · simp_all
    · split
      · rfl
      · rw [Option.isSome_map]
        exact hwrite
  · rintro w tools reply w' hwithin ⟨⟨hid, hloaded⟩, hC⟩ hexec hsucceed
    have hpatched : ∀ v : World, v.invalid (t, .runtime) = false →
        Loaded t id (patch.apply server) (v.load (t, .runtime) (patch.apply server)) := by
      intro v hvalid
      refine ⟨hvalid, ?_⟩
      rw [← hid, ← McpFailures.apply_id patch]
      exact McpFailures.instance_load v _ _
    simp only [succeed, hloaded.cached] at hsucceed
    split at hsucceed
    · simp at hsucceed
    · split at hsucceed
      · obtain ⟨-, rfl⟩ := Prod.mk.inj (Option.some.inj hsucceed)
        exact ⟨hpatched w hloaded.valid, hC⟩
      · obtain ⟨mid, hmid, heq⟩ := Option.map_eq_some_iff.mp hsucceed
        obtain ⟨store, -, rfl⟩ := World.write_eq_some hmid
        obtain ⟨-, rfl⟩ := Prod.mk.inj heq
        exact ⟨hpatched _ hloaded.valid, hC⟩

theorem works_updateServer {C : List (ServerId × Handle) → Prop} (patch : McpServerPatch)
    (hname : patch.name = none) :
    Works t id w₀ (fun w => Usable t w₀ w ∧ C w.handles) (McpRuntime.updateServer .runtime id patch)
      fun _ w => (∃ server, Loaded t id (patch.apply server) w) ∧ C w.handles :=
  (works_requireServer (B := fun w => C w.handles) fun _ _ h => h).bind fun server =>
    (works_flushServer patch hname).mono (fun _ h => h) fun _ _ h => ⟨⟨server, h.1⟩, h.2⟩

/-- The committed row of the server, and what is said of the registry. -/
structure Stored (id : ServerId) (φ : McpServer → Prop) (C : List (ServerId × Handle) → Prop)
    (w : World) : Prop where
  row : ∃ server, w.store.committed.server id = some server ∧ φ server
  handles : C w.handles

theorem works_commit {φ : McpServer → Prop} {C : List (ServerId × Handle) → Prop} :
    Works t id w₀ (fun w => (∃ server, Loaded t id server w ∧ φ server) ∧ C w.handles)
      (await (.commit .runtime)) fun _ w => Stored id φ C w ∧ w.invalid (t, .runtime) = false := by
  refine works_await trivial (fun w _ ⟨⟨_, h, _⟩, _⟩ => .inr ⟨h.valid, rfl⟩) ?_
  rintro w tools reply w' hwithin ⟨⟨server, hloaded, hφ⟩, hC⟩ hexec hsucceed
  obtain ⟨-, rfl⟩ := Prod.mk.inj (Option.some.inj hsucceed)
  have hsees := hwithin.cached hloaded.valid server hloaded.cached
  exact ⟨⟨⟨server, hsees, hφ⟩, hC⟩, hloaded.valid⟩

theorem works_setHandle {handle : Handle} {φ : McpServer → Prop} :
    Works t id w₀ (fun w => ∃ server, Loaded t id server w ∧ φ server)
      (await (.setHandle id handle)) fun _ w => (∃ server, Loaded t id server w ∧ φ server) ∧
        (w.handles.lookup id).isSome = true := by
  refine works_await rfl (fun w _ h => .inr ⟨rfl, rfl⟩) ?_
  rintro w tools reply w' hwithin ⟨server, h, hφ⟩ hexec hsucceed
  obtain ⟨-, rfl⟩ := Prod.mk.inj (Option.some.inj hsucceed)
  refine ⟨⟨server, ⟨h.valid, h.cached⟩, hφ⟩, ?_⟩
  rw [List.lookup_append, lookup_filter_self]
  simp

theorem works_response {φ : McpServer → Prop} {C : List (ServerId × Handle) → Prop}
    (hlocked : Locked t w₀) :
    Works t id w₀ (Stored id φ C) (response id) fun _ => Stored id φ C := by
  refine Works.bind (Q := fun _ => Stored id φ C) ?_ fun server => ?_
  · exact (works_requireServer fun _ _ h => ⟨h.row, h.handles⟩).mono (fun _ h => ⟨.inl hlocked, h⟩)
      fun _ _ h => h.2
  · refine Works.bind (Q := fun _ => Stored id φ C) ?_ fun count => Works.done fun _ _ h => h
    refine works_await trivial (fun _ _ _ => .inl hlocked) ?_
    rintro w tools reply w' - h - hsucceed
    obtain ⟨-, rfl⟩ := Prod.mk.inj (Option.some.inj hsucceed)
    exact h

/-- An operation within a start, of which nothing is remembered. -/
theorem works_try {op : Op} (hop : ServerOp id op) (hlocked : Locked t w₀) :
    Works t id w₀ A (await op) fun _ _ => True :=
  works_await hop (fun _ _ _ => .inl hlocked) fun _ _ _ _ _ _ _ _ => trivial

theorem works_toolModels (hlocked : Locked t w₀) (tools : List Json) :
    Works t id w₀ A (toolModels id tools) fun _ => A := by
  induction tools with
  | nil => exact Works.done fun _ _ h => h
  | cons tool tools ih =>
      have hmodel : Works t id w₀ A (toolModel id tool) fun _ => A := by
        refine Works.bind (Q := fun _ => A) ?_ fun name => Works.done fun _ _ h => h
        unfold toolName
        split
        · exact Works.done fun _ _ h => h
        · exact Works.raise hlocked rfl
      exact hmodel.bind fun row => ih.bind fun rows => Works.done fun _ _ h => h

theorem works_replaceTools (hlocked : Locked t w₀) (tools : List Json) :
    Works t id w₀ A (replaceTools .runtime id tools) fun _ _ => True := by
  refine Works.bind (works_try ?_ hlocked) fun _ => ?_
  · trivial
  · exact (works_toolModels hlocked tools).bind fun rows => works_try trivial hlocked

theorem works_runOperation (cfg : Settings) {op : Op} (hop : ServerOp id op)
    (hlocked : Locked t w₀) : Works t id w₀ A (runOperation cfg op) fun _ _ => True := by
  have htry : Works t id w₀ A (await op) fun _ _ => True := works_try hop hlocked
  unfold runOperation
  split
  · exact htry
  · intro w hwithin hA
    refine Completes.tryCatch ((htry w hwithin hA).mono ?_)
    rintro (e | a) w' hr
    · cases e <;> exact hr
    · exact hr

theorem works_recordFailure {cfg : Settings} {server : McpServer} {e : Exn} {Q : α → World → Prop}
    (hid : server.id = id) (hlocked : Locked t w₀) (he : e.isException = true) :
    Works t id w₀ A (recordFailure cfg server e) Q := by
  subst hid
  refine Works.bind (Q := fun _ w => (∃ old, Loaded t server.id old w ∧ True) ∧ True) ?_ fun _ => ?_
  · refine (works_updateServer (C := fun _ => True) _ rfl).mono
      (fun _ _ => ⟨.inl hlocked, trivial⟩) ?_
    rintro - w ⟨⟨old, h⟩, -⟩
    exact ⟨⟨_, h, trivial⟩, trivial⟩
  · refine Works.bind (works_commit (C := fun _ => True)) fun _ => Works.raise hlocked he

end Programs

section Starts

variable {cfg : Settings} {t : TaskId} {id : ServerId} {w₀ w : World} {α : Type} {A : World → Prop}
  {φ : McpServer → Prop} {C : List (ServerId × Handle) → Prop}

/-- What is committed says that the server runs, and its handle is registered. -/
abbrev Running (id : ServerId) : World → Prop :=
  Stored id (fun server => server.runtimeStatus = .running) fun handles =>
    (handles.lookup id).isSome = true

theorem works_requireSupportedTransport (hlocked : Locked t w₀) (server : McpServer) :
    Works t id w₀ A (requireSupportedTransport server) fun _ _ => True := by
  unfold requireSupportedTransport
  split
  · exact Works.done fun _ _ _ => trivial
  · exact Works.done fun _ _ _ => trivial
  · exact Works.raise hlocked rfl

/-- A patch of the row, of which nothing is remembered. -/
theorem works_patch (hlocked : Locked t w₀) (patch : McpServerPatch) (hname : patch.name = none) :
    Works t id w₀ A (McpRuntime.updateServer .runtime id patch) fun _ _ => True :=
  (works_updateServer (C := fun _ => True) patch hname).mono
    (fun _ _ => ⟨.inl hlocked, trivial⟩) fun _ _ _ => trivial

theorem works_showRunning (hlocked : Locked t w₀) :
    Works t id w₀ (fun w => C w.handles) (updateRuntimeStatus .runtime id .running none)
      fun _ w => (∃ server, Loaded t id server w ∧ server.runtimeStatus = .running) ∧
        C w.handles := by
  refine (works_updateServer (C := C) _ rfl).mono (fun _ h => ⟨.inl hlocked, h⟩) ?_
  rintro - w ⟨⟨server, h⟩, hC⟩
  exact ⟨⟨_, h, rfl⟩, hC⟩

theorem works_handleOf :
    Works t id w₀ A (await (.handleOf id)) fun found w => found = w.handles.lookup id := by
  refine works_await trivial (fun w _ h => .inr ⟨rfl, rfl⟩) ?_
  rintro w tools reply w' - - - hsucceed
  obtain ⟨rfl, rfl⟩ := Prod.mk.inj (Option.some.inj hsucceed)
  rfl

theorem works_commitRunning (hlocked : Locked t w₀) :
    Works t id w₀
      (fun w => (∃ server, Loaded t id server w ∧ server.runtimeStatus = .running) ∧
        (w.handles.lookup id).isSome = true)
      (await (.commit .runtime) >>= fun _ => response id) fun _ => Running id :=
  ((works_commit (φ := fun server => server.runtimeStatus = .running)
    (C := fun handles => (handles.lookup id).isSome = true)).mono (fun _ h => h)
      fun _ _ h => h.1).bind fun _ => works_response hlocked

/-- The body of `_start_locked`, in the repository context. -/
theorem works_startLocked (hlocked : Locked t w₀) :
    ∃ body, startLocked cfg id = withRepository body ∧
      Works t id w₀ (fun _ => True) body fun _ => Running id := by
  refine ⟨_, rfl, ?_⟩
  refine Works.bind (Q := fun server _ => server.id = id) ?_ fun server => ?_
  · exact (works_requireServer (B := fun _ => True) fun _ _ _ => trivial).mono
      (fun _ _ => ⟨.inl hlocked, trivial⟩) fun _ _ h => h.1.1
  · refine Works.of_fact fun hid => ?_
    refine Works.bind (works_requireSupportedTransport hlocked server) fun _ => ?_
    refine Works.bind (works_patch hlocked _ rfl) fun _ => ?_
    refine Works.bind works_handleOf fun found => ?_
    cases found with
    | some handle =>
        refine Works.bind ((works_showRunning
          (C := fun handles => (handles.lookup id).isSome = true) hlocked).mono (fun w h => ?_)
            fun _ _ h => h) fun _ => works_commitRunning hlocked
        simp [← h]
    | none =>
        refine Works.bind (works_patch hlocked _ rfl) fun _ => ?_
        refine Works.bind (Works.exceptException (works_runOperation cfg ?_ hlocked) fun e he =>
          works_recordFailure hid hlocked he) ?_
        · trivial
        rintro ⟨handle, tools⟩
        refine Works.bind (Q := fun _ w => ∃ server, Loaded t id server w ∧
          server.runtimeStatus = .running) (Works.exceptException ?_ fun e he => ?_) fun _ => ?_
        · refine Works.bind (works_replaceTools hlocked tools) fun _ => ?_
          refine Works.bind (works_showRunning (C := fun _ => True) hlocked) fun _ => ?_
          exact Works.done fun _ _ h => h.1
        · refine Works.bind (works_runOperation cfg ?_ hlocked) fun _ =>
            works_recordFailure hid hlocked he
          trivial
        · exact works_setHandle.bind fun _ => works_commitRunning hlocked

theorem completes_close {Q : Except Exn Unit → World → Prop} (hwithin : Within t id w₀ w)
    (hQ : ∀ w', Within t id w₀ w' → Closed t w' → w'.store.committed = w.store.committed →
      w'.handles = w.handles → Q (.ok ()) w') :
    Completes exec StartsFail t Q (await (.close .runtime)) w := by
  refine ⟨⟨.succeed [], trivial, rfl⟩, fun choice r w' hallowed hexec => .leave ?_⟩
  have hop : ServerOp id (.close .runtime) := trivial
  have hwithin' := hwithin.exec hop hexec
  cases choice with
  | fail e poisons => simp [exec, synchronous] at hexec
  | succeed tools =>
      obtain ⟨reply, rfl, hsucceed⟩ := exec_succeed hexec
      obtain ⟨-, rfl⟩ := Prod.mk.inj (Option.some.inj hsucceed)
      refine hQ _ hwithin' ⟨fun k => ?_, ?_, ?_, ?_⟩ rfl rfl
      · rcases hwithin.owner k with howner | howner <;>
          simp [Store.rollback, Store.release, howner]
      · exact Function.update_self ..
      · exact Function.update_self ..
      · exact Function.update_self ..

/-- The repository context closes the session on both exits. -/
theorem completes_withRepository {body : Program α}
    (hbody : Works t id w₀ A body fun _ => Stored id φ C) (hwithin : Within t id w₀ w) (hA : A w) :
    Completes exec StartsFail t
      (outcome (fun _ w' => (Within t id w₀ w' ∧ Closed t w') ∧ Stored id φ C w')
        fun e w' => (Within t id w₀ w' ∧ Closed t w') ∧ e.isException = true ∧ Locked t w₀)
      (withRepository body) w := by
  refine Completes.ensuring ((hbody w hwithin hA).mono ?_)
  rintro (e | a) w' hr
  · exact completes_close hr.1 fun w'' hwithin' hclosed _ _ => ⟨⟨hwithin', hclosed⟩, hr.2⟩
  · refine completes_close hr.1 fun w'' hwithin' hclosed hcommitted hhandles => ?_
    obtain ⟨⟨server, hrow, hφ⟩, hC⟩ := hr.2
    exact ⟨⟨hwithin', hclosed⟩, ⟨server, by rw [hcommitted]; exact hrow, hφ⟩,
      by rw [hhandles]; exact hC⟩

/-- A start of one server, whatever fails in it. -/
theorem completes_start (hsingle : cfg.singleInstanceConfirmed = true) (hidle : Idle t w)
    (hpresent : (w.store.committed.server id).isSome = true) :
    Completes exec StartsFail t
      (outcome (fun _ w' => (Within t id w w' ∧ Idle t w') ∧ Running id w')
        fun e w' => (Within t id w w' ∧ Idle t w') ∧ e.isException = true)
      (McpRuntime.start cfg id) w := by
  have hlock : w.lock id = {} := hidle.quiet id
  let w₁ := w.setLock id { holder := some t }
  have hlocked : Locked t w₁ := ⟨id, by simp [w₁, World.setLock]⟩
  have hclosed : Closed t w₁ := ⟨hidle.owner, hidle.pending, hidle.loaded, hidle.valid⟩
  -- giving the lock back makes every lock what it was
  have hrelease : ∀ {w'} {Q : Except Exn Unit → World → Prop}, Within t id w₁ w' → Closed t w' →
      (∀ w'', Within t id w w'' → Idle t w'' → w''.store.committed = w'.store.committed →
        w''.handles = w'.handles → Q (.ok ()) w'') →
      Completes exec StartsFail t Q (await (.release id)) w' := by
    intro w' Q hwithin hclosed hQ
    refine ⟨⟨.succeed [], trivial, rfl⟩, fun choice r w'' hallowed hexec => .leave ?_⟩
    cases choice with
    | fail e poisons => simp [exec, synchronous] at hexec
    | succeed tools =>
        obtain ⟨reply, rfl, hsucceed⟩ := exec_succeed hexec
        obtain ⟨-, rfl⟩ := Prod.mk.inj (Option.some.inj hsucceed)
        have hsame : Function.update w'.lock id { w'.lock id with holder := none } = w.lock := by
          rw [hwithin.lock]
          funext id'
          by_cases hid : id' = id
          · subst hid
            simp [w₁, World.setLock, hlock]
          · simp [w₁, World.setLock, hid]
        refine hQ _ ⟨hsame, hwithin.owner, hwithin.confined, hwithin.cached, hwithin.present,
          hwithin.rows, hwithin.entries⟩ ⟨⟨hclosed.owner, hclosed.pending, hclosed.loaded,
          hclosed.valid⟩, fun id' => ?_⟩ rfl rfl
        exact (congrFun hsame id').trans (hidle.quiet id')
  obtain ⟨body, hbody, hworks⟩ : ∃ body, startLocked cfg id = withRepository body ∧
      Works t id w₁ (fun _ => True) body fun _ => Running id := works_startLocked hlocked
  have hstart : McpRuntime.start cfg id = withLock id (startLocked cfg id) := by
    simp only [McpRuntime.start, requireRuntimeEnabled, hsingle, if_true]
    rfl
  rw [hstart, hbody]
  refine ⟨⟨.succeed [], trivial, ?_⟩, fun choice r w' hallowed hexec => ?_⟩
  · simp [exec, rejected, sessionOf, succeed, hlock]
  · cases choice with
    | fail e poisons => simp [exec, synchronous] at hexec
    | succeed tools =>
        obtain ⟨taken, rfl, hsucceed⟩ := exec_succeed hexec
        simp only [succeed, hlock, and_self, if_true] at hsucceed
        obtain ⟨rfl, rfl⟩ := Prod.mk.inj (Option.some.inj hsucceed)
        have hwithin : Within t id w₁ w₁ := hclosed.within hpresent
        refine Completes.ensuring ((completes_withRepository hworks hwithin trivial).mono ?_)
        rintro (e | a) w' hr
        · exact hrelease hr.1.1 hr.1.2 fun w'' hwithin' hidle' _ _ =>
            ⟨⟨hwithin', hidle'⟩, hr.2.1⟩
        · refine hrelease hr.1.1 hr.1.2 fun w'' hwithin' hidle' hcommitted hhandles => ?_
          obtain ⟨⟨server, hrow, hstatus⟩, hhandle⟩ := hr.2
          exact ⟨⟨hwithin', hidle'⟩, ⟨server, by rw [hcommitted]; exact hrow, hstatus⟩,
            by rw [hhandles]; exact hhandle⟩

end Starts

section Startup

variable {cfg : Settings} {t : TaskId} {id : ServerId} {w₀ w w' : World}

theorem Idle.not_locked (h : Idle t w) : ¬ Locked t w := by
  rintro ⟨id, hheld⟩
  rw [h.quiet id] at hheld
  cases hheld

theorem Idle.of_within (h : Idle t w) (hwithin : Within t id w w') (hclosed : Closed t w') :
    Idle t w' :=
  ⟨hclosed, fun id' => by rw [hwithin.lock]; exact h.quiet id'⟩

theorem Within.trans {w₁ : World} (h : Within t id w₀ w₁) (h' : Within t id w₁ w) :
    Within t id w₀ w where
  lock := h'.lock.trans h.lock
  owner := h'.owner
  confined := h'.confined
  cached := h'.cached
  present := h'.present
  rows id' hne := (h'.rows id' hne).trans (h.rows id' hne)
  entries id' hne := (h'.entries id' hne).trans (h.entries id' hne)

/-- What the startup does with one server: it raises nothing and settles the server. -/
def Settles (t : TaskId) (body : McpServer → Program Unit) : Prop :=
  ∀ server w, Idle t w → (w.store.committed.server server.id).isSome = true →
    Completes exec StartsFail t
      (fun r w' => r = .ok () ∧ Idle t w' ∧ Within t server.id w w' ∧ Settled server.id w')
      (body server) w

theorem works_recordError {text : String} (htext : text ≠ "") :
    Works t id w₀ (Usable t w₀) (updateRuntimeStatus .runtime id .error (some text) >>= fun _ =>
      await (.commit .runtime)) fun _ => Stored id ShowsError fun _ => True := by
  refine Works.bind (Q := fun _ w => (∃ server, Loaded t id server w ∧ ShowsError server) ∧ True)
    ?_ fun _ => works_commit.mono (fun _ h => h) fun _ _ h => h.1
  refine (works_updateServer (C := fun _ => True) _ rfl).mono (fun _ h => ⟨h, trivial⟩) ?_
  rintro - w ⟨⟨server, h⟩, -⟩
  exact ⟨⟨_, h, rfl, text, rfl, htext⟩, trivial⟩

/-- A repository context outside of a start, which does not fail, with an error recorded in it. -/
theorem completes_recordError {body : Program Unit} (hidle : Idle t w)
    (hpresent : (w.store.committed.server id).isSome = true)
    (hbody : Works t id w (fun w' => Usable t w w' ∧ w'.store.pending (t, .runtime) = []) body
      fun _ => Stored id ShowsError fun _ => True) :
    Completes exec StartsFail t
      (fun r w' => r = .ok () ∧ Idle t w' ∧ Within t id w w' ∧ Settled id w') (withRepository body)
      w := by
  have hwithin : Within t id w w := hidle.toClosed.within hpresent
  refine (completes_withRepository hbody hwithin ⟨.inr hidle.valid, hidle.pending⟩).mono ?_
  rintro (e | ⟨⟩) w' hr
  · exact (hidle.not_locked hr.2.2).elim
  · obtain ⟨⟨hwithin', hclosed⟩, ⟨server, hrow, hshows⟩, -⟩ := hr
    exact ⟨rfl, hidle.of_within hwithin' hclosed, hwithin', server, hrow, .inr hshows⟩

theorem settles_refuseStartup : Settles t refuseStartup := by
  intro server w hidle hpresent
  refine completes_recordError hidle hpresent ?_
  exact (works_recordError (by decide)).mono (fun _ h => h.1) fun _ _ h => h

/-- The error of a failed start is recorded unless the start has recorded it. -/
theorem works_fallback {server : McpServer} {e : Exn} (htext : cfg.sanitizeMcpError e server ≠ "") :
    Works t server.id w₀ (fun w => Usable t w₀ w ∧ w.store.pending (t, .runtime) = [])
      (do
        let current ← requireServer .runtime server.id
        if current.runtimeStatus ≠ .error ∨ current.lastError.getD "" = "" then
          let _ ← updateRuntimeStatus .runtime server.id .error
            (some (cfg.sanitizeMcpError e server))
          await (.commit .runtime))
      fun _ => Stored server.id ShowsError fun _ => True := by
  refine Works.bind (works_requireServer (B := fun w => w.store.pending (t, .runtime) = [])
    fun _ _ h => h) fun current => ?_
  by_cases hshown : current.runtimeStatus ≠ .error ∨ current.lastError.getD "" = ""
  · rw [if_pos hshown]
    exact (works_recordError htext).mono (fun _ h => h.1.2.usable) fun _ _ h => h
  · rw [if_neg hshown]
    simp only [not_or, ne_eq, not_not] at hshown
    obtain ⟨hstatus, hnonempty⟩ := hshown
    refine Works.done ?_
    rintro w hwithin ⟨⟨-, hloaded⟩, hpending⟩
    have hsees := hwithin.cached hloaded.valid current hloaded.cached
    rw [server_view, hpending] at hsees
    refine ⟨⟨current, hsees, hstatus, ?_⟩, trivial⟩
    cases htext : current.lastError with
    | none => simp [htext] at hnonempty
    | some text => exact ⟨text, rfl, by simpa [htext] using hnonempty⟩

theorem settles_startAtStartup (hsingle : cfg.singleInstanceConfirmed = true)
    (htext : ∀ e server, cfg.sanitizeMcpError e server ≠ "") :
    Settles t (startAtStartup cfg) := by
  intro server w hidle hpresent
  refine Completes.tryCatch (Completes.bind ?_)
  refine (completes_start hsingle hidle hpresent).mono ?_
  rintro (e | response) w' hr
  · obtain ⟨⟨hwithin, hidle'⟩, he⟩ := hr
    change Completes _ _ _ _ (if e.isException then _ else throw e) w'
    rw [if_pos he]
    refine (completes_recordError hidle' hwithin.present (works_fallback (htext e server))).mono ?_
    rintro r w'' ⟨rfl, hidle'', hwithin', hsettled⟩
    exact ⟨rfl, hidle'', hwithin.trans hwithin', hsettled⟩
  · obtain ⟨⟨hwithin, hidle'⟩, ⟨server', hrow, hstatus⟩, hhandle⟩ := hr
    exact ⟨rfl, hidle', hwithin, server', hrow, .inl ⟨hstatus, hhandle⟩⟩

/-- Work on one server leaves the others settled. -/
theorem Settled.within {id' : ServerId} (h : Settled id' w) (hwithin : Within t id w w')
    (hsettled : Settled id w') : Settled id' w' := by
  by_cases hid : id' = id
  · subst hid
    exact hsettled
  · obtain ⟨row, hrow, hshows⟩ := h
    exact ⟨row, (hwithin.rows id' hid).trans hrow, by rw [hwithin.entries id' hid]; exact hshows⟩

theorem Within.keeps_present (h : Within t id w w') (id' : ServerId)
    (hpresent : (w.store.committed.server id').isSome = true) :
    (w'.store.committed.server id').isSome = true := by
  by_cases hid : id' = id
  · subst hid
    exact h.present
  · rw [h.rows id' hid]
    exact hpresent

/-- By induction on the servers: those that were settled before stay so. -/
theorem completes_forEachServer {body : McpServer → Program Unit} (hbody : Settles t body)
    (servers : List McpServer) {w : World} (hidle : Idle t w)
    (hpresent : ∀ server ∈ servers, (w.store.committed.server server.id).isSome = true) :
    Completes exec StartsFail t
      (fun r w' => r = .ok () ∧ (∀ server ∈ servers, Settled server.id w') ∧
        ∀ id, Settled id w → Settled id w')
      (forEachServer body servers) w := by
  induction servers generalizing w with
  | nil => exact ⟨rfl, by simp, fun _ h => h⟩
  | cons server servers ih =>
      refine Completes.bind ((hbody server w hidle (hpresent server (by simp))).mono ?_)
      rintro _ w₁ ⟨rfl, hidle₁, hwithin, hsettled⟩
      have hpresent₁ : ∀ other ∈ servers, (w₁.store.committed.server other.id).isSome = true :=
        fun other hother => hwithin.keeps_present other.id (hpresent other (by simp [hother]))
      refine (ih hidle₁ hpresent₁).mono ?_
      rintro r w' ⟨hr, hservers, hkeeps⟩
      refine ⟨hr, ?_, fun id h => hkeeps id (h.within hwithin hsettled)⟩
      intro other hother
      rcases List.mem_cons.mp hother with rfl | hother
      · exact hkeeps _ hsettled
      · exact hservers other hother

theorem mem_listStartupServers {before : String → String → Bool} {db : Db} {server : McpServer}
    (h : server ∈ listStartupServers before db) : (db.server server.id).isSome = true := by
  have hmem : server ∈ db.servers := by
    simp only [listStartupServers, List.mem_mergeSort, List.mem_filter] at h
    exact h.1
  rw [Db.server, List.find?_isSome]
  exact ⟨server, hmem, by simp⟩

/-- **Startup.** Whatever `Exception` the starts raise at whichever await, `start_enabled_servers`
goes through the servers, raises nothing, and leaves each of them running with its handle registered
or with its error committed. -/
theorem startEnabledServers_settles (singleInstanceConfirmed : Bool)
    (operationTimeoutSeconds : Option Nat) (isWord : Char → Bool) (str : Exn → String)
    (servers : List McpServer) (hidle : Idle t w)
    (hselected : ∀ server ∈ servers, (w.store.committed.server server.id).isSome = true) :
    Completes exec StartsFail t
      (fun r w' => r = .ok () ∧ ∀ server ∈ servers, Settled server.id w')
      (startEnabledServers
        (McpFailures.settings singleInstanceConfirmed operationTimeoutSeconds isWord str) servers)
      w := by
  have hloop : ∀ {body : McpServer → Program Unit}, Settles t body → Completes exec StartsFail t
      (fun r w' => r = .ok () ∧ ∀ server ∈ servers, Settled server.id w')
      (forEachServer body servers) w := by
    intro body hbody
    exact (completes_forEachServer hbody servers hidle hselected).mono fun _ _ h => ⟨h.1, h.2.1⟩
  cases singleInstanceConfirmed with
  | true =>
      exact hloop (settles_startAtStartup rfl fun e server =>
        sanitizeMcpError_ne_empty isWord str e server)
  | false => exact hloop settles_refuseStartup

end Startup

/-- A server that is meant to run, and one of a transport that no probe supports. -/
def enabledServer : McpServer :=
  { McpFailures.stoppedServer with desiredState := .running }

def unsupportedServer : McpServer :=
  { enabledServer with id := 1, name := "legacy", transport := .other "sse" }

def enabledWorld : World :=
  { McpFailures.stoppedWorld with
    store :=
      { committed := { servers := [enabledServer, unsupportedServer], tools := [] }
        pending := fun _ => []
        owner := fun _ => none }
    nextServer := 2 }

theorem enabledWorld_idle : Idle 0 enabledWorld :=
  ⟨⟨fun _ => rfl, rfl, rfl, rfl⟩, fun _ => rfl⟩

theorem startEnabledServers_settles_selected :
    (enabledServer ∈ listStartupServers (fun a b => decide (a ≤ b)) enabledWorld.store.committed ∧
      unsupportedServer ∈
        listStartupServers (fun a b => decide (a ≤ b)) enabledWorld.store.committed) ∧
      Completes exec StartsFail 0
        (fun r w' => r = .ok () ∧ ∀ server ∈ listStartupServers (fun a b => decide (a ≤ b))
          enabledWorld.store.committed, Settled server.id w')
        (startEnabledServers
          (McpFailures.settings true (some 10) Char.isAlphanum fun _ => "connection closed")
          (listStartupServers (fun a b => decide (a ≤ b)) enabledWorld.store.committed))
        enabledWorld := by
  refine ⟨⟨?_, ?_⟩, ?_⟩
  · simp [listStartupServers, enabledWorld, enabledServer, McpFailures.stoppedServer]
  · simp [listStartupServers, enabledWorld, unsupportedServer, enabledServer,
      McpFailures.stoppedServer]
  · exact startEnabledServers_settles true (some 10) _ _ _ enabledWorld_idle
      fun _ h => mem_listStartupServers h

end ChangeQuality.McpStartup
