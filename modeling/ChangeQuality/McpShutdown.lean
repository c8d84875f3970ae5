import ChangeQuality.McpBodies
import ChangeQuality.McpLiveRuntimes
import ChangeQuality.McpProgress
import ChangeQuality.McpStartup

/-!
The end of the application: once the requests have ended, `shutdown` stops the live servers. It takes
no lock, and a stop that fails is stored and passed over.
-/

namespace ChangeQuality.McpShutdown

open ChangeQuality.Values
open ChangeQuality.McpServers
open ChangeQuality.McpRuntime
open ChangeQuality.McpService
open ChangeQuality.McpPrograms
open ChangeQuality.McpSystem
open ChangeQuality.McpLocks
open ChangeQuality.McpOwnership
open ChangeQuality.McpLaunches (System entries)
open ChangeQuality.McpLiveRuntimes (Operation Initial)
open ChangeQuality.McpTasks (shutdownServer)
open ChangeQuality.McpStartup
open ChangeQuality.ReadCommitted
open ChangeQuality.Coroutine
open ChangeQuality.Coroutine.Program (ensuring)
open ChangeQuality.Interference (Protocol Triple Uses Stable Safe Invariant outcome)
open ChangeQuality.Histories
open ChangeQuality.Solo

section Source

variable (cfg : Settings)

/-- `shutdown`, for the entries that `list(self._handles.items())` has copied. -/
def shutdown : List (ServerId × Handle) → Program Unit
  | [] => pure ()
  | (id, handle) :: handles => do
      shutdownServer cfg id handle
      shutdown handles

/-- It is the shutdown of the manager, before what it awaits of its probe is carried out. -/
theorem shutdownServers_eq (handles : List (ServerId × Handle)) :
    McpTasks.shutdownServers cfg handles =
      Interpretation.interpret McpTasks.carryOut (shutdown cfg handles) := by
  induction handles with
  | nil => rfl
  | cons entry handles ih =>
      refine Eq.trans ?_ (Interpretation.interpret_bind _ _ _).symm
      rw [McpTasks.shutdownServers, ih]
      rfl

/-- What `_run_operation` raises for a failure of the operation. -/
def operationError (e : Exn) : Exn :=
  match cfg.operationTimeoutSeconds, e with
  | some _, .timeout _ => .timeout "MCP operation timed out."
  | _, e => e

/-- The row of a server after its stop, which failed or not. -/
def stoppedRow (failure : Option Exn) (row : McpServer) : McpServer :=
  match failure with
  | none => { row with runtimeStatus := .stopped, lastError := none }
  | some e =>
      { row with
        runtimeStatus := .error
        lastError := some (cfg.sanitizeMcpError (operationError cfg e) row) }

end Source

/-- What the environment does during a shutdown: the stop of a runtime fails as `fails` says, and
nothing else fails. -/
def Stopping (fails : Handle → Option Exn) (_ : TaskId) (op : Op) (choice : Choice) (_ : World) :
    Prop :=
  match choice with
  | .succeed _ => ∀ handle, op = .probeStop handle → fails handle = none
  | .fail e _ => ∃ handle, op = .probeStop handle ∧ fails handle = some e

/-- What a shutdown comes to. -/
structure ShutDown (cfg : Settings) (fails : Handle → Option Exn) (w w' : World) : Prop where
  handles : w'.handles = w.handles.filter fun entry => (fails entry.2).isSome
  live : ∀ id handle, w.handles.lookup id = some handle → ∃ row,
    w.store.committed.server id = some row ∧
      w'.store.committed.server id = some (stoppedRow cfg (fails handle) row)
  others : ∀ id, w.handles.lookup id = none →
    w'.store.committed.server id = w.store.committed.server id

section Servers

variable {cfg : Settings} {fails : Handle → Option Exn} {t : TaskId} {id : ServerId}
  {w₀ w w' : World} {α : Type}

/-- What does not touch the locks and stops no runtime. -/
def Plain (op : Op) : Prop :=
  ¬ LockOp op ∧ ∀ handle, op ≠ .probeStop handle

/-- Outside a start nothing of it can fail. -/
theorem completes_plain {p : Program α} {Q : Except Exn α → World → Prop} (hfree : ¬ Locked t w)
    (hp : Uses Plain p) (h : Completes exec StartsFail t Q p w) :
    Completes exec (Stopping fails) t Q p w := by
  induction p generalizing w with
  | done a => exact h
  | raise e => exact h
  | await op k ih =>
      obtain ⟨⟨choice, hallowed, hsome⟩, hrest⟩ := h
      refine ⟨?_, fun choice r w' hstopping hexec => ?_⟩
      · cases choice with
        | succeed tools => exact ⟨.succeed tools, fun handle hop => (hp.1.2 handle hop).elim, hsome⟩
        | fail e poisons => exact (hfree hallowed.2).elim
      · cases choice with
        | fail e poisons =>
            obtain ⟨handle, hop, -⟩ := hstopping
            exact (hp.1.2 handle hop).elim
        | succeed tools =>
            refine ih r ?_ (hp.2 r) (hrest (.succeed tools) r w' trivial hexec)
            rcases exec_lock hexec with ⟨-, hlock⟩ | ⟨id', l, hchange, -⟩
            · rintro ⟨id', hheld⟩
              exact hfree ⟨id', hlock ▸ hheld⟩
            · cases hchange <;> exact (hp.1.1 trivial).elim

/-- A part of the work on one server, in an environment in which only stops fail. -/
theorem works_plain {A : World → Prop} {p : Program α} {Q : α → World → Prop}
    (h : Works t id w₀ A p Q) (hfree : ¬ Locked t w₀) (hp : Uses Plain p)
    (hwithin : Within t id w₀ w) (hA : A w) :
    Completes exec (Stopping fails) t
      (outcome (fun a w' => Within t id w₀ w' ∧ Q a w') fun _ _ => False) p w := by
  have hfree' : ¬ Locked t w := by
    rintro ⟨id', hheld⟩
    exact hfree ⟨id', hwithin.lock ▸ hheld⟩
  refine (completes_plain hfree' hp (h w hwithin hA)).mono ?_
  rintro (e | a) w' hr
  · exact hfree hr.2.2
  · exact hr

/-- The stop of a runtime, bounded in time or not. -/
theorem completes_probeStop (handle : Handle) :
    Completes exec (Stopping fails) t
      (fun r w' => w' = w ∧ r = (fails handle).elim (.ok ()) fun e => .error (operationError cfg e))
      (runOperation cfg (.probeStop handle)) w := by
  have hawait : Completes exec (Stopping fails) t
      (fun r w' => w' = w ∧ r = (fails handle).elim (.ok ()) .error) (await (.probeStop handle)) w := by
    refine ⟨?_, fun choice r w' hstopping hexec => .leave ?_⟩
    · cases hfails : fails handle with
      | none =>
          refine ⟨.succeed [], fun handle' hop => ?_, rfl⟩
          exact Op.probeStop.inj hop ▸ hfails
      | some e => exact ⟨.fail e false, ⟨handle, rfl, hfails⟩, rfl⟩
    · cases choice with
      | succeed tools =>
          obtain ⟨reply, rfl, hsucceed⟩ := exec_succeed hexec
          obtain ⟨-, rfl⟩ := Prod.mk.inj (Option.some.inj hsucceed)
          rw [hstopping handle rfl]
          exact ⟨rfl, rfl⟩
      | fail e poisons =>
          obtain ⟨-, rfl, rfl | ⟨conn, hconn, -⟩⟩ := exec_fail hexec
          · obtain ⟨handle', hop, hfails⟩ := hstopping
            obtain rfl := Op.probeStop.inj hop
            rw [hfails]
            exact ⟨rfl, rfl⟩
          · cases hconn
  cases hseconds : cfg.operationTimeoutSeconds with
  | none =>
      have herror : operationError cfg = id := by
        funext e
        simp [operationError, hseconds]
      simp only [runOperation, hseconds, herror]
      exact hawait
  | some seconds =>
      simp only [runOperation, hseconds]
      refine Completes.tryCatch (hawait.mono ?_)
      rintro r w' ⟨rfl, rfl⟩
      cases fails handle with
      | none => exact ⟨rfl, rfl⟩
      | some e => cases e <;> exact ⟨rfl, by simp [operationError, hseconds]⟩

/-- The session's view of the row is what is patched. -/
theorem works_patchRow {row : McpServer} {C : List (ServerId × Handle) → Prop}
    (patch : McpServerPatch) (hname : patch.name = none) :
    Works t id w₀ (fun w => (w.invalid (t, .runtime) = false ∧
        (w.view (t, .runtime)).server id = some row) ∧ C w.handles)
      (McpRuntime.updateServer .runtime id patch)
      fun _ w => (∃ server, Loaded t id server w ∧ server = patch.apply row) ∧ C w.handles := by
  have hrequire : Works t id w₀ (fun w => (w.invalid (t, .runtime) = false ∧
        (w.view (t, .runtime)).server id = some row) ∧ C w.handles)
      (requireServer .runtime id)
      fun server w => server = row ∧ (server.id = id ∧ Loaded t id server w) ∧ C w.handles := by
    intro w hwithin h
    refine (works_requireServer (B := fun w =>
      (w.view (t, .runtime)).server id = some row ∧ C w.handles) (fun _ _ h => h) w hwithin
        ⟨.inr h.1.1, h.1.2, h.2⟩).mono ?_
    rintro (e | server) w' hr
    · exact hr
    · obtain ⟨hwithin', hserver, hsees, hC⟩ := hr
      have hcached := hwithin'.cached hserver.2.valid server hserver.2.cached
      exact ⟨hwithin', Option.some.inj (hcached.symm.trans hsees), hserver, hC⟩
  refine Works.bind hrequire fun server => ?_
  rintro w hwithin ⟨rfl, h⟩
  refine (works_flushServer patch hname w hwithin h).mono ?_
  rintro (e | a) w' hr
  · exact hr
  · exact ⟨hr.1, ⟨_, hr.2.1, rfl⟩, hr.2.2⟩

theorem plain_of_session {op : Op} (hop : sessionOf op = some .runtime) : Plain op := by
  constructor
  · intro hlock
    cases op <;> simp [LockOp, sessionOf] at hlock hop
  · rintro handle rfl
    cases hop

theorem plain_close : Plain (.close .runtime) :=
  ⟨not_false, fun _ hop => by cases hop⟩

/-- The row is patched, and then committed. -/
theorem completes_storeRow {row : McpServer} (patch : McpServerPatch) (hname : patch.name = none)
    (hfree : ¬ Locked t w₀) (hwithin : Within t id w₀ w) (hvalid : w.invalid (t, .runtime) = false)
    (hsees : (w.view (t, .runtime)).server id = some row) :
    Completes exec (Stopping fails) t
      (outcome (fun _ => Completes exec (Stopping fails) t
          (outcome (fun _ w' => Within t id w₀ w' ∧ Stored id
              (fun server => server = patch.apply row) (fun handles => handles = w.handles) w')
            fun _ _ => False) (await (.commit .runtime))) fun _ _ => False)
      (McpRuntime.updateServer .runtime id patch) w := by
  have huses : Uses Plain (McpRuntime.updateServer .runtime id patch) :=
    uses_updateServer (plain_of_session rfl) (plain_of_session rfl)
  refine (works_plain (works_patchRow (C := fun handles => handles = w.handles) patch hname) hfree
    huses hwithin ⟨⟨hvalid, hsees⟩, rfl⟩).mono ?_
  rintro (e | server) w' hr
  · exact hr
  · refine (works_plain (works_commit (φ := fun server => server = patch.apply row)
      (C := fun handles => handles = w.handles)) hfree (uses_await (plain_of_session rfl)) hr.1
        hr.2).mono ?_
    rintro (e | u) w'' hcommitted
    · exact hcommitted
    · exact ⟨hcommitted.1, hcommitted.2.1⟩

theorem Within.popHandle (h : Within t id w₀ w) :
    Within t id w₀ { w with handles := w.handles.filter (·.1 ≠ id) } :=
  { h with entries := fun id' hne => (lookup_filter_ne hne _).trans (h.entries id' hne) }

theorem operationError_isException (cfg : Settings) (e : Exn) :
    (operationError cfg e).isException = e.isException := by
  unfold operationError
  split <;> rfl

/-- What the loop does with one server in the repository context. -/
theorem completes_body (cfg : Settings) {row : McpServer} {handle : Handle}
    (hfails : ∀ handle e, fails handle = some e → e.isException = true) (hfree : ¬ Locked t w)
    (hclosed : Closed t w) (hrow : w.store.committed.server id = some row) :
    ∃ body, shutdownServer cfg id handle = withRepository body ∧
      Completes exec (Stopping fails) t
        (outcome (fun _ w' => Within t id w w' ∧
          Stored id (fun server => server = stoppedRow cfg (fails handle) row)
            (fun handles => handles =
              if (fails handle).isNone then w.handles.filter (·.1 ≠ id) else w.handles) w')
          fun _ _ => False) body w := by
  refine ⟨_, rfl, Completes.bind ?_⟩
  have hwithin : Within t id w w := hclosed.within (by rw [hrow]; rfl)
  have hview : (w.view (t, .runtime)).server id = some row := by
    simpa [World.view, Store.view, hclosed.pending] using hrow
  refine (works_plain (works_requireServer (B := fun w' => w'.store = w.store ∧
    w'.handles = w.handles) fun _ _ h => h) hfree (uses_requireServer (plain_of_session rfl)) hwithin
      ⟨.inr hclosed.valid, rfl, rfl⟩).mono ?_
  rintro (e | server) w₁ hr
  · exact hr.elim
  obtain ⟨hwithin₁, ⟨-, hloaded⟩, hstore, hhandles⟩ := hr
  have hsees : (w₁.view (t, .runtime)).server id = some row := by
    rw [World.view, hstore]
    exact hview
  obtain rfl : server = row := Option.some.inj
    ((hwithin₁.cached hloaded.valid server hloaded.cached).symm.trans hsees)
  refine Completes.bind (Completes.tryCatch (Completes.bind
    ((completes_probeStop handle).mono ?_)))
  rintro r w' ⟨rfl, rfl⟩
  cases hstop : fails handle with
  | none =>
      refine Completes.bind ⟨⟨.succeed [], fun _ hop => (by cases hop), rfl⟩, ?_⟩
      intro choice r w₂ hstopping hexec
      cases choice with
      | fail e poisons => simp [exec, synchronous] at hexec
      | succeed tools =>
          obtain ⟨reply, rfl, hsucceed⟩ := exec_succeed hexec
          obtain ⟨-, rfl⟩ := Prod.mk.inj (Option.some.inj hsucceed)
          refine Completes.bind ((completes_storeRow
            { runtimeStatus := some .stopped, lastError := some none } rfl hfree
            (Within.popHandle hwithin₁) hloaded.valid hsees).mono ?_)
          rintro (e | server') w₃ hr
          · exact hr.elim
          · refine Completes.mono hr ?_
            rintro (e | u) w₄ hstored
            · exact hstored
            · obtain ⟨hwithin₄, hrow₄, hhandles₄⟩ := hstored
              exact ⟨hwithin₄, hrow₄, hhandles₄.trans (by simp [hhandles])⟩
  | some e =>
      have hexception : (operationError cfg e).isException = true :=
        (operationError_isException cfg e).trans (hfails handle e hstop)
      change Completes _ _ _ _
        (if (operationError cfg e).isException then _ else throw (operationError cfg e)) _
      rw [if_pos hexception]
      refine Completes.bind ((completes_storeRow
        { runtimeStatus := some .error
          lastError := some (some (cfg.sanitizeMcpError (operationError cfg e) server)) } rfl hfree
        hwithin₁ hloaded.valid hsees).mono ?_)
      rintro (e | server') w₃ hr
      · exact hr.elim
      · refine Completes.bind (Completes.mono hr ?_)
        rintro (e | u) w₄ hstored
        · exact hstored.elim
        · obtain ⟨hwithin₄, hrow₄, hhandles₄⟩ := hstored
          exact ⟨hwithin₄, hrow₄, hhandles₄.trans (by simp [hhandles])⟩

/-- The body of the loop, whether the stop fails or not. -/
theorem completes_shutdownServer (cfg : Settings) {row : McpServer} {handle : Handle}
    (hfails : ∀ handle e, fails handle = some e → e.isException = true) (hfree : ¬ Locked t w)
    (hclosed : Closed t w) (hrow : w.store.committed.server id = some row) :
    Completes exec (Stopping fails) t
      (fun r w' => r = .ok () ∧ (Within t id w w' ∧ Closed t w') ∧
        w'.store.committed.server id = some (stoppedRow cfg (fails handle) row) ∧
        w'.handles =
          if (fails handle).isNone then w.handles.filter (·.1 ≠ id) else w.handles)
      (shutdownServer cfg id handle) w := by
  obtain ⟨body, heq, hbody⟩ := completes_body cfg hfails hfree hclosed hrow
  rw [heq]
  refine Completes.ensuring (hbody.mono ?_)
  rintro (e | u) w' hr
  · exact hr.elim
  · obtain ⟨hwithin', ⟨row', hrow', rfl⟩, hhandles⟩ := hr
    refine completes_plain ?_ (uses_await plain_close)
      (completes_close hwithin' fun w'' hwithin'' hclosed' hcommitted hsame => ?_)
    · rintro ⟨id', hheld⟩
      exact hfree ⟨id', hwithin'.lock ▸ hheld⟩
    · exact ⟨rfl, ⟨hwithin'', hclosed'⟩, by rw [hcommitted, hrow'], hsame.trans hhandles⟩

/-- An entry of the server is among them, and its stop succeeds. -/
def stops (fails : Handle → Option Exn) (entries : List (ServerId × Handle)) (id : ServerId) :
    Bool :=
  entries.any fun entry => entry.1 = id && (fails entry.2).isNone

/-- The loop, over entries of different servers. -/
theorem completes_entries (cfg : Settings) {handles : List (ServerId × Handle)}
    (hfails : ∀ handle e, fails handle = some e → e.isException = true)
    (hkeys : (handles.map Prod.fst).Nodup)
    (hpresent : ∀ entry ∈ handles, (w.store.committed.server entry.1).isSome = true)
    (hfree : ¬ Locked t w) (hclosed : Closed t w) :
    Completes exec (Stopping fails) t
      (fun r w' => r = .ok () ∧ (Closed t w' ∧ w'.lock = w.lock) ∧
        w'.handles = w.handles.filter (fun entry => !stops fails handles entry.1) ∧
        (∀ entry ∈ handles, w'.store.committed.server entry.1 =
          (w.store.committed.server entry.1).map (stoppedRow cfg (fails entry.2))) ∧
        ∀ id ∉ handles.map Prod.fst,
          w'.store.committed.server id = w.store.committed.server id)
      (shutdown cfg handles) w := by
  induction handles generalizing w with
  | nil => exact ⟨rfl, ⟨hclosed, rfl⟩, by simp [stops], by simp, fun _ _ => rfl⟩
  | cons entry handles ih =>
      obtain ⟨id, handle⟩ := entry
      rw [List.map_cons, List.nodup_cons] at hkeys
      obtain ⟨hnotin, hkeys⟩ := hkeys
      obtain ⟨row, hrow⟩ := Option.isSome_iff_exists.mp (hpresent (id, handle) (by simp))
      refine Completes.bind ((completes_shutdownServer cfg hfails hfree hclosed hrow).mono ?_)
      rintro r w₁ ⟨rfl, ⟨hwithin, hclosed₁⟩, hrow₁, hhandles₁⟩
      have hfree₁ : ¬ Locked t w₁ := by
        rintro ⟨id', hheld⟩
        exact hfree ⟨id', hwithin.lock ▸ hheld⟩
      have hpresent₁ : ∀ entry ∈ handles, (w₁.store.committed.server entry.1).isSome = true :=
        fun entry hentry => hwithin.keeps_present _ (hpresent entry (by simp [hentry]))
      refine (ih hkeys hpresent₁ hfree₁ hclosed₁).mono ?_
      rintro r w' ⟨rfl, ⟨hclosed', hlock⟩, hhandles, hstopped, hothers⟩
      refine ⟨rfl, ⟨hclosed', hlock.trans hwithin.lock⟩, ?_, ?_, ?_⟩
      · rw [hhandles, hhandles₁]
        cases hstop : fails handle with
        | none =>
            simp only [Option.isNone_none, if_true, List.filter_filter]
            refine List.filter_congr fun entry _ => ?_
            by_cases hentry : entry.1 = id
            · simp [stops, hentry, hstop]
            · simp [stops, hentry, Ne.symm hentry]
        | some e =>
            refine List.filter_congr fun entry _ => ?_
            simp [stops, hstop]
      · intro entry hentry
        rcases List.mem_cons.mp hentry with rfl | hmem
        · rw [hothers id hnotin, hrow₁, hrow]
          rfl
        · have hne : entry.1 ≠ id := fun heq => hnotin (List.mem_map.mpr ⟨entry, hmem, heq⟩)
          rw [hstopped entry hmem, hwithin.rows _ hne]
      · intro id' hid'
        rw [List.map_cons, List.mem_cons, not_or] at hid'
        rw [hothers id' hid'.2, hwithin.rows id' hid'.1]

/-- A shutdown from a state in which nothing is in flight and every live server has its row. -/
theorem completes_shutdown (cfg : Settings)
    (hfails : ∀ handle e, fails handle = some e → e.isException = true) (hidle : Idle t w)
    (hkeys : (w.handles.map Prod.fst).Nodup)
    (hpresent : ∀ entry ∈ w.handles, (w.store.committed.server entry.1).isSome = true) :
    Completes exec (Stopping fails) t
      (fun r w' => r = .ok () ∧ Idle t w' ∧ ShutDown cfg fails w w') (shutdown cfg w.handles) w := by
  refine (completes_entries cfg hfails hkeys hpresent hidle.not_locked hidle.toClosed).mono ?_
  rintro r w' ⟨rfl, ⟨hclosed, hlock⟩, hhandles, hstopped, hothers⟩
  refine ⟨rfl, ⟨hclosed, fun id => by rw [hlock]; exact hidle.quiet id⟩, ?_, ?_, ?_⟩
  · rw [hhandles]
    refine List.filter_congr fun entry hentry => ?_
    have hsame : stops fails w.handles entry.1 = (fails entry.2).isNone := by
      rw [Bool.eq_iff_iff, stops, List.any_eq_true]
      constructor
      · rintro ⟨other, hother, h⟩
        rw [Bool.and_eq_true, decide_eq_true_eq] at h
        rw [← List.inj_on_of_nodup_map hkeys hother hentry h.1]
        exact h.2
      · intro h
        exact ⟨entry, hentry, by simp [h]⟩
    rw [hsame]
    cases fails entry.2 <;> rfl
  · intro id handle hlookup
    obtain ⟨before, after, heq, -⟩ := List.lookup_eq_some_iff.mp hlookup
    have hentry : (id, handle) ∈ w.handles := by simp [heq]
    obtain ⟨row, hrow⟩ := Option.isSome_iff_exists.mp (hpresent _ hentry)
    exact ⟨row, hrow, by rw [hstopped _ hentry, hrow]; rfl⟩
  · intro id hlookup
    refine hothers id fun hmem => ?_
    obtain ⟨entry, hentry, rfl⟩ := List.mem_map.mp hmem
    simpa using List.lookup_eq_none_iff.mp hlookup entry hentry

end Servers

section Requests

variable {t : TaskId} {conn : Conn} {op : Op} {choice : Choice} {w w' : World} {r : Except Exn (Reply op)}
  {cfg : Settings} {id : ServerId} {α β : Type}

/-- The session of the task is as new. -/
structure Cleared (t : TaskId) (conn : Conn) (w : World) : Prop where
  pending : w.store.pending (t, conn) = []
  loaded : w.loaded (t, conn) = []
  valid : w.invalid (t, conn) = false

/-- The registry is a dictionary, and a session that has locked a row has written. -/
structure TidyInv (w : World) : Prop where
  keys : (w.handles.map Prod.fst).Nodup
  owners : ∀ k x, w.store.owner k = some x → w.store.pending x ≠ []

/-- The sessions of a task are its own. -/
def TidyRely (t : TaskId) (w w' : World) : Prop :=
  ∀ conn, w'.store.pending (t, conn) = w.store.pending (t, conn) ∧
    w'.loaded (t, conn) = w.loaded (t, conn) ∧ w'.invalid (t, conn) = w.invalid (t, conn)

/-- An operation of another session leaves a session as it is. -/
theorem exec_session (h : exec t op choice w = some (r, w')) {x : Txn}
    (hx : ∀ conn, sessionOf op = some conn ∨ op = .close conn → x ≠ (t, conn)) :
    w'.loaded x = w.loaded x ∧ w'.invalid x = w.invalid x := by
  cases choice with
  | fail e poisons =>
      obtain ⟨-, -, rfl | ⟨conn, hconn, rfl⟩⟩ := exec_fail h
      · cases op <;> exact ⟨rfl, rfl⟩
      · exact ⟨rfl, Function.update_of_ne (hx conn (.inl hconn)) _ _⟩
  | succeed tools =>
      obtain ⟨reply, -, hsucceed⟩ := exec_succeed h
      cases op with
      | close conn =>
          obtain ⟨-, rfl⟩ := Prod.mk.inj (Option.some.inj hsucceed)
          have hne := hx conn (.inr rfl)
          exact ⟨Function.update_of_ne hne _ _, Function.update_of_ne hne _ _⟩
      | insertServer conn values =>
          simp only [succeed] at hsucceed
          split at hsucceed
          · simp at hsucceed
          · obtain ⟨mid, hmid, heq⟩ := Option.map_eq_some_iff.mp hsucceed
            obtain ⟨store, -, rfl⟩ := World.write_eq_some hmid
            obtain ⟨-, rfl⟩ := Prod.mk.inj heq
            exact ⟨World.load_loaded_ne (hx conn (.inl rfl)) _ _, rfl⟩
      | _ =>
          grind [succeed, sessionOf, World.setLock, World.load, World.unload,
            World.load_loaded_ne, World.unload_loaded_ne, → World.write_eq_some,
            Option.map_eq_some_iff]

/-- A transaction that ends gives its rows back. -/
theorem tidy_release {s : Store Db Write ServerId Txn} {x : Txn}
    (h : ∀ k y, s.owner k = some y → s.pending y ≠ []) (k : ServerId) (y : Txn)
    (howner : s.release x k = some y) : Function.update s.pending x [] y ≠ [] := by
  unfold Store.release at howner
  split at howner
  · cases howner
  · rename_i hother
    have hne : y ≠ x := by
      rintro rfl
      exact hother howner
    rw [Function.update_of_ne hne]
    exact h k y howner

theorem tidy_rely {t' : TaskId} (hne : t' ≠ t) (h : exec t op choice w = some (r, w')) :
    TidyRely t' w w' := by
  intro conn
  refine ⟨exec_pending_ne h hne, exec_session h fun conn' _ heq => ?_⟩
  exact hne (congrArg Prod.fst heq)

theorem tidy_keeps (hinv : TidyInv w) (h : exec t op choice w = some (r, w')) : TidyInv w' := by
  refine ⟨McpRegistry.keys_nodup hinv.keys h, ?_⟩
  have hchange := exec_change h
  generalize w'.store = store at hchange
  cases hchange with
  | stay => exact hinv.owners
  | @write conn wr _ _ hwrite =>
      obtain ⟨mid, hlocks, rfl⟩ := Store.write_eq_some hwrite
      intro k x howner
      by_cases hx : x = (t, conn)
      · subst hx
        simp
      · rw [Store.record_pending_ne hx, hlocks.pending]
        exact hinv.owners k x ((hlocks.only k x howner).resolve_right fun h => hx h.1)
  | commit _ => exact tidy_release hinv.owners
  | rollback => exact tidy_release hinv.owners

theorem tidy_rely_refl (t : TaskId) (w : World) : TidyRely t w w :=
  fun _ => ⟨rfl, rfl, rfl⟩

theorem tidy_rely_trans {w₁ w₂ w₃ : World} (h : TidyRely t w₁ w₂) (h' : TidyRely t w₂ w₃) :
    TidyRely t w₁ w₃ :=
  fun conn => ⟨(h' conn).1.trans (h conn).1, (h' conn).2.1.trans (h conn).2.1,
    (h' conn).2.2.trans (h conn).2.2⟩

theorem tidy_sound (hinv : TidyInv w) (h : exec t op choice w = some (r, w')) :
    TidyInv w' ∧ ∀ t', t' ≠ t → TidyRely t' w w' :=
  ⟨tidy_keeps hinv h, fun _ hne => tidy_rely hne h⟩

def tidyProtocol : Protocol exec unrestricted where
  inv := TidyInv
  rely := TidyRely
  pre _ _ _ := True
  rely_refl := tidy_rely_refl
  rely_trans := tidy_rely_trans
  sound hinv _ _ hexec := tidy_sound hinv hexec

theorem cleared_stable (conn : Conn) : Stable tidyProtocol t (Cleared t conn) := by
  intro w w' _ h hrely _
  obtain ⟨hpending, hloaded, hvalid⟩ := hrely conn
  exact ⟨hpending.trans h.pending, hloaded.trans h.loaded, hvalid.trans h.valid⟩

/-- The program leaves the session as new, if it finds it so. -/
abbrev Tidy (t : TaskId) (conn : Conn) (p : Program α) : Prop :=
  Triple tidyProtocol t (Cleared t conn) p (fun _ => Cleared t conn) fun _ => Cleared t conn

/-- An operation that uses another session, or none. -/
def Away (conn : Conn) (op : Op) : Prop :=
  sessionOf op ≠ some conn ∧ op ≠ .close conn

theorem tidy_away {p : Program α} (hp : Uses (Away conn) p) : Tidy t conn p := by
  refine Triple.of_uses (cleared_stable conn) (fun _ _ _ _ _ => trivial) ?_ hp
  intro op choice r w w' hop _ h _ hexec
  have hsession := exec_session hexec (x := (t, conn)) fun conn' huses heq => by
    obtain rfl := congrArg Prod.snd heq
    exact huses.elim hop.1 hop.2
  refine ⟨?_, hsession.1.trans h.loaded, hsession.2.trans h.valid⟩
  rcases exec_pending hexec conn with heq | heq | ⟨wr, hstatement, -⟩
  · exact heq.trans h.pending
  · exact heq
  · cases hstatement <;> exact (hop.1 rfl).elim

theorem tidy_bind {p : Program α} {f : α → Program β} (hp : Tidy t conn p)
    (hf : ∀ a, Tidy t conn (f a)) : Tidy t conn (p >>= f) :=
  Triple.bind hp hf

theorem triple_close : Triple tidyProtocol t (fun _ => True) (await (.close conn))
    (fun _ => Cleared t conn) fun _ => Cleared t conn := by
  refine Triple.perform (fun _ _ _ _ _ _ => trivial) (fun _ => cleared_stable conn)
    (fun _ => cleared_stable conn) (fun _ _ _ => trivial) ?_
  intro w choice r w' _ _ _ _ hexec
  cases choice with
  | fail e poisons => simp [exec, synchronous] at hexec
  | succeed tools =>
      obtain ⟨reply, rfl, hsucceed⟩ := exec_succeed hexec
      obtain ⟨-, rfl⟩ := Prod.mk.inj (Option.some.inj hsucceed)
      exact ⟨Function.update_self .., Function.update_self .., Function.update_self ..⟩

/-- A session that is closed on both exits is left as new. -/
theorem triple_ensuring_close (p : Program α) :
    Triple tidyProtocol t (fun _ => True) (ensuring p (await (.close conn)))
      (fun _ => Cleared t conn) fun _ => Cleared t conn := by
  have hany : Triple tidyProtocol t (fun _ => True) p (fun _ _ => True) fun _ _ => True := by
    intro w _ _
    refine Safe.mono ?_ (Safe.of_pre (fun _ _ => trivial) p w)
    rintro (e | a) w' - - <;> trivial
  exact Triple.ensuring (fun _ => cleared_stable conn) (fun _ => cleared_stable conn) hany
    (fun _ => triple_close) fun _ => triple_close

theorem tidy_withRepository (p : Program α) : Tidy t .runtime (withRepository p) :=
  (triple_ensuring_close p).weaken (fun _ _ _ => trivial) (fun _ _ _ h => h) fun _ _ _ h => h

theorem tidy_exceptException {p : Program α} {handler : Exn → Program α} (hp : Tidy t conn p)
    (hhandler : ∀ e, Tidy t conn (handler e)) : Tidy t conn (exceptException p handler) := by
  refine Triple.tryCatch hp fun e => ?_
  cases he : e.isException
  · exact tidy_away trivial
  · exact hhandler e

theorem tidy_runLifecycle {p : Program α} (hp : Tidy t conn p) :
    Tidy t conn (runLifecycle p) := by
  refine Triple.tryCatch hp fun e => ?_
  cases he : e.isKeyError
  · exact tidy_away trivial
  · exact tidy_away trivial

theorem tidy_exceptIntegrityError {p : Program α} (hp : Tidy t conn p) :
    Tidy t conn (exceptIntegrityError p) := by
  refine Triple.tryCatch hp fun e => ?_
  cases e <;> exact tidy_away trivial

theorem away_lock {op : Op} (hop : LockOp op) : Away conn op := by
  cases op <;> first | exact hop.elim | exact ⟨by simp [sessionOf], by simp⟩

theorem tidy_withLock {body : Program α} (hbody : Tidy t conn body) :
    Tidy t conn (withLock id body) := by
  have hensuring : Tidy t conn (body.ensuring (await (.release id))) := by
    have hrelease : Tidy t conn (await (.release id)) := tidy_away (uses_await (away_lock trivial))
    exact Triple.ensuring (fun _ => cleared_stable conn) (fun _ => cleared_stable conn) hbody
      (fun _ => hrelease) fun _ => hrelease
  refine tidy_bind (tidy_away (uses_await (away_lock trivial))) fun taken => ?_
  cases taken with
  | true => exact hensuring
  | false => exact tidy_bind (tidy_away (uses_await (away_lock trivial))) fun _ => hensuring

theorem away_lifecycle {op : Op} (hop : LifecycleOp op) : Away .request op := by
  constructor
  · intro huses
    cases op <;> first
      | exact hop.elim
      | (obtain rfl := Option.some.inj huses; exact hop.elim)
      | cases huses
  · rintro rfl
    exact hop.elim

theorem away_request {op : Op} (hop : sessionOf op = some .request) : Away .runtime op := by
  refine ⟨by simp [hop], ?_⟩
  rintro rfl
  cases hop

/-- The repository context of a lifecycle operation, which leaves the session of a request alone. -/
theorem tidy_context {p : Program α} (hp : Uses LifecycleOp (withRepository p)) :
    Tidy t conn (withRepository p) := by
  cases conn with
  | request => exact tidy_away (hp.mono fun _ hop => away_lifecycle hop)
  | runtime => exact tidy_withRepository p

theorem tidy_requireRuntimeEnabled : Tidy t conn (requireRuntimeEnabled cfg) :=
  tidy_away (uses_requireRuntimeEnabled cfg)

theorem tidy_start : Tidy t conn (start cfg id) :=
  tidy_bind tidy_requireRuntimeEnabled fun _ =>
    tidy_withLock (tidy_context (uses_startLocked cfg id))

theorem tidy_stop : Tidy t conn (stop cfg id) :=
  tidy_withLock (tidy_context (uses_stopLocked cfg id))

theorem tidy_restart : Tidy t conn (restart cfg id) :=
  tidy_bind tidy_requireRuntimeEnabled fun _ => tidy_withLock
    (tidy_bind (tidy_context (uses_stopLocked cfg id)) fun _ =>
      tidy_context (uses_startLocked cfg id))

theorem tidy_check : Tidy t conn (check cfg id) :=
  tidy_bind tidy_requireRuntimeEnabled fun _ =>
    tidy_withLock (tidy_context (uses_checkLocked cfg id))

theorem tidy_await_request {op : Op} (hop : sessionOf op = some .request) :
    Tidy t .runtime (await op) :=
  tidy_away (uses_await (away_request hop))

theorem tidy_startAfterSave {server : McpServer} :
    Tidy t .runtime (startAfterSave cfg server) := by
  unfold startAfterSave
  split
  · refine tidy_bind (tidy_runLifecycle tidy_start) fun _ => ?_
    exact tidy_bind (tidy_await_request rfl) fun _ => tidy_away trivial
  · exact tidy_away trivial

theorem tidy_createServer (payload : McpServerCreate) :
    Tidy t .runtime (createServer cfg payload) := by
  refine tidy_bind (tidy_exceptIntegrityError ?_) fun server => tidy_startAfterSave
  exact tidy_bind (tidy_await_request rfl) fun _ =>
    tidy_bind (tidy_await_request rfl) fun _ => tidy_away trivial

theorem tidy_look {β : Type} {f : McpServer → Bool → Program β}
    (hf : ∀ server live, Tidy t .runtime (f server live)) :
    Tidy t .runtime (getServerOrNotFound id >>= fun server => isRunning id >>= f server) := by
  refine tidy_bind ?_ fun server => tidy_bind ?_ fun live => hf server live
  · refine tidy_bind (tidy_await_request rfl) fun found => ?_
    cases found <;> exact tidy_away trivial
  · refine tidy_bind (tidy_away (uses_await ?_)) fun _ => tidy_away trivial
    exact ⟨by simp [sessionOf], by simp⟩

theorem tidy_updateServer {httpUrl : String → Option String} (payload : McpServerUpdate) :
    Tidy t .runtime (updateServer cfg httpUrl id payload) := by
  refine tidy_withLock (tidy_look fun server live => ?_)
  split
  · exact tidy_away trivial
  · split
    · exact tidy_away trivial
    · rename_i values _
      refine tidy_bind (tidy_exceptIntegrityError ?_) fun server => tidy_startAfterSave
      refine tidy_bind (tidy_away (uses_updateServer ?_ ?_)) fun _ =>
        tidy_bind (tidy_await_request rfl) fun _ => tidy_away trivial
      · exact away_request rfl
      · exact away_request rfl

theorem tidy_deleteServer : Tidy t .runtime (deleteServer cfg id) := by
  refine tidy_withLock (tidy_look fun server live => ?_)
  have hrest : Tidy t .runtime (do
      McpRuntime.deleteServer .request id
      await (.commit .request)) := by
    refine tidy_bind (tidy_away (uses_deleteServer ?_ ?_)) fun _ => tidy_await_request rfl
    · exact away_request rfl
    · exact away_request rfl
  split
  · exact tidy_bind (tidy_runLifecycle (tidy_context (uses_stopLocked cfg id))) fun _ => hrest
  · exact hrest

theorem tidy_discard {p : Program α} (hp : Tidy t conn p) :
    Tidy t conn (McpService.discard p) :=
  tidy_bind hp fun _ => tidy_away trivial

theorem tidy_run {httpUrl : String → Option String} (call : ServiceCall) :
    Tidy t .runtime (call.run cfg httpUrl) := by
  cases call with
  | create payload => exact tidy_discard (tidy_createServer payload)
  | update id payload => exact tidy_discard (tidy_updateServer payload)
  | delete id => exact tidy_deleteServer
  | start id => exact tidy_discard (tidy_runLifecycle tidy_start)
  | stop id => exact tidy_discard (tidy_runLifecycle tidy_stop)
  | restart id => exact tidy_discard (tidy_runLifecycle tidy_restart)
  | check id => exact tidy_discard (tidy_runLifecycle tidy_check)

/-- A request ends with the close of its own session. -/
theorem tidy_request {httpUrl : String → Option String} (call : ServiceCall) :
    Tidy t conn (request cfg httpUrl call) := by
  cases conn with
  | request =>
      exact (triple_ensuring_close _).weaken (fun _ _ _ => trivial) (fun _ _ _ h => h)
        fun _ _ _ h => h
  | runtime =>
      have hclose : Tidy t .runtime (await (.close .request)) :=
        tidy_away (uses_await ⟨by simp [sessionOf], by simp⟩)
      exact Triple.ensuring (fun _ => cleared_stable _) (fun _ => cleared_stable _) (tidy_run call)
        (fun _ => hclose) fun _ => hclose

theorem tidy_lifecycle (call : LifecycleCall) : Tidy t conn (call.run cfg) := by
  have hend : ∀ _ : McpLifecycleResponse, Tidy t conn (pure () : Program Unit) :=
    fun _ => tidy_away trivial
  cases call with
  | start id => exact tidy_bind tidy_start hend
  | stop id => exact tidy_bind tidy_stop hend
  | restart id => exact tidy_bind tidy_restart hend
  | check id => exact tidy_bind tidy_check hend

theorem tidy_startup (servers : List McpServer) :
    Tidy t conn (startEnabledServers cfg servers) := by
  have heach : ∀ body : McpServer → Program Unit, (∀ server, Tidy t conn (body server)) →
      Tidy t conn (forEachServer body servers) := by
    intro body hbody
    induction servers with
    | nil => exact tidy_away trivial
    | cons server servers ih => exact tidy_bind (hbody server) fun _ => ih
  have hstored : ∀ (id : ServerId) (status : McpServerRuntimeStatus) (lastError : Option String),
      Uses LifecycleOp (do
        let _ ← updateRuntimeStatus .runtime id status lastError
        await (.commit .runtime)) := fun id status lastError =>
    Uses.bind (uses_lifecycleStatus id status lastError) fun _ => uses_await trivial
  unfold startEnabledServers
  split
  · refine heach _ fun server => tidy_exceptException ?_ fun e => tidy_context ?_
    · exact tidy_bind tidy_start fun _ => tidy_away trivial
    · refine uses_withRepository (Uses.bind (uses_requireServer trivial) fun current => ?_) trivial
      split
      · exact hstored _ _ _
      · trivial
  · refine heach _ fun server => tidy_context ?_
    exact uses_withRepository (hstored _ _ _) trivial

theorem tidy_operation {httpUrl : String → Option String} {p : Program Unit}
    (hp : Operation cfg httpUrl p) (conn : Conn) : Tidy t conn p := by
  rcases hp with ⟨call, rfl⟩ | ⟨call, rfl⟩ | ⟨servers, rfl⟩
  · exact tidy_request call
  · exact tidy_lifecycle call
  · exact tidy_startup servers

end Requests

section Runs

variable {cfg : Settings} {httpUrl : String → Option String} {w : World}
  {c : Config Reply Exn TaskId System}

/-- The state of a process that begins. -/
structure Booted (w : World) : Prop extends Initial w where
  quiet : Quiet w
  owner : ∀ k, w.store.owner k = none
  valid : ∀ x, w.invalid x = false

/-- Every operation that was started has come to its end. -/
def Drained (c : Config Reply Exn TaskId System) : Prop :=
  ∀ t op k, c.task t ≠ some (.await op k)

theorem plain_steps
    (hrun : Steps (recording exec entries) (Operation cfg httpUrl) unrestricted (.idle (w, [])) c) :
    Steps exec (Operation cfg httpUrl) unrestricted (.idle w) ⟨c.shared.1, c.task⟩ := by
  have hallowed : ∀ (t : TaskId) (op : Op) (choice : Choice) (s : System),
      unrestricted t op choice s → unrestricted t op choice s.1 := fun _ _ _ _ h => h
  have h := Steps.unrecorded hallowed hrun
  exact h

theorem tidy_steps (hbooted : Booted w)
    (hrun : Steps (recording exec entries) (Operation cfg httpUrl) unrestricted (.idle (w, [])) c) :
    Invariant tidyProtocol (fun t s => Cleared t .request s ∧ Cleared t .runtime s)
      (fun t _ s => Cleared t .request s ∧ Cleared t .runtime s) ⟨c.shared.1, c.task⟩ := by
  have hinv : TidyInv w := ⟨by simp [hbooted.handles], fun k x h => by simp [hbooted.owner] at h⟩
  have hfresh : ∀ t conn, Cleared t conn w := fun t conn =>
    ⟨hbooted.pending _, hbooted.loaded _, hbooted.valid _⟩
  have hstable : ∀ t, Stable tidyProtocol t fun s => Cleared t .request s ∧ Cleared t .runtime s :=
    fun t => (cleared_stable _).and (cleared_stable _)
  refine (Invariant.idle hinv fun t => ⟨hfresh t _, hfresh t _⟩).steps hstable ?_
    (plain_steps hrun)
  intro t p hp s hinv h
  refine Safe.mono ?_ ((tidy_operation hp .request).and (tidy_operation hp .runtime) s hinv h)
  rintro (e | a) s' - hr <;> exact hr

/-- When all operations have ended, the locks are free and the sessions closed. -/
theorem idle_of_drained (hbooted : Booted w)
    (hrun : Steps (recording exec entries) (Operation cfg httpUrl) unrestricted (.idle (w, [])) c)
    (hdrained : Drained c) :
    (∀ t, Idle t c.shared.1) ∧ (c.shared.1.handles.map Prod.fst).Nodup := by
  have htidy := tidy_steps hbooted hrun
  have hcleared : ∀ t, Cleared t .request c.shared.1 ∧ Cleared t .runtime c.shared.1 := by
    intro t
    cases htask : c.task t with
    | none => exact htidy.fresh t htask
    | some p =>
        cases p with
        | done u => exact htidy.ended (r := .ok u) htask
        | raise e => exact htidy.ended (r := .error e) htask
        | await op k => exact (hdrained t op k htask).elim
  have hstandings : McpProgress.Standings ⟨c.shared.1, c.task⟩ := by
    have htasks : Steps exec (McpProgress.Task cfg httpUrl) unrestricted (.idle w)
        ⟨c.shared.1, c.task⟩ := by
      refine (plain_steps hrun).weaken ?_ fun _ _ _ _ h => h
      rintro p (⟨call, rfl⟩ | ⟨call, rfl⟩ | ⟨servers, rfl⟩)
      · exact .request call
      · exact .lifecycle call
      · exact .startup servers
    exact McpProgress.standings_steps hbooted.quiet htasks
  have hlock : ∀ id t, ¬ ((c.shared.1.lock id).holder = some t ∨
      t ∈ (c.shared.1.lock id).waiters) := by
    intro id t hat
    obtain ⟨op, k, htask⟩ := hstandings.unfinished hat
    exact hdrained t op k htask
  refine ⟨fun t => ⟨⟨fun k => ?_, (hcleared t).2.pending, (hcleared t).2.loaded,
    (hcleared t).2.valid⟩, fun id => ?_⟩, htidy.shared.keys⟩
  · refine Option.eq_none_iff_forall_ne_some.mpr fun x howner => ?_
    obtain ⟨t', conn⟩ := x
    refine htidy.shared.owners k _ howner ?_
    cases conn with
    | request => exact (hcleared t').1.pending
    | runtime => exact (hcleared t').2.pending
  · obtain ⟨hholder, hwaiters⟩ : (c.shared.1.lock id).holder = none ∧
        (c.shared.1.lock id).waiters = [] :=
      ⟨Option.eq_none_iff_forall_ne_some.mpr fun t h => hlock id t (.inl h),
        List.eq_nil_iff_forall_not_mem.mpr fun t h => hlock id t (.inr h)⟩
    cases hfound : c.shared.1.lock id
    simp_all

end Runs

end ChangeQuality.McpShutdown
