import ChangeQuality.McpStatuses

/-!
What the service shows of a server in a run of requests in which no call of a repository fails.
-/

namespace ChangeQuality.McpShownStatuses

open ChangeQuality.Values
open ChangeQuality.McpServers
open ChangeQuality.McpRuntime
open ChangeQuality.McpService
open ChangeQuality.McpSystem
open ChangeQuality.McpLocks
open ChangeQuality.McpPrograms
open ChangeQuality.McpOwnership
open ChangeQuality.McpStatuses
open ChangeQuality.ReadCommitted
open ChangeQuality.Coroutine
open ChangeQuality.Interference

section Requests

variable {cfg : Settings} {httpUrl : String → Option String} {t : TaskId} {id : ServerId}
  {α : Type}

/-- The lock is free when it is taken, and the status true. -/
theorem triple_withLock {body : Program α}
    (hbody : Triple statusProtocol t (fun w => Inside t id w ∧ Fresh t w) body
      (fun _ => Inside t id) fun _ => Inside t id) :
    Triple statusProtocol t (Fresh t) (withLock id body) (fun _ _ => True) fun _ _ => True := by
  have htaken : Stable statusProtocol t fun w => Inside t id w ∧ Fresh t w :=
    Inside.stable.and Fresh.stable
  have htrue : Stable statusProtocol t fun _ => True := Stable.const True
  have hrelease : Triple statusProtocol t (Inside t id) (await (.release id)) (fun _ _ => True)
      fun _ _ => True := by
    refine Triple.perform Inside.stable (fun _ => htrue) (fun _ => htrue) (fun w _ h => ?_) ?_
    · refine ⟨h.held, ?_⟩
      rintro id' ⟨rfl⟩
      exact h.truthful
    · intro w choice r w' _ _ _ _ _
      cases r <;> trivial
  have hensuring := Triple.ensuring (fun _ => htrue) (fun _ => htrue) hbody (fun _ => hrelease)
    fun _ => hrelease
  have htry : Triple statusProtocol t (Fresh t) (await (.tryAcquire id))
      (fun taken w => (taken = true → Inside t id w) ∧ Fresh t w) fun _ _ => True := by
    refine Triple.perform Fresh.stable ?_ (fun _ => htrue) (fun _ _ _ => ⟨trivial, by simp⟩) ?_
    · intro taken
      cases taken with
      | true => exact fun w w' hinv h hrely hinv' =>
          ⟨fun _ => Inside.stable w w' hinv (h.1 rfl) hrely hinv',
            Fresh.stable w w' hinv h.2 hrely hinv'⟩
      | false => exact fun w w' hinv h hrely hinv' =>
          ⟨by simp, Fresh.stable w w' hinv h.2 hrely hinv'⟩
    · intro w choice r w' hinv h _ _ hexec
      cases choice with
      | fail e poisons => simp [exec, synchronous] at hexec
      | succeed tools =>
          obtain ⟨reply, rfl, hsucceed⟩ := exec_succeed hexec
          simp only [succeed] at hsucceed
          split at hsucceed
          · rename_i hfree
            obtain ⟨rfl, rfl⟩ := Prod.mk.inj (Option.some.inj hsucceed)
            exact ⟨fun _ => ⟨by simp [World.setLock], hinv id hfree.1, h.pending .request⟩,
              h.pending, h.loaded⟩
          · obtain ⟨rfl, rfl⟩ := Prod.mk.inj (Option.some.inj hsucceed)
            exact ⟨by simp, h.pending, h.loaded⟩
  have hacquired : Triple statusProtocol t (fun w => (false = true → Inside t id w) ∧ Fresh t w)
      (await (.acquired id)) (fun _ w => Inside t id w ∧ Fresh t w) fun _ _ => True := by
    refine Triple.perform ?_ (fun _ => htaken) (fun _ => htrue) (fun _ _ _ => ⟨trivial, by simp⟩) ?_
    · exact fun w w' hinv h hrely hinv' => ⟨by simp, Fresh.stable w w' hinv h.2 hrely hinv'⟩
    · intro w choice r w' hinv h _ _ hexec
      cases choice with
      | fail e poisons =>
          obtain ⟨-, rfl, -⟩ := exec_fail hexec
          trivial
      | succeed tools =>
          obtain ⟨reply, rfl, hsucceed⟩ := exec_succeed hexec
          simp only [succeed] at hsucceed
          split at hsucceed
          · rename_i hnext
            obtain ⟨-, rfl⟩ := Prod.mk.inj (Option.some.inj hsucceed)
            exact ⟨⟨by simp [World.setLock], hinv id hnext.1, h.2.pending .request⟩, h.2.pending,
              h.2.loaded⟩
          · simp at hsucceed
  refine Triple.bind htry fun taken => ?_
  cases taken with
  | true =>
      exact Triple.weaken hensuring (fun _ _ h => ⟨h.1 rfl, h.2⟩) (fun _ _ _ h => h)
        fun _ _ _ h => h
  | false => exact Triple.bind hacquired fun _ => hensuring

/-- A task that holds the lock waits for it without end. -/
theorem triple_withLock_held {body : Program α} :
    Triple statusProtocol t (Inside t id) (withLock id body) (fun _ _ => False)
      fun _ => Inside t id := by
  have htry : Triple statusProtocol t (Inside t id) (await (.tryAcquire id))
      (fun taken w => taken = false ∧ Inside t id w) fun _ => Inside t id := by
    refine Triple.perform Inside.stable (fun _ => (Stable.const _).and Inside.stable)
      (fun _ => Inside.stable) (fun _ _ _ => ⟨trivial, by simp⟩) ?_
    intro w choice r w' _ h _ _ hexec
    cases choice with
    | fail e poisons => simp [exec, synchronous] at hexec
    | succeed tools =>
        obtain ⟨reply, rfl, hsucceed⟩ := exec_succeed hexec
        simp only [succeed, h.held] at hsucceed
        obtain ⟨rfl, rfl⟩ := Prod.mk.inj (Option.some.inj hsucceed)
        exact ⟨rfl, by simp [World.setLock], h.truthful, h.request⟩
  have hacquired : Triple statusProtocol t (Inside t id) (await (.acquired id)) (fun _ _ => False)
      fun _ => Inside t id := by
    refine Triple.perform Inside.stable (fun _ => stable_false) (fun _ => Inside.stable)
      (fun _ _ _ => ⟨trivial, by simp⟩) ?_
    intro w choice r w' _ h _ _ hexec
    cases choice with
    | fail e poisons =>
        obtain ⟨-, rfl, rfl | ⟨conn, hconn, -⟩⟩ := exec_fail hexec
        · exact ⟨by simp [abandon, World.setLock, h.held], h.truthful, h.request⟩
        · simp [sessionOf] at hconn
    | succeed tools =>
        obtain ⟨reply, rfl, hsucceed⟩ := exec_succeed hexec
        simp [succeed, h.held] at hsucceed
  refine Triple.bind htry fun taken => ?_
  cases taken with
  | true => exact Triple.of_false fun _ _ h => by simp at h
  | false =>
      refine Triple.bind (Triple.weaken hacquired (fun _ _ h => h.2) (fun _ _ _ h => h)
        fun _ _ _ h => h) fun _ => ?_
      exact Triple.of_false fun _ _ h => h

/-- A locked part of the service with writes of its own. -/
structure Serving (t : TaskId) (id : ServerId) (A : List Write → Prop) (w : World) : Prop where
  held : (w.lock id).holder = some t
  truthful : Truthful id w
  request : A (w.store.pending (t, .request))

theorem Serving.stable {A : List Write → Prop} : Stable statusProtocol t (Serving t id A) := by
  intro w w' _ h hrely _
  exact ⟨hrely.holder id h.held, h.truthful.follows (hrely.handle id h.held) (hrely.row id h.held),
    (hrely.pending .request).symm ▸ h.request⟩

/-- Nothing happens but that the request's session loads a row. -/
structure Idle (t : TaskId) (w w' : World) : Prop where
  store : w'.store = w.store
  lock : w'.lock = w.lock
  handles : w'.handles = w.handles
  loaded : w'.loaded (t, .runtime) = w.loaded (t, .runtime)

def Reading : Op → Prop
  | .selectServer conn _ | .reloadServer conn _ => conn = .request
  | .handleOf _ => True
  | _ => False

theorem reading_idle {op : Op} {choice : Choice} {w w' : World} {r : Except Exn (Reply op)}
    (hop : Reading op) (hallowed : Healthy t op choice w)
    (hexec : exec t op choice w = some (r, w')) : Idle t w w' := by
  have hrefl : Idle t w w := ⟨rfl, rfl, rfl, rfl⟩
  have hload : ∀ row, Idle t w (w.load (t, .request) row) := fun row =>
    ⟨rfl, rfl, rfl, World.load_loaded_ne (by simp) w row⟩
  cases choice with
  | fail e poisons =>
      have hsession : sessionOf op = none := hallowed
      cases op with
      | selectServer conn id' => simp [sessionOf] at hsession
      | reloadServer conn id' => simp [sessionOf] at hsession
      | handleOf id' => simp [exec, synchronous] at hexec
      | _ => exact hop.elim
  | succeed tools =>
      obtain ⟨reply, -, hsucceed⟩ := exec_succeed hexec
      cases op with
      | selectServer conn id' =>
          obtain rfl : conn = .request := hop
          simp only [succeed] at hsucceed
          split at hsucceed
          · obtain ⟨-, rfl⟩ := Prod.mk.inj (Option.some.inj hsucceed)
            exact hrefl
          · split at hsucceed
            · obtain ⟨-, rfl⟩ := Prod.mk.inj (Option.some.inj hsucceed)
              exact hrefl
            · obtain ⟨-, rfl⟩ := Prod.mk.inj (Option.some.inj hsucceed)
              exact hload _
      | reloadServer conn id' =>
          obtain rfl : conn = .request := hop
          simp only [succeed] at hsucceed
          split at hsucceed
          · obtain ⟨-, rfl⟩ := Prod.mk.inj (Option.some.inj hsucceed)
            exact hrefl
          · obtain ⟨-, rfl⟩ := Prod.mk.inj (Option.some.inj hsucceed)
            exact hload _
      | handleOf id' =>
          obtain ⟨-, rfl⟩ := Prod.mk.inj (Option.some.inj hsucceed)
          exact hrefl
      | _ => exact hop.elim

theorem inside_idle {w w' : World} (h : Inside t id w) (hidle : Idle t w w') : Inside t id w' :=
  ⟨by rw [hidle.lock]; exact h.held,
    h.truthful.follows (by rw [hidle.handles]) (.inl (by rw [hidle.store])),
    by rw [hidle.store]; exact h.request⟩

theorem fresh_idle {w w' : World} (h : Fresh t w) (hidle : Idle t w w') : Fresh t w' :=
  ⟨by rw [hidle.store]; exact h.pending, hidle.loaded.trans h.loaded⟩

theorem triple_reading {A : World → Prop} {p : Program α} (hA : Stable statusProtocol t A)
    (hframe : ∀ {w w'}, A w → Idle t w w' → A w') (hp : Uses Reading p) :
    Triple statusProtocol t A p (fun _ => A) fun _ => A := by
  refine Triple.of_uses hA (fun op w hop _ _ => ⟨?_, ?_⟩)
    (fun _ _ _ _ _ hop _ h hallowed hexec => hframe h (reading_idle hop hallowed hexec)) hp
  · cases op <;> first | exact hop.elim | trivial
  · rintro id' rfl
    exact hop.elim

theorem insideFresh_stable : Stable statusProtocol t fun w => Inside t id w ∧ Fresh t w :=
  Inside.stable.and Fresh.stable

theorem triple_reading_insideFresh {p : Program α} (hp : Uses Reading p) :
    Triple statusProtocol t (fun w => Inside t id w ∧ Fresh t w) p
      (fun _ w => Inside t id w ∧ Fresh t w) fun _ => Inside t id :=
  Triple.weaken
    (triple_reading insideFresh_stable (fun h hidle => ⟨inside_idle h.1 hidle, fresh_idle h.2 hidle⟩) hp)
    (fun _ _ h => h) (fun _ _ _ h => h) fun _ _ _ h => h.1

/-- The commit of a locked part of the service. -/
theorem triple_commitRequest {A : List Write → Prop}
    (hothers : ∀ ws, A ws → ∀ wr ∈ ws, ∀ id', id' ≠ id → Respects follows id' wr)
    (hown : ∀ ws, A ws → ∀ row, follows.holds row (onRowAll id ws row) ∨ onRowAll id ws row = none) :
    Triple statusProtocol t (Serving t id A) (await (.commit .request)) (fun _ => Inside t id)
      fun _ _ => False := by
  refine triple_statement rfl Serving.stable (fun _ => Inside.stable) ?_ ?_
  · intro w h wr hwr id' hheld
    refine hothers _ h.request wr hwr id' ?_
    rintro rfl
    exact hheld h.held
  · intro w tools reply w' h _ hsucceed
    obtain ⟨-, rfl⟩ := Prod.mk.inj (Option.some.inj hsucceed)
    refine ⟨h.held, ?_, Function.update_self ..⟩
    have hcommitted : (w.store.commit schema (t, .request)).committed.server id =
        onRowAll id (w.store.pending (t, .request)) (w.store.committed.server id) :=
      server_view w (t, .request) id
    rcases hown _ h.request (w.store.committed.server id) with hrow | hrow
    · exact h.truthful.follows rfl (hcommitted.symm ▸ hrow)
    · intro row hsome
      change (w.store.commit schema (t, .request)).committed.server id = some row at hsome
      rw [hcommitted, hrow] at hsome
      cases hsome

/-- A PATCH sets no status. -/
theorem validatedUpdateValues_status {server : McpServer} {payload : McpServerUpdate}
    {values : McpServerPatch} (h : validatedUpdateValues httpUrl server payload = some values) :
    values.runtimeStatus = none := by
  obtain ⟨validated, -, rfl⟩ := Option.map_eq_some_iff.mp h
  rfl

theorem triple_flushRequest {values : McpServerPatch} (hvalues : values.runtimeStatus = none) :
    Triple statusProtocol t (fun w => Inside t id w ∧ Fresh t w)
      (await (.updateServer .request id values))
      (fun server w => server.id = id ∧ Serving t id (∀ wr ∈ ·, Harmless wr) w)
      fun _ _ => False := by
  refine triple_statement rfl insideFresh_stable (fun _ => (Stable.const _).and Serving.stable)
    (fun _ _ => trivial) ?_
  rintro w tools reply w' ⟨h, hfresh⟩ hexec hsucceed
  have hreply : reply.id = id := by
    have hinstance : ∃ server, w.instance? (t, .request) id = some server ∧
        reply = values.apply server := by
      grind [succeed, Option.map_eq_some_iff]
    obtain ⟨server, hserver, rfl⟩ := hinstance
    simpa [McpServerPatch.apply] using List.find?_some hserver
  have hpre : OwnerPre follows t (.updateServer .request id values) w := trivial
  have hlookup : w'.handles.lookup id = w.handles.lookup id := by simpa using exec_lookup hexec id
  have hcommitted : w'.store.committed = w.store.committed := by simpa using exec_committed hexec
  refine ⟨hreply, exec_holder hexec h.held (by simp) hpre,
    h.truthful.follows hlookup (.inl (by rw [hcommitted])), ?_⟩
  intro wr hwr
  rcases exec_pending hexec .request with heq | heq | ⟨new, hnew, heq⟩
  · simp [heq, hfresh.pending] at hwr
  · simp [heq] at hwr
  · rw [heq, hfresh.pending, List.nil_append, List.mem_singleton] at hwr
    subst hwr
    cases hnew
    exact harmless_update (by simp [McpServerPatch.net, hvalues])

theorem triple_savePatch {values : McpServerPatch} (hvalues : values.runtimeStatus = none) :
    Triple statusProtocol t (fun w => Inside t id w ∧ Fresh t w)
      (exceptIntegrityError do
        let server ← McpRuntime.updateServer .request id values
        await (.commit .request)
        pure server)
      (fun server w => server.id = id ∧ Inside t id w) fun _ => Inside t id := by
  refine Triple.tryCatch (B := fun _ => Inside t id) ?_ fun e => ?_
  · refine Triple.bind (Triple.bind (triple_reading_insideFresh (uses_requireServer rfl)) fun _ =>
      weaken_false (triple_flushRequest hvalues)) ?_
    rintro server w hinv ⟨hid, h⟩
    refine Triple.bind (weaken_false (triple_commitRequest (fun ws hws wr hwr id' _ => hws wr hwr id')
      fun ws hws row => .inl ?_)) (fun _ => Triple.done ?_ fun _ _ h => ⟨hid, h⟩) w hinv h
    · exact onRowAll_relation follows.refl follows.trans (fun wr hwr => hws wr hwr id) row
    · exact (Stable.const _).and Inside.stable
  · cases e <;> exact Triple.raise Inside.stable fun _ _ h => h

theorem triple_runLifecycle {A B : World → Prop} {p : Program α} {Q : α → World → Prop}
    (hB : Stable statusProtocol t B) (hp : Triple statusProtocol t A p Q fun _ => B) :
    Triple statusProtocol t A (runLifecycle p) Q fun _ => B := by
  refine Triple.tryCatch hp fun e => ?_
  split <;> exact Triple.raise hB fun _ _ h => h

/-- A save under the lock gets no further than waiting for it. -/
theorem triple_startAfterSave_held {server : McpServer} (hid : server.id = id) :
    Settles t id (Inside t id) (startAfterSave cfg server) := by
  subst hid
  unfold startAfterSave
  split
  · refine Triple.bind (B := fun _ _ => False) (triple_runLifecycle Inside.stable ?_) fun _ =>
      Triple.of_false fun _ _ h => h
    refine Triple.bind (B := fun _ => Inside t server.id) ?_ fun _ => triple_withLock_held
    unfold requireRuntimeEnabled
    split
    · exact Triple.done Inside.stable fun _ _ h => h
    · exact Triple.raise Inside.stable fun _ _ h => h
  · exact Triple.done Inside.stable fun _ _ h => h

theorem triple_updateServer_service (payload : McpServerUpdate) :
    Triple statusProtocol t (Fresh t) (McpService.updateServer cfg httpUrl id payload)
      (fun _ _ => True) fun _ _ => True := by
  refine triple_withLock ?_
  refine Triple.bind (triple_reading_insideFresh ?_) fun server => ?_
  · refine Uses.bind (uses_await rfl) fun found => ?_
    cases found <;> trivial
  refine Triple.bind (triple_reading_insideFresh (Uses.bind (uses_await trivial) fun _ => trivial))
    fun live => ?_
  split
  · exact Triple.raise Inside.stable fun _ _ h => h.1
  · split
    · exact Triple.raise Inside.stable fun _ _ h => h.1
    · rename_i values hvalues
      refine Triple.bind (triple_savePatch (validatedUpdateValues_status hvalues)) fun server => ?_
      rintro w hinv ⟨hid, h⟩
      exact triple_startAfterSave_held hid w hinv h

theorem triple_flushDelete :
    Triple statusProtocol t (fun w => Inside t id w ∧ Fresh t w) (await (.deleteServer .request id))
      (fun _ => Serving t id (· = [.deleteServer id])) fun _ _ => False := by
  refine triple_statement rfl insideFresh_stable (fun _ => Serving.stable) (fun _ _ => trivial) ?_
  rintro w tools reply w' ⟨h, hfresh⟩ - hsucceed
  simp only [succeed] at hsucceed
  obtain ⟨mid, hmid, heq⟩ := Option.map_eq_some_iff.mp hsucceed
  obtain ⟨store, hstore, rfl⟩ := World.write_eq_some hmid
  obtain ⟨-, rfl⟩ := Prod.mk.inj heq
  obtain ⟨locked, hlocks, rfl⟩ := Store.write_eq_some hstore
  refine ⟨h.held, h.truthful.follows rfl (.inl (congrArg (fun db : Db => statusOf (db.server id))
    hlocks.committed)), ?_⟩
  change (locked.record _ _).pending (t, .request) = _
  rw [Store.record_pending, hlocks.pending, hfresh.pending, List.nil_append]

theorem triple_deleteServer_service :
    Triple statusProtocol t (Fresh t) (McpService.deleteServer cfg id)
      (fun _ _ => True) fun _ _ => True := by
  refine triple_withLock ?_
  refine Triple.bind (triple_reading_insideFresh ?_) fun server => ?_
  · refine Uses.bind (uses_await rfl) fun found => ?_
    cases found <;> trivial
  refine Triple.bind (triple_reading_insideFresh (Uses.bind (uses_await trivial) fun _ => trivial))
    fun live => ?_
  have hdelete : Settles t id (fun w => Inside t id w ∧ Fresh t w) (do
      McpRuntime.deleteServer .request id
      await (.commit .request)) := by
    refine Triple.bind (Triple.bind (triple_reading_insideFresh (uses_requireServer rfl)) fun _ =>
      weaken_false triple_flushDelete) fun _ => weaken_false (triple_commitRequest ?_ ?_)
    · rintro ws rfl wr hwr id' hne
      obtain rfl := List.mem_singleton.mp hwr
      exact respects_delete_ne hne
    · rintro ws rfl row
      exact .inr (by simp [onRowAll, onRow])
  split
  · refine Triple.bind (triple_runLifecycle Inside.stable ?_) fun _ => hdelete
    exact Triple.weaken settles_stopLocked (fun _ _ h => h) (fun _ _ _ h => h) fun _ _ _ h => h.1
  · exact hdelete

theorem triple_true {A : World → Prop} {p : Program α} {Q : α → World → Prop}
    {E : Exn → World → Prop} (h : Triple statusProtocol t A p Q E) :
    Triple statusProtocol t A p (fun _ _ => True) fun _ _ => True :=
  Triple.weaken h (fun _ _ h => h) (fun _ _ _ _ => trivial) fun _ _ _ _ => trivial

theorem triple_requireRuntimeEnabled :
    Triple statusProtocol t (Fresh t) (requireRuntimeEnabled cfg) (fun _ => Fresh t)
      fun _ _ => True := by
  unfold requireRuntimeEnabled
  split
  · exact Triple.done Fresh.stable fun _ _ h => h
  · exact Triple.raise (Stable.const True) fun _ _ _ => trivial

theorem inside_of {p : Program α}
    (hp : Triple statusProtocol t (fun w => Inside t id w ∧ Fresh t w) p
      (fun _ w => Inside t id w ∧ Fresh t w) fun _ w => Inside t id w ∧ Fresh t w) :
    Settles t id (fun w => Inside t id w ∧ Fresh t w) p :=
  Triple.weaken hp (fun _ _ h => h) (fun _ _ _ h => h.1) fun _ _ _ h => h.1

theorem triple_start :
    Triple statusProtocol t (Fresh t) (start cfg id) (fun _ _ => True) fun _ _ => True :=
  Triple.bind triple_requireRuntimeEnabled fun _ => triple_withLock (inside_of settles_startLocked)

theorem triple_stop :
    Triple statusProtocol t (Fresh t) (stop cfg id) (fun _ _ => True) fun _ _ => True :=
  triple_withLock (inside_of settles_stopLocked)

theorem triple_restart :
    Triple statusProtocol t (Fresh t) (restart cfg id) (fun _ _ => True) fun _ _ => True :=
  Triple.bind triple_requireRuntimeEnabled fun _ =>
    triple_withLock (inside_of (Triple.bind settles_stopLocked fun _ => settles_startLocked))

theorem triple_check :
    Triple statusProtocol t (Fresh t) (check cfg id) (fun _ _ => True) fun _ _ => True :=
  Triple.bind triple_requireRuntimeEnabled fun _ => triple_withLock (inside_of settles_checkLocked)

/-- Outside every lock a save may start the server. -/
theorem triple_startAfterSave {server : McpServer} :
    Triple statusProtocol t (Fresh t) (startAfterSave cfg server) (fun _ _ => True)
      fun _ _ => True := by
  unfold startAfterSave
  split
  · refine Triple.bind (triple_runLifecycle (Stable.const True) triple_start) fun _ => ?_
    refine Triple.bind (triple_reading (Stable.const True) (fun _ _ => trivial) (uses_await rfl))
      fun _ => Triple.done (Stable.const True) fun _ _ h => h
  · exact Triple.done (Stable.const True) fun _ _ _ => trivial

/-- The request's session has inserted a row, which says neither running nor stopped. -/
structure Inserted (t : TaskId) (w : World) : Prop where
  request : ∀ wr ∈ w.store.pending (t, .request), Harmless wr
  runtime : w.store.pending (t, .runtime) = []
  loaded : w.loaded (t, .runtime) = []

theorem Inserted.stable : Stable statusProtocol t (Inserted t) := by
  intro w w' _ h hrely _
  exact ⟨by rw [hrely.pending]; exact h.request, (hrely.pending .runtime).trans h.runtime,
    (hrely.loaded .runtime).trans h.loaded⟩

theorem triple_flushInsert (values : McpServerCreate) :
    Triple statusProtocol t (Fresh t) (await (.insertServer .request values))
      (fun _ => Inserted t) fun _ _ => False := by
  refine triple_statement rfl Fresh.stable (fun _ => Inserted.stable) (fun _ _ => trivial) ?_
  intro w tools reply w' h _ hsucceed
  simp only [succeed] at hsucceed
  split at hsucceed
  · simp at hsucceed
  · obtain ⟨mid, hmid, heq⟩ := Option.map_eq_some_iff.mp hsucceed
    obtain ⟨store, hstore, rfl⟩ := World.write_eq_some hmid
    obtain ⟨-, rfl⟩ := Prod.mk.inj heq
    obtain ⟨locked, hlocks, rfl⟩ := Store.write_eq_some hstore
    refine ⟨?_, ?_, ?_⟩
    · change ∀ wr ∈ (locked.record _ _).pending (t, .request), Harmless wr
      rw [Store.record_pending, hlocks.pending, h.pending, List.nil_append]
      intro wr hwr
      obtain rfl := List.mem_singleton.mp hwr
      exact harmless_insert rfl
    · change (locked.record _ _).pending (t, .runtime) = []
      rw [Store.record_pending_ne (by simp), hlocks.pending]
      exact h.pending .runtime
    · exact (World.load_loaded_ne (by simp) _ _).trans h.loaded

theorem triple_commitInsert :
    Triple statusProtocol t (Inserted t) (await (.commit .request)) (fun _ => Fresh t)
      fun _ _ => False := by
  refine triple_statement rfl Inserted.stable (fun _ => Fresh.stable)
    (fun w h wr hwr id' _ => h.request wr hwr id') ?_
  intro w tools reply w' h _ hsucceed
  obtain ⟨-, rfl⟩ := Prod.mk.inj (Option.some.inj hsucceed)
  refine ⟨fun conn => ?_, h.loaded⟩
  cases conn with
  | request => exact Function.update_self ..
  | runtime =>
      change Function.update w.store.pending (t, .request) [] (t, .runtime) = []
      rw [Function.update_of_ne (by simp)]
      exact h.runtime

theorem triple_createServer (payload : McpServerCreate) :
    Triple statusProtocol t (Fresh t) (createServer cfg payload) (fun _ _ => True)
      fun _ _ => True := by
  refine Triple.bind (B := fun _ => Fresh t) (Triple.tryCatch (B := fun _ _ => True) ?_ fun e => ?_)
    fun server => triple_startAfterSave
  · refine Triple.bind (weaken_false (triple_flushInsert payload)) fun server => ?_
    exact Triple.bind (weaken_false triple_commitInsert) fun _ =>
      Triple.done Fresh.stable fun _ _ h => h
  · cases e <;> exact Triple.raise (Stable.const True) fun _ _ _ => trivial

theorem triple_run (call : ServiceCall) :
    Triple statusProtocol t (Fresh t) (call.run cfg httpUrl) (fun _ _ => True)
      fun _ _ => True := by
  have hdiscard : ∀ {α : Type} {p : Program α},
      Triple statusProtocol t (Fresh t) p (fun _ _ => True) (fun _ _ => True) →
      Triple statusProtocol t (Fresh t) (McpService.discard p) (fun _ _ => True) fun _ _ => True :=
    fun hp => Triple.bind hp fun _ => Triple.done (Stable.const True) fun _ _ h => h
  cases call with
  | create payload => exact hdiscard (triple_createServer payload)
  | update id payload => exact hdiscard (triple_updateServer_service payload)
  | delete id => exact triple_deleteServer_service
  | start id => exact hdiscard (triple_runLifecycle (Stable.const True) triple_start)
  | stop id => exact hdiscard (triple_runLifecycle (Stable.const True) triple_stop)
  | restart id => exact hdiscard (triple_runLifecycle (Stable.const True) triple_restart)
  | check id => exact hdiscard (triple_runLifecycle (Stable.const True) triple_check)

theorem triple_request (call : ServiceCall) :
    Triple statusProtocol t (Fresh t) (request cfg httpUrl call) (fun _ _ => True)
      fun _ _ => True := by
  have hclose : Triple statusProtocol t (fun _ => True) (await (.close .request)) (fun _ _ => True)
      fun _ _ => True := by
    refine Triple.perform (Stable.const True) (fun _ => Stable.const True)
      (fun _ => Stable.const True) (fun _ _ _ => ⟨trivial, by simp⟩) ?_
    intro w choice r w' _ _ _ _ _
    cases r <;> trivial
  exact Triple.ensuring (fun _ => Stable.const True) (fun _ => Stable.const True) (triple_run call)
    (fun _ => hclose) fun _ => hclose

theorem triple_lifecycle (call : LifecycleCall) :
    Triple statusProtocol t (Fresh t) (call.run cfg) (fun _ _ => True) fun _ _ => True := by
  have hunit : ∀ {α : Type} {p : Program α},
      Triple statusProtocol t (Fresh t) p (fun _ _ => True) (fun _ _ => True) →
      Triple statusProtocol t (Fresh t) (p.bind fun _ => .done ()) (fun _ _ => True)
        fun _ _ => True :=
    fun hp => Triple.bind hp fun _ => Triple.done (Stable.const True) fun _ _ h => h
  cases call with
  | start id => exact hunit triple_start
  | stop id => exact hunit triple_stop
  | restart id => exact hunit triple_restart
  | check id => exact hunit triple_check

end Requests

/-- The operations of a run: requests to the service, and calls of the manager by itself. -/
def Operation (cfg : Settings) (httpUrl : String → Option String) (p : Program Unit) : Prop :=
  Request cfg httpUrl p ∨ ∃ call : LifecycleCall, p = call.run cfg

/-- The state in which the service begins: no request is in flight, no handle is registered and no
row says running. -/
structure Initial (w : World) : Prop where
  quiet : Quiet w
  handles : w.handles = []
  notRunning : ∀ row ∈ w.store.committed.servers, row.runtimeStatus ≠ .running
  pending : ∀ x, w.store.pending x = []
  loaded : ∀ x, w.loaded x = []

theorem Initial.truthful {w : World} (h : Initial w) (id : ServerId) : Truthful id w := by
  intro row hrow
  have hmem : row ∈ w.store.committed.servers := List.mem_of_find?_eq_some hrow
  exact ⟨fun hrunning => (h.notRunning row hmem hrunning).elim, fun _ => by simp [h.handles]⟩

/-- **Shown statuses.** In every interleaving of operations in which no call of a repository fails, a
server that no operation is under way on has a handle if it is shown as running, and none if it is
shown as stopped. -/
theorem statuses_truthful (cfg : Settings) (httpUrl : String → Option String) {w : World}
    (hinitial : Initial w) {c : Config}
    (hrun : Steps exec (Operation cfg httpUrl) Healthy (.idle w) c) {id : ServerId}
    (hfree : (c.shared.lock id).holder = none) : Truthful id c.shared := by
  have hfresh : ∀ t, Fresh t w := fun t =>
    ⟨fun conn => hinitial.pending (t, conn), hinitial.loaded (t, .runtime)⟩
  have hinv : Invariant statusProtocol Fresh (fun _ _ _ => True) c := by
    refine (Invariant.idle (fun id _ => hinitial.truthful id) hfresh).steps
      (fun t => Fresh.stable) ?_ hrun
    rintro t p (⟨call, rfl⟩ | ⟨call, rfl⟩) w' hinv' hfresh'
    · exact Safe.mono (fun _ _ _ _ => trivial) (triple_request call w' hinv' hfresh')
    · exact Safe.mono (fun _ _ _ _ => trivial) (triple_lifecycle call w' hinv' hfresh')
  exact hinv.shared id hfree

/-- A start, from the request to its end. -/
def startSchedule : List (Move Reply Exn TaskId Choice) :=
  .spawn 0 (request enabledRuntime some (.start 0)) ::
    List.replicate 19 (.resume 0 (.succeed [McpFailures.namedTool "read"]))

theorem stoppedWorld_initial : Initial McpFailures.stoppedWorld :=
  ⟨fun _ => rfl, rfl, by decide, fun _ => rfl, fun _ => rfl⟩

theorem statuses_truthful_started : ∃ c : Config,
    follow exec Healthy (.idle McpFailures.stoppedWorld) startSchedule = some c ∧
      (c.shared.lock 0).holder = none ∧ c.shared.handles = [(0, 0)] ∧ Truthful 0 c.shared := by
  have hrun : ∃ c : Config,
      follow exec Healthy (.idle McpFailures.stoppedWorld) startSchedule = some c ∧
        (c.shared.lock 0).holder = none ∧ c.shared.handles = [(0, 0)] :=
    ⟨_, rfl, rfl, rfl⟩
  obtain ⟨c, hc, hfree, hhandles⟩ := hrun
  have hspawn : ∀ p ∈ started startSchedule, Operation enabledRuntime some p := by
    simpa [startSchedule, started] using .inl ⟨_, rfl⟩
  exact ⟨c, hc, hfree, hhandles, statuses_truthful enabledRuntime some stoppedWorld_initial
    (follow_steps hspawn hc) hfree⟩

end ChangeQuality.McpShownStatuses
