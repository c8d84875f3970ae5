import ChangeQuality.McpLocks

/-!
Who waits for whom at the locks of the servers, in every interleaving of requests, lifecycle calls and
the startup, whatever a save stores. A task holds or waits for one lock at most, so the tasks that wait
for a server wait for nothing else.
-/

namespace ChangeQuality.McpProgress

open ChangeQuality.Values
open ChangeQuality.McpServers
open ChangeQuality.McpRuntime
open ChangeQuality.McpService
open ChangeQuality.McpPrograms
open ChangeQuality.McpSystem
open ChangeQuality.McpLocks
open ChangeQuality.Coroutine
open ChangeQuality.Interference

/-- The programs that take the locks: the requests, the calls of the manager and the startup. -/
inductive Task (cfg : Settings) (httpUrl : String → Option String) : Program Unit → Prop
  | request (call : ServiceCall) : Task cfg httpUrl (request cfg httpUrl call)
  | lifecycle (call : LifecycleCall) : Task cfg httpUrl (call.run cfg)
  | startup (servers : List McpServer) : Task cfg httpUrl (startEnabledServers cfg servers)

/-- `t` waits in the queue of a lock that `t'` holds. -/
def WaitsFor (w : World) (t t' : TaskId) : Prop :=
  ∃ id, t ∈ (w.lock id).waiters ∧ (w.lock id).holder = some t'

/-- Task `t` holds at most the lock `held`, and waits at most for the lock `awaited`. -/
def Stands (t : TaskId) (held awaited : Option ServerId) : World → Prop :=
  Standing t (fun id => held = some id) fun id => awaited = some id

/-- The lock that a task may take or wait for: any, or the one that it holds. -/
def Takes (held : Option ServerId) (id : ServerId) : Prop :=
  held = none ∨ held = some id

/-- A task is at one lock at a time, and waits for none but in the queue. -/
def WaitPre (t : TaskId) (op : Op) (w : World) : Prop :=
  match op with
  | .tryAcquire id => ∃ held, Takes held id ∧ Stands t held none w
  | .acquired id => ∃ held, Takes held id ∧ Stands t held (some id) w
  | .release id => Stands t (some id) none w
  | _ => ∃ held, Stands t held none w

/-- What holds of every lock between two steps. -/
def WaitInv (w : World) : Prop :=
  ∀ id, (w.lock id).waiters.Nodup

section Protocol

variable {t t' : TaskId} {op : Op} {id : ServerId} {w : World} {l : AsyncLock}

theorem LockChange.nodup (h : LockChange t op id (w.lock id) l) (hinv : WaitInv w)
    (hpre : WaitPre t op w) : l.waiters.Nodup := by
  have hnodup := hinv id
  cases h with
  | take hholder hwaiters => exact List.nodup_nil
  | join =>
      obtain ⟨held, -, hstands⟩ := hpre
      have hnew : t ∉ (w.lock id).waiters := fun hmem => by simpa using (hstands id).2.mp hmem
      refine List.nodup_append.mpr ⟨hnodup, by simp, fun a ha b hb => ?_⟩
      rintro rfl
      exact hnew (List.mem_singleton.mp hb ▸ ha)
  | serve hholder hwaiters =>
      rw [hwaiters] at hnodup
      exact (List.nodup_cons.mp hnodup).2
  | abandon => exact hnodup.filter _
  | release => exact hnodup

theorem LockChange.others (h : LockChange t op id (w.lock id) l) (hpre : WaitPre t op w)
    (hne : t' ≠ t) : (l.holder = some t' ↔ (w.lock id).holder = some t') ∧
      (t' ∈ l.waiters ↔ t' ∈ (w.lock id).waiters) := by
  cases h with
  | take hholder hwaiters => simp [hholder, hwaiters, hne.symm]
  | join => simp [hne]
  | serve hholder hwaiters => simp [hholder, hwaiters, hne, hne.symm]
  | abandon => simp [hne]
  | release =>
      have hholder : (w.lock id).holder = some t := (hpre id).1.mpr rfl
      simp [hholder, hne.symm]

theorem lockRely_refl (t : TaskId) (w : World) : LockRely t w w :=
  fun _ => ⟨Iff.rfl, Iff.rfl⟩

theorem lockRely_trans {w₁ w₂ w₃ : World} (h₁ : LockRely t w₁ w₂) (h₂ : LockRely t w₂ w₃) :
    LockRely t w₁ w₃ :=
  fun id => ⟨(h₂ id).1.trans (h₁ id).1, (h₂ id).2.trans (h₁ id).2⟩

/-- An operation changes one lock at most, and there the places of its own task only. -/
theorem wait_sound {choice : Choice} {r : Except Exn (Reply op)} {w' : World} (hinv : WaitInv w)
    (hpre : WaitPre t op w) (hexec : exec t op choice w = some (r, w')) :
    WaitInv w' ∧ ∀ t', t' ≠ t → LockRely t' w w' := by
  rcases exec_lock hexec with ⟨-, heq⟩ | ⟨id, l, hchange, heq⟩
  · refine ⟨?_, fun t' _ id => by simp [heq]⟩
    simpa only [WaitInv, heq] using hinv
  · refine ⟨fun id' => ?_, fun t' hne id' => ?_⟩
    all_goals
      rw [heq]
      by_cases hid : id' = id
    · subst hid
      simpa using LockChange.nodup hchange hinv hpre
    · simpa [hid] using hinv id'
    · subst hid
      simpa using LockChange.others hchange hpre hne
    · simp [hid]

end Protocol

/-- The places of the tasks at the locks. -/
def waitProtocol : Protocol exec unrestricted where
  inv := WaitInv
  rely := LockRely
  pre := WaitPre
  rely_refl := lockRely_refl
  rely_trans := lockRely_trans
  sound hinv hpre _ hexec := wait_sound hinv hpre hexec

section Programs

variable {cfg : Settings} {httpUrl : String → Option String} {t : TaskId}
  {held awaited : Option ServerId} {id : ServerId} {α β : Type}

theorem stands_stable (held awaited : Option ServerId) :
    Stable waitProtocol t (Stands t held awaited) :=
  fun _ _ _ h hrely _ id => ⟨(hrely id).1.trans (h id).1, (hrely id).2.trans (h id).2⟩

/-- The program takes no lock but those that it may, and ends where it began. -/
abbrev Keeps (t : TaskId) (held : Option ServerId) (p : Program α) : Prop :=
  Triple waitProtocol t (Stands t held none) p (fun _ => Stands t held none)
    fun _ => Stands t held none

theorem wait_pre_of_not_lockOp {op : Op} {w : World} (hop : ¬ LockOp op)
    (h : Stands t held none w) : WaitPre t op w := by
  cases op <;> first | exact absurd trivial hop | exact ⟨held, h⟩

theorem keeps_noLock {p : Program α} (hp : NoLock p) : Keeps t held p :=
  Triple.of_uses (stands_stable _ _) (fun _ _ hop _ h => wait_pre_of_not_lockOp hop h)
    (fun _ _ _ _ _ hop _ h _ hexec => Standing.exec h hexec hop) hp

theorem keeps_bind {p : Program α} {f : α → Program β} (hp : Keeps t held p)
    (hf : ∀ a, Keeps t held (f a)) : Keeps t held (p >>= f) :=
  Triple.bind hp hf

theorem keeps_tryCatch {p : Program α} {handler : Exn → Program α} (hp : Keeps t held p)
    (hhandler : ∀ e, Keeps t held (handler e)) : Keeps t held (p.tryCatch handler) :=
  Triple.tryCatch hp hhandler

theorem keeps_ensuring {p : Program α} {cleanup : Program Unit} (hp : Keeps t held p)
    (hcleanup : Keeps t held cleanup) : Keeps t held (p.ensuring cleanup) :=
  Triple.ensuring (fun _ => stands_stable _ _) (fun _ => stands_stable _ _) hp
    (fun _ => hcleanup) fun _ => hcleanup

theorem keeps_runLifecycle {p : Program α} (hp : Keeps t held p) : Keeps t held (runLifecycle p) := by
  refine keeps_tryCatch hp fun e => ?_
  cases he : e.isKeyError
  · exact keeps_noLock trivial
  · exact keeps_noLock trivial

theorem keeps_exceptException {p : Program α} {handler : Exn → Program α} (hp : Keeps t held p)
    (hhandler : ∀ e, Keeps t held (handler e)) : Keeps t held (exceptException p handler) := by
  refine keeps_tryCatch hp fun e => ?_
  cases he : e.isException
  · exact keeps_noLock trivial
  · exact hhandler e

theorem keeps_exceptIntegrityError {p : Program α} (hp : Keeps t held p) :
    Keeps t held (exceptIntegrityError p) := by
  refine keeps_tryCatch hp fun e => ?_
  cases e <;> exact keeps_noLock trivial

/-- A task that holds the lock is sent to its queue. -/
theorem triple_tryAcquire (htakes : Takes held id) :
    Triple waitProtocol t (Stands t held none) (await (.tryAcquire id))
      (fun taken w => match taken with
        | true => held = none ∧ Stands t (some id) none w
        | false => Stands t held (some id) w)
      fun _ => Stands t held none := by
  refine Triple.perform (stands_stable _ _) ?_ (fun _ => stands_stable _ _)
    (fun w _ h => ⟨held, htakes, h⟩) ?_
  · intro taken
    cases taken
    · exact stands_stable _ _
    · exact (Stable.const _).and (stands_stable _ _)
  · intro w choice r w' _ h _ _ hexec
    cases choice with
    | fail e poisons => simp [exec, synchronous] at hexec
    | succeed tools =>
        obtain ⟨reply, rfl, hsucceed⟩ := exec_succeed hexec
        simp only [succeed] at hsucceed
        split at hsucceed
        · rename_i hfree
          obtain ⟨rfl, rfl⟩ := Prod.mk.inj (Option.some.inj hsucceed)
          have hnone : held = none := by
            refine htakes.resolve_right fun heq => ?_
            simpa [hfree.1] using (h id).1.mpr heq
          subst hnone
          exact ⟨rfl, Standing.setLock h (by simp) fun id' hne => by simp [Ne.symm hne]⟩
        · obtain ⟨rfl, rfl⟩ := Prod.mk.inj (Option.some.inj hsucceed)
          exact Standing.setLock h ⟨(h id).1, by simp⟩ fun id' hne => by simp [Ne.symm hne]

/-- The queue of a lock is left with the lock, which the task did not hold, or by an exception. -/
theorem triple_acquired (htakes : Takes held id) :
    Triple waitProtocol t (Stands t held (some id)) (await (.acquired id))
      (fun _ w => held = none ∧ Stands t (some id) none w) fun _ => Stands t held none := by
  refine Triple.perform (stands_stable _ _) (fun _ => (Stable.const _).and (stands_stable _ _))
    (fun _ => stands_stable _ _) (fun w _ h => ⟨held, htakes, h⟩) ?_
  intro w choice r w' hinv h _ _ hexec
  cases choice with
  | fail e poisons =>
      obtain ⟨-, rfl, rfl | ⟨conn, hconn, -⟩⟩ := exec_fail hexec
      · exact Standing.setLock h ⟨(h id).1, by simp⟩ fun id' hne => by simp [Ne.symm hne]
      · simp [sessionOf] at hconn
  | succeed tools =>
      obtain ⟨reply, rfl, hsucceed⟩ := exec_succeed hexec
      simp only [succeed] at hsucceed
      split at hsucceed
      · rename_i hnext
        obtain ⟨rfl, rfl⟩ := Prod.mk.inj (Option.some.inj hsucceed)
        have hnone : held = none := by
          refine htakes.resolve_right fun heq => ?_
          simpa [hnext.1] using (h id).1.mpr heq
        subst hnone
        have hwaiters := List.eq_cons_of_mem_head? hnext.2
        have hnodup := hinv id
        rw [hwaiters] at hnodup
        refine ⟨rfl, Standing.setLock h ⟨by simp, ?_⟩ fun id' hne => by simp [Ne.symm hne]⟩
        simpa using (List.nodup_cons.mp hnodup).1
      · simp at hsucceed

theorem triple_release :
    Triple waitProtocol t (Stands t (some id) none) (await (.release id))
      (fun _ => Stands t none none) fun _ => Stands t none none := by
  refine Triple.perform (stands_stable _ _) (fun _ => stands_stable _ _)
    (fun _ => stands_stable _ _) (fun w _ h => h) ?_
  intro w choice r w' _ h _ _ hexec
  cases choice with
  | fail e poisons => simp [exec, synchronous] at hexec
  | succeed tools =>
      obtain ⟨reply, rfl, hsucceed⟩ := exec_succeed hexec
      obtain ⟨rfl, rfl⟩ := Prod.mk.inj (Option.some.inj hsucceed)
      exact Standing.setLock h ⟨by simp, (h id).2⟩ fun id' hne => by simp [Ne.symm hne]

/-- `async with` on a lock: the body runs only for a task that did not hold it. -/
theorem keeps_withLock {body : Program α} (htakes : Takes held id)
    (hbody : Keeps t (some id) body) : Keeps t held (withLock id body) := by
  have hensuring : Triple waitProtocol t (fun w => held = none ∧ Stands t (some id) none w)
      (body.ensuring (await (.release id))) (fun _ => Stands t held none)
      fun _ => Stands t held none := by
    refine Triple.given fun hnone => ?_
    subst hnone
    exact Triple.ensuring (fun _ => stands_stable _ _) (fun _ => stands_stable _ _) hbody
      (fun _ => triple_release) fun _ => triple_release
  refine Triple.bind (triple_tryAcquire htakes) fun taken => ?_
  cases taken with
  | true => exact hensuring
  | false => exact Triple.bind (triple_acquired htakes) fun _ => hensuring

theorem keeps_requireRuntimeEnabled : Keeps t held (requireRuntimeEnabled cfg) :=
  keeps_noLock (uses_requireRuntimeEnabled cfg)

theorem keeps_start (htakes : Takes held id) : Keeps t held (start cfg id) :=
  keeps_bind keeps_requireRuntimeEnabled fun _ =>
    keeps_withLock htakes (keeps_noLock (noLock_startLocked cfg id))

theorem keeps_stop (htakes : Takes held id) : Keeps t held (stop cfg id) :=
  keeps_withLock htakes (keeps_noLock (noLock_stopLocked cfg id))

theorem keeps_restart (htakes : Takes held id) : Keeps t held (restart cfg id) :=
  keeps_bind keeps_requireRuntimeEnabled fun _ => keeps_withLock htakes
    (keeps_bind (keeps_noLock (noLock_stopLocked cfg id)) fun _ =>
      keeps_noLock (noLock_startLocked cfg id))

theorem keeps_check (htakes : Takes held id) : Keeps t held (check cfg id) :=
  keeps_bind keeps_requireRuntimeEnabled fun _ =>
    keeps_withLock htakes (keeps_noLock (noLock_checkLocked cfg id))

theorem keeps_startAfterSave {server : McpServer} (htakes : Takes held server.id) :
    Keeps t held (startAfterSave cfg server) := by
  unfold startAfterSave
  split
  · refine keeps_bind (keeps_runLifecycle (keeps_start htakes)) fun _ => keeps_noLock ?_
    exact Uses.bind (Uses.perform not_false) fun _ => trivial
  · exact keeps_noLock trivial

theorem keeps_createServer (payload : McpServerCreate) :
    Keeps t none (createServer cfg payload) := by
  refine keeps_bind (keeps_exceptIntegrityError (keeps_noLock ?_)) fun server =>
    keeps_startAfterSave (.inl rfl)
  exact Uses.bind (Uses.perform not_false) fun _ =>
    Uses.bind (Uses.perform not_false) fun _ => trivial

/-- A PATCH answers with the row of the server that it names. -/
theorem triple_storePatch (id : ServerId) (values : McpServerPatch) :
    Triple waitProtocol t (Stands t held none) (await (.updateServer .request id values))
      (fun server w => server.id = id ∧ Stands t held none w) fun _ => Stands t held none := by
  refine Triple.perform (stands_stable _ _) (fun _ => (Stable.const _).and (stands_stable _ _))
    (fun _ => stands_stable _ _) (fun _ _ h => ⟨held, h⟩) ?_
  intro w choice r w' _ h _ _ hexec
  have hstands : Stands t held none w' := Standing.exec h hexec not_false
  cases choice with
  | fail e poisons =>
      obtain ⟨-, rfl, -⟩ := exec_fail hexec
      exact hstands
  | succeed tools =>
      obtain ⟨reply, rfl, hsucceed⟩ := exec_succeed hexec
      have hreply : ∃ server, w.instance? (t, .request) id = some server ∧
          reply = values.apply server := by
        grind [succeed, Option.map_eq_some_iff]
      obtain ⟨server, hserver, rfl⟩ := hreply
      refine ⟨?_, hstands⟩
      have hid : server.id = id := by simpa using List.find?_some hserver
      exact hid

theorem triple_savePatch (id : ServerId) (values : McpServerPatch) :
    Triple waitProtocol t (Stands t held none)
      (exceptIntegrityError do
        let server ← McpRuntime.updateServer .request id values
        await (.commit .request)
        pure server)
      (fun server w => server.id = id ∧ Stands t held none w) fun _ => Stands t held none := by
  refine Triple.tryCatch (B := fun _ => Stands t held none) ?_ fun e => ?_
  · refine Triple.bind
      (Triple.bind (keeps_noLock (noLock_requireServer _ _)) fun _ => triple_storePatch id values)
      fun server => Triple.given fun hid => ?_
    refine Triple.bind (keeps_noLock (p := await (.commit .request)) (Uses.perform not_false))
      fun _ => Triple.done ?_ fun _ _ h => ⟨hid, h⟩
    exact (Stable.const _).and (stands_stable _ _)
  · cases e <;> exact Triple.raise (stands_stable _ _) fun _ _ h => h

/-- A save under the lock starts no server but its own. -/
theorem keeps_updateServer (payload : McpServerUpdate) (htakes : Takes held id) :
    Keeps t held (updateServer cfg httpUrl id payload) := by
  refine keeps_withLock htakes ?_
  refine keeps_bind (keeps_noLock (noLock_getServerOrNotFound id)) fun server => ?_
  refine keeps_bind (keeps_noLock (noLock_isRunning id)) fun live => ?_
  split
  · exact keeps_noLock trivial
  · split
    · exact keeps_noLock trivial
    · rename_i values _
      refine Triple.bind (triple_savePatch id values) fun server => Triple.given fun hid => ?_
      exact keeps_startAfterSave (.inr (congrArg some hid.symm))

theorem keeps_deleteServer (htakes : Takes held id) : Keeps t held (deleteServer cfg id) := by
  refine keeps_withLock htakes ?_
  refine keeps_bind (keeps_noLock (noLock_getServerOrNotFound id)) fun server => ?_
  refine keeps_bind (keeps_noLock (noLock_isRunning id)) fun live => ?_
  have hrest : Keeps t (some id) (do
      McpRuntime.deleteServer .request id
      await (.commit .request)) :=
    keeps_noLock (Uses.bind (noLock_deleteServer .request id) fun _ => Uses.perform not_false)
  split
  · exact keeps_bind (keeps_runLifecycle (keeps_noLock (noLock_stopLocked cfg id))) fun _ => hrest
  · exact hrest

theorem keeps_discard {p : Program α} (hp : Keeps t held p) :
    Keeps t held (McpService.discard p) :=
  keeps_bind hp fun _ => keeps_noLock trivial

theorem keeps_request (call : ServiceCall) : Keeps t none (request cfg httpUrl call) := by
  refine keeps_ensuring ?_ (keeps_noLock (Uses.perform not_false))
  have htakes : ∀ id, Takes none id := fun _ => .inl rfl
  cases call with
  | create payload => exact keeps_discard (keeps_createServer payload)
  | update id payload => exact keeps_discard (keeps_updateServer payload (htakes id))
  | delete id => exact keeps_deleteServer (htakes id)
  | start id => exact keeps_discard (keeps_runLifecycle (keeps_start (htakes id)))
  | stop id => exact keeps_discard (keeps_runLifecycle (keeps_stop (htakes id)))
  | restart id => exact keeps_discard (keeps_runLifecycle (keeps_restart (htakes id)))
  | check id => exact keeps_discard (keeps_runLifecycle (keeps_check (htakes id)))

theorem keeps_lifecycle (call : LifecycleCall) : Keeps t none (call.run cfg) := by
  have hend : ∀ _ : McpLifecycleResponse, Keeps t none (pure () : Program Unit) :=
    fun _ => keeps_noLock trivial
  cases call with
  | start id => exact keeps_bind (keeps_start (.inl rfl)) hend
  | stop id => exact keeps_bind (keeps_stop (.inl rfl)) hend
  | restart id => exact keeps_bind (keeps_restart (.inl rfl)) hend
  | check id => exact keeps_bind (keeps_check (.inl rfl)) hend

theorem noLock_updateRuntimeStatus (id : ServerId) (status : McpServerRuntimeStatus)
    (lastError : Option String) : NoLock (updateRuntimeStatus .runtime id status lastError) :=
  uses_updateRuntimeStatus not_false not_false

theorem keeps_startup (servers : List McpServer) :
    Keeps t none (startEnabledServers cfg servers) := by
  have hstored : ∀ (id : ServerId) (status : McpServerRuntimeStatus) (lastError : Option String),
      NoLock (do
        let _ ← updateRuntimeStatus .runtime id status lastError
        await (.commit .runtime)) := fun id status lastError =>
    Uses.bind (noLock_updateRuntimeStatus id status lastError) fun _ => Uses.perform not_false
  have heach : ∀ body : McpServer → Program Unit, (∀ server, Keeps t none (body server)) →
      Keeps t none (forEachServer body servers) := by
    intro body hbody
    induction servers with
    | nil => exact keeps_noLock trivial
    | cons server servers ih => exact keeps_bind (hbody server) fun _ => ih
  unfold startEnabledServers
  split
  · refine heach _ fun server => keeps_exceptException ?_ fun e => keeps_noLock ?_
    · exact keeps_bind (keeps_start (.inl rfl)) fun _ => keeps_noLock trivial
    · refine Uses.ensuring (Uses.bind (noLock_requireServer _ _) fun current => ?_)
        (Uses.perform not_false)
      split
      · exact hstored _ _ _
      · trivial
  · refine heach _ fun server => keeps_noLock ?_
    exact Uses.ensuring (hstored _ _ _) (Uses.perform not_false)

theorem keeps_task {p : Program Unit} (hp : Task cfg httpUrl p) : Keeps t none p := by
  cases hp with
  | request call => exact keeps_request call
  | lifecycle call => exact keeps_lifecycle call
  | startup servers => exact keeps_startup servers

end Programs

/-- The lock is held by a task that waits for no lock, or its first waiter may take it at once. -/
def Moves (c : Config) (id : ServerId) : Prop :=
  (∃ t op k, (c.shared.lock id).holder = some t ∧ c.task t = some (.await op k) ∧
    ∀ id', op ≠ .acquired id') ∨
  ∃ t k w', c.task t = some (.await (.acquired id) k) ∧
    exec t (.acquired id) (.succeed []) c.shared = some (.ok (), w') ∧
    (w'.lock id).holder = some t

section Runs

variable {cfg : Settings} {httpUrl : String → Option String} {w : World} {c : Config}

abbrev Standings (c : Config) : Prop :=
  Invariant waitProtocol (fun t => Stands t none none) (fun t _ => Stands t none none) c

theorem standings_steps (hquiet : Quiet w)
    (hrun : Steps exec (Task cfg httpUrl) unrestricted (.idle w) c) : Standings c := by
  have hstart : WaitInv w := fun id => by simp [hquiet id]
  have hfresh : ∀ t, Stands t none none w := fun t id => by simp [hquiet id]
  refine (Invariant.idle hstart hfresh).steps (fun t => stands_stable _ _) ?_ hrun
  intro t p hp w' hinv hstands
  refine Safe.mono ?_ (keeps_task hp w' hinv hstands)
  rintro (e | a) w'' - h <;> exact h

/-- The place of a task that awaits an operation. -/
theorem Standings.awaiting (h : Standings c) {t : TaskId} {op : Op}
    {k : Except Exn (Reply op) → Program Unit} (htask : c.task t = some (.await op k)) :
    ∃ held awaited, Stands t held awaited c.shared ∧
      (∀ id, awaited = some id → op = .acquired id ∧ Takes held id) ∧
      ∀ id, op = .acquired id → awaited = some id := by
  obtain ⟨hpre, -⟩ := h.safe t _ htask c.shared (waitProtocol.rely_refl t _) h.shared
  cases op with
  | acquired id =>
      obtain ⟨held, htakes, hstands⟩ := hpre
      refine ⟨held, some id, hstands, fun id' heq => ?_, fun id' heq => ?_⟩
      · obtain rfl := Option.some.inj heq
        exact ⟨rfl, htakes⟩
      · exact congrArg some (Op.acquired.inj heq)
  | tryAcquire id =>
      obtain ⟨held, -, hstands⟩ := hpre
      exact ⟨held, none, hstands, fun _ heq => (by cases heq), fun _ heq => by cases heq⟩
  | release id =>
      exact ⟨some id, none, hpre, fun _ heq => (by cases heq), fun _ heq => by cases heq⟩
  | _ =>
      obtain ⟨held, hstands⟩ := hpre
      exact ⟨held, none, hstands, fun _ heq => (by cases heq), fun _ heq => by cases heq⟩

/-- A task that stands at a lock has not ended. -/
theorem Standings.unfinished (h : Standings c) {t : TaskId} {id : ServerId}
    (hat : (c.shared.lock id).holder = some t ∨ t ∈ (c.shared.lock id).waiters) :
    ∃ op k, c.task t = some (.await op k) := by
  have habsent : ¬ Stands t none none c.shared := by
    intro hnone
    rcases hat with hholder | hwaits
    · simpa using (hnone id).1.mp hholder
    · simpa using (hnone id).2.mp hwaits
  cases htask : c.task t with
  | none => exact absurd (h.fresh t htask) habsent
  | some p =>
      cases p with
      | done u => exact absurd (h.ended (r := .ok u) htask) habsent
      | raise e => exact absurd (h.ended (r := .error e) htask) habsent
      | await op k => exact ⟨op, k, rfl⟩

/-- A task that waits for a lock stands at no other one. -/
theorem Standings.confined (h : Standings c) {t : TaskId} {id id' : ServerId}
    (hwaits : t ∈ (c.shared.lock id).waiters)
    (hat : (c.shared.lock id').holder = some t ∨ t ∈ (c.shared.lock id').waiters) : id' = id := by
  obtain ⟨op, k, htask⟩ := h.unfinished (.inr hwaits)
  obtain ⟨held, awaited, hstands, hawaited, -⟩ := h.awaiting htask
  have hid := (hstands id).2.mp hwaits
  obtain ⟨-, htakes⟩ := hawaited id hid
  rcases hat with hholder | hwaits'
  · have hheld := (hstands id').1.mp hholder
    rcases htakes with hnone | hsame
    · rw [hnone] at hheld
      cases hheld
    · exact Option.some.inj (hheld.symm.trans hsame)
  · exact Option.some.inj (((hstands id').2.mp hwaits').symm.trans hid)

/-- Where a path of length two ends at its middle, every path is an edge. -/
theorem edge_of_transGen {α : Type} {r : α → α → Prop} (h : ∀ a b b', r a b → r b b' → b' = b)
    {a b : α} (hpath : Relation.TransGen r a b) : r a b := by
  induction hpath with
  | single hedge => exact hedge
  | tail _ hedge ih => exact h _ _ _ ih hedge ▸ ih

theorem Standings.moves (h : Standings c) {id : ServerId}
    (hbusy : (c.shared.lock id).holder ≠ none ∨ (c.shared.lock id).waiters ≠ [])
    (hself : ∀ t, (c.shared.lock id).holder = some t → t ∉ (c.shared.lock id).waiters) :
    Moves c id := by
  cases hholder : (c.shared.lock id).holder with
  | some t =>
      -- a holder that waited would wait for this lock
      obtain ⟨op, k, htask⟩ := h.unfinished (.inl hholder)
      obtain ⟨held, awaited, hstands, -, hacquired⟩ := h.awaiting htask
      refine .inl ⟨t, op, k, hholder, htask, fun id' hop => hself t hholder ?_⟩
      have hwaits := (hstands id').2.mpr (hacquired id' hop)
      exact h.confined hwaits (.inl hholder) ▸ hwaits
  | none =>
      obtain ⟨t, rest, hwaiters⟩ :=
        List.exists_cons_of_ne_nil (hbusy.resolve_left (not_not_intro hholder))
      have hwaits : t ∈ (c.shared.lock id).waiters := by simp [hwaiters]
      obtain ⟨op, k, htask⟩ := h.unfinished (.inr hwaits)
      obtain ⟨held, awaited, hstands, hawaited, -⟩ := h.awaiting htask
      obtain ⟨rfl, -⟩ := hawaited id ((hstands id).2.mp hwaits)
      refine .inr ⟨t, k, c.shared.setLock id { holder := some t, waiters := rest }, htask, ?_, ?_⟩
      · simp [exec, rejected, sessionOf, succeed, hholder, hwaiters]
      · simp [World.setLock]

/-- A save waits for itself, and a start of the same server waits behind it, while a stop of another
one has its lock. -/
def stuckSchedule : List (Move Reply Exn TaskId Choice) :=
  correctArgsSchedule ++
    [.spawn 1 (request enabledRuntime some (.start 0)), .resume 1 (.succeed []),
      .spawn 2 (request enabledRuntime some (.stop 1)), .resume 2 (.succeed [])]

end Runs

end ChangeQuality.McpProgress
