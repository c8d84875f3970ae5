import ChangeQuality.McpPrograms
import ChangeQuality.McpSystem

/-!
The per-server lock across the two layers that take it. A task that waits for a lock it already
holds waits for ever, and whether a save gets there depends on the row it has just stored.
-/

namespace ChangeQuality.McpLocks

open ChangeQuality.Values
open ChangeQuality.McpServers
open ChangeQuality.McpRuntime
open ChangeQuality.McpService
open ChangeQuality.McpPrograms
open ChangeQuality.McpSystem
open ChangeQuality.Coroutine
open ChangeQuality.Interference

/-- No task waits for a lock that it holds. -/
def NoSelfWait (w : World) : Prop :=
  ∀ id t, t ∈ (w.lock id).waiters → (w.lock id).holder ≠ some t

/-- The programs of the service's requests. -/
def Request (cfg : Settings) (httpUrl : String → Option String) (p : Program Unit) : Prop :=
  ∃ call, p = request cfg httpUrl call

/-- The condition on a run: with the runtime enabled, no PATCH stores a row that is enabled and
whose desired state is running. -/
def SavesStartNothing (cfg : Settings) (t : TaskId) (op : Op) (choice : Choice) (w : World) :
    Prop :=
  match op, choice with
  | .updateServer .request id patch, .succeed _ =>
      cfg.singleInstanceConfirmed = true → ∀ server, w.instance? (t, .request) id = some server →
        shouldStartAfterSave (patch.apply server) = false
  | _, _ => True

instance (cfg : Settings) (t : TaskId) (op : Op) (choice : Choice) (w : World) :
    Decidable (SavesStartNothing cfg t op choice w) := by
  unfold SavesStartNothing
  split <;> infer_instance

/-- The operations that touch a lock. -/
def LockOp : Op → Prop
  | .tryAcquire _ | .acquired _ | .release _ => True
  | _ => False

/-- What an operation of task `t` does to the lock that it names. -/
inductive LockChange (t : TaskId) : Op → ServerId → AsyncLock → AsyncLock → Prop
  | take {id : ServerId} {l : AsyncLock} :
      l.holder = none → l.waiters = [] → LockChange t (.tryAcquire id) id l { holder := some t }
  | join {id : ServerId} {l : AsyncLock} :
      LockChange t (.tryAcquire id) id l { l with waiters := l.waiters ++ [t] }
  | serve {id : ServerId} {l : AsyncLock} {rest : List TaskId} :
      l.holder = none → l.waiters = t :: rest →
      LockChange t (.acquired id) id l { holder := some t, waiters := rest }
  | abandon {id : ServerId} {l : AsyncLock} :
      LockChange t (.acquired id) id l { l with waiters := l.waiters.filter (· ≠ t) }
  | release {id : ServerId} {l : AsyncLock} :
      LockChange t (.release id) id l { l with holder := none }

theorem World.write_lock {w w' : World} {x : Txn} {wr : Write} (h : w.write x wr = some w') :
    w'.lock = w.lock := by
  obtain ⟨store, -, rfl⟩ := Option.map_eq_some_iff.mp h
  rfl

theorem succeed_lock {t : TaskId} {op : Op} {tools : List Json} {w w' : World}
    {reply : Reply op} (hop : ¬ LockOp op) (h : succeed t tools w op = some (reply, w')) :
    w'.lock = w.lock := by
  cases op <;>
    grind [succeed, LockOp, World.load, World.unload, World.write_lock, Option.map_eq_some_iff]

theorem succeed_lockOp {t : TaskId} {op : Op} {tools : List Json} {w w' : World}
    {reply : Reply op} (hop : LockOp op) (h : succeed t tools w op = some (reply, w')) :
    ∃ id l, LockChange t op id (w.lock id) l ∧ w'.lock = Function.update w.lock id l := by
  cases op with
  | tryAcquire id =>
      simp only [succeed] at h
      split at h
      · rename_i hfree
        obtain ⟨-, rfl⟩ := Prod.mk.inj (Option.some.inj h)
        exact ⟨id, _, .take hfree.1 hfree.2, rfl⟩
      · obtain ⟨-, rfl⟩ := Prod.mk.inj (Option.some.inj h)
        exact ⟨id, _, .join, rfl⟩
  | acquired id =>
      simp only [succeed] at h
      split at h
      · rename_i hnext
        obtain ⟨-, rfl⟩ := Prod.mk.inj (Option.some.inj h)
        exact ⟨id, _, .serve hnext.1 (List.eq_cons_of_mem_head? hnext.2), rfl⟩
      · simp at h
  | release id =>
      obtain ⟨-, rfl⟩ := Prod.mk.inj (Option.some.inj h)
      exact ⟨id, _, .release, rfl⟩
  | _ => exact hop.elim

/-- An operation leaves all locks alone or changes the one that it names. -/
theorem exec_lock {t : TaskId} {op : Op} {choice : Choice} {w w' : World}
    {r : Except Exn (Reply op)} (h : exec t op choice w = some (r, w')) :
    ¬ LockOp op ∧ w'.lock = w.lock ∨
      ∃ id l, LockChange t op id (w.lock id) l ∧ w'.lock = Function.update w.lock id l := by
  cases choice with
  | succeed tools =>
      obtain ⟨reply, -, hsucceed⟩ := exec_succeed h
      by_cases hop : LockOp op
      · exact .inr (succeed_lockOp hop hsucceed)
      · exact .inl ⟨hop, succeed_lock hop hsucceed⟩
  | fail e poisons =>
      obtain ⟨hsync, -, rfl | ⟨conn, hconn, rfl⟩⟩ := exec_fail h
      · cases op with
        | acquired id => exact .inr ⟨id, _, .abandon, rfl⟩
        | tryAcquire id => simp [synchronous] at hsync
        | release id => simp [synchronous] at hsync
        | _ => exact .inl ⟨id, rfl⟩
      · refine .inl ⟨fun hop => ?_, rfl⟩
        cases op <;> simp [LockOp, sessionOf] at hop hconn

/-- What holds of every lock between two steps. -/
def LockInv (w : World) : Prop :=
  NoSelfWait w ∧ ∀ id, (w.lock id).waiters.Nodup

/-- What another task sees of an operation: neither its own locks nor its own places in a queue
change. -/
def LockRely (t : TaskId) (w w' : World) : Prop :=
  ∀ id, ((w'.lock id).holder = some t ↔ (w.lock id).holder = some t) ∧
    (t ∈ (w'.lock id).waiters ↔ t ∈ (w.lock id).waiters)

/-- A task joins no queue of a lock that it holds or waits for, and releases only what it holds. -/
def LockPre (t : TaskId) (op : Op) (w : World) : Prop :=
  match op with
  | .tryAcquire id => (w.lock id).holder ≠ some t ∧ t ∉ (w.lock id).waiters
  | .release id => (w.lock id).holder = some t
  | _ => True

theorem LockChange.inv {t : TaskId} {op : Op} {id : ServerId} {w : World} {l : AsyncLock}
    (h : LockChange t op id (w.lock id) l) (hinv : LockInv w) (hpre : LockPre t op w) :
    (∀ t', t' ∈ l.waiters → l.holder ≠ some t') ∧ l.waiters.Nodup := by
  have hwait := hinv.1 id
  have hnodup := hinv.2 id
  cases h with
  | take hholder hwaiters => simp
  | join => grind [LockPre]
  | serve hholder hwaiters => grind
  | abandon => grind
  | release => simp [hnodup]

theorem LockChange.rely {t t' : TaskId} {op : Op} {id : ServerId} {w : World} {l : AsyncLock}
    (h : LockChange t op id (w.lock id) l) (hpre : LockPre t op w) (hne : t' ≠ t) :
    (l.holder = some t' ↔ (w.lock id).holder = some t') ∧
      (t' ∈ l.waiters ↔ t' ∈ (w.lock id).waiters) := by
  cases h with
  | take hholder hwaiters => simp [hholder, hwaiters, hne.symm]
  | join => simp [hne]
  | serve hholder hwaiters => simp [hholder, hwaiters, hne, hne.symm]
  | abandon => simp [hne]
  | release =>
      have hholder : (w.lock id).holder = some t := hpre
      simp [hholder, hne.symm]

/-- The locks as a protocol between tasks. -/
def lockProtocol (allowed : TaskId → Op → Choice → World → Prop) : Protocol exec allowed where
  inv := LockInv
  rely := LockRely
  pre := LockPre
  rely_refl _ _ _ := ⟨Iff.rfl, Iff.rfl⟩
  rely_trans h₁ h₂ id := ⟨(h₂ id).1.trans (h₁ id).1, (h₂ id).2.trans (h₁ id).2⟩
  sound {t op choice w r w'} hinv hpre _ hexec := by
    rcases exec_lock hexec with ⟨-, heq⟩ | ⟨id, l, hchange, heq⟩
    · refine ⟨?_, fun t' _ id => by simp [heq]⟩
      simpa only [LockInv, NoSelfWait, heq] using hinv
    · refine ⟨⟨fun id' => ?_, fun id' => ?_⟩, fun t' hne id' => ?_⟩
      all_goals
        rw [heq]
        by_cases hid : id' = id
      · subst hid
        simpa using (hchange.inv hinv hpre).1
      · simpa [hid] using hinv.1 id'
      · subst hid
        simpa using (hchange.inv hinv hpre).2
      · simpa [hid] using hinv.2 id'
      · subst hid
        simpa using hchange.rely hpre hne
      · simp [hid]

/-- The program touches no lock. -/
abbrev NoLock {α : Type} (p : Program α) : Prop :=
  Uses (fun op => ¬ LockOp op) p

theorem noLock_requireServer (conn : Conn) (id : ServerId) : NoLock (requireServer conn id) :=
  uses_requireServer not_false

theorem noLock_deleteServer (conn : Conn) (id : ServerId) :
    NoLock (McpRuntime.deleteServer conn id) :=
  uses_deleteServer not_false not_false

theorem noLock_getServerOrNotFound (id : ServerId) : NoLock (getServerOrNotFound id) := by
  refine Uses.bind (uses_await not_false) fun found => ?_
  cases found <;> trivial

theorem noLock_isRunning (id : ServerId) : NoLock (isRunning id) :=
  Uses.bind (uses_await not_false) fun _ => trivial

theorem not_lockOp {op : Op} (h : LifecycleOp op) : ¬ LockOp op := by
  cases op <;> simp_all [LifecycleOp, LockOp]

theorem noLock_startLocked (cfg : Settings) (id : ServerId) : NoLock (startLocked cfg id) :=
  (uses_startLocked cfg id).mono fun _ => not_lockOp

theorem noLock_stopLocked (cfg : Settings) (id : ServerId) : NoLock (stopLocked cfg id) :=
  (uses_stopLocked cfg id).mono fun _ => not_lockOp

theorem noLock_checkLocked (cfg : Settings) (id : ServerId) : NoLock (checkLocked cfg id) :=
  (uses_checkLocked cfg id).mono fun _ => not_lockOp

section Requests

variable {cfg : Settings} {httpUrl : String → Option String} {t : TaskId}

/-- The protocol under the condition on saves. -/
abbrev SaveProtocol (cfg : Settings) : Protocol exec (SavesStartNothing cfg) :=
  lockProtocol (SavesStartNothing cfg)

/-- Task `t` holds exactly the locks in `H` and waits in exactly the queues in `W`. -/
def Standing (t : TaskId) (H W : ServerId → Prop) (w : World) : Prop :=
  ∀ id, ((w.lock id).holder = some t ↔ H id) ∧ (t ∈ (w.lock id).waiters ↔ W id)

/-- Task `t` holds exactly the locks in `H` and waits for none. -/
abbrev Holds (t : TaskId) (H : ServerId → Prop) : World → Prop :=
  Standing t H fun _ => False

/-- The locks in `H` and that of `id`. -/
def also (id : ServerId) (H : ServerId → Prop) : ServerId → Prop :=
  fun id' => id' = id ∨ H id'

/-- Run from holding `H`, the program awaits only what it may and ends holding `H`. -/
def Keeps {α : Type} (cfg : Settings) (t : TaskId) (H : ServerId → Prop) (p : Program α) : Prop :=
  Triple (SaveProtocol cfg) t (Holds t H) p (fun _ => Holds t H) fun _ => Holds t H

theorem Standing.stable (H W : ServerId → Prop) :
    Stable (SaveProtocol cfg) t (Standing t H W) :=
  fun _ _ _ h hrely _ id => ⟨(hrely id).1.trans (h id).1, (hrely id).2.trans (h id).2⟩

theorem Standing.congr {H W : ServerId → Prop} {w w' : World} (h : Standing t H W w)
    (hlock : w'.lock = w.lock) : Standing t H W w' := by
  simpa only [Standing, hlock] using h

theorem Standing.exec {H W : ServerId → Prop} {op : Op} {choice : Choice} {w w' : World}
    {r : Except Exn (Reply op)} (h : Standing t H W w)
    (hexec : exec t op choice w = some (r, w')) (hop : ¬ LockOp op) : Standing t H W w' := by
  rcases exec_lock hexec with ⟨-, heq⟩ | ⟨id, l, hchange, -⟩
  · exact h.congr heq
  · cases hchange <;> simp [LockOp] at hop

theorem LockPre.of_not_lockOp {op : Op} {w : World} (hop : ¬ LockOp op) : LockPre t op w := by
  cases op <;> simp [LockOp, LockPre] at hop ⊢

theorem NoLock.keeps {α : Type} {H : ServerId → Prop} {p : Program α} (hp : NoLock p) :
    Keeps cfg t H p :=
  Triple.of_uses (Standing.stable _ _) (fun _ _ hop _ _ => LockPre.of_not_lockOp hop)
    (fun _ _ _ _ _ hop _ h _ hexec => h.exec hexec hop) hp

theorem Keeps.bind {α β : Type} {H : ServerId → Prop} {p : Program α} {f : α → Program β}
    (hp : Keeps cfg t H p) (hf : ∀ a, Keeps cfg t H (f a)) : Keeps cfg t H (p >>= f) :=
  Triple.bind hp hf

theorem Keeps.tryCatch {α : Type} {H : ServerId → Prop} {p : Program α}
    {handler : Exn → Program α} (hp : Keeps cfg t H p)
    (hhandler : ∀ e, Keeps cfg t H (handler e)) : Keeps cfg t H (p.tryCatch handler) :=
  Triple.tryCatch hp hhandler

theorem Keeps.runLifecycle {α : Type} {H : ServerId → Prop} {p : Program α}
    (hp : Keeps cfg t H p) : Keeps cfg t H (runLifecycle p) := by
  refine hp.tryCatch fun e => ?_
  cases he : e.isKeyError
  · exact NoLock.keeps trivial
  · exact NoLock.keeps trivial

/-- The state of a task that has joined the queue of `id`. -/
theorem Standing.setLock {H W : ServerId → Prop} {w : World} {id : ServerId} {l : AsyncLock}
    {H' W' : ServerId → Prop} (h : Standing t H W w)
    (hid : (l.holder = some t ↔ H' id) ∧ (t ∈ l.waiters ↔ W' id))
    (hother : ∀ id', id' ≠ id → (H' id' ↔ H id') ∧ (W' id' ↔ W id')) :
    Standing t H' W' (w.setLock id l) := by
  intro id'
  by_cases heq : id' = id
  · subst heq
    simpa [World.setLock] using hid
  · simp only [World.setLock, Function.update_of_ne heq]
    exact ⟨(h id').1.trans (hother id' heq).1.symm, (h id').2.trans (hother id' heq).2.symm⟩

/-- The synchronous part of acquiring a lock that the task does not hold. -/
theorem triple_tryAcquire {H : ServerId → Prop} {id : ServerId} (hid : ¬ H id) :
    Triple (SaveProtocol cfg) t (Holds t H) (await (.tryAcquire id))
      (fun taken => match taken with
        | true => Holds t (also id H)
        | false => Standing t H (· = id))
      fun _ => Holds t H := by
  refine Triple.perform (Standing.stable _ _) ?_ (fun _ => Standing.stable _ _) ?_ ?_
  · intro taken
    cases taken <;> exact Standing.stable _ _
  · intro w _ h
    exact ⟨fun hholder => hid ((h id).1.mp hholder), fun hwait => (h id).2.mp hwait⟩
  · intro w choice r w' _ h _ _ hexec
    have hwait : t ∉ (w.lock id).waiters := fun hwait => (h id).2.mp hwait
    cases choice with
    | fail e poisons => simp [exec, synchronous] at hexec
    | succeed tools =>
        obtain ⟨reply, rfl, hsucceed⟩ := exec_succeed hexec
        simp only [succeed] at hsucceed
        split at hsucceed
        · obtain ⟨rfl, rfl⟩ := Prod.mk.inj (Option.some.inj hsucceed)
          exact h.setLock (by simp [also]) fun id' hne => by simp [also, hne]
        · obtain ⟨rfl, rfl⟩ := Prod.mk.inj (Option.some.inj hsucceed)
          refine h.setLock ⟨(h id).1, by simp⟩ fun id' hne => by simp [hne]

/-- Waiting in the queue of a lock ends with the lock or, by an exception, without it. -/
theorem triple_acquired {H : ServerId → Prop} {id : ServerId} :
    Triple (SaveProtocol cfg) t (Standing t H (· = id)) (await (.acquired id))
      (fun _ => Holds t (also id H)) fun _ => Holds t H := by
  refine Triple.perform (Standing.stable _ _) (fun _ => Standing.stable _ _)
    (fun _ => Standing.stable _ _) (fun _ _ _ => trivial) ?_
  intro w choice r w' hinv h _ _ hexec
  cases choice with
  | fail e poisons =>
      obtain ⟨-, rfl, rfl | ⟨conn, hconn, -⟩⟩ := exec_fail hexec
      · exact h.setLock ⟨(h id).1, by simp⟩ fun id' hne => by simp [hne]
      · simp [sessionOf] at hconn
  | succeed tools =>
      obtain ⟨reply, rfl, hsucceed⟩ := exec_succeed hexec
      simp only [succeed] at hsucceed
      split at hsucceed
      · rename_i hnext
        obtain ⟨rfl, rfl⟩ := Prod.mk.inj (Option.some.inj hsucceed)
        have hwaiters := List.eq_cons_of_mem_head? hnext.2
        have hnodup := hinv.2 id
        rw [hwaiters] at hnodup
        refine h.setLock ⟨by simp [also], ?_⟩ fun id' hne => by simp [also, hne]
        simpa using (List.nodup_cons.mp hnodup).1
      · simp at hsucceed

theorem triple_release {H : ServerId → Prop} {id : ServerId} (hid : ¬ H id) :
    Triple (SaveProtocol cfg) t (Holds t (also id H)) (await (.release id))
      (fun _ => Holds t H) fun _ => Holds t H := by
  refine Triple.perform (Standing.stable _ _) (fun _ => Standing.stable _ _)
    (fun _ => Standing.stable _ _) (fun w _ h => (h id).1.mpr (.inl rfl)) ?_
  intro w choice r w' _ h _ _ hexec
  cases choice with
  | fail e poisons => simp [exec, synchronous] at hexec
  | succeed tools =>
      obtain ⟨reply, rfl, hsucceed⟩ := exec_succeed hexec
      obtain ⟨rfl, rfl⟩ := Prod.mk.inj (Option.some.inj hsucceed)
      exact h.setLock ⟨by simp [hid], (h id).2⟩ fun id' hne => by simp [also, hne]

/-- `async with` on a lock that the task does not hold. -/
theorem Keeps.withLock {α : Type} {H : ServerId → Prop} {id : ServerId} {body : Program α}
    (hid : ¬ H id) (hbody : Keeps cfg t (also id H) body) :
    Keeps cfg t H (withLock id body) := by
  have hensuring : Triple (SaveProtocol cfg) t (Holds t (also id H))
      (body.ensuring (await (.release id))) (fun _ => Holds t H) fun _ => Holds t H :=
    Triple.ensuring (fun _ => Standing.stable _ _) (fun _ => Standing.stable _ _) hbody
      (fun _ => triple_release hid) fun _ => triple_release hid
  refine Triple.bind (triple_tryAcquire hid) fun taken => ?_
  cases taken with
  | true => exact hensuring
  | false => exact Triple.bind triple_acquired fun _ => hensuring

theorem keeps_start {H : ServerId → Prop} {id : ServerId} (hid : ¬ H id) :
    Keeps cfg t H (start cfg id) := by
  refine Keeps.bind (NoLock.keeps ?_) fun _ => .withLock hid (noLock_startLocked cfg id).keeps
  unfold requireRuntimeEnabled
  split <;> trivial

theorem keeps_stop {H : ServerId → Prop} {id : ServerId} (hid : ¬ H id) :
    Keeps cfg t H (stop cfg id) :=
  .withLock hid (noLock_stopLocked cfg id).keeps

theorem keeps_restart {H : ServerId → Prop} {id : ServerId} (hid : ¬ H id) :
    Keeps cfg t H (restart cfg id) := by
  refine Keeps.bind (NoLock.keeps ?_) fun _ => .withLock hid ?_
  · unfold requireRuntimeEnabled
    split <;> trivial
  · exact Keeps.bind (noLock_stopLocked cfg id).keeps fun _ => (noLock_startLocked cfg id).keeps

theorem keeps_check {H : ServerId → Prop} {id : ServerId} (hid : ¬ H id) :
    Keeps cfg t H (check cfg id) := by
  refine Keeps.bind (NoLock.keeps ?_) fun _ => .withLock hid (noLock_checkLocked cfg id).keeps
  unfold requireRuntimeEnabled
  split <;> trivial

theorem Keeps.exceptIntegrityError {α : Type} {H : ServerId → Prop} {p : Program α}
    (hp : Keeps cfg t H p) : Keeps cfg t H (exceptIntegrityError p) := by
  refine hp.tryCatch fun e => ?_
  cases e <;> exact NoLock.keeps trivial

/-- Outside every lock, a save may start the server. -/
theorem keeps_startAfterSave {H : ServerId → Prop} {server : McpServer} (hid : ¬ H server.id) :
    Keeps cfg t H (startAfterSave cfg server) := by
  unfold startAfterSave
  split
  · refine Keeps.bind (Keeps.runLifecycle (keeps_start hid)) fun _ => NoLock.keeps ?_
    exact Uses.bind (Uses.perform not_false) fun _ => trivial
  · exact NoLock.keeps trivial

/-- Under a lock, a save must not get as far as starting the server. -/
theorem keeps_startAfterSave_of_not_start {H : ServerId → Prop} {server : McpServer}
    (hsave : cfg.singleInstanceConfirmed = true → shouldStartAfterSave server = false) :
    Keeps cfg t H (startAfterSave cfg server) := by
  refine NoLock.keeps ?_
  unfold startAfterSave
  split
  · rename_i hstart
    have hdisabled : cfg.singleInstanceConfirmed = false := by
      by_contra henabled
      simp [hsave (by simpa using henabled)] at hstart
    simp only [runLifecycle, start, requireRuntimeEnabled, hdisabled]
    trivial
  · trivial

/-- The row that a PATCH stores is not one that asks to be started. -/
theorem triple_storePatch {H : ServerId → Prop} (id : ServerId) (values : McpServerPatch) :
    Triple (SaveProtocol cfg) t (Holds t H) (await (.updateServer .request id values))
      (fun server w => Holds t H w ∧
        (cfg.singleInstanceConfirmed = true → shouldStartAfterSave server = false))
      fun _ => Holds t H := by
  refine Triple.perform (Standing.stable _ _) ?_ (fun _ => Standing.stable _ _)
    (fun _ _ _ => trivial) ?_
  · exact fun server => (Standing.stable _ _).and (Stable.const _)
  · intro w choice r w' _ h _ hallowed hexec
    have hholds : Holds t H w' := h.exec hexec not_false
    cases choice with
    | fail e poisons =>
        obtain ⟨-, rfl, -⟩ := exec_fail hexec
        exact hholds
    | succeed tools =>
        obtain ⟨reply, rfl, hsucceed⟩ := exec_succeed hexec
        refine ⟨hholds, fun henabled => ?_⟩
        have hreply : ∃ server, w.instance? (t, .request) id = some server ∧
            reply = values.apply server := by
          grind [succeed, Option.map_eq_some_iff]
        obtain ⟨server, hserver, rfl⟩ := hreply
        exact hallowed henabled server hserver

theorem triple_savePatch {H : ServerId → Prop} (id : ServerId) (values : McpServerPatch) :
    Triple (SaveProtocol cfg) t (Holds t H)
      (exceptIntegrityError do
        let server ← McpRuntime.updateServer .request id values
        await (.commit .request)
        pure server)
      (fun server w => Holds t H w ∧
        (cfg.singleInstanceConfirmed = true → shouldStartAfterSave server = false))
      fun _ => Holds t H := by
  refine Triple.tryCatch (B := fun _ => Holds t H) ?_ fun e => ?_
  · refine Triple.bind
      (Triple.bind (noLock_requireServer _ _).keeps fun _ => triple_storePatch id values) ?_
    rintro server w hinv ⟨hholds, hsave⟩
    refine Triple.bind (NoLock.keeps (p := await (.commit .request)) (Uses.perform not_false))
      (fun _ => Triple.done ?_ fun _ _ h => ⟨h, hsave⟩) w hinv hholds
    exact (Standing.stable _ _).and (Stable.const _)
  · cases e <;> exact Triple.raise (Standing.stable _ _) fun _ _ h => h

theorem keeps_updateServer {H : ServerId → Prop} {id : ServerId} (payload : McpServerUpdate)
    (hid : ¬ H id) : Keeps cfg t H (updateServer cfg httpUrl id payload) := by
  refine Keeps.withLock hid ?_
  refine Keeps.bind (NoLock.keeps (noLock_getServerOrNotFound id)) fun server => ?_
  refine Keeps.bind (NoLock.keeps (noLock_isRunning id)) fun live => ?_
  split
  · exact NoLock.keeps trivial
  · split
    · exact NoLock.keeps trivial
    · rename_i values _
      refine Triple.bind (triple_savePatch id values) fun server => ?_
      rintro w hinv ⟨hholds, hsave⟩
      exact keeps_startAfterSave_of_not_start hsave w hinv hholds

theorem keeps_createServer {H : ServerId → Prop} (hH : ∀ id, ¬ H id) (payload : McpServerCreate) :
    Keeps cfg t H (createServer cfg payload) := by
  refine Keeps.bind (Keeps.exceptIntegrityError (NoLock.keeps ?_))
    fun server => keeps_startAfterSave (hH server.id)
  exact Uses.bind (Uses.perform not_false) fun _ =>
    Uses.bind (Uses.perform not_false) fun _ => trivial

theorem keeps_deleteServer {H : ServerId → Prop} {id : ServerId} (hid : ¬ H id) :
    Keeps cfg t H (deleteServer cfg id) := by
  refine Keeps.withLock hid ?_
  refine Keeps.bind (NoLock.keeps (noLock_getServerOrNotFound id)) fun server => ?_
  refine Keeps.bind (NoLock.keeps (noLock_isRunning id)) fun live => ?_
  have hrest : Keeps cfg t (also id H) (do
      McpRuntime.deleteServer .request id
      await (.commit .request)) :=
    NoLock.keeps (Uses.bind (noLock_deleteServer .request id) fun _ => Uses.perform not_false)
  split
  · exact Keeps.bind (Keeps.runLifecycle (noLock_stopLocked cfg id).keeps) fun _ => hrest
  · exact hrest

theorem Keeps.discard {α : Type} {H : ServerId → Prop} {p : Program α} (hp : Keeps cfg t H p) :
    Keeps cfg t H (McpService.discard p) :=
  hp.bind fun _ => NoLock.keeps trivial

/-- Every call of the service, entered with no lock held. -/
theorem keeps_run {H : ServerId → Prop} (hH : ∀ id, ¬ H id) (call : ServiceCall) :
    Keeps cfg t H (call.run cfg httpUrl) := by
  cases call with
  | create payload => exact (keeps_createServer hH payload).discard
  | update id payload => exact (keeps_updateServer payload (hH id)).discard
  | delete id => exact keeps_deleteServer (hH id)
  | start id => exact (Keeps.runLifecycle (keeps_start (hH id))).discard
  | stop id => exact (Keeps.runLifecycle (keeps_stop (hH id))).discard
  | restart id => exact (Keeps.runLifecycle (keeps_restart (hH id))).discard
  | check id => exact (Keeps.runLifecycle (keeps_check (hH id))).discard

theorem keeps_request (call : ServiceCall) :
    Keeps cfg t (fun _ => False) (request cfg httpUrl call) :=
  Triple.ensuring (fun _ => Standing.stable _ _) (fun _ => Standing.stable _ _)
    (keeps_run (fun _ => not_false) call) (fun _ => NoLock.keeps (Uses.perform not_false))
    fun _ => NoLock.keeps (Uses.perform not_false)

end Requests

/-- As long as no save stores a server that asks to be started, no interleaving of requests makes
a task wait for a lock that it holds. -/
theorem noSelfWait_of_savesStartNothing (cfg : Settings) (httpUrl : String → Option String)
    {w : World} (hquiet : Quiet w) {c : Config}
    (hrun : Steps exec (Request cfg httpUrl) (SavesStartNothing cfg) (.idle w) c) :
    NoSelfWait c.shared := by
  have hstart : LockInv w := ⟨by simp [NoSelfWait, hquiet _], by simp [hquiet _]⟩
  have hfresh : ∀ t, Holds t (fun _ => False) w := fun t id => by simp [hquiet id]
  have hinv : Invariant (SaveProtocol cfg) (fun t => Holds t fun _ => False)
      (fun t _ => Holds t fun _ => False) c := by
    refine (Invariant.idle hstart hfresh).steps (fun t => Standing.stable _ _) ?_ hrun
    rintro t p ⟨call, rfl⟩ w' hinv' hholds
    refine Safe.mono ?_ (keeps_request call w' hinv' hholds)
    rintro (e | a) w'' - h <;> exact h
  exact hinv.shared.1

/-- A server whose start failed: it is enabled, and running is still its desired state. -/
def failedServer : McpServer :=
  { id := 0
    name := "time"
    transport := .stdio
    command := some "uvx"
    args := ["mcp-server-tme"]
    env := []
    url := none
    headers := []
    enabled := true
    desiredState := .running
    runtimeStatus := .error
    lastError := some "MCP operation timed out." }

def failedWorld : World :=
  { store :=
      { committed := { servers := [failedServer], tools := [] }
        pending := fun _ => []
        owner := fun _ => none }
    loaded := fun _ => []
    invalid := fun _ => false
    handles := []
    lock := fun _ => {}
    nextServer := 1
    nextHandle := 0 }

theorem failedWorld_quiet : Quiet failedWorld :=
  fun _ => rfl

def enabledRuntime : Settings :=
  { singleInstanceConfirmed := true
    operationTimeoutSeconds := some 10
    sanitizeMcpError := fun _ _ => "MCP operation failed." }

/-- A PATCH that corrects the arguments of the failed server. -/
def correctArgs : McpServerUpdate :=
  { args := .set ["mcp-server-time"] }

/-- The request of that PATCH, up to where it waits in the queue of its own lock. -/
def correctArgsSchedule : List (Move Reply Exn TaskId Choice) :=
  .spawn 0 (request enabledRuntime some (.update 0 correctArgs)) ::
    List.replicate 7 (.resume 0 (.succeed []))

/-- Without the condition a PATCH of a failed server waits for itself. -/
theorem not_forall_noSelfWait :
    ¬ ∀ (cfg : Settings) (httpUrl : String → Option String) (w : World) (c : Config),
      Quiet w → Steps exec (Request cfg httpUrl) unrestricted (.idle w) c →
        NoSelfWait c.shared := by
  intro h
  have hrun : ∃ c : Config,
      follow exec unrestricted (.idle failedWorld) correctArgsSchedule = some c ∧
        (c.shared.lock 0).holder = some 0 ∧ (c.shared.lock 0).waiters = [0] :=
    ⟨_, rfl, rfl, rfl⟩
  obtain ⟨c, hc, hholder, hwaiters⟩ := hrun
  have hsteps : Steps exec (Request enabledRuntime some) unrestricted (.idle failedWorld) c :=
    follow_steps (by simpa [correctArgsSchedule, started] using ⟨_, rfl⟩) hc
  exact h _ _ _ c failedWorld_quiet hsteps 0 0 (by simp [hwaiters]) hholder

/-- The same PATCH with the desired state set to stopped, while another request waits to start the
server: the start takes the lock once the PATCH has released it. -/
def stopThenStartSchedule : List (Move Reply Exn TaskId Choice) :=
  [.spawn 0 (request enabledRuntime some (.update 0 { correctArgs with desiredState := .set .stopped })),
    .spawn 1 (request enabledRuntime some (.start 0)),
    .resume 0 (.succeed []), .resume 1 (.succeed [])] ++
    List.replicate 7 (.resume 0 (.succeed [])) ++ [.resume 1 (.succeed [])]

theorem noSelfWait_stopThenStart : ∃ c : Config,
    follow exec (SavesStartNothing enabledRuntime) (.idle failedWorld) stopThenStartSchedule =
        some c ∧
      (c.shared.lock 0).holder = some 1 ∧ NoSelfWait c.shared := by
  have hrun : ∃ c : Config,
      follow exec (SavesStartNothing enabledRuntime) (.idle failedWorld) stopThenStartSchedule =
          some c ∧
        (c.shared.lock 0).holder = some 1 :=
    ⟨_, rfl, rfl⟩
  obtain ⟨c, hc, hholder⟩ := hrun
  have hspawn : ∀ p ∈ started stopThenStartSchedule, Request enabledRuntime some p := by
    simpa [stopThenStartSchedule, started] using ⟨⟨_, rfl⟩, ⟨_, rfl⟩⟩
  exact ⟨c, hc, hholder,
    noSelfWait_of_savesStartNothing enabledRuntime some failedWorld_quiet (follow_steps hspawn hc)⟩

end ChangeQuality.McpLocks
