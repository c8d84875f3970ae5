import ChangeQuality.McpFailures
import ChangeQuality.McpLaunches

/-!
The live runtimes in a run of the service and of its runtime manager, whatever fails in it.
-/

namespace ChangeQuality.McpLiveRuntimes

open ChangeQuality.Values
open ChangeQuality.McpServers
open ChangeQuality.McpRuntime
open ChangeQuality.McpService
open ChangeQuality.McpSystem
open ChangeQuality.McpLocks
open ChangeQuality.McpPrograms
open ChangeQuality.McpOwnership
open ChangeQuality.McpLaunches
open ChangeQuality.ReadCommitted
open ChangeQuality.Coroutine
open ChangeQuality.Interference
open ChangeQuality.Histories

section Requests

variable {cfg : Settings} {httpUrl : String → Option String} {t : TaskId} {id : ServerId}
  {s s' : System} {α : Type}

/-- Both sessions of the task are as new. -/
structure Idle (t : TaskId) (s : System) : Prop extends Fresh t s where
  request : s.1.store.pending (t, .request) = []

theorem idle_stable : Stable launchProtocol t (Idle t) := by
  intro s s' hinv h hrely hinv'
  exact ⟨Fresh.stable s s' hinv h.toFresh hrely hinv', (hrely.1.pending .request).trans h.request⟩

theorem stable_true : Stable launchProtocol t fun _ => True :=
  Stable.const True

theorem insideFresh_stable : Stable launchProtocol t fun s => Inside t id s ∧ Fresh t s :=
  lasting_inside.stable.and Fresh.stable

/-- The task holds the lock. -/
def Held (t : TaskId) (id : ServerId) (s : System) : Prop :=
  (s.1.lock id).holder = some t

theorem held_stable : Stable launchProtocol t (Held t id) :=
  fun _ _ _ h hrely _ => hrely.1.holder id h

/-- What holds after a lock is given back: an assertion that speaks of no lock. -/
structure Outside (t : TaskId) (B : System → Prop) : Prop where
  stable : Stable launchProtocol t B
  idle : ∀ s, Idle t s → B s
  lock : ∀ {s s' : System}, B s → s'.1.store = s.1.store → s'.1.loaded = s.1.loaded → B s'

theorem outside_idle : Outside t (Idle t) where
  stable := idle_stable
  idle _ h := h
  lock h hstore hloaded :=
    ⟨⟨by rw [hstore]; exact h.pending, by rw [hloaded]; exact h.loaded⟩,
      by rw [hstore]; exact h.request⟩

theorem outside_true : Outside t fun _ => True :=
  ⟨stable_true, fun _ _ => trivial, fun _ _ _ => trivial⟩

theorem triple_release {B : System → Prop} (hB : Outside t B) :
    Triple launchProtocol t (fun s => Held t id s ∧ B s) (await (.release id)) (fun _ => B)
      fun _ => B := by
  refine Triple.perform (held_stable.and hB.stable) (fun _ => hB.stable) (fun _ => hB.stable)
    (fun _ _ h => h.1) ?_
  intro s choice r s' _ h _ _ hstep
  obtain ⟨hexec, -⟩ := recording_eq_some hstep
  cases choice with
  | fail e poisons => simp [exec, synchronous] at hexec
  | succeed tools =>
      obtain ⟨reply, rfl, hsucceed⟩ := exec_succeed hexec
      obtain ⟨-, hworld⟩ := Prod.mk.inj (Option.some.inj hsucceed)
      exact hB.lock h.2 (by rw [← hworld]; rfl) (by rw [← hworld]; rfl)

/-- A lock is taken with the sessions as new, and given back on both exits. -/
theorem triple_withLock {B : System → Prop} {body : Program α} (hB : Outside t B)
    (hbody : Triple launchProtocol t (fun s => Inside t id s ∧ Fresh t s) body
      (fun _ s => Held t id s ∧ B s) fun _ s => Held t id s ∧ B s) :
    Triple launchProtocol t (Idle t) (withLock id body) (fun _ => B) fun _ => B := by
  have hensuring := Triple.ensuring (fun _ => hB.stable) (fun _ => hB.stable) hbody
    (fun _ => triple_release hB) fun _ => triple_release hB
  have htry : Triple launchProtocol t (Idle t) (await (.tryAcquire id))
      (fun taken s => Idle t s ∧ (taken = true → Held t id s)) fun _ => B := by
    refine Triple.perform idle_stable (fun taken => ?_) (fun _ => hB.stable)
      (fun _ _ _ => trivial) ?_
    · intro s s' hinv h hrely hinv'
      exact ⟨idle_stable s s' hinv h.1 hrely hinv', fun htaken =>
        held_stable s s' hinv (h.2 htaken) hrely hinv'⟩
    · intro s choice r s' _ h _ _ hstep
      obtain ⟨hexec, -⟩ := recording_eq_some hstep
      cases choice with
      | fail e poisons => simp [exec, synchronous] at hexec
      | succeed tools =>
          obtain ⟨reply, rfl, hsucceed⟩ := exec_succeed hexec
          simp only [succeed] at hsucceed
          split at hsucceed
          · obtain ⟨rfl, hworld⟩ := Prod.mk.inj (Option.some.inj hsucceed)
            refine ⟨outside_idle.lock h (by rw [← hworld]; rfl) (by rw [← hworld]; rfl), ?_⟩
            intro _
            unfold Held
            rw [← hworld]
            simp [World.setLock]
          · obtain ⟨rfl, hworld⟩ := Prod.mk.inj (Option.some.inj hsucceed)
            exact ⟨outside_idle.lock h (by rw [← hworld]; rfl) (by rw [← hworld]; rfl), by simp⟩
  have hacquired : Triple launchProtocol t (Idle t) (await (.acquired id))
      (fun _ s => Inside t id s ∧ Fresh t s) fun _ => B := by
    refine Triple.perform idle_stable (fun _ => insideFresh_stable) (fun _ => hB.stable)
      (fun _ _ _ => trivial) ?_
    intro s choice r s' _ h _ _ hstep
    obtain ⟨hexec, -⟩ := recording_eq_some hstep
    cases choice with
    | fail e poisons =>
        obtain ⟨-, rfl, hworld | ⟨conn, hconn, -⟩⟩ := exec_fail hexec
        · exact hB.lock (hB.idle s h) (by rw [hworld]; rfl) (by rw [hworld]; rfl)
        · simp [sessionOf] at hconn
    | succeed tools =>
        obtain ⟨reply, rfl, hsucceed⟩ := exec_succeed hexec
        simp only [succeed] at hsucceed
        split at hsucceed
        · obtain ⟨-, hworld⟩ := Prod.mk.inj (Option.some.inj hsucceed)
          have hidle : Idle t s' :=
            outside_idle.lock h (by rw [← hworld]; rfl) (by rw [← hworld]; rfl)
          refine ⟨⟨?_, hidle.request⟩, hidle.toFresh⟩
          rw [← hworld]
          simp [World.setLock]
        · simp at hsucceed
  refine Triple.bind htry fun taken => ?_
  cases taken with
  | true =>
      exact Triple.weaken hensuring (fun _ _ h => ⟨⟨h.2 rfl, h.1.request⟩, h.1.toFresh⟩)
        (fun _ _ _ h => h) fun _ _ _ h => h
  | false =>
      exact Triple.weaken (Triple.bind hacquired fun _ => hensuring) (fun _ _ h => h.1)
        (fun _ _ _ h => h) fun _ _ _ h => h

/-- A task that holds the lock waits for it without end. -/
theorem triple_withLock_held {body : Program α} :
    Triple launchProtocol t (Inside t id) (withLock id body) (fun _ _ => False)
      fun _ => Inside t id := by
  have htry : Triple launchProtocol t (Inside t id) (await (.tryAcquire id))
      (fun taken s => taken = false ∧ Inside t id s) fun _ => Inside t id := by
    refine Triple.perform lasting_inside.stable
      (fun _ => (Stable.const _).and lasting_inside.stable) (fun _ => lasting_inside.stable)
      (fun _ _ _ => trivial) ?_
    intro s choice r s' hinv h _ _ hstep
    have hmild : Mild (.tryAcquire id) := trivial
    have hinside : Inside t id s' := h.steady (hmild.steady hinv h.held hstep)
    obtain ⟨hexec, -⟩ := recording_eq_some hstep
    cases choice with
    | fail e poisons => simp [exec, synchronous] at hexec
    | succeed tools =>
        obtain ⟨reply, rfl, hsucceed⟩ := exec_succeed hexec
        simp only [succeed, h.held] at hsucceed
        obtain ⟨rfl, -⟩ := Prod.mk.inj (Option.some.inj hsucceed)
        exact ⟨rfl, hinside⟩
  have hacquired : Triple launchProtocol t (Inside t id) (await (.acquired id)) (fun _ _ => False)
      fun _ => Inside t id := by
    refine Triple.perform lasting_inside.stable (fun _ => Stable.const False)
      (fun _ => lasting_inside.stable) (fun _ _ _ => trivial) ?_
    intro s choice r s' hinv h _ _ hstep
    have hmild : Mild (.acquired id) := trivial
    have hinside : Inside t id s' := h.steady (hmild.steady hinv h.held hstep)
    obtain ⟨hexec, -⟩ := recording_eq_some hstep
    cases choice with
    | fail e poisons =>
        obtain ⟨-, rfl, -⟩ := exec_fail hexec
        exact hinside
    | succeed tools =>
        obtain ⟨reply, rfl, hsucceed⟩ := exec_succeed hexec
        simp [succeed, h.held] at hsucceed
  refine Triple.bind htry fun taken => ?_
  cases taken with
  | true => exact Triple.of_false fun _ _ h => by simp at h
  | false =>
      refine Triple.bind (Triple.weaken hacquired (fun _ _ h => h.2) (fun _ _ _ h => h)
        fun _ _ _ h => h) fun _ => ?_
      exact Triple.of_false fun _ _ h => h

/-- A locked part of the service that has written to rows of its own server only, which has no
handle. -/
structure Editing (t : TaskId) (id : ServerId) (s : System) : Prop where
  held : (s.1.lock id).holder = some t
  handle : s.1.handles.lookup id = none
  edits : ∀ wr ∈ s.1.store.pending (t, .request), ∀ id', Edits id' wr → id' = id

theorem editing_stable : Stable launchProtocol t (Editing t id) := by
  intro s s' _ h hrely _
  exact ⟨hrely.1.holder id h.held, (hrely.1.handle id h.held).trans h.handle,
    by rw [hrely.1.pending .request]; exact h.edits⟩

/-- A statement of the request's session under the lock, which may fail. -/
theorem triple_edit {op : Op} (hpre : ∀ s, LaunchPre t op s)
    (hop : ∀ id', op ≠ .release id' ∧ op ≠ .popHandle id' ∧ ∀ handle, op ≠ .setHandle id' handle)
    (hedits : ∀ {w wr}, Statement t w op .request wr → ∀ id', Edits id' wr → id' = id) :
    Triple launchProtocol t (Unregistered t id) (await op) (fun _ => Editing t id)
      fun _ => Held t id := by
  refine Triple.perform lasting_unregistered.stable (fun _ => editing_stable)
    (fun _ => held_stable) (fun s _ _ => hpre s) ?_
  intro s choice r s' hinv h _ _ hstep
  obtain ⟨hexec, -⟩ := recording_eq_some hstep
  have hheld : (s'.1.lock id).holder = some t :=
    exec_holder hexec h.held (fun heq => absurd heq (hop id).1) (hinv.ownerPre (hpre s))
  cases r with
  | error e => exact hheld
  | ok reply =>
      refine ⟨hheld, ?_, ?_⟩
      · rcases exec_lookup hexec id with heq | ⟨handle, heq, -⟩ | ⟨heq, -⟩
        · exact heq.trans h.handle
        · exact absurd heq ((hop id).2.2 handle)
        · exact absurd heq (hop id).2.1
      · intro wr hwr
        rcases exec_pending hexec .request with heq | heq | ⟨new, hnew, heq⟩
        · simp [heq, h.request] at hwr
        · simp [heq] at hwr
        · rw [heq, h.request, List.nil_append, List.mem_singleton] at hwr
          exact hwr ▸ hedits hnew

/-- The commit of a locked part of the service, under no live runtime. -/
theorem triple_commitRequest :
    Triple launchProtocol t (Editing t id) (await (.commit .request)) (fun _ => Inside t id)
      fun _ => Held t id := by
  refine Triple.perform editing_stable (fun _ => lasting_inside.stable) (fun _ => held_stable)
    (fun s _ h wr hwr id' hedits => ?_) ?_
  · obtain rfl := h.edits wr hwr id' hedits
    exact ⟨h.held, h.handle⟩
  · intro s choice r s' _ h _ _ hstep
    obtain ⟨hexec, -⟩ := recording_eq_some hstep
    cases choice with
    | fail e poisons =>
        obtain ⟨-, rfl, hworld | ⟨conn, -, hworld⟩⟩ := exec_fail hexec
        · exact (by rw [hworld]; exact h.held : (s'.1.lock id).holder = some t)
        · exact (by rw [hworld]; exact h.held : (s'.1.lock id).holder = some t)
    | succeed tools =>
        obtain ⟨reply, rfl, hsucceed⟩ := exec_succeed hexec
        obtain ⟨-, hworld⟩ := Prod.mk.inj (Option.some.inj hsucceed)
        refine ⟨hworld ▸ h.held, ?_⟩
        rw [← hworld]
        exact Function.update_self ..

/-- `is_running` under the lock tells whether a handle is registered. -/
theorem triple_isRunning {A : System → Prop} (hA : Stable launchProtocol t A)
    (hinside : ∀ s, A s → Inside t id s)
    (hframe : ∀ {s s' : System}, A s → s'.1 = s.1 → A s') :
    Triple launchProtocol t A (isRunning id)
      (fun live s => A s ∧ (live = false → Unregistered t id s)) fun _ => A := by
  have hstable : ∀ live : Bool, Stable launchProtocol t
      fun s => A s ∧ (live = false → Unregistered t id s) := by
    intro live s s' hinv h hrely hinv'
    exact ⟨hA s s' hinv h.1 hrely hinv', fun hlive =>
      lasting_unregistered.stable s s' hinv (h.2 hlive) hrely hinv'⟩
  refine Triple.bind (B := fun handle s => A s ∧ (handle.isSome = false → Unregistered t id s))
    (Triple.perform hA (fun handle => hstable handle.isSome) (fun _ => hA) (fun _ _ _ => trivial) ?_)
    fun handle => Triple.done (hstable handle.isSome) fun _ _ h => h
  intro s choice r s' _ h _ _ hstep
  obtain ⟨hexec, -⟩ := recording_eq_some hstep
  cases choice with
  | fail e poisons => simp [exec, synchronous] at hexec
  | succeed tools =>
      obtain ⟨reply, rfl, hsucceed⟩ := exec_succeed hexec
      obtain ⟨hreply, hworld⟩ := Prod.mk.inj (Option.some.inj hsucceed)
      have hkept : A s' := hframe h hworld.symm
      refine ⟨hkept, fun hnone => ⟨hinside s' hkept, ?_⟩⟩
      rw [← hworld]
      exact hreply.trans (by simpa using hnone)

theorem held_of_inside : ∀ s : System, Inside t id s → Held t id s :=
  fun _ h => h.held

/-- A program under the lock that raises holding it. -/
abbrev Holds (t : TaskId) (id : ServerId) (A : System → Prop) (p : Program α)
    (Q : α → System → Prop) : Prop :=
  Triple launchProtocol t A p Q fun _ => Held t id

theorem holds_of_keeps {A : System → Prop} {p : Program α} {Q : α → System → Prop}
    (h : Keeps t id A p Q) : Holds t id A p Q :=
  Triple.weaken h (fun _ _ h => h) (fun _ _ _ h => h) fun _ _ _ h => h.held

theorem holds_mild {A : System → Prop} {p : Program α} (hA : Lasting t id A) (hp : Uses Mild p) :
    Holds t id A p fun _ => A :=
  Triple.weaken (triple_mild hA hp) (fun _ _ h => h) (fun _ _ _ h => h)
    fun _ s _ h => hA.held s h

theorem mild_getServerOrNotFound : Uses Mild (getServerOrNotFound id) := by
  refine Uses.bind (uses_await trivial) fun found => ?_
  cases found <;> trivial

theorem triple_flushPatch (values : McpServerPatch) :
    Holds t id (Unregistered t id) (await (.updateServer .request id values))
      fun server s => server.id = id ∧ Editing t id s := by
  have hedit : Holds t id (Unregistered t id) (await (.updateServer .request id values))
      fun _ => Editing t id := by
    refine triple_edit (fun _ => trivial) (fun _ => ⟨by simp, by simp, by simp⟩) ?_
    intro w wr hstatement id' hedits
    cases hstatement
    exact hedits.symm
  have hreply : Triple launchProtocol t (fun _ => True) (await (.updateServer .request id values))
      (fun server _ => server.id = id) fun _ _ => True := by
    refine Triple.perform stable_true (fun _ => Stable.const _) (fun _ => stable_true)
      (fun _ _ _ => trivial) ?_
    intro s choice r s' _ _ _ _ hstep
    obtain ⟨hexec, -⟩ := recording_eq_some hstep
    cases choice with
    | fail e poisons =>
        obtain ⟨-, rfl, -⟩ := exec_fail hexec
        trivial
    | succeed tools =>
        obtain ⟨server, rfl, hsucceed⟩ := exec_succeed hexec
        have hinstance : ∃ loaded, s.1.instance? (t, .request) id = some loaded ∧
            server = values.apply loaded := by
          grind [succeed, Option.map_eq_some_iff]
        obtain ⟨loaded, hloaded, rfl⟩ := hinstance
        change loaded.id = id
        simpa using List.find?_some hloaded
  exact Triple.weaken (Triple.and hreply hedit) (fun _ _ h => ⟨trivial, h⟩) (fun _ _ _ h => h)
    fun _ _ _ h => h.2

theorem triple_savePatch (values : McpServerPatch) :
    Holds t id (Unregistered t id)
      (exceptIntegrityError do
        let server ← McpRuntime.updateServer .request id values
        await (.commit .request)
        pure server)
      fun server s => server.id = id ∧ Inside t id s := by
  refine Triple.tryCatch (B := fun _ => Held t id) ?_ fun e => ?_
  · refine Triple.bind (Triple.bind (holds_mild lasting_unregistered (uses_requireServer trivial))
      fun _ => triple_flushPatch values) ?_
    rintro server s hinv ⟨hid, h⟩
    refine Triple.bind triple_commitRequest (fun _ => Triple.done ?_ fun _ _ h => ⟨hid, h⟩) s hinv h
    exact (Stable.const _).and lasting_inside.stable
  · cases e <;> exact Triple.raise held_stable fun _ _ h => h

theorem triple_runLifecycle {A B : System → Prop} {p : Program α} {Q : α → System → Prop}
    (hB : Stable launchProtocol t B) (hp : Triple launchProtocol t A p Q fun _ => B) :
    Triple launchProtocol t A (runLifecycle p) Q fun _ => B := by
  refine Triple.tryCatch hp fun e => ?_
  split <;> exact Triple.raise hB fun _ _ h => h

/-- A save under the lock gets no further than waiting for it. -/
theorem triple_startAfterSave_held {server : McpServer} (hid : server.id = id) :
    Keeps t id (Inside t id) (startAfterSave cfg server) fun _ => Inside t id := by
  subst hid
  unfold startAfterSave
  split
  · refine Triple.bind (B := fun _ _ => False) (triple_runLifecycle lasting_inside.stable ?_)
      fun _ => Triple.of_false fun _ _ h => h
    exact Triple.bind (keeps_inside (uses_requireRuntimeEnabled cfg)) fun _ => triple_withLock_held
  · exact Triple.done lasting_inside.stable fun _ _ h => h

theorem holds_true {A : System → Prop} {p : Program α} {Q : α → System → Prop}
    (hQ : ∀ a s, Q a s → Held t id s) (h : Holds t id A p Q) :
    Triple launchProtocol t A p (fun _ s => Held t id s ∧ True) fun _ s => Held t id s ∧ True :=
  Triple.weaken h (fun _ _ h => h) (fun a s _ h => ⟨hQ a s h, trivial⟩) fun _ _ _ h => ⟨h, trivial⟩

theorem triple_updateServer (payload : McpServerUpdate) :
    Triple launchProtocol t (Idle t) (McpService.updateServer cfg httpUrl id payload)
      (fun _ _ => True) fun _ _ => True := by
  refine triple_withLock outside_true (holds_true (Q := fun _ => Inside t id)
    (fun _ => held_of_inside) ?_)
  refine Triple.weaken (Triple.bind (holds_mild lasting_inside mild_getServerOrNotFound)
    fun server => ?_) (fun _ _ h => h.1) (fun _ _ _ h => h) fun _ _ _ h => h
  refine Triple.bind (holds_of_keeps (triple_isRunning lasting_inside.stable (fun _ h => h)
    fun h hworld => ⟨hworld ▸ h.held, hworld ▸ h.request⟩)) fun live => ?_
  split
  · exact Triple.raise held_stable fun _ _ h => h.1.held
  · rename_i hlive
    have hnone : live = false := by
      cases live
      · rfl
      · exact absurd (.inr rfl) hlive
    split
    · exact Triple.raise held_stable fun _ _ h => h.1.held
    · rename_i values _
      refine Triple.weaken (Triple.bind (triple_savePatch values) fun server => ?_)
        (fun _ _ h => h.2 hnone) (fun _ _ _ h => h) fun _ _ _ h => h
      rintro s hinv ⟨hid, h⟩
      exact holds_of_keeps (triple_startAfterSave_held hid) s hinv h

/-- A look at the row by the session of the request leaves the other session as new. -/
theorem triple_look :
    Holds t id (fun s => Inside t id s ∧ Fresh t s) (getServerOrNotFound id)
      fun _ s => Inside t id s ∧ Fresh t s := by
  have hselect : Holds t id (fun s => Inside t id s ∧ Fresh t s) (await (.selectServer .request id))
      fun _ s => Inside t id s ∧ Fresh t s := by
    refine Triple.perform insideFresh_stable (fun _ => insideFresh_stable) (fun _ => held_stable)
      (fun _ _ _ => trivial) ?_
    rintro s choice r s' hinv ⟨h, hfresh⟩ _ _ hstep
    have hmild : Mild (.selectServer .request id) := trivial
    have hinside : Inside t id s' := h.steady (hmild.steady hinv h.held hstep)
    obtain ⟨hexec, -⟩ := recording_eq_some hstep
    cases choice with
    | fail e poisons =>
        obtain ⟨-, rfl, -⟩ := exec_fail hexec
        exact hinside.held
    | succeed tools =>
        obtain ⟨reply, rfl, hsucceed⟩ := exec_succeed hexec
        have hworld : s'.1 = s.1 ∨ ∃ row, s'.1 = s.1.load (t, .request) row := by
          grind [succeed]
        rcases hworld with hworld | ⟨row, hworld⟩
        · exact ⟨hinside, hworld ▸ hfresh.pending, hworld ▸ hfresh.loaded⟩
        · refine ⟨hinside, by rw [hworld]; exact hfresh.pending, ?_⟩
          rw [hworld, World.load_loaded_ne (by simp)]
          exact hfresh.loaded
  refine Triple.bind hselect fun found => ?_
  cases found with
  | none => exact Triple.raise held_stable fun _ _ h => h.1.held
  | some server => exact Triple.done insideFresh_stable fun _ _ h => h

theorem triple_deleteServer :
    Triple launchProtocol t (Idle t) (McpService.deleteServer cfg id)
      (fun _ _ => True) fun _ _ => True := by
  refine triple_withLock outside_true (holds_true (Q := fun _ => Inside t id)
    (fun _ => held_of_inside) ?_)
  have hdelete : Holds t id (Unregistered t id) (do
      McpRuntime.deleteServer .request id
      await (.commit .request)) fun _ => Inside t id := by
    refine Triple.bind (Triple.bind (holds_mild lasting_unregistered (uses_requireServer trivial))
      fun _ => triple_edit (fun _ => trivial) (fun _ => ⟨by simp, by simp, by simp⟩) ?_)
      fun _ => triple_commitRequest
    intro w wr hstatement id' hedits
    cases hstatement
    exact hedits.symm
  refine Triple.bind triple_look fun server => ?_
  refine Triple.bind (holds_of_keeps (Triple.weaken (triple_isRunning insideFresh_stable
    (fun _ h => h.1) fun h hworld => ⟨⟨hworld ▸ h.1.held, hworld ▸ h.1.request⟩,
      hworld ▸ h.2.pending, hworld ▸ h.2.loaded⟩) (fun _ _ h => h) (fun _ _ _ h => h)
    fun _ _ _ h => h.1)) fun live => ?_
  split
  · refine Triple.bind (triple_runLifecycle held_stable ?_) fun _ => hdelete
    exact Triple.weaken keeps_stopLocked (fun _ _ h => h.1) (fun _ _ _ h => h.1)
      fun _ _ _ h => h.1.held
  · rename_i hlive
    have hnone : live = false := by
      cases live
      · rfl
      · exact absurd (.inr rfl) hlive
    exact Triple.weaken hdelete (fun _ _ h => h.2 hnone) (fun _ _ _ h => h) fun _ _ _ h => h

theorem triple_requireRuntimeEnabled :
    Triple launchProtocol t (Idle t) (requireRuntimeEnabled cfg) (fun _ => Idle t)
      fun _ => Idle t := by
  unfold requireRuntimeEnabled
  split
  · exact Triple.done idle_stable fun _ _ h => h
  · exact Triple.raise idle_stable fun _ _ h => h

theorem idle_of {p : Program α} {Q : α → System → Prop} (hQ : ∀ a s, Q a s → Inside t id s)
    (h : Triple launchProtocol t (fun s => Inside t id s ∧ Fresh t s) p
      (fun a s => Q a s ∧ Fresh t s) fun _ s => Inside t id s ∧ Fresh t s) :
    Triple launchProtocol t (fun s => Inside t id s ∧ Fresh t s) p
      (fun _ s => Held t id s ∧ Idle t s) fun _ s => Held t id s ∧ Idle t s :=
  Triple.weaken h (fun _ _ h => h)
    (fun a s _ h => ⟨(hQ a s h.1).held, h.2, (hQ a s h.1).request⟩)
    fun _ _ _ h => ⟨h.1.held, h.2, h.1.request⟩

theorem triple_start :
    Triple launchProtocol t (Idle t) (start cfg id) (fun _ => Idle t) fun _ => Idle t :=
  Triple.bind triple_requireRuntimeEnabled fun _ =>
    triple_withLock outside_idle (idle_of (fun _ _ h => h) keeps_startLocked)

theorem triple_stop :
    Triple launchProtocol t (Idle t) (stop cfg id) (fun _ => Idle t) fun _ => Idle t :=
  triple_withLock outside_idle (idle_of (fun _ _ h => h.toInside) keeps_stopLocked)

theorem triple_restart :
    Triple launchProtocol t (Idle t) (restart cfg id) (fun _ => Idle t) fun _ => Idle t := by
  refine Triple.bind triple_requireRuntimeEnabled fun _ =>
    triple_withLock outside_idle (idle_of (Q := fun _ => Inside t id) (fun _ _ h => h) ?_)
  refine Triple.bind keeps_stopLocked fun _ => ?_
  exact Triple.weaken keeps_startLocked (fun _ _ h => ⟨h.1.toInside, h.2⟩) (fun _ _ _ h => h)
    fun _ _ _ h => h

theorem triple_true {A : System → Prop} {p : Program α} {Q : α → System → Prop}
    {E : Exn → System → Prop} (h : Triple launchProtocol t A p Q E) :
    Triple launchProtocol t A p (fun _ _ => True) fun _ _ => True :=
  Triple.weaken h (fun _ _ h => h) (fun _ _ _ _ => trivial) fun _ _ _ _ => trivial

theorem triple_check :
    Triple launchProtocol t (Idle t) (check cfg id) (fun _ _ => True) fun _ _ => True := by
  refine Triple.bind (Triple.weaken triple_requireRuntimeEnabled (fun _ _ h => h)
    (fun _ _ _ h => h) fun _ _ _ _ => trivial) fun _ => triple_withLock outside_true ?_
  refine holds_true (Q := fun _ => Inside t id) (fun _ => held_of_inside) ?_
  exact Triple.weaken (holds_mild lasting_inside mild_checkLocked) (fun _ _ h => h.1)
    (fun _ _ _ h => h) fun _ _ _ h => h

/-- Outside every lock, with nothing else asked of the state. -/
theorem triple_mild_outside {p : Program α} (hp : Uses Mild p) :
    Triple launchProtocol t (fun _ => True) p (fun _ _ => True) fun _ _ => True :=
  Triple.of_uses stable_true (fun _ s hop _ _ => hop.pre s)
    (fun _ _ _ _ _ _ _ _ _ _ => trivial) hp

/-- Outside every lock a save may start the server. -/
theorem triple_startAfterSave {server : McpServer} :
    Triple launchProtocol t (Idle t) (startAfterSave cfg server) (fun _ _ => True)
      fun _ _ => True := by
  unfold startAfterSave
  split
  · refine Triple.bind (B := fun _ _ => True)
      (triple_runLifecycle stable_true (triple_true triple_start)) fun _ => ?_
    exact triple_mild_outside (Uses.bind (uses_await trivial) fun _ => trivial)
  · exact Triple.done stable_true fun _ _ _ => trivial

/-- The request's session has inserted a row and written to no other. -/
structure Inserted (t : TaskId) (s : System) : Prop extends Fresh t s where
  edits : ∀ wr ∈ s.1.store.pending (t, .request), ∀ id, ¬ Edits id wr

theorem inserted_stable : Stable launchProtocol t (Inserted t) := by
  intro s s' hinv h hrely hinv'
  exact ⟨Fresh.stable s s' hinv h.toFresh hrely hinv', by
    rw [hrely.1.pending .request]; exact h.edits⟩

theorem triple_flushInsert (values : McpServerCreate) :
    Triple launchProtocol t (Idle t) (await (.insertServer .request values))
      (fun _ => Inserted t) fun _ _ => True := by
  refine Triple.perform idle_stable (fun _ => inserted_stable) (fun _ => stable_true)
    (fun _ _ _ => trivial) ?_
  intro s choice r s' _ h _ _ hstep
  obtain ⟨hexec, -⟩ := recording_eq_some hstep
  cases choice with
  | fail e poisons =>
      obtain ⟨-, rfl, -⟩ := exec_fail hexec
      trivial
  | succeed tools =>
      obtain ⟨reply, rfl, hsucceed⟩ := exec_succeed hexec
      have hloaded : s'.1.loaded (t, .runtime) = [] := by
        simp only [succeed] at hsucceed
        split at hsucceed
        · simp at hsucceed
        · obtain ⟨mid, hmid, heq⟩ := Option.map_eq_some_iff.mp hsucceed
          obtain ⟨-, hworld⟩ := Prod.mk.inj heq
          rw [← hworld]
          change (mid.load (t, .request) _).loaded (t, .runtime) = []
          rw [World.load_loaded_ne (by simp), World.write_loaded hmid]
          exact h.loaded
      refine ⟨⟨?_, hloaded⟩, ?_⟩
      · rcases exec_pending hexec .runtime with heq | heq | ⟨new, hnew, -⟩
        · exact heq.trans h.pending
        · exact heq
        · cases hnew
      · intro wr hwr
        rcases exec_pending hexec .request with heq | heq | ⟨new, hnew, heq⟩
        · simp [heq, h.request] at hwr
        · simp [heq] at hwr
        · rw [heq, h.request, List.nil_append, List.mem_singleton] at hwr
          subst hwr
          cases hnew
          exact fun _ => not_false

theorem triple_commitInsert :
    Triple launchProtocol t (Inserted t) (await (.commit .request)) (fun _ => Idle t)
      fun _ _ => True := by
  refine Triple.perform inserted_stable (fun _ => idle_stable) (fun _ => stable_true)
    (fun s _ h wr hwr id hedits => (h.edits wr hwr id hedits).elim) ?_
  intro s choice r s' _ h _ _ hstep
  obtain ⟨hexec, -⟩ := recording_eq_some hstep
  cases choice with
  | fail e poisons =>
      obtain ⟨-, rfl, -⟩ := exec_fail hexec
      trivial
  | succeed tools =>
      obtain ⟨reply, rfl, hsucceed⟩ := exec_succeed hexec
      obtain ⟨-, hworld⟩ := Prod.mk.inj (Option.some.inj hsucceed)
      refine ⟨⟨?_, by rw [← hworld]; exact h.loaded⟩, by rw [← hworld]; exact Function.update_self ..⟩
      rw [← hworld]
      change Function.update s.1.store.pending (t, .request) [] (t, .runtime) = []
      rw [Function.update_of_ne (by simp)]
      exact h.pending

theorem triple_createServer (payload : McpServerCreate) :
    Triple launchProtocol t (Idle t) (createServer cfg payload) (fun _ _ => True)
      fun _ _ => True := by
  refine Triple.bind (B := fun _ => Idle t) (Triple.tryCatch (B := fun _ _ => True) ?_ fun e => ?_)
    fun server => triple_startAfterSave
  · refine Triple.bind (triple_flushInsert payload) fun server => ?_
    exact Triple.bind triple_commitInsert fun _ => Triple.done idle_stable fun _ _ h => h
  · cases e <;> exact Triple.raise stable_true fun _ _ _ => trivial

theorem triple_unit {A : System → Prop} {p : Program α}
    (hp : Triple launchProtocol t A p (fun _ _ => True) fun _ _ => True) :
    Triple launchProtocol t A (p.bind fun _ => .done ()) (fun _ _ => True) fun _ _ => True :=
  Triple.bind hp fun _ => Triple.done stable_true fun _ _ h => h

theorem triple_run (call : ServiceCall) :
    Triple launchProtocol t (Idle t) (call.run cfg httpUrl) (fun _ _ => True)
      fun _ _ => True := by
  cases call with
  | create payload => exact triple_unit (triple_createServer payload)
  | update id payload => exact triple_unit (triple_updateServer payload)
  | delete id => exact triple_deleteServer
  | start id => exact triple_unit (triple_runLifecycle stable_true (triple_true triple_start))
  | stop id => exact triple_unit (triple_runLifecycle stable_true (triple_true triple_stop))
  | restart id => exact triple_unit (triple_runLifecycle stable_true (triple_true triple_restart))
  | check id => exact triple_unit (triple_runLifecycle stable_true triple_check)

theorem triple_request (call : ServiceCall) :
    Triple launchProtocol t (Idle t) (request cfg httpUrl call) (fun _ _ => True)
      fun _ _ => True :=
  Triple.ensuring (fun _ => stable_true) (fun _ => stable_true) (triple_run call)
    (fun _ => triple_mild_outside (uses_await trivial))
    fun _ => triple_mild_outside (uses_await trivial)

theorem triple_lifecycle (call : LifecycleCall) :
    Triple launchProtocol t (Idle t) (call.run cfg) (fun _ _ => True) fun _ _ => True := by
  cases call with
  | start id => exact triple_unit (triple_true triple_start)
  | stop id => exact triple_unit (triple_true triple_stop)
  | restart id => exact triple_unit (triple_true triple_restart)
  | check id => exact triple_unit triple_check

theorem triple_closeRuntime :
    Triple launchProtocol t (fun s => s.1.store.pending (t, .request) = [])
      (await (.close .runtime)) (fun _ => Idle t) fun _ => Idle t := by
  have hstable : Stable launchProtocol t fun s => s.1.store.pending (t, .request) = [] :=
    fun s s' _ h hrely _ => (hrely.1.pending .request).trans h
  refine Triple.perform hstable (fun _ => idle_stable) (fun _ => idle_stable)
    (fun _ _ _ => trivial) ?_
  intro s choice r s' _ h _ _ hstep
  obtain ⟨hexec, -⟩ := recording_eq_some hstep
  cases choice with
  | fail e poisons => simp [exec, synchronous] at hexec
  | succeed tools =>
      obtain ⟨reply, rfl, hsucceed⟩ := exec_succeed hexec
      obtain ⟨-, hworld⟩ := Prod.mk.inj (Option.some.inj hsucceed)
      refine ⟨⟨?_, ?_⟩, ?_⟩
      · rw [← hworld]
        exact Function.update_self ..
      · rw [← hworld]
        exact Function.update_self ..
      · rw [← hworld]
        exact (Function.update_of_ne (by simp) _ _).trans h

/-- A repository context outside every lock. -/
theorem triple_withRepository {p : Program α} (hp : Uses Mild p) :
    Triple launchProtocol t (Idle t) (withRepository p) (fun _ => Idle t) fun _ => Idle t := by
  have hstable : Stable launchProtocol t fun s => s.1.store.pending (t, .request) = [] :=
    fun s s' _ h hrely _ => (hrely.1.pending .request).trans h
  have hbody : Triple launchProtocol t (fun s => s.1.store.pending (t, .request) = []) p
      (fun _ s => s.1.store.pending (t, .request) = [])
      fun _ s => s.1.store.pending (t, .request) = [] := by
    refine Triple.of_uses hstable (fun _ s hop _ _ => hop.pre s) ?_ hp
    intro op choice r s s' hop _ h _ hstep
    exact hop.request (recording_eq_some hstep).1 h
  exact Triple.ensuring (fun _ => idle_stable) (fun _ => idle_stable)
    (Triple.weaken hbody (fun _ _ h => h.request) (fun _ _ _ h => h) fun _ _ _ h => h)
    (fun _ => triple_closeRuntime) fun _ => triple_closeRuntime

theorem triple_startAtStartup (server : McpServer) :
    Triple launchProtocol t (Idle t) (startAtStartup cfg server) (fun _ => Idle t)
      fun _ => Idle t := by
  refine Triple.tryCatch (B := fun _ => Idle t)
    (Triple.bind triple_start fun _ => Triple.done idle_stable fun _ _ h => h) fun e => ?_
  split
  · refine triple_withRepository (Uses.bind (uses_requireServer trivial) fun current => ?_)
    split
    · exact Uses.bind mild_updateRuntimeStatus fun _ => mild_commit
    · trivial
  · exact Triple.raise idle_stable fun _ _ h => h

theorem triple_forEachServer {body : McpServer → Program Unit}
    (hbody : ∀ server, Triple launchProtocol t (Idle t) (body server) (fun _ => Idle t)
      fun _ => Idle t) (servers : List McpServer) :
    Triple launchProtocol t (Idle t) (forEachServer body servers) (fun _ => Idle t)
      fun _ => Idle t := by
  induction servers with
  | nil => exact Triple.done idle_stable fun _ _ h => h
  | cons server servers ih => exact Triple.bind (hbody server) fun _ => ih

theorem triple_startEnabledServers (servers : List McpServer) :
    Triple launchProtocol t (Idle t) (startEnabledServers cfg servers) (fun _ => Idle t)
      fun _ => Idle t := by
  unfold startEnabledServers
  split
  · exact triple_forEachServer triple_startAtStartup servers
  · exact triple_forEachServer (fun server => triple_withRepository
      (Uses.bind mild_updateRuntimeStatus fun _ => mild_commit)) servers

end Requests

/-- The operations of a run: requests to the service, calls of the manager by itself, and its start
of the servers that are to run. -/
def Operation (cfg : Settings) (httpUrl : String → Option String) (p : Program Unit) : Prop :=
  Request cfg httpUrl p ∨ (∃ call : LifecycleCall, p = call.run cfg) ∨
    ∃ servers, p = startEnabledServers cfg servers

/-- The state in which the process begins: no handle is registered and no session is open. -/
structure Initial (w : World) : Prop where
  handles : w.handles = []
  pending : ∀ x, w.store.pending x = []
  loaded : ∀ x, w.loaded x = []

theorem Initial.launchInv {w : World} (h : Initial w) : LaunchInv (w, []) where
  numbered := by simp
  unique := by simp
  soft t := by simp [h.pending]
  live id handle hhandle := by simp [h.handles] at hhandle

theorem safe_operation {cfg : Settings} {httpUrl : String → Option String} {t : TaskId}
    {p : Program Unit} (hp : Operation cfg httpUrl p) :
    Triple launchProtocol t (Idle t) p (fun _ _ => True) fun _ _ => True := by
  rcases hp with ⟨call, rfl⟩ | ⟨call, rfl⟩ | ⟨servers, rfl⟩
  · exact triple_request call
  · exact triple_lifecycle call
  · exact triple_true (triple_startEnabledServers servers)

theorem invariant_steps {cfg : Settings} {httpUrl : String → Option String} {w : World}
    (hinitial : Initial w) {c : Config Reply Exn TaskId System}
    (hrun : Steps (recording exec entries) (Operation cfg httpUrl) unrestricted (.idle (w, [])) c) :
    Invariant launchProtocol Idle (fun _ _ _ => True) c := by
  have hidle : ∀ t, Idle t (w, []) := fun t =>
    ⟨⟨hinitial.pending _, hinitial.loaded _⟩, hinitial.pending _⟩
  refine (Invariant.idle hinitial.launchInv hidle).steps (fun t => idle_stable) ?_ hrun
  intro t p hp s hinv h
  exact Safe.mono (fun _ _ _ _ => trivial) (safe_operation hp s hinv h)

/-- **Live runtimes.** In every interleaving of operations, whatever fails in it, the row of a server
with a registered handle is there, with the configuration of the launch; and no session is about to
commit an update or a deletion of it. -/
theorem live_unchanged (cfg : Settings) (httpUrl : String → Option String) {w : World}
    (hinitial : Initial w) {c : Config Reply Exn TaskId System}
    (hrun : Steps (recording exec entries) (Operation cfg httpUrl) unrestricted (.idle (w, [])) c) :
    (∀ id, LiveUnchanged id c.shared) ∧
      ∀ t k, c.task t = some (.await (.commit .request) k) →
        ∀ wr ∈ c.shared.1.store.pending (t, .request), ∀ id, Edits id wr →
          c.shared.1.handles.lookup id = none := by
  have hinv := invariant_steps hinitial hrun
  refine ⟨hinv.shared.live, fun t k htask wr hwr id hedits => ?_⟩
  obtain ⟨hpre, -⟩ := hinv.safe t _ htask c.shared (launchProtocol.rely_refl t _) hinv.shared
  exact (hpre wr hwr id hedits).2

/-- A start, from the request to its end. -/
def startSchedule : List (Move Reply Exn TaskId Choice) :=
  .spawn 0 (request enabledRuntime some (.start 0)) ::
    List.replicate 19 (.resume 0 (.succeed [McpFailures.namedTool "read"]))

theorem stoppedWorld_initial : Initial McpFailures.stoppedWorld :=
  ⟨rfl, fun _ => rfl, fun _ => rfl⟩

theorem live_unchanged_started : ∃ c : Config Reply Exn TaskId System,
    follow (recording exec entries) unrestricted (.idle (McpFailures.stoppedWorld, []))
        startSchedule = some c ∧
      c.shared.1.handles = [(0, 0)] ∧ LiveUnchanged 0 c.shared := by
  have hrun : ∃ c : Config Reply Exn TaskId System,
      follow (recording exec entries) unrestricted (.idle (McpFailures.stoppedWorld, []))
          startSchedule = some c ∧ c.shared.1.handles = [(0, 0)] :=
    ⟨_, rfl, rfl⟩
  obtain ⟨c, hc, hhandles⟩ := hrun
  have hspawn : ∀ p ∈ started startSchedule, Operation enabledRuntime some p := by
    simpa [startSchedule, started] using .inl ⟨_, rfl⟩
  obtain ⟨hlive, -⟩ := live_unchanged enabledRuntime some stoppedWorld_initial
    (follow_steps hspawn hc)
  exact ⟨c, hc, hhandles, hlive 0⟩

end ChangeQuality.McpLiveRuntimes
