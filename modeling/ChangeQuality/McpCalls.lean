import ChangeQuality.McpRegistry
import ChangeQuality.McpFailures

/-!
The operations that the calls of the manager await, and the coroutines of its probe, under the
discipline of the registry and under every protocol on top of it which asks nothing more of them.
-/

namespace ChangeQuality.McpCalls

open ChangeQuality.Values
open ChangeQuality.McpServers
open ChangeQuality.McpRuntime (Settings)
open ChangeQuality.McpWorkers
open ChangeQuality.McpTasks
open ChangeQuality.McpPrograms
open ChangeQuality.McpWorkerSteps
open ChangeQuality.McpRegistry
open ChangeQuality.McpLocks (LockOp exec_lock)
open ChangeQuality.Coroutine
open ChangeQuality.Interference
open ChangeQuality.Interpretation
open ChangeQuality.McpTasks (await)

/-- What the manager awaits of its repository. -/
def Neutral : Op → Prop
  | .tryAcquire _ | .acquired _ | .release _ | .handleOf _ | .setHandle _ _ | .popHandle _
  | .probeStart _ | .probeListTools _ | .probeStop _ => False
  | _ => True

/-- All but the locks, the database and the sessions is as before. -/
structure SameRegistry (w w' : World) : Prop where
  handles : w'.manager.handles = w.manager.handles
  worker : w'.worker = w.worker
  owner : w'.owner = w.owner
  abandoned : w'.abandoned = w.abandoned
  stopper : w'.stopper = w.stopper
  record : w'.record = w.record

section Operations

variable {cfg : Settings} {t : TaskId} {op : Op} {choice : TaskChoice} {w w' : World}
  {id : ServerId}

theorem note_of_not (hop : ∀ id, op ≠ .handleOf id ∧ op ≠ .release id ∧ ∀ h, op ≠ .setHandle id h)
    (w : World) (r : Except Exn (Reply op)) : note t w op r = w := by
  cases r with
  | error e => cases op <;> rfl
  | ok reply =>
      cases op with
      | handleOf id => exact absurd rfl (hop id).1
      | release id => exact absurd rfl (hop id).2.1
      | setHandle id h => exact absurd rfl ((hop id).2.2 h)
      | _ => rfl

theorem exec_neutral {r : Except Exn (Reply op)} (hop : Neutral op)
    (hexec : exec cfg t (.manager op) choice w = some (r, w')) :
    SameRegistry w w' ∧ w'.manager.lock = w.manager.lock := by
  obtain ⟨c, m, -, hbase, rfl⟩ := exec_manager hexec
  rw [note_of_not (by cases op <;> simp [Neutral] at hop ⊢)]
  have hhandles : m.handles = w.manager.handles := by
    rcases exec_handles hbase with heq | ⟨id, h, rfl, -⟩ | ⟨id, rfl, -⟩
    · exact heq
    · exact hop.elim
    · exact hop.elim
  refine ⟨⟨hhandles, rfl, rfl, rfl, rfl, rfl⟩, ?_⟩
  rcases exec_lock hbase with ⟨-, heq⟩ | ⟨id, l, hchange, -⟩
  · exact heq
  · cases hchange <;> exact hop.elim

/-- The wait for a lock changes nothing but the locks. -/
theorem exec_acquire {r : Except Exn (Reply op)}
    (hop : op = .tryAcquire id ∨ op = .acquired id)
    (hexec : exec cfg t (.manager op) choice w = some (r, w')) : SameRegistry w w' := by
  obtain ⟨c, m, -, hbase, rfl⟩ := exec_manager hexec
  rw [note_of_not (by rcases hop with rfl | rfl <;> simp)]
  have hhandles : m.handles = w.manager.handles := by
    rcases exec_handles hbase with heq | ⟨id, h, rfl, -⟩ | ⟨id, rfl, -⟩
    · exact heq
    · simp at hop
    · simp at hop
  exact ⟨hhandles, rfl, rfl, rfl, rfl, rfl⟩

theorem exec_tryAcquire {r : Except Exn Bool}
    (hexec : exec cfg t (.manager (.tryAcquire id)) choice w = some (r, w')) :
    ∃ taken, r = .ok taken ∧ (taken = true → Holds t id w') := by
  obtain ⟨c, m, -, hbase, rfl⟩ := exec_manager hexec
  cases c with
  | fail e poisons => simp [McpSystem.exec, McpSystem.synchronous] at hbase
  | succeed tools =>
      obtain ⟨reply, rfl, hsucceed⟩ := McpSystem.exec_succeed hbase
      refine ⟨reply, rfl, fun htaken => ?_⟩
      subst htaken
      simp only [McpSystem.succeed] at hsucceed
      split at hsucceed
      · obtain ⟨-, rfl⟩ := Prod.mk.inj (Option.some.inj hsucceed)
        simp [Holds, note, McpSystem.World.setLock]
      · simp at hsucceed

theorem exec_acquired {r : Except Exn Unit}
    (hexec : exec cfg t (.manager (.acquired id)) choice w = some (r, w')) (hr : r = .ok ()) :
    Holds t id w' := by
  obtain ⟨c, m, -, hbase, rfl⟩ := exec_manager hexec
  subst hr
  cases c with
  | fail e poisons =>
      obtain ⟨-, hr, -⟩ := McpSystem.exec_fail hbase
      simp at hr
  | succeed tools =>
      obtain ⟨reply, -, hsucceed⟩ := McpSystem.exec_succeed hbase
      simp only [McpSystem.succeed] at hsucceed
      split at hsucceed
      · obtain ⟨-, rfl⟩ := Prod.mk.inj (Option.some.inj hsucceed)
        simp [Holds, note, McpSystem.World.setLock]
      · simp at hsucceed

theorem exec_release {r : Except Exn Unit}
    (hexec : exec cfg t (.manager (.release id)) choice w = some (r, w')) :
    r = .ok () ∧ ∃ m : McpSystem.World, m.handles = w.manager.handles ∧
      m.loaded = w.manager.loaded ∧
      w' = { w with manager := m }.setRecord t fun record =>
        { record with left := w.registered id } := by
  obtain ⟨c, m, -, hbase, rfl⟩ := exec_manager hexec
  cases c with
  | fail e poisons => simp [McpSystem.exec, McpSystem.synchronous] at hbase
  | succeed tools =>
      obtain ⟨reply, rfl, hsucceed⟩ := McpSystem.exec_succeed hbase
      obtain ⟨-, rfl⟩ := Prod.mk.inj (Option.some.inj hsucceed)
      exact ⟨rfl, w.manager.setLock id { w.manager.lock id with holder := none }, rfl, rfl, rfl⟩

/-- What is recorded of a look into the registry. -/
def looked (t : TaskId) (id : ServerId) (w : World) : World :=
  w.setRecord t fun record =>
    { record with
      handle := w.registered id
      foundEnded := record.foundEnded || ((w.registered id).map w.ended).getD false
      foundBefore := record.foundBefore || ((w.registered id).map record.endedBefore).getD false }

theorem exec_handleOf {r : Except Exn (Option Handle)}
    (hexec : exec cfg t (.manager (.handleOf id)) choice w = some (r, w')) :
    r = .ok (w.registered id) ∧ w' = looked t id w := by
  obtain ⟨c, m, -, hbase, rfl⟩ := exec_manager hexec
  cases c with
  | fail e poisons => simp [McpSystem.exec, McpSystem.synchronous] at hbase
  | succeed tools =>
      obtain ⟨reply, rfl, hsucceed⟩ := McpSystem.exec_succeed hbase
      obtain ⟨rfl, rfl⟩ := Prod.mk.inj (Option.some.inj hsucceed)
      exact ⟨rfl, rfl⟩

theorem exec_setHandle {h : Handle} {r : Except Exn Unit}
    (hexec : exec cfg t (.manager (.setHandle id h)) choice w = some (r, w')) :
    r = .ok () ∧ w'.registered id = some h ∧ w'.manager.lock = w.manager.lock ∧
      w'.worker = w.worker ∧ w'.owner = Function.update w.owner h .registry ∧
      w'.abandoned = w.abandoned ∧ w'.stopper = w.stopper ∧
      w'.record = Function.update w.record t
        ((w.record t).map fun record => { record with handle := some h }) ∧
      w'.manager.loaded = w.manager.loaded := by
  obtain ⟨c, m, -, hbase, rfl⟩ := exec_manager hexec
  obtain rfl := setHandle_ok hbase
  cases c with
  | fail e poisons => simp [McpSystem.exec, McpSystem.synchronous] at hbase
  | succeed tools =>
      obtain ⟨reply, -, hsucceed⟩ := McpSystem.exec_succeed hbase
      obtain ⟨-, rfl⟩ := Prod.mk.inj (Option.some.inj hsucceed)
      refine ⟨rfl, ?_, rfl, rfl, rfl, rfl, rfl, rfl, rfl⟩
      change (w.manager.handles.filter (·.1 ≠ id) ++ [(id, h)]).lookup id = some h
      rw [List.lookup_append, McpOwnership.lookup_filter_self]
      simp

theorem exec_popHandle {r : Except Exn Unit}
    (hexec : exec cfg t (.manager (.popHandle id)) choice w = some (r, w')) :
    r = .ok () ∧ w'.registered id = none ∧
      (∀ id', id' ≠ id → w'.registered id' = w.registered id') ∧
      w'.manager.lock = w.manager.lock ∧ w'.worker = w.worker ∧ w'.owner = w.owner ∧
      w'.abandoned = w.abandoned ∧ w'.stopper = w.stopper ∧ w'.record = w.record := by
  obtain ⟨c, m, -, hbase, rfl⟩ := exec_manager hexec
  rw [note_of_not (by simp)]
  cases c with
  | fail e poisons => simp [McpSystem.exec, McpSystem.synchronous] at hbase
  | succeed tools =>
      obtain ⟨reply, rfl, hsucceed⟩ := McpSystem.exec_succeed hbase
      obtain ⟨-, rfl⟩ := Prod.mk.inj (Option.some.inj hsucceed)
      exact ⟨rfl, McpOwnership.lookup_filter_self id w.manager.handles,
        fun id' hne => McpOwnership.lookup_filter_ne hne w.manager.handles,
        rfl, rfl, rfl, rfl, rfl, rfl⟩

end Operations

/-- A protocol on top of that of the registry. -/
structure Above {cfg : Settings} {allowed : TaskId → TaskOp → TaskChoice → World → Prop}
    (R : Protocol (exec cfg) allowed) : Prop where
  inv : ∀ w, R.inv w → Inv w
  rely : ∀ t w w', R.rely t w w' → Rely t w w'
  pre : ∀ t op w, R.inv w → Pre t op w → R.pre t op w

theorem above_registry {cfg : Settings}
    {allowed : TaskId → TaskOp → TaskChoice → World → Prop} :
    Above (registryProtocol cfg allowed) :=
  ⟨fun _ h => h, fun _ _ _ h => h, fun _ _ _ _ h => h⟩

section Rules

variable {cfg : Settings} {allowed : TaskId → TaskOp → TaskChoice → World → Prop}
  {R : Protocol (exec cfg) allowed} {t : TaskId} {α : Type} {id : ServerId} {h : Handle}
  {A : World → Prop}

/-- An assertion that neither the others nor a use of the repository falsify. -/
structure Lasting (R : Protocol (exec cfg) allowed) (t : TaskId) (A : World → Prop) : Prop where
  stable : Stable R t A
  frame : ∀ {w w'}, SameRegistry w w' → w'.manager.lock = w.manager.lock → A w → A w'

theorem Lasting.and {B : World → Prop} (hA : Lasting R t A) (hB : Lasting R t B) :
    Lasting R t fun w => A w ∧ B w :=
  ⟨hA.stable.and hB.stable, fun hsame hlock h =>
    ⟨hA.frame hsame hlock h.1, hB.frame hsame hlock h.2⟩⟩

theorem Lasting.or {B : World → Prop} (hA : Lasting R t A) (hB : Lasting R t B) :
    Lasting R t fun w => A w ∨ B w :=
  ⟨hA.stable.or hB.stable, fun hsame hlock h =>
    h.imp (hA.frame hsame hlock) (hB.frame hsame hlock)⟩

theorem Lasting.exists {ι : Sort*} {A : ι → World → Prop} (hA : ∀ i, Lasting R t (A i)) :
    Lasting R t fun w => ∃ i, A i w :=
  ⟨.exists fun i => (hA i).stable, fun hsame hlock ⟨i, h⟩ => ⟨i, (hA i).frame hsame hlock h⟩⟩

theorem lasting_const (φ : Prop) : Lasting R t fun _ => φ :=
  ⟨Stable.const φ, fun _ _ h => h⟩

theorem pre_neutral {op : Op} (hop : Neutral op) (w : World) : Pre t (.manager op) w := by
  cases op <;> first | exact hop.elim | trivial

theorem carryOut_neutral {op : Op} (hop : Neutral op) : carryOut op = await (.manager op) := by
  cases op <;> first | exact hop.elim | rfl

/-- A use of the repository, which may fail at any await. -/
theorem triple_neutral (hR : Above R) (hA : Lasting R t A) {p : McpServers.Program α}
    (hp : Uses Neutral p) : Triple R t A (interpret carryOut p) (fun _ => A) fun _ => A := by
  have huses : Uses (fun op => ∃ op', op = .manager op' ∧ Neutral op') (interpret carryOut p) := by
    refine Uses.interpret hp fun op hop => ?_
    rw [carryOut_neutral hop]
    exact Interference.Uses.perform ⟨op, rfl, hop⟩
  refine Triple.of_uses hA.stable ?_ ?_ huses
  · rintro _ w ⟨op, rfl, hop⟩ hinv -
    exact hR.pre t _ w hinv (pre_neutral hop w)
  · rintro _ choice r w w' ⟨op, rfl, hop⟩ - h - hexec
    obtain ⟨hsame, hlock⟩ := exec_neutral hop hexec
    exact hA.frame hsame hlock h

/-- An operation that the manager awaits of itself. -/
theorem triple_manager {op : Op} {Q : Reply op → World → Prop} {E : Exn → World → Prop}
    (hcarry : carryOut op = await (.manager op))
    (h : Triple R t A (await (.manager op)) Q E) :
    Triple R t A (interpret carryOut (McpServers.await op)) Q E := by
  refine Interpretation.triple_perform ?_
  rw [hcarry]
  exact h

theorem holds_stable (hR : Above R) : Stable R t (Holds t id) :=
  fun w w' _ h hrely _ => (hR.rely t w w' hrely).holds id h

theorem lasting_holds (hR : Above R) : Lasting R t (Holds t id) :=
  ⟨holds_stable hR, fun _ hlock h => by simpa only [Holds, hlock] using h⟩

/-- Under its lock a server without a handle stays without one. -/
theorem lasting_vacant (hR : Above R) :
    Lasting R t fun w => Holds t id w ∧ w.registered id = none := by
  refine ⟨fun w w' _ h hrely _ => ?_, fun hsame hlock h => ?_⟩
  · have hbase := hR.rely t w w' hrely
    refine ⟨hbase.holds id h.1, ?_⟩
    rcases hbase.held id h.1 with heq | hnone
    · exact heq.trans h.2
    · exact hnone
  · exact ⟨by simpa only [Holds, hlock] using h.1,
      by simpa only [World.registered, hsame.handles] using h.2⟩

/-- A lock is taken and given back on both exits. What holds outside speaks of no lock. -/
theorem triple_withLock (hR : Above R) {body : McpServers.Program α} {B Q : α → World → Prop}
    {F : Exn → World → Prop} {E : World → Prop} (hA : Stable R t A)
    (hframe : ∀ {w w'}, SameRegistry w w' → A w → A w') (hQ : ∀ a, Stable R t (Q a))
    (hE : Stable R t E) (hAE : ∀ w, A w → E w)
    (hbody : Triple R t (fun w => Holds t id w ∧ A w) (interpret carryOut body) B F)
    (hvalue : ∀ a, Triple R t (B a) (await (.manager (.release id))) (fun _ => Q a) fun _ => E)
    (herror : ∀ e, Triple R t (F e) (await (.manager (.release id))) (fun _ => E) fun _ => E) :
    Triple R t A (interpret carryOut (McpRuntime.withLock id body)) Q fun _ => E := by
  have hensuring : Triple R t (fun w => Holds t id w ∧ A w)
      (interpret carryOut (body.ensuring (McpServers.await (.release id)))) Q fun _ => E :=
    Interpretation.triple_ensuring hQ (fun _ => hE) hbody
      (fun a => triple_manager rfl (hvalue a)) fun e => triple_manager rfl (herror e)
  have htry : Triple R t A (interpret carryOut (McpServers.await (.tryAcquire id)))
      (fun taken w => A w ∧ (taken = true → Holds t id w)) fun _ => E := by
    refine triple_manager rfl (Triple.perform hA ?_ (fun _ => hE)
      (fun w hinv _ => hR.pre t _ w hinv trivial) ?_)
    · intro taken w w' hinv h hrely hinv'
      exact ⟨hA w w' hinv h.1 hrely hinv', fun htaken =>
        (hR.rely t w w' hrely).holds id (h.2 htaken)⟩
    · intro w choice r w' _ h _ _ hexec
      obtain ⟨taken, rfl, hholds⟩ := exec_tryAcquire hexec
      exact ⟨hframe (exec_acquire (.inl rfl) hexec) h, hholds⟩
  have hacquired : Triple R t A (interpret carryOut (McpServers.await (.acquired id)))
      (fun _ w => Holds t id w ∧ A w) fun _ => E := by
    refine triple_manager rfl (Triple.perform hA (fun _ => (holds_stable hR).and hA)
      (fun _ => hE) (fun w hinv _ => hR.pre t _ w hinv trivial) ?_)
    intro w choice r w' _ h _ _ hexec
    have hkept : A w' := hframe (exec_acquire (.inr rfl) hexec) h
    cases r with
    | ok u => exact ⟨exec_acquired hexec rfl, hkept⟩
    | error e => exact hAE w' hkept
  refine Interpretation.triple_bind htry fun taken => ?_
  cases taken with
  | true =>
      exact Triple.weaken hensuring (fun _ _ h => ⟨h.2 rfl, h.1⟩) (fun _ _ _ h => h)
        fun _ _ _ h => h
  | false =>
      exact Triple.weaken (Interpretation.triple_bind hacquired fun _ => hensuring)
        (fun _ _ h => h.1) (fun _ _ _ h => h) fun _ _ _ h => h

/-- What a worker keeps when a task talks to it. -/
structure Calm (x y : Worker) : Prop where
  phase : y.phase = x.phase
  innerStarted : y.innerStarted = x.innerStarted
  stopInvoked : y.stopInvoked = x.stopInvoked
  commands : ∀ command ∈ x.commands, command ∈ y.commands

theorem Calm.refl (x : Worker) : Calm x x :=
  ⟨rfl, rfl, rfl, fun _ h => h⟩

theorem Calm.done {x y : Worker} (hcalm : Calm x y) : y.done = x.done := by
  simp only [Worker.done, hcalm.phase]

theorem calm_put {x y : Worker} {name : CommandName} (hput : x.put t name = some y) :
    Calm x y := by
  unfold Worker.put at hput
  split at hput
  · simp at hput
  · obtain rfl := Option.some.inj hput
    exact ⟨rfl, rfl, rfl, fun _ h => List.mem_append_left _ h⟩

theorem calm_cancel (x : Worker) : Calm x x.cancel := by
  unfold Worker.cancel
  split
  · exact Calm.refl x
  · exact ⟨rfl, rfl, rfl, fun _ h => h⟩

/-- All but the workers is as before, and those are calm. -/
structure SameManager (w w' : World) : Prop where
  manager : w'.manager = w.manager
  record : w'.record = w.record
  stopper : w'.stopper = w.stopper
  owner : w'.owner = w.owner
  abandoned : ∀ h, w.abandoned h = true → w'.abandoned h = true
  worker : ∀ h, Calm (w.worker h) (w'.worker h)

theorem SameManager.refl (w : World) : SameManager w w :=
  ⟨rfl, rfl, rfl, rfl, fun _ h => h, fun _ => Calm.refl _⟩

theorem sameManager_setWorker {w : World} {x : Worker} (hcalm : Calm (w.worker h) x) :
    SameManager w (w.setWorker h x) := by
  refine ⟨rfl, rfl, rfl, rfl, fun _ hab => hab, fun h' => ?_⟩
  by_cases hh : h' = h
  · subst hh
    simpa only [World.setWorker, Function.update_self] using hcalm
  · simpa only [World.setWorker, Function.update_of_ne hh] using Calm.refl _

/-- An assertion that talking to a worker does not falsify. -/
structure Aside (R : Protocol (exec cfg) allowed) (t : TaskId) (A : World → Prop) : Prop where
  stable : Stable R t A
  frame : ∀ {w w'}, SameManager w w' → A w → A w'

theorem Aside.and {B : World → Prop} (hA : Aside R t A) (hB : Aside R t B) :
    Aside R t fun w => A w ∧ B w :=
  ⟨hA.stable.and hB.stable, fun hsame h => ⟨hA.frame hsame h.1, hB.frame hsame h.2⟩⟩

theorem aside_const (φ : Prop) : Aside R t fun _ => φ :=
  ⟨Stable.const φ, fun _ h => h⟩

theorem aside_holds (hR : Above R) : Aside R t (Holds t id) :=
  ⟨holds_stable hR, fun hsame h => by simpa only [Holds, hsame.manager] using h⟩

theorem aside_vacant (hR : Above R) :
    Aside R t fun w => Holds t id w ∧ w.registered id = none :=
  ⟨(lasting_vacant hR).stable, fun hsame h => by
    simpa only [Holds, World.registered, hsame.manager] using h⟩

/-- Ownership by the task, or by the registry. -/
def Mine (t : TaskId) (h : Handle) (w : World) : Prop :=
  w.owner h = .task t

def Published (h : Handle) (w : World) : Prop :=
  w.owner h = .registry

theorem mine_stable (hR : Above R) : Stable R t (Mine t h) :=
  fun w w' _ howner hrely _ => ((hR.rely t w w' hrely).owns h).mpr howner

theorem published_stable (hR : Above R) : Stable R t (Published h) :=
  fun w w' _ howner hrely _ => (hR.rely t w w' hrely).published h howner

theorem aside_mine (hR : Above R) : Aside R t (Mine t h) :=
  ⟨mine_stable hR, fun hsame howner => by simpa only [Mine, hsame.owner] using howner⟩

theorem aside_published (hR : Above R) : Aside R t (Published h) :=
  ⟨published_stable hR, fun hsame howner => by
    simpa only [Published, hsame.owner] using howner⟩

theorem lasting_mine (hR : Above R) : Lasting R t (Mine t h) :=
  ⟨mine_stable hR, fun hsame _ howner => by
    simpa only [Mine, hsame.owner] using howner⟩

theorem lasting_published (hR : Above R) : Lasting R t (Published h) :=
  ⟨published_stable hR, fun hsame _ howner => by
    simpa only [Published, hsame.owner] using howner⟩

/-- What a task awaits of a worker. -/
def Talk : TaskOp → Prop
  | .started _ | .cancelTask _ | .joined _ | .taskDone _ | .taskResult _ | .put _ _
  | .replied _ _ => True
  | _ => False

theorem exec_talk {op : TaskOp} {choice : TaskChoice} {w w' : World}
    {r : Except Exn (TaskReply op)} (hop : Talk op)
    (hexec : exec cfg t op choice w = some (r, w')) : SameManager w w' := by
  cases op with
  | started h =>
      rcases exec_started hexec with ⟨-, -, rfl⟩ | ⟨e, -, -, -, rfl⟩
      · exact SameManager.refl w'
      · exact sameManager_setWorker ⟨rfl, rfl, rfl, fun _ hc => hc⟩
  | cancelTask h =>
      cases choice <;> simp only [exec, Option.some.injEq, Prod.mk.injEq, reduceCtorEq] at hexec
      obtain ⟨-, rfl⟩ := hexec
      have hsame := sameManager_setWorker (w := w) (calm_cancel (w.worker h))
      refine ⟨rfl, rfl, rfl, rfl, fun h' hab => ?_, hsame.worker⟩
      by_cases hh : h' = h
      · subst hh
        exact Function.update_self ..
      · exact (Function.update_of_ne hh _ _).trans hab
  | joined h => exact (exec_ended (.inl rfl) hexec).2 ▸ SameManager.refl w
  | taskDone h =>
      cases choice <;> simp only [exec, Option.some.injEq, Prod.mk.injEq, reduceCtorEq] at hexec
      exact hexec.2 ▸ SameManager.refl w
  | taskResult h => exact (exec_ended (.inr rfl) hexec).2 ▸ SameManager.refl w
  | put h name =>
      rcases exec_put hexec with ⟨-, -, rfl⟩ | ⟨x, -, hput, -, rfl⟩
      · exact SameManager.refl w'
      · exact sameManager_setWorker (calm_put hput)
  | replied h n =>
      rcases exec_replied hexec with ⟨-, -, rfl⟩ | ⟨e, -, -, -, rfl⟩
      · exact SameManager.refl w'
      · exact sameManager_setWorker ⟨rfl, rfl, rfl, fun _ hc => hc⟩
  | _ => exact hop.elim

theorem triple_talk (hR : Above R) (hA : Aside R t A) {op : TaskOp} (hop : Talk op)
    (hpre : ∀ w, A w → Pre t op w) : Triple R t A (await op) (fun _ => A) fun _ => A := by
  refine Triple.perform hA.stable (fun _ => hA.stable) (fun _ => hA.stable)
    (fun w hinv h => hR.pre t op w hinv (hpre w h)) ?_
  intro w choice r w' _ h _ _ hexec
  have hkept : A w' := hA.frame (exec_talk hop hexec) h
  cases r with
  | ok reply => exact hkept
  | error e => exact hkept

theorem triple_suppress {p : TaskProgram Unit} (hA : Stable R t A)
    (hp : Triple R t A p (fun _ => A) fun _ => A) :
    Triple R t A (suppress p) (fun _ => A) fun _ => A :=
  Triple.tryCatch hp fun _ => Triple.done hA fun _ _ h => h

/-- A new worker changes who owns it, and nothing else. -/
structure Created (t : TaskId) (h : Handle) (w w' : World) : Prop where
  manager : w'.manager = w.manager
  record : w'.record = w.record
  stopper : w'.stopper = w.stopper
  abandoned : w'.abandoned = w.abandoned
  worker : w'.worker = w.worker
  fresh : w.owner h = .nobody
  owner : w'.owner = Function.update w.owner h (.task t)

theorem exec_createTask {server : McpServer} {choice : TaskChoice} {w w' : World}
    {r : Except Exn Handle} (hinv : Inv w)
    (hexec : exec cfg t (.createTask server) choice w = some (r, w')) :
    ∃ h, r = .ok h ∧ Created t h w w' := by
  cases choice <;> simp only [exec, Option.some.injEq, Prod.mk.injEq, reduceCtorEq] at hexec
  obtain ⟨rfl, rfl⟩ := hexec
  obtain ⟨hnobody, hfresh, -⟩ := hinv.unborn w.nextWorker (Nat.le_refl _)
  refine ⟨w.nextWorker, rfl, rfl, rfl, rfl, rfl, ?_, hnobody, rfl⟩
  change Function.update w.worker w.nextWorker {} = w.worker
  rw [← hfresh]
  exact Function.update_eq_self ..

theorem triple_createTask {M : Handle → World → Prop} (hR : Above R) (hA : Stable R t A)
    (hM : ∀ h, Stable R t (M h)) (hnew : ∀ {w w' h}, Created t h w w' → A w → M h w')
    (server : McpServer) : Triple R t A (await (.createTask server)) M fun _ => A := by
  refine Triple.perform hA hM (fun _ => hA) (fun w hinv _ => hR.pre t _ w hinv trivial) ?_
  intro w choice r w' hinv h _ _ hexec
  obtain ⟨h', rfl, hcreated⟩ := exec_createTask (hR.inv w hinv) hexec
  exact hnew hcreated h

/-- A start leaves a worker of the task's own, or gives it up and raises. -/
theorem triple_probeStart {M : Handle → World → Prop} (hR : Above R) (hA : Aside R t A)
    (hM : ∀ h, Aside R t (M h)) (hmine : ∀ h w, M h w → Mine t h w)
    (hnew : ∀ {w w' h}, Created t h w w' → A w → M h w')
    (hcancel : ∀ h, Triple R t (M h) (await (.cancelTask h)) (fun _ => A) fun _ => A)
    (server : McpServer) :
    Triple R t A (TaskOwnedMcpProbe.start server) (fun started => M started.1) fun _ => A := by
  refine Triple.bind (triple_createTask hR hA.stable (fun h => (hM h).stable) hnew server)
    fun h => ?_
  refine Triple.bind (B := fun _ => M h) ?_ fun tools => Triple.done (hM h).stable fun _ _ h => h
  refine Triple.tryCatch (triple_talk hR (hM h) trivial fun w hw => hmine h w hw) fun e => ?_
  refine Triple.bind (hcancel h) fun _ => ?_
  refine Triple.bind (triple_suppress hA.stable (triple_talk hR hA trivial fun _ _ => trivial))
    fun _ => Triple.raise hA.stable fun _ _ h => h

/-- The stop that a task has sent, as long as it is not answered. -/
theorem sent_stable (hR : Above R) {n : Nat} :
    Stable R t fun w => Sent t n (w.stopper h) (w.worker h) :=
  fun w w' _ hsent hrely _ => (hR.rely t w w' hrely).sent h n hsent

theorem stopper_stable (hR : Above R) {t' : TaskId} :
    Stable R t fun w => w.stopper h = some t' :=
  fun w w' _ hs hrely _ => (hR.rely t w w' hrely).stopper h t' hs

theorem aside_stopper (hR : Above R) {t' : TaskId} : Aside R t fun w => w.stopper h = some t' :=
  ⟨stopper_stable hR, fun hsame hs => by rw [hsame.stopper]; exact hs⟩

/-- A command is accepted by a worker that has not terminated. -/
theorem triple_put {F : World → Prop} (hR : Above R) (hA : Aside R t A) (hF : Aside R t F)
    (hown : ∀ w, A w → Mine t h w ∨ Published h w)
    (hlive : ∀ w, R.inv w → A w → w.ended h = false → F w) (name : CommandName) :
    Triple R t A (await (.put h name)) (fun future w => A w ∧ (future ≠ none → F w))
      fun _ => A := by
  refine Triple.perform hA.stable (fun future => hA.stable.and ?_) (fun _ => hA.stable)
    (fun w hinv hw => hR.pre t _ w hinv (hown w hw)) ?_
  · exact fun w w' hinv hf hrely hinv' hfuture => hF.stable w w' hinv (hf hfuture) hrely hinv'
  · intro w choice r w' hinv hw _ _ hexec
    have htalk : Talk (.put h name) := trivial
    have hsame := exec_talk htalk hexec
    rcases exec_put hexec with ⟨-, rfl, -⟩ | ⟨x, hended, -, rfl, -⟩
    · exact ⟨hA.frame hsame hw, by simp⟩
    · exact ⟨hA.frame hsame hw, fun _ => hF.frame hsame (hlive w hinv hw hended)⟩

/-- A command is sent to a worker, and answered. -/
theorem triple_send {F : World → Prop} (hR : Above R) (hA : Aside R t A) (hF : Aside R t F)
    (hown : ∀ w, A w → Mine t h w ∨ Published h w)
    (hlive : ∀ w, R.inv w → A w → w.ended h = false → F w) (name : CommandName) :
    Triple R t A (TaskOwnedMcpProbe.send h name) (fun _ w => A w ∧ F w) fun _ => A := by
  refine Triple.bind (triple_put hR hA hF hown hlive name) fun future => ?_
  cases future with
  | none =>
      refine Triple.bind (B := fun _ => A) ?_ fun _ => Triple.raise hA.stable fun _ _ h => h
      exact Triple.weaken (triple_talk hR hA trivial fun _ _ => trivial) (fun _ _ h => h.1)
        (fun _ _ _ h => h) fun _ _ _ h => h
  | some n =>
      exact Triple.weaken (triple_talk hR (hA.and hF) trivial fun w hw => hown w hw.1)
        (fun _ _ h => ⟨h.1, h.2 (by simp)⟩) (fun _ _ _ h => h) fun _ _ _ h => h.1

/-- A stop that succeeds was carried out for the task that sent it. -/
theorem triple_sendStop (hR : Above R) (hA : Aside R t A)
    (hown : ∀ w, A w → Mine t h w ∨ Published h w) :
    Triple R t A (TaskOwnedMcpProbe.send h .stop) (fun _ w => A w ∧ w.stopper h = some t)
      fun _ => A := by
  have hput : Triple R t A (await (.put h .stop))
      (fun future w => A w ∧ ∀ n, future = some n → Sent t n (w.stopper h) (w.worker h))
      fun _ => A := by
    refine Triple.perform hA.stable (fun future => hA.stable.and ?_) (fun _ => hA.stable)
      (fun w hinv h => hR.pre t _ w hinv (hown w h)) ?_
    · intro w w' _ hsent hrely _ n hn
      exact (hR.rely t w w' hrely).sent h n (hsent n hn)
    · intro w choice r w' hinv hw _ _ hexec
      have htalk : Talk (.put h .stop) := trivial
      have hkept : A w' := hA.frame (exec_talk htalk hexec) hw
      rcases exec_put hexec with ⟨-, rfl, rfl⟩ | ⟨x, -, hput, rfl, rfl⟩
      · exact ⟨hkept, by simp⟩
      · refine ⟨hkept, ?_⟩
        rintro n hn
        obtain rfl := Option.some.inj hn
        simp only [World.setWorker, Function.update_self]
        exact sent_put ((hR.inv w hinv).sound h) hput
  refine Triple.bind hput fun future => ?_
  cases future with
  | none =>
      refine Triple.bind (B := fun _ => A) ?_ fun _ => Triple.raise hA.stable fun _ _ h => h
      exact Triple.weaken (triple_talk hR hA trivial fun _ _ => trivial) (fun _ _ h => h.1)
        (fun _ _ _ h => h) fun _ _ _ h => h
  | some n =>
      refine Triple.weaken (A := fun w => A w ∧ Sent t n (w.stopper h) (w.worker h))
        (Q := fun _ w => A w ∧ w.stopper h = some t) (E := fun _ => A) ?_
        (fun _ _ h => ⟨h.1, h.2 n rfl⟩) (fun _ _ _ h => h) fun _ _ _ h => h
      refine Triple.perform (hA.stable.and (sent_stable hR))
        (fun _ => hA.stable.and (stopper_stable hR)) (fun _ => hA.stable)
        (fun w hinv hw => hR.pre t _ w hinv (hown w hw.1)) ?_
      intro w choice r w' _ hw _ _ hexec
      have htalk : Talk (.replied h n) := trivial
      have hkept : A w' := hA.frame (exec_talk htalk hexec) hw.1
      rcases exec_replied hexec with ⟨-, hfuture, rfl⟩ | ⟨e, -, -, rfl, -⟩
      · cases r with
        | ok tools => exact ⟨hkept, hw.2.success tools hfuture⟩
        | error e => exact hkept
      · exact hkept

/-- `stop` of the probe, from what its command does. -/
theorem triple_probeStop {Q E : World → Prop} (hR : Above R) (hQ : Aside R t Q) (hE : Aside R t E)
    (hQE : ∀ w, Q w → E w)
    (hsend : Triple R t A (TaskOwnedMcpProbe.send h .stop) (fun _ => Q) fun _ => E) :
    Triple R t A (TaskOwnedMcpProbe.stop h) (fun _ => Q) fun _ => E := by
  have hcleanup : ∀ {B : World → Prop}, Aside R t B → Triple R t B
      (do if ← await (.taskDone h) then suppress (await (.taskResult h)))
      (fun _ => B) fun _ => B := by
    intro B hB
    refine Triple.bind (triple_talk hR hB trivial fun _ _ => trivial) fun done => ?_
    cases done with
    | true => exact triple_suppress hB.stable (triple_talk hR hB trivial fun _ _ => trivial)
    | false => exact Triple.done hB.stable fun _ _ h => h
  refine Triple.ensuring (B := fun _ => Q) (C := fun _ => E) (fun _ => hQ.stable)
    (fun _ => hE.stable) ?_ (fun _ => ?_) fun _ => hcleanup hE
  · exact Triple.bind hsend fun _ => Triple.done hQ.stable fun _ _ h => h
  · exact Triple.weaken (hcleanup hQ) (fun _ _ h => h) (fun _ _ _ h => h) fun _ w _ h => hQE w h

/-- A stop of a worker is accepted while it lives, and carried out for the task that sent it. -/
theorem triple_probeStopped {F : World → Prop} (hR : Above R) (hA : Aside R t A)
    (hF : Aside R t F) (hown : ∀ w, A w → Mine t h w ∨ Published h w)
    (hlive : ∀ w, R.inv w → A w → w.ended h = false → F w) :
    Triple R t A (TaskOwnedMcpProbe.stop h) (fun _ w => A w ∧ F w ∧ w.stopper h = some t)
      fun _ => A := by
  refine triple_probeStop hR (hA.and (hF.and (aside_stopper hR))) hA (fun _ h => h.1) ?_
  exact Triple.weaken (Triple.and (triple_send hR hA hF hown hlive .stop)
    (triple_sendStop hR hA hown)) (fun _ _ h => ⟨h, h⟩)
    (fun _ _ _ h => ⟨h.1.1, h.1.2, h.2.2⟩) fun _ _ _ h => h.1

/-- `_run_operation` around an operation of the probe. -/
theorem triple_runOperation (op : Op) {Q : Reply op → World → Prop} {E : World → Prop}
    (hE : Stable R t E) (h : Triple R t A (carryOut op) Q fun _ => E) :
    Triple R t A (interpret carryOut (McpRuntime.runOperation cfg op)) Q fun _ => E := by
  have hop : Triple R t A (interpret carryOut (McpServers.await op)) Q fun _ => E :=
    Interpretation.triple_perform h
  unfold McpRuntime.runOperation
  split
  next => exact hop
  next =>
    refine Interpretation.triple_tryCatch hop fun e => ?_
    cases e <;> exact Triple.raise hE fun _ _ h => h

/-- `except Exception`, whose handler a cancellation passes. -/
theorem triple_exceptException {p : McpServers.Program α} {handler : Exn → McpServers.Program α}
    {Q : α → World → Prop} {B : Exn → World → Prop} {E : Exn → World → Prop}
    (hE : ∀ e, Stable R t (E e)) (hp : Triple R t A (interpret carryOut p) Q B)
    (hpass : ∀ e w, e.isException = false → B e w → E e w)
    (hhandler : ∀ e, e.isException = true →
      Triple R t (B e) (interpret carryOut (handler e)) Q E) :
    Triple R t A (interpret carryOut (McpRuntime.exceptException p handler)) Q E := by
  refine Interpretation.triple_tryCatch hp fun e => ?_
  split
  next he => exact hhandler e he
  next he => exact Triple.raise (hE e) fun w _ h => hpass e w (by simpa using he) h

end Rules

end ChangeQuality.McpCalls
