import ChangeQuality.McpCalls

/-!
The calls of the manager under the discipline of its registry: what they establish, from what their
looks into the registry and their talks with the workers establish.
-/

namespace ChangeQuality.McpBodies

open ChangeQuality.Values
open ChangeQuality.McpServers
open ChangeQuality.McpRuntime (Settings)
open ChangeQuality.McpTasks
open ChangeQuality.McpPrograms
open ChangeQuality.McpRegistry
open ChangeQuality.McpCalls
open ChangeQuality.Coroutine
open ChangeQuality.Interference
open ChangeQuality.Interpretation
open ChangeQuality.McpTasks (await)

section Bodies

variable {cfg : Settings} {allowed : TaskId → TaskOp → TaskChoice → World → Prop}
  {R : Protocol (exec cfg) allowed} {t : TaskId} {α : Type} {id : ServerId} {A B N E : World → Prop}

theorem triple_keeping (hR : Above R) (hA : Lasting R t A) (hAE : ∀ w, A w → E w)
    {p : McpServers.Program α} (hp : Uses Neutral p) :
    Triple R t A (interpret carryOut p) (fun _ => A) fun _ => E :=
  Triple.weaken (triple_neutral hR hA hp) (fun _ _ h => h) (fun _ _ _ h => h)
    fun _ w _ h => hAE w h

theorem neutral_desired (id : ServerId) (desired : McpDesiredState) :
    Uses Neutral (McpRuntime.updateDesiredState .runtime id desired) :=
  uses_updateServer trivial trivial

theorem neutral_status (id : ServerId) (status : McpServerRuntimeStatus)
    (lastError : Option String) :
    Uses Neutral (McpRuntime.updateRuntimeStatus .runtime id status lastError) :=
  uses_updateRuntimeStatus trivial trivial

theorem neutral_response (id : ServerId) : Uses Neutral (McpRuntime.response id) :=
  uses_response trivial trivial

theorem neutral_commit : Uses Neutral (McpServers.await (.commit .runtime)) :=
  uses_await trivial

theorem neutral_tools (id : ServerId) (tools : List Json) :
    Uses Neutral (McpRuntime.replaceTools .runtime id tools) :=
  uses_replaceTools tools trivial fun _ => trivial

/-- The end of the failure branches raises. -/
theorem triple_failure (hR : Above R) (hA : Lasting R t A) (server : McpServer) (e : Exn)
    {Q : α → World → Prop} :
    Triple R t A (interpret carryOut (McpRuntime.recordFailure cfg server e)) Q fun _ => A :=
  Interpretation.triple_bind (triple_neutral hR hA (neutral_status server.id .error _)) fun _ =>
    Interpretation.triple_bind (triple_neutral hR hA neutral_commit) fun _ =>
      Triple.raise hA.stable fun _ _ h => h

theorem triple_withRepository (hR : Above R) {body : McpServers.Program α}
    {Q : α → World → Prop} (hQ : ∀ a, Lasting R t (Q a)) (hE : Lasting R t E)
    (hQE : ∀ a w, Q a w → E w) (h : Triple R t A (interpret carryOut body) Q fun _ => E) :
    Triple R t A (interpret carryOut (McpRuntime.withRepository body)) Q fun _ => E := by
  have hclose : Uses Neutral (McpServers.await (.close .runtime)) := uses_await trivial
  exact Interpretation.triple_ensuring (fun a => (hQ a).stable) (fun _ => hE.stable) h
    (fun a => triple_keeping hR (hQ a) (hQE a) hclose) fun _ => triple_neutral hR hE hclose

/-- The part of a start that stores what the probe has found. -/
def storeStart (id : ServerId) (tools : List Json) : McpServers.Program Unit := do
  McpRuntime.replaceTools .runtime id tools
  let _ ← McpRuntime.updateRuntimeStatus .runtime id .running none

/-- What a failure leaves to its handler, and what a cancellation leaves to the caller. -/
def Failing (B E : World → Prop) (e : Exn) (w : World) : Prop :=
  (e.isException = true → B w) ∧ (e.isException = false → E w)

/-- A start, from what its look into the registry, the probe, the storing of the tools and the entry
in the registry establish. -/
theorem triple_startLocked {M : Handle → World → Prop} (hR : Above R) (hA : Lasting R t A)
    (hN : Lasting R t N) (hB : Lasting R t B) (hE : Lasting R t E) (hAE : ∀ w, A w → E w)
    (hNE : ∀ w, N w → E w) (hBE : ∀ w, B w → E w)
    (hfind : Triple R t A (await (.manager (.handleOf id)))
      (fun found w => (found ≠ none ∧ B w) ∨ (found = none ∧ N w)) fun _ => E)
    (hprobe : ∀ server, Triple R t N (TaskOwnedMcpProbe.start server)
      (fun started => M started.1) fun _ => N)
    (hstore : ∀ h tools, Triple R t (M h) (interpret carryOut (storeStart id tools))
      (fun _ => M h) (Failing (M h) E))
    (hstop : ∀ h, Triple R t (M h) (TaskOwnedMcpProbe.stop h) (fun _ => N) fun _ => N)
    (hput : ∀ h, Triple R t (M h) (await (.manager (.setHandle id h))) (fun _ => B) fun _ => E) :
    Triple R t A (interpret carryOut (McpRuntime.startLocked cfg id)) (fun _ => B) fun _ => E := by
  refine triple_withRepository hR (fun _ => hB) hE (fun _ => hBE) ?_
  refine Interpretation.triple_bind (triple_keeping hR hA hAE (uses_requireServer trivial))
    fun server => ?_
  refine Interpretation.triple_bind
    (triple_keeping hR hA hAE (uses_requireSupportedTransport server)) fun _ => ?_
  refine Interpretation.triple_bind (triple_keeping hR hA hAE (neutral_desired id .running))
    fun _ => ?_
  refine Interpretation.triple_bind (triple_manager rfl hfind) fun found => ?_
  have hanswer : Triple R t B (interpret carryOut (McpServers.await (.commit .runtime) >>=
      fun _ => McpRuntime.response id)) (fun _ => B) fun _ => E :=
    Interpretation.triple_bind (triple_keeping hR hB hBE neutral_commit) fun _ =>
      triple_keeping hR hB hBE (neutral_response id)
  cases found with
  | some h =>
      refine Triple.weaken (A := B) ?_ (fun _ _ h => by simpa using h) (fun _ _ _ h => h)
        fun _ _ _ h => h
      exact Interpretation.triple_bind
        (triple_keeping hR hB hBE (neutral_status id .running none)) fun _ => hanswer
  | none =>
      refine Triple.weaken (A := N) ?_ (fun _ _ h => by simpa using h) (fun _ _ _ h => h)
        fun _ _ _ h => h
      refine Interpretation.triple_bind
        (triple_keeping hR hN hNE (neutral_status id .starting none)) fun _ => ?_
      refine Interpretation.triple_bind (triple_exceptException (fun _ => hE.stable)
        (triple_runOperation (.probeStart server) hN.stable (hprobe server))
        (fun _ w _ h => hNE w h) fun e _ => Triple.weaken (triple_failure hR hN server e)
          (fun _ _ h => h) (fun _ _ _ h => h) fun _ w _ h => hNE w h) ?_
      rintro ⟨h, tools⟩
      -- the worker is the task's own until the registry has its handle
      refine Interpretation.triple_bind (triple_exceptException (fun _ => hE.stable)
        (hstore h tools) (fun e w he hw => hw.2 he) fun e he => ?_) fun _ => ?_
      · refine Interpretation.triple_bind (B := fun _ => N) ?_ fun _ => Triple.weaken
          (triple_failure hR hN server e) (fun _ _ h => h) (fun _ _ _ h => h)
          fun _ w _ h => hNE w h
        exact Triple.weaken (triple_runOperation (.probeStop h) hN.stable (hstop h))
          (fun _ _ hw => hw.1 he) (fun _ _ _ h => h) fun _ w _ h => hNE w h
      · exact Interpretation.triple_bind (triple_manager rfl (hput h)) fun _ => hanswer

/-- A stop, from what its look into the registry, the stop of the worker and the removal of the
handle establish. -/
theorem triple_stopLocked {S D : Handle → World → Prop} (hR : Above R) (hA : Lasting R t A)
    (hS : ∀ h, Lasting R t (S h)) (hB : Lasting R t B) (hE : Lasting R t E)
    (hAE : ∀ w, A w → E w) (hSE : ∀ h w, S h w → E w) (hBE : ∀ w, B w → E w)
    (hfind : Triple R t A (await (.manager (.handleOf id)))
      (fun found w => match found with | some h => S h w | none => B w) fun _ => E)
    (hstop : ∀ h, Triple R t (S h) (TaskOwnedMcpProbe.stop h) (fun _ => D h) fun _ => S h)
    (hpop : ∀ h, Triple R t (D h) (await (.manager (.popHandle id))) (fun _ => B) fun _ => E) :
    Triple R t A (interpret carryOut (McpRuntime.stopLocked cfg id)) (fun _ => B) fun _ => E := by
  refine triple_withRepository hR (fun _ => hB) hE (fun _ => hBE) ?_
  refine Interpretation.triple_bind (triple_keeping hR hA hAE (uses_requireServer trivial))
    fun server => ?_
  refine Interpretation.triple_bind (triple_keeping hR hA hAE (neutral_desired id .stopped))
    fun _ => ?_
  refine Interpretation.triple_bind (triple_keeping hR hA hAE (neutral_status id .stopping none))
    fun _ => ?_
  refine Interpretation.triple_bind (triple_manager rfl hfind) fun found => ?_
  have hanswer : Triple R t B (interpret carryOut
      (McpRuntime.updateRuntimeStatus .runtime id .stopped none >>= fun _ =>
        McpServers.await (.commit .runtime) >>= fun _ => McpRuntime.response id))
      (fun _ => B) fun _ => E :=
    Interpretation.triple_bind (triple_keeping hR hB hBE (neutral_status id .stopped none))
      fun _ => Interpretation.triple_bind (triple_keeping hR hB hBE neutral_commit) fun _ =>
        triple_keeping hR hB hBE (neutral_response id)
  cases found with
  | none => exact hanswer
  | some h =>
      refine Interpretation.triple_bind (triple_exceptException (fun _ => hE.stable)
        (triple_runOperation (.probeStop h) (hS h).stable (hstop h))
        (fun _ w _ hw => hSE h w hw) fun e _ => Triple.weaken
          (triple_failure hR (hS h) server e) (fun _ _ h => h) (fun _ _ _ h => h)
          fun _ w _ hw => hSE h w hw) fun _ => ?_
      exact Interpretation.triple_bind (triple_manager rfl (hpop h)) fun _ => hanswer

/-- The session of the task has the row of the server with that status. -/
def Shows (t : TaskId) (id : ServerId) (status : McpServerRuntimeStatus) (w : World) : Prop :=
  ∃ row, w.manager.instance? (t, .runtime) id = some row ∧ row.runtimeStatus = status

theorem shows_stable (hR : Above R) {status : McpServerRuntimeStatus} :
    Stable R t (Shows t id status) := by
  rintro w w' _ ⟨row, hrow, hstatus⟩ hrely _
  refine ⟨row, ?_, hstatus⟩
  rw [McpSystem.World.instance?, (hR.rely t w w' hrely).loaded]
  exact hrow

theorem aside_shows (hR : Above R) {status : McpServerRuntimeStatus} :
    Aside R t (Shows t id status) :=
  ⟨shows_stable hR, fun hsame h => by simpa only [Shows, hsame.manager] using h⟩

/-- A status that was stored is what the session shows. -/
theorem triple_mark (hR : Above R) (hA : Lasting R t A) (status : McpServerRuntimeStatus) :
    Triple R t A
      (interpret carryOut (McpRuntime.updateRuntimeStatus .runtime id status none))
      (fun _ w => A w ∧ Shows t id status w) fun _ => A := by
  refine Interpretation.triple_bind (triple_neutral hR hA (uses_requireServer trivial))
    fun _ => triple_manager rfl ?_
  refine Triple.perform hA.stable (fun _ => hA.stable.and (shows_stable hR)) (fun _ => hA.stable)
    (fun w hinv _ => hR.pre t _ w hinv trivial) ?_
  intro w choice r w' _ h _ _ hexec
  have hupdate : Neutral (.updateServer .runtime id
    { runtimeStatus := some status, lastError := some none }) := trivial
  obtain ⟨hsame, hlock⟩ := exec_neutral hupdate hexec
  have hkept : A w' := hA.frame hsame hlock h
  obtain ⟨c, m, -, hbase, rfl⟩ := exec_manager hexec
  cases c with
  | fail e poisons =>
      obtain ⟨-, rfl, -⟩ := McpSystem.exec_fail hbase
      exact hkept
  | succeed tools =>
      obtain ⟨reply, rfl, hsucceed⟩ := McpSystem.exec_succeed hbase
      refine ⟨hkept, ?_⟩
      have hinstance : ∃ server, w.manager.instance? (t, .runtime) id = some server ∧
          m.instance? (t, .runtime) server.id = some { server with
            runtimeStatus := status, lastError := none } := by
        simp only [McpSystem.succeed] at hsucceed
        split at hsucceed
        next => simp at hsucceed
        next server hserver =>
          split at hsucceed
          next => simp at hsucceed
          next =>
            split at hsucceed
            next =>
              obtain ⟨-, rfl⟩ := Prod.mk.inj (Option.some.inj hsucceed)
              exact ⟨server, hserver, McpFailures.instance_load _ _ _⟩
            next =>
              obtain ⟨mid, -, heq⟩ := Option.map_eq_some_iff.mp hsucceed
              obtain ⟨-, rfl⟩ := Prod.mk.inj heq
              exact ⟨server, hserver, McpFailures.instance_load _ _ _⟩
      obtain ⟨server, hserver, hrow⟩ := hinstance
      have hid : server.id = id := by simpa using List.find?_some hserver
      exact ⟨_, hid ▸ hrow, rfl⟩

theorem triple_commitShown (hR : Above R) (hA : Lasting R t A) {status : McpServerRuntimeStatus} :
    Triple R t (fun w => A w ∧ Shows t id status w)
      (interpret carryOut (McpServers.await (.commit .runtime)))
      (fun _ w => A w ∧ Shows t id status w) fun _ => A := by
  refine triple_manager rfl (Triple.perform (hA.stable.and (shows_stable hR))
    (fun _ => hA.stable.and (shows_stable hR)) (fun _ => hA.stable)
    (fun w hinv _ => hR.pre t _ w hinv trivial) ?_)
  intro w choice r w' _ h _ _ hexec
  have hcommit : Neutral (.commit .runtime) := trivial
  obtain ⟨hsame, hlock⟩ := exec_neutral hcommit hexec
  have hkept : A w' := hA.frame hsame hlock h.1
  obtain ⟨c, m, -, hbase, rfl⟩ := exec_manager hexec
  cases c with
  | fail e poisons =>
      obtain ⟨-, rfl, -⟩ := McpSystem.exec_fail hbase
      exact hkept
  | succeed tools =>
      obtain ⟨reply, rfl, hsucceed⟩ := McpSystem.exec_succeed hbase
      obtain ⟨-, rfl⟩ := Prod.mk.inj (Option.some.inj hsucceed)
      exact ⟨hkept, h.2⟩

/-- The answer of a call has the status that its session shows. -/
theorem triple_answerShown (hR : Above R) (hA : Lasting R t A)
    {status : McpServerRuntimeStatus} :
    Triple R t (fun w => A w ∧ Shows t id status w) (interpret carryOut (McpRuntime.response id))
      (fun response w => response.runtimeStatus = status ∧ A w) fun _ => A := by
  have hselect : Triple R t (fun w => A w ∧ Shows t id status w)
      (interpret carryOut (McpServers.await (.selectServer .runtime id)))
      (fun row w => (∀ server, row = some server → server.runtimeStatus = status) ∧ A w)
      fun _ => A := by
    refine triple_manager rfl (Triple.perform (hA.stable.and (shows_stable hR))
      (fun _ => (Stable.const _).and hA.stable) (fun _ => hA.stable)
      (fun w hinv _ => hR.pre t _ w hinv trivial) ?_)
    intro w choice r w' _ h _ _ hexec
    have hneutral : Neutral (.selectServer .runtime id) := trivial
    obtain ⟨hsame, hlock⟩ := exec_neutral hneutral hexec
    have hkept : A w' := hA.frame hsame hlock h.1
    obtain ⟨row, hrow, hstatus⟩ := h.2
    obtain ⟨c, m, -, hbase, rfl⟩ := exec_manager hexec
    cases c with
    | fail e poisons =>
        obtain ⟨-, rfl, -⟩ := McpSystem.exec_fail hbase
        exact hkept
    | succeed tools =>
        obtain ⟨reply, rfl, hsucceed⟩ := McpSystem.exec_succeed hbase
        refine ⟨fun server hserver => ?_, hkept⟩
        simp only [McpSystem.succeed, hrow] at hsucceed
        split at hsucceed
        next =>
          obtain ⟨rfl, -⟩ := Prod.mk.inj (Option.some.inj hsucceed)
          simp at hserver
        next =>
          obtain ⟨rfl, -⟩ := Prod.mk.inj (Option.some.inj hsucceed)
          obtain rfl := Option.some.inj hserver
          exact hstatus
  have hrequire : Triple R t (fun w => A w ∧ Shows t id status w)
      (interpret carryOut (McpRuntime.requireServer .runtime id))
      (fun server w => server.runtimeStatus = status ∧ A w) fun _ => A := by
    refine Interpretation.triple_bind hselect fun row => ?_
    cases row with
    | none => exact Triple.raise hA.stable fun _ _ h => h.2
    | some server =>
        exact Triple.done ((Stable.const _).and hA.stable) fun _ _ h => ⟨h.1 server rfl, h.2⟩
  refine Interpretation.triple_bind hrequire fun server => ?_
  have hserver : Lasting R t fun w => server.runtimeStatus = status ∧ A w :=
    (lasting_const _).and hA
  refine Interpretation.triple_bind (triple_keeping hR hserver (fun _ h => h.2)
    (uses_await trivial)) fun _ => Triple.done hserver.stable fun _ _ h => h

/-- The tools that a check has found are stored, and the status with them. -/
theorem triple_storeCheck (hR : Above R) (hA : Lasting R t A) (status : McpServerRuntimeStatus)
    (tools : List Json) :
    Triple R t A (interpret carryOut (McpRuntime.storeCheck id status tools))
      (fun _ w => A w ∧ Shows t id status w) fun _ => A :=
  Interpretation.triple_bind (triple_neutral hR hA (neutral_tools id tools)) fun _ =>
    Interpretation.triple_bind (triple_mark hR hA status) fun _ => triple_commitShown hR hA

/-- A check, from what its look into the registry and what it asks of the probe establish. It
answers that the server is stopped, or it has asked the worker of a registered handle. -/
theorem triple_checkLocked {S D M : Handle → World → Prop} (hR : Above R) (hA : Lasting R t A)
    (hS : ∀ h, Lasting R t (S h)) (hD : ∀ h, Lasting R t (D h)) (hN : Lasting R t N)
    (hM : ∀ h, Lasting R t (M h)) (hE : Lasting R t E) (hAE : ∀ w, A w → E w)
    (hSE : ∀ h w, S h w → E w) (hDS : ∀ h w, D h w → S h w) (hNE : ∀ w, N w → E w)
    (hmine : ∀ h w, M h w → Mine t h w)
    (hfind : Triple R t A (await (.manager (.handleOf id)))
      (fun found w => match found with | some h => S h w | none => N w) fun _ => E)
    (hlist : ∀ h, Triple R t (S h) (TaskOwnedMcpProbe.listTools h) (fun _ => D h) fun _ => S h)
    (hprobe : ∀ server, Triple R t N (TaskOwnedMcpProbe.start server)
      (fun started => M started.1) fun _ => N)
    (hstop : ∀ h, Triple R t (M h) (TaskOwnedMcpProbe.stop h) (fun _ => N) fun _ => N) :
    Triple R t A (interpret carryOut (McpRuntime.checkLocked cfg id))
      (fun response w => (response.runtimeStatus = .stopped ∧ N w) ∨ ∃ h, D h w) fun _ => E := by
  have hDE : ∀ h w, D h w → E w := fun h w hw => hSE h w (hDS h w hw)
  refine triple_withRepository hR
    (fun _ => ((lasting_const _).and hN).or (.exists hD)) hE ?_ ?_
  · rintro response w (⟨-, hw⟩ | ⟨h, hw⟩)
    · exact hNE w hw
    · exact hDE h w hw
  refine Interpretation.triple_bind (triple_keeping hR hA hAE (uses_requireServer trivial))
    fun server => ?_
  refine Interpretation.triple_bind
    (triple_keeping hR hA hAE (uses_requireSupportedTransport server)) fun _ => ?_
  refine Interpretation.triple_bind (triple_manager rfl hfind) fun found => ?_
  cases found with
  | some h =>
      refine Interpretation.triple_bind (B := fun _ => D h) ?_ fun _ =>
        Triple.weaken (triple_keeping hR (hD h) (hDE h) (neutral_response id))
          (fun _ _ hw => hw) (fun _ _ _ hw => .inr ⟨h, hw⟩) fun _ _ _ hw => hw
      refine triple_exceptException (B := fun _ => S h) (fun _ => hE.stable) ?_
        (fun _ w _ hw => hSE h w hw) fun e _ => Triple.weaken (triple_failure hR (hS h) server e)
          (fun _ _ hw => hw) (fun _ _ _ hw => hw) fun _ w _ hw => hSE h w hw
      refine Interpretation.triple_bind
        (triple_runOperation (.probeListTools h) (hS h).stable (hlist h)) fun tools => ?_
      exact Triple.weaken (triple_storeCheck hR (hD h) .running tools) (fun _ _ hw => hw)
        (fun _ _ _ hw => hw.1) fun _ w _ hw => hDS h w hw
  | none =>
      refine Interpretation.triple_bind (triple_exceptException (fun _ => hE.stable)
        (triple_runOperation (.probeStart server) hN.stable (hprobe server))
        (fun _ w _ hw => hNE w hw) fun e _ => Triple.weaken (triple_failure hR hN server e)
          (fun _ _ hw => hw) (fun _ _ _ hw => hw) fun _ w _ hw => hNE w hw) ?_
      rintro ⟨h, tools⟩
      refine Interpretation.triple_bind (B := fun _ w => N w ∧ Shows t id .stopped w) ?_ fun _ =>
        Triple.weaken (triple_answerShown hR hN) (fun _ _ hw => hw) (fun _ _ _ hw => .inl hw)
          fun _ w _ hw => hNE w hw
      -- the temporary handle is stopped on every exit
      have hshown : Aside R t fun w => Mine t h w ∧ Shows t id .stopped w :=
        (aside_mine hR).and (aside_shows hR)
      have hstore : Triple R t (M h) (interpret carryOut (McpRuntime.exceptException
          (McpRuntime.storeCheck id .stopped tools) (McpRuntime.recordFailure cfg server)))
          (fun _ w => M h w ∧ Shows t id .stopped w) fun _ => M h :=
        triple_exceptException (fun _ => (hM h).stable)
          (triple_storeCheck hR (hM h) .stopped tools) (fun _ _ _ hw => hw)
          fun e _ => triple_failure hR (hM h) server e
      refine Interpretation.triple_ensuring
        (fun _ => hN.stable.and (shows_stable hR)) (fun _ => hE.stable) hstore (fun _ => ?_)
        fun e => ?_
      · refine Triple.weaken (triple_runOperation (.probeStop h)
          (A := fun w => M h w ∧ Shows t id .stopped w) hN.stable ?_)
          (fun _ _ hw => hw) (fun _ _ _ hw => hw) fun _ w _ hw => hNE w hw
        exact Triple.weaken (Triple.and (hstop h) (triple_probeStop hR hshown hshown
          (fun _ hw => hw) (Triple.weaken (triple_send hR hshown (aside_const True)
            (fun _ hw => .inl hw.1) (fun _ _ _ _ => trivial) .stop) (fun _ _ hw => hw)
            (fun _ _ _ hw => hw.1) fun _ _ _ hw => hw)))
          (fun w _ hw => ⟨hw.1, hmine h w hw.1, hw.2⟩) (fun _ _ _ hw => ⟨hw.1, hw.2.2⟩)
          fun _ _ _ hw => hw.1
      · exact Triple.weaken (triple_runOperation (.probeStop h) hN.stable (hstop h))
          (fun _ _ hw => hw) (fun _ w _ hw => hNE w hw) fun _ w _ hw => hNE w hw

/-- The registry has that handle for the server, or another call has stopped its worker. -/
def Kept (t : TaskId) (id : ServerId) (h : Handle) (w : World) : Prop :=
  w.registered id = some h ∨ ∃ t', t' ≠ t ∧ w.stopper h = some t'

theorem lasting_kept (hR : Above R) {h : Handle} : Lasting R t (Kept t id h) := by
  refine ⟨fun w w' _ hkept hrely _ => ?_, fun hsame _ hkept => ?_⟩
  · have hbase := hR.rely t w w' hrely
    rcases hkept with hreg | ⟨t', hne, hs⟩
    · exact hbase.registered id h hreg
    · exact .inr ⟨t', hne, hbase.stopper h t' hs⟩
  · simpa only [Kept, World.registered, hsame.handles, hsame.stopper] using hkept

theorem aside_kept (hR : Above R) {h : Handle} : Aside R t (Kept t id h) :=
  ⟨(lasting_kept hR).stable, fun hsame hkept => by
    simpa only [Kept, World.registered, hsame.manager, hsame.stopper] using hkept⟩

/-- The handle of a server has left the registry. -/
structure Popped (id : ServerId) (w w' : World) : Prop where
  registered : w'.registered id = none
  others : ∀ id', id' ≠ id → w'.registered id' = w.registered id'
  lock : w'.manager.lock = w.manager.lock
  worker : w'.worker = w.worker
  owner : w'.owner = w.owner
  abandoned : w'.abandoned = w.abandoned
  stopper : w'.stopper = w.stopper
  record : w'.record = w.record

/-- The call that has stopped the worker takes its handle out of the registry. -/
theorem triple_popHandle {X Y : World → Prop} (hR : Above R) {h : Handle} (hX : Stable R t X)
    (hY : Stable R t Y) (hE : Stable R t E) (hpost : ∀ {w w'}, Popped id w w' → X w → Y w') :
    Triple R t (fun w => X w ∧ Kept t id h w ∧ w.stopper h = some t)
      (await (.manager (.popHandle id))) (fun _ => Y) fun _ => E := by
  refine Triple.perform (hX.and ((lasting_kept hR).stable.and (stopper_stable hR))) (fun _ => hY)
    (fun _ => hE) (fun w hinv hw => hR.pre t _ w hinv ?_) ?_
  · intro h' hreg
    rcases hw.2.1 with hkept | ⟨t', hne, hs⟩
    · obtain rfl : h' = h := Option.some.inj (hreg.symm.trans hkept)
      exact hw.2.2
    · exact absurd (Option.some.inj (hs.symm.trans hw.2.2)) hne
  · intro w choice r w' _ hw _ _ hexec
    obtain ⟨rfl, hnone, hothers, hlock, hworker, howner, habandoned, hstopper, hrecord⟩ :=
      exec_popHandle hexec
    exact hpost ⟨hnone, hothers, hlock, hworker, howner, habandoned, hstopper, hrecord⟩ hw.1

/-- What is left of the registry as `shutdown` has found it. -/
def Found (t : TaskId) (servers : List (ServerId × Handle)) (w : World) : Prop :=
  (servers.map Prod.fst).Nodup ∧ ∀ id h, (id, h) ∈ servers → Kept t id h w ∧ Published h w

theorem lasting_found (hR : Above R) {servers : List (ServerId × Handle)} :
    Lasting R t (Found t servers) := by
  have hentry : ∀ id h, Lasting R t fun w => Kept t id h w ∧ Published h w :=
    fun _ _ => (lasting_kept hR).and (lasting_published hR)
  exact ⟨fun w w' hinv hfound hrely hinv' => ⟨hfound.1, fun id h hmem =>
      (hentry id h).stable w w' hinv (hfound.2 id h hmem) hrely hinv'⟩,
    fun hsame hlock hfound => ⟨hfound.1, fun id h hmem =>
      (hentry id h).frame hsame hlock (hfound.2 id h hmem)⟩⟩

theorem aside_found (hR : Above R) {servers : List (ServerId × Handle)} :
    Aside R t (Found t servers) :=
  ⟨(lasting_found hR).stable, fun hsame hfound => ⟨hfound.1, fun id h hmem =>
    ((aside_kept hR).and (aside_published hR)).frame hsame (hfound.2 id h hmem)⟩⟩

theorem Found.popped {servers : List (ServerId × Handle)} {h : Handle} {w w' : World}
    (hpopped : Popped id w w') (hfound : Found t ((id, h) :: servers) w) :
    Found t servers w' := by
  obtain ⟨hhead, htail⟩ := List.nodup_cons.mp hfound.1
  refine ⟨htail, fun id' h' hmem => ?_⟩
  have hne : id' ≠ id := fun heq =>
    hhead (List.mem_map.mpr ⟨(id', h'), hmem, heq⟩)
  have hentry := hfound.2 id' h' (List.mem_cons_of_mem _ hmem)
  simpa only [Kept, Published, hpopped.others id' hne, hpopped.stopper, hpopped.owner] using hentry

theorem lookup_of_mem {entries : List (ServerId × Handle)} {h : Handle}
    (hkeys : (entries.map Prod.fst).Nodup) (hmem : (id, h) ∈ entries) :
    entries.lookup id = some h := by
  obtain ⟨before, after, rfl⟩ := List.append_of_mem hmem
  refine List.lookup_eq_some_iff.mpr ⟨before, after, rfl, fun entry hentry => ?_⟩
  rw [List.map_append, List.nodup_append] at hkeys
  have hne := hkeys.2.2 entry.1 (List.mem_map_of_mem hentry) id (by simp)
  simpa using hne.symm

theorem triple_shutdownServer {servers : List (ServerId × Handle)} {h : Handle} (hR : Above R)
    (hA : Lasting R t A) (haside : Aside R t A)
    (hpopped : ∀ {id w w'}, Popped id w w' → A w → A w') :
    Triple R t (fun w => A w ∧ Found t ((id, h) :: servers) w)
      (interpret carryOut (shutdownServer cfg id h)) (fun _ w => A w ∧ Found t servers w)
      fun _ => A := by
  have hall : Lasting R t fun w => A w ∧ Found t ((id, h) :: servers) w :=
    hA.and (lasting_found hR)
  have hrest : Lasting R t fun w => A w ∧ Found t servers w := hA.and (lasting_found hR)
  have hless : ∀ w, Found t ((id, h) :: servers) w → Found t servers w := fun w hw =>
    ⟨(List.nodup_cons.mp hw.1).2, fun id' h' hmem => hw.2 id' h' (List.mem_cons_of_mem _ hmem)⟩
  refine triple_withRepository hR (fun _ => hrest) hA (fun _ _ hw => hw.1) ?_
  refine Interpretation.triple_bind (triple_keeping hR hall (fun _ hw => hw.1)
    (uses_requireServer trivial)) fun server => ?_
  have hstop : Triple R t (fun w => A w ∧ Found t ((id, h) :: servers) w)
      (TaskOwnedMcpProbe.stop h)
      (fun _ w => (A w ∧ Found t ((id, h) :: servers) w) ∧ w.stopper h = some t)
      fun _ w => A w ∧ Found t ((id, h) :: servers) w :=
    Triple.weaken (triple_probeStopped hR (haside.and (aside_found hR)) (aside_const True)
      (fun w hw => .inr (hw.2.2 id h (List.mem_cons_self ..)).2) fun _ _ _ _ => trivial)
      (fun _ _ hw => hw) (fun _ _ _ hw => ⟨hw.1, hw.2.2⟩) fun _ _ _ hw => hw
  refine Interpretation.triple_bind (B := fun stopped w =>
    (A w ∧ Found t ((id, h) :: servers) w) ∧ (stopped = true → w.stopper h = some t)) ?_
    fun stopped => ?_
  · refine triple_exceptException (B := fun _ w => A w ∧ Found t ((id, h) :: servers) w)
      (fun _ => hA.stable) ?_ (fun _ _ _ hw => hw.1) fun e _ => ?_
    · have hdone : Stable R t fun w => (A w ∧ Found t ((id, h) :: servers) w) ∧
          (true = true → w.stopper h = some t) := fun w w' hinv hw hrely hinv' =>
        ⟨hall.stable w w' hinv hw.1 hrely hinv', fun _ =>
          stopper_stable hR w w' hinv (hw.2 rfl) hrely hinv'⟩
      exact Interpretation.triple_bind (triple_runOperation (.probeStop h) hall.stable hstop)
        fun _ => Triple.done hdone fun _ _ hw => ⟨hw.1, fun _ => hw.2⟩
    · have hfailed : Stable R t fun w => (A w ∧ Found t ((id, h) :: servers) w) ∧
          (false = true → w.stopper h = some t) := fun w w' hinv hw hrely hinv' =>
        ⟨hall.stable w w' hinv hw.1 hrely hinv', by simp⟩
      exact Interpretation.triple_bind (triple_keeping hR hall (fun _ hw => hw.1)
        (neutral_status id .error _)) fun _ => Interpretation.triple_bind
          (triple_keeping hR hall (fun _ hw => hw.1) neutral_commit) fun _ =>
            Triple.done hfailed fun _ _ hw => ⟨hw, by simp⟩
  · cases stopped with
    | false => exact Triple.done hrest.stable fun w _ hw => ⟨hw.1.1, hless w hw.1.2⟩
    | true =>
        refine Interpretation.triple_bind (triple_manager rfl (Triple.weaken
          (triple_popHandle (h := h) hR hall.stable hrest.stable hA.stable
            fun hpop hw => ⟨hpopped hpop hw.1, hw.2.popped hpop⟩)
          (fun _ _ hw => ⟨hw.1, (hw.1.2.2 id h (List.mem_cons_self ..)).1, hw.2 rfl⟩)
          (fun _ _ _ hw => hw) fun _ _ _ hw => hw)) fun _ => ?_
        exact triple_keeping hR hrest (fun _ hw => hw.1) (Uses.bind
          (neutral_status id .stopped none) fun _ => neutral_commit)

/-- `shutdown` takes no lock. -/
theorem triple_shutdown (hR : Above R) (hA : Lasting R t A) (haside : Aside R t A)
    (hpopped : ∀ {id w w'}, Popped id w w' → A w → A w') :
    Triple R t A (shutdown cfg) (fun _ => A) fun _ => A := by
  have hservers : ∀ servers, Triple R t (fun w => A w ∧ Found t servers w)
      (shutdownServers cfg servers) (fun _ => A) fun _ => A := by
    intro servers
    induction servers with
    | nil => exact Triple.done hA.stable fun _ _ hw => hw.1
    | cons entry servers ih =>
        exact Triple.bind (triple_shutdownServer hR hA haside hpopped) fun _ => ih
  refine Triple.bind (B := fun servers w => A w ∧ Found t servers w) ?_ hservers
  refine Triple.perform hA.stable (fun _ => hA.stable.and (lasting_found hR).stable)
    (fun _ => hA.stable) (fun w hinv _ => hR.pre t _ w hinv trivial) ?_
  intro w choice r w' hinv hw _ _ hexec
  cases choice <;> simp only [exec, Option.some.injEq, Prod.mk.injEq, reduceCtorEq] at hexec
  obtain ⟨rfl, rfl⟩ := hexec
  have hbase := hR.inv w hinv
  refine ⟨hw, hbase.keys, fun id h hmem => ?_⟩
  have hreg : w.registered id = some h := lookup_of_mem hbase.keys hmem
  exact ⟨.inl hreg, hbase.registered id h hreg⟩

theorem triple_handleOf {X : World → Prop} {S : Handle → World → Prop} (hR : Above R)
    (hX : Stable R t X) (hS : ∀ h, Stable R t (S h)) (hN : Stable R t N) (hE : Stable R t E)
    (hsome : ∀ w h, R.inv w → X w → w.registered id = some h → S h (looked t id w))
    (hnone : ∀ w, R.inv w → X w → w.registered id = none → N (looked t id w)) :
    Triple R t X (await (.manager (.handleOf id)))
      (fun found w => match found with | some h => S h w | none => N w) fun _ => E := by
  refine Triple.perform hX (fun found => ?_) (fun _ => hE)
    (fun w hinv _ => hR.pre t _ w hinv trivial) ?_
  · cases found with
    | some h => exact hS h
    | none => exact hN
  · intro w choice r w' hinv hw _ _ hexec
    obtain ⟨rfl, rfl⟩ := exec_handleOf hexec
    dsimp only [outcome]
    cases hreg : w.registered id with
    | some h => exact hsome w h hinv hw hreg
    | none => exact hnone w hinv hw hreg

/-- A handle has entered the registry. -/
structure Entered (t : TaskId) (id : ServerId) (h : Handle) (w w' : World) : Prop where
  registered : w'.registered id = some h
  lock : w'.manager.lock = w.manager.lock
  worker : w'.worker = w.worker
  owner : w'.owner = Function.update w.owner h .registry
  abandoned : w'.abandoned = w.abandoned
  stopper : w'.stopper = w.stopper
  record : w'.record = Function.update w.record t
    ((w.record t).map fun record => { record with handle := some h })

/-- The worker of a task, under the lock of a server without a handle, enters the registry. -/
theorem triple_setHandle {X : World → Prop} {h : Handle} (hR : Above R) (hX : Stable R t X)
    (hB : Stable R t B) (hE : Stable R t E)
    (hpre : ∀ w, X w → (Holds t id w ∧ w.registered id = none) ∧ Mine t h w)
    (hpost : ∀ {w w'}, R.inv w → Entered t id h w w' → X w → B w') :
    Triple R t X (await (.manager (.setHandle id h))) (fun _ => B) fun _ => E := by
  refine Triple.perform hX (fun _ => hB) (fun _ => hE) (fun w hinv hw => hR.pre t _ w hinv ?_) ?_
  · obtain ⟨⟨hholds, hnone⟩, hmine⟩ := hpre w hw
    exact ⟨hholds, hnone, hmine⟩
  · intro w choice r w' hinv hw _ _ hexec
    obtain ⟨rfl, hreg, hlock, hworker, howner, habandoned, hstopper, hrecord, -⟩ :=
      exec_setHandle hexec
    exact hpost hinv ⟨hreg, hlock, hworker, howner, habandoned, hstopper, hrecord⟩ hw

/-- A lock was given back, and the registry noted. -/
structure Released (t : TaskId) (id : ServerId) (w w' : World) : Prop where
  handles : w'.manager.handles = w.manager.handles
  worker : w'.worker = w.worker
  owner : w'.owner = w.owner
  abandoned : w'.abandoned = w.abandoned
  stopper : w'.stopper = w.stopper
  record : w'.record = Function.update w.record t
    ((w.record t).map fun record => { record with left := w.registered id })

theorem triple_release {X : World → Prop} (hR : Above R) (hX : Stable R t X) (hB : Stable R t B)
    (hE : Stable R t E) (hholds : ∀ w, X w → Holds t id w)
    (hpost : ∀ {w w'}, Released t id w w' → X w → B w') :
    Triple R t X (await (.manager (.release id))) (fun _ => B) fun _ => E := by
  refine Triple.perform hX (fun _ => hB) (fun _ => hE)
    (fun w hinv hw => hR.pre t _ w hinv (hholds w hw)) ?_
  intro w choice r w' _ hw _ _ hexec
  obtain ⟨rfl, m, hhandles, -, rfl⟩ := exec_release hexec
  have hreleased : Released t id w ({ w with manager := m }.setRecord t fun record =>
      { record with left := w.registered id }) := ⟨hhandles, rfl, rfl, rfl, rfl, rfl⟩
  exact hpost hreleased hw

/-- The record of the task is another one. -/
structure Rewritten (t : TaskId) (record : Option CallRecord) (w w' : World) : Prop where
  manager : w'.manager = w.manager
  worker : w'.worker = w.worker
  owner : w'.owner = w.owner
  abandoned : w'.abandoned = w.abandoned
  stopper : w'.stopper = w.stopper
  record : w'.record t = record

theorem triple_began {X : World → Prop} (hR : Above R) (hX : Stable R t X) (hB : Stable R t B)
    (hE : Stable R t E) (call : ManagerCall) (hpre : ∀ w, X w → ∀ h, w.owner h ≠ .task t)
    (hpost : ∀ {w w'}, Rewritten t (some { call, endedBefore := w.ended }) w w' → X w → B w') :
    Triple R t X (await (.began call)) (fun _ => B) fun _ => E := by
  refine Triple.perform hX (fun _ => hB) (fun _ => hE)
    (fun w hinv hw => hR.pre t _ w hinv (hpre w hw)) ?_
  intro w choice r w' _ hw _ _ hexec
  cases choice <;> simp only [exec, Option.some.injEq, Prod.mk.injEq, reduceCtorEq] at hexec
  obtain ⟨rfl, rfl⟩ := hexec
  exact hpost (w := w) ⟨rfl, rfl, rfl, rfl, rfl, Function.update_self ..⟩ hw

theorem triple_returned {X : World → Prop} (hR : Above R) (hX : Stable R t X) (hB : Stable R t B)
    (hE : Stable R t E) (status : Option McpServerRuntimeStatus)
    (hpost : ∀ {w w'}, Rewritten t ((w.record t).map fun record => { record with status }) w w' →
      X w → B w') :
    Triple R t X (await (.returned status)) (fun _ => B) fun _ => E := by
  refine Triple.perform hX (fun _ => hB) (fun _ => hE)
    (fun w hinv hw => hR.pre t _ w hinv trivial) ?_
  intro w choice r w' _ hw _ _ hexec
  cases choice <;> simp only [exec, Option.some.injEq, Prod.mk.injEq, reduceCtorEq] at hexec
  obtain ⟨rfl, rfl⟩ := hexec
  exact hpost (w := w) ⟨rfl, rfl, rfl, rfl, rfl, Function.update_self ..⟩ hw

/-- A call that is refused outright changes nothing. -/
theorem triple_enabled {p : McpServers.Program α} {Q : α → World → Prop} (hR : Above R)
    (hA : Lasting R t A) (hAE : ∀ w, A w → E w)
    (h : Triple R t A (interpret carryOut p) Q fun _ => E) :
    Triple R t A (interpret carryOut (McpRuntime.requireRuntimeEnabled cfg >>= fun _ => p)) Q
      fun _ => E :=
  Interpretation.triple_bind (triple_keeping hR hA hAE (uses_requireRuntimeEnabled cfg))
    fun _ => h

end Bodies

end ChangeQuality.McpBodies
