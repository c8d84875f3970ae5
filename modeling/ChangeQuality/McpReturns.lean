import ChangeQuality.McpBodies

/-!
What a call of the manager that returns has found in the registry and has left there.
-/

namespace ChangeQuality.McpReturns

open ChangeQuality.Values
open ChangeQuality.McpServers
open ChangeQuality.McpRuntime (Settings)
open ChangeQuality.McpTasks
open ChangeQuality.McpRegistry
open ChangeQuality.McpCalls
open ChangeQuality.McpBodies
open ChangeQuality.Coroutine
open ChangeQuality.Interference
open ChangeQuality.Interpretation
open ChangeQuality.McpTasks (await)

section Assertions

variable {cfg : Settings} {allowed : TaskId → TaskOp → TaskChoice → World → Prop}
  {R : Protocol (exec cfg) allowed} {t : TaskId} {id : ServerId} {h : Handle}
  {call : ManagerCall} {φ : CallRecord → Prop} {w w' : World}

/-- What the record of a task says. -/
def Recorded (t : TaskId) (φ : CallRecord → Prop) (w : World) : Prop :=
  ∀ record, w.record t = some record → φ record

theorem Recorded.congr (heq : w'.record t = w.record t) (hφ : Recorded t φ w) :
    Recorded t φ w' := by
  intro record hrec
  exact hφ record (heq ▸ hrec)

/-- A change of the record. -/
theorem Recorded.map {ψ : CallRecord → Prop} {f : CallRecord → CallRecord}
    (heq : w'.record t = (w.record t).map f) (hφ : Recorded t φ w)
    (hf : ∀ record, φ record → ψ (f record)) : Recorded t ψ w' := by
  intro record hrec
  obtain ⟨old, hold, rfl⟩ := Option.map_eq_some_iff.mp (heq.symm.trans hrec)
  exact hf old (hφ old hold)

theorem recorded_stable (hR : Above R) : Stable R t (Recorded t φ) :=
  fun w w' _ hφ hrely _ => hφ.congr (hR.rely t w w' hrely).record

theorem lasting_recorded (hR : Above R) : Lasting R t (Recorded t φ) :=
  ⟨recorded_stable hR, fun hsame _ hφ => hφ.congr (congrFun hsame.record t)⟩

theorem aside_recorded (hR : Above R) : Aside R t (Recorded t φ) :=
  ⟨recorded_stable hR, fun hsame hφ => hφ.congr (congrFun hsame.record t)⟩

/-- Under the lock the registry has that handle, or another call has stopped its worker and taken
the handle out. -/
def Serving (t : TaskId) (id : ServerId) (h : Handle) (w : World) : Prop :=
  Holds t id w ∧ (w.registered id = some h ∨
    w.registered id = none ∧ ∃ t', t' ≠ t ∧ w.stopper h = some t')

theorem Serving.kept (hserving : Serving t id h w) : Kept t id h w :=
  hserving.2.imp_right fun h => h.2

theorem lasting_serving (hR : Above R) : Lasting R t (Serving t id h) := by
  refine ⟨fun w w' _ hserving hrely _ => ?_, fun hsame hlock hserving => ?_⟩
  · have hbase := hR.rely t w w' hrely
    refine ⟨hbase.holds id hserving.1, ?_⟩
    rcases hserving.2 with hreg | ⟨hnone, t', hne, hs⟩
    · rcases hbase.held id hserving.1 with heq | hnone
      · exact .inl (heq.trans hreg)
      · refine .inr ⟨hnone, ?_⟩
        rcases hbase.registered id h hreg with hkept | hstopped
        · simp [hnone] at hkept
        · exact hstopped
    · refine .inr ⟨?_, t', hne, hbase.stopper h t' hs⟩
      rcases hbase.held id hserving.1 with heq | hnone'
      · exact heq.trans hnone
      · exact hnone'
  · simpa only [Serving, Holds, World.registered, hlock, hsame.handles, hsame.stopper]
      using hserving

theorem aside_serving (hR : Above R) : Aside R t (Serving t id h) :=
  ⟨(lasting_serving hR).stable, fun hsame hserving => by
    simpa only [Serving, Holds, World.registered, hsame.manager, hsame.stopper] using hserving⟩

/-- The call has found in the registry no worker that had terminated. -/
def Begun (call : ManagerCall) (record : CallRecord) : Prop :=
  record.call = call ∧ record.foundEnded = false ∧ record.foundBefore = false

/-- The call holds the lock of a server without a handle. -/
def Vacant (t : TaskId) (id : ServerId) (call : ManagerCall) (w : World) : Prop :=
  (Holds t id w ∧ w.registered id = none) ∧ Recorded t (Begun call) w

theorem lasting_vacantCall (hR : Above R) : Lasting R t (Vacant t id call) :=
  (lasting_vacant hR).and (lasting_recorded hR)

theorem aside_vacantCall (hR : Above R) : Aside R t (Vacant t id call) :=
  (aside_vacant hR).and (aside_recorded hR)

/-- The handle that the call knows, which it has put into the registry or else found there. -/
def Knows (φ : CallRecord → Prop) (h : Handle) (record : CallRecord) : Prop :=
  φ record ∧ record.handle = some h ∧ record.foundBefore = record.endedBefore h

/-- The registry has the handle that the call knows. -/
def Serves (t : TaskId) (id : ServerId) (φ : CallRecord → Prop) (w : World) : Prop :=
  ∃ h, Serving t id h w ∧ Recorded t (Knows φ h) w

theorem Serves.holds (hserves : Serves t id φ w) : Holds t id w := by
  obtain ⟨h, hserving, -⟩ := hserves
  exact hserving.1

theorem lasting_serves (hR : Above R) : Lasting R t (Serves t id φ) :=
  .exists fun _ => (lasting_serving hR).and (lasting_recorded hR)

/-- What the record says of the handle that the call has left behind. -/
def Served (t : TaskId) (w : World) (record : CallRecord) : Prop :=
  ∃ h, record.handle = some h ∧ record.foundBefore = record.endedBefore h ∧
    (record.left = some h ∨
      record.left = none ∧ ∃ t', t' ≠ t ∧ w.stopper h = some t')

/-- What the record says when the call has returned. -/
def Returned (t : TaskId) (w : World) (record : CallRecord) : Prop :=
  match record.call with
  | .start _ => Served t w record
  | .stop _ => record.foundEnded = false
  | .restart _ => record.foundEnded = false ∧ record.foundBefore = false ∧ Served t w record
  | .check _ =>
      record.status = some .stopped ∨ record.foundBefore = false ∧ Served t w record
  | .shutdown => True

/-- The call that the record is about, and the handle it has left behind. -/
def Answered (t : TaskId) (φ : CallRecord → Prop) (w : World) : Prop :=
  ∀ record, w.record t = some record → φ record ∧ Served t w record

theorem answered_stable (hR : Above R) : Stable R t (Answered t φ) := by
  intro w w' _ hanswered hrely _ record hrec
  have hbase := hR.rely t w w' hrely
  obtain ⟨hφ, h, hhandle, hfound, hleft⟩ := hanswered record (hbase.record ▸ hrec)
  exact ⟨hφ, h, hhandle, hfound, hleft.imp_right fun ⟨hnone, t', hne, hs⟩ =>
    ⟨hnone, t', hne, hbase.stopper h t' hs⟩⟩

/-- What is known under the lock is recorded when the lock is given back. -/
theorem Serves.answered (hφ : ∀ record left, φ record → φ { record with left })
    (hreleased : Released t id w w') (hserves : Serves t id φ w) : Answered t φ w' := by
  obtain ⟨h, ⟨-, hserving⟩, hknows⟩ := hserves
  intro record hrec
  rw [hreleased.record, Function.update_self] at hrec
  obtain ⟨old, hold, rfl⟩ := Option.map_eq_some_iff.mp hrec
  obtain ⟨hold', hhandle, hfound⟩ := hknows old hold
  refine ⟨hφ old _ hold', h, hhandle, hfound, ?_⟩
  rw [hreleased.stopper]
  exact hserving

end Assertions

section Bodies

variable {cfg : Settings} {allowed : TaskId → TaskOp → TaskChoice → World → Prop}
  {R : Protocol (exec cfg) allowed} {t : TaskId} {id : ServerId} {call : ManagerCall}
  {φ : CallRecord → Prop} {A : World → Prop}

/-- A call that has found no handle under the lock. -/
theorem vacant_looked {w : World} (hholds : Holds t id w) (hbegun : Recorded t (Begun call) w)
    (hnone : w.registered id = none) : Vacant t id call (looked t id w) := by
  refine ⟨⟨hholds, hnone⟩, hbegun.map (Function.update_self ..) fun record hrecord => ?_⟩
  obtain ⟨hcall, hended, hbefore⟩ := hrecord
  exact ⟨hcall, by simp [hended, hnone], by simp [hbefore, hnone]⟩

/-- A worker of the task's own. -/
theorem triple_own (hR : Above R) (server : McpServer) :
    Triple R t (Vacant t id call) (TaskOwnedMcpProbe.start server)
      (fun started w => Vacant t id call w ∧ Mine t started.1 w) fun _ => Vacant t id call := by
  have hmine : ∀ h, Aside R t fun w => Vacant t id call w ∧ Mine t h w :=
    fun _ => (aside_vacantCall hR).and (aside_mine hR)
  refine triple_probeStart (M := fun h w => Vacant t id call w ∧ Mine t h w) hR
    (aside_vacantCall hR) hmine (fun _ _ hw => hw.2) ?_ (fun h => ?_) server
  · rintro w w' h hcreated ⟨⟨hholds, hnone⟩, hbegun⟩
    refine ⟨⟨?_, hbegun.congr (congrFun hcreated.record t)⟩, ?_⟩
    · simpa only [Holds, World.registered, hcreated.manager] using And.intro hholds hnone
    · rw [Mine, hcreated.owner]
      exact Function.update_self ..
  · exact Triple.weaken (triple_talk hR (hmine h) trivial fun _ hw => hw.2) (fun _ _ hw => hw)
      (fun _ _ _ hw => hw.1) fun _ _ _ hw => hw.1

theorem triple_disown (hR : Above R) (h : Handle) :
    Triple R t (fun w => Vacant t id call w ∧ Mine t h w) (TaskOwnedMcpProbe.stop h)
      (fun _ => Vacant t id call) fun _ => Vacant t id call :=
  Triple.weaken (triple_probeStopped hR ((aside_vacantCall hR).and (aside_mine hR))
    (aside_const True) (fun _ hw => .inl hw.2) fun _ _ _ _ => trivial) (fun _ _ hw => hw)
    (fun _ _ _ hw => hw.1.1) fun _ _ _ hw => hw.1

/-- A start, from what its look into the registry establishes. -/
theorem triple_startServing (call : ManagerCall) (hR : Above R) (hA : Lasting R t A)
    (hAE : ∀ w, A w → Holds t id w)
    (hφ : ∀ record handle, Begun call record → φ { record with handle })
    (hfind : Triple R t A (await (.manager (.handleOf id)))
      (fun found w => (found ≠ none ∧ Serves t id φ w) ∨ (found = none ∧ Vacant t id call w))
      fun _ => Holds t id) :
    Triple R t A (interpret carryOut (McpRuntime.startLocked cfg id)) (fun _ => Serves t id φ)
      fun _ => Holds t id := by
  refine triple_startLocked (M := fun h w => Vacant t id call w ∧ Mine t h w) hR hA
    (lasting_vacantCall hR) (lasting_serves hR) (lasting_holds hR) hAE (fun _ hw => hw.1.1)
    (fun _ hw => hw.holds) hfind (triple_own hR) (fun h tools => ?_)
    (triple_disown hR) fun h => ?_
  · exact Triple.weaken (triple_neutral hR ((lasting_vacantCall hR).and (lasting_mine hR))
      (Uses.bind (neutral_tools id tools) fun _ => Uses.bind (neutral_status id .running none)
        fun _ => trivial)) (fun _ _ hw => hw) (fun _ _ _ hw => hw)
      fun _ _ _ hw => ⟨fun _ => hw, fun _ => hw.1.1.1⟩
  · refine triple_setHandle hR ((lasting_vacantCall hR).and (lasting_mine hR)).stable
      (lasting_serves hR).stable (holds_stable hR) (fun _ hw => ⟨hw.1.1, hw.2⟩) ?_
    rintro w w' hinv hentered ⟨⟨⟨hholds, -⟩, hbegun⟩, hmine⟩
    refine ⟨h, ⟨?_, .inl hentered.registered⟩, ?_⟩
    · simpa only [Holds, hentered.lock] using hholds
    · intro record hrec
      rw [hentered.record, Function.update_self] at hrec
      obtain ⟨old, hold, rfl⟩ := Option.map_eq_some_iff.mp hrec
      refine ⟨hφ old _ (hbegun old hold), rfl, ?_⟩
      -- the worker did not exist when the call began
      rw [(hbegun old hold).2.2]
      by_contra hbefore
      have hended : old.endedBefore h = true := by
        cases hended : old.endedBefore h with
        | true => rfl
        | false => exact absurd hended.symm hbefore
      exact ((hR.inv w hinv).before t old h hold hended).2 hmine

/-- A start that may find a handle. -/
theorem triple_startAny (hR : Above R) :
    Triple R t (fun w => Holds t id w ∧ Recorded t (Begun call) w)
      (interpret carryOut (McpRuntime.startLocked cfg id))
      (fun _ => Serves t id fun record => record.call = call) fun _ => Holds t id := by
  have hA : Lasting R t fun w => Holds t id w ∧ Recorded t (Begun call) w :=
    (lasting_holds hR).and (lasting_recorded hR)
  refine triple_startServing call hR hA (fun _ hw => hw.1)
    (fun _ _ hrecord => hrecord.1) ?_
  refine Triple.weaken (triple_handleOf (S := fun _ => Serves t id fun record => record.call = call)
    (N := Vacant t id call) (E := Holds t id) hR hA.stable (fun _ => (lasting_serves hR).stable)
    (lasting_vacantCall hR).stable (holds_stable hR) ?_ ?_) (fun _ _ hw => hw) ?_
    fun _ _ _ hw => hw
  · rintro w h - ⟨hholds, hbegun⟩ hreg
    refine ⟨h, ⟨hholds, .inl hreg⟩, hbegun.map (Function.update_self ..) fun record hrecord => ?_⟩
    exact ⟨hrecord.1, hreg, by simp [hrecord.2.2, hreg]⟩
  · rintro w - ⟨hholds, hbegun⟩ hnone
    exact vacant_looked hholds hbegun hnone
  · rintro (h | _) w - hw
    · exact .inr ⟨rfl, hw⟩
    · exact .inl ⟨by simp, hw⟩

/-- A start of a server without a handle. -/
theorem triple_startVacant (hR : Above R) :
    Triple R t (Vacant t id call) (interpret carryOut (McpRuntime.startLocked cfg id))
      (fun _ => Serves t id (Begun call)) fun _ => Holds t id := by
  refine triple_startServing call hR (lasting_vacantCall hR) (fun _ hw => hw.1.1)
    (fun _ _ hrecord => hrecord) ?_
  refine Triple.weaken (triple_handleOf (S := fun _ _ => False)
    (N := Vacant t id call) (E := Holds t id) hR (lasting_vacantCall hR).stable
    (fun _ => Stable.const False) (lasting_vacantCall hR).stable (holds_stable hR) ?_ ?_)
    (fun _ _ hw => hw) ?_ fun _ _ _ hw => hw
  · rintro w h - ⟨⟨-, hvacant⟩, -⟩ hreg
    simp [hvacant] at hreg
  · rintro w - ⟨⟨hholds, -⟩, hbegun⟩ hnone
    exact vacant_looked hholds hbegun hnone
  · rintro (h | _) w - hw
    · exact .inr ⟨rfl, hw⟩
    · exact hw.elim

/-- A stop that finds the handle of a terminated worker raises. -/
theorem triple_stopVacant (hR : Above R) :
    Triple R t (fun w => Holds t id w ∧ Recorded t (Begun call) w)
      (interpret carryOut (McpRuntime.stopLocked cfg id)) (fun _ => Vacant t id call)
      fun _ => Holds t id := by
  have hA : Lasting R t fun w => Holds t id w ∧ Recorded t (Begun call) w :=
    (lasting_holds hR).and (lasting_recorded hR)
  -- what the record says of the worker that was found
  let S : Handle → World → Prop := fun h w => (Serving t id h w ∧ Published h w) ∧
    ∀ record, w.record t = some record → record.call = call ∧
      (w.ended h = false → record.foundEnded = false ∧ record.foundBefore = false)
  have hS : ∀ h, Lasting R t (S h) ∧ Aside R t (S h) := by
    intro h
    have hstable : Stable R t (S h) := by
      rintro w w' hinv ⟨hfound, hrecord⟩ hrely hinv'
      have hbase := hR.rely t w w' hrely
      refine ⟨((lasting_serving hR).and (lasting_published hR)).stable w w' hinv hfound hrely hinv',
        fun record hrec => ?_⟩
      obtain ⟨hcall, hlive⟩ := hrecord record (hbase.record ▸ hrec)
      refine ⟨hcall, fun hended => hlive ?_⟩
      by_contra hdead
      simp [hbase.ended h (by simpa using hdead)] at hended
    refine ⟨⟨hstable, fun hsame hlock hw => ⟨((lasting_serving hR).and (lasting_published hR)).frame
      hsame hlock hw.1, ?_⟩⟩, ⟨hstable, fun hsame hw => ⟨((aside_serving hR).and
        (aside_published hR)).frame hsame hw.1, ?_⟩⟩⟩
    · simpa only [World.ended, hsame.worker, hsame.record] using hw.2
    · simpa only [World.ended, (hsame.worker h).done, hsame.record] using hw.2
  have hbegun : Aside R t (Recorded t (Begun call)) := aside_recorded hR
  refine triple_stopLocked (S := S) (D := fun h w => (Holds t id w ∧ Recorded t (Begun call) w) ∧
    Kept t id h w ∧ w.stopper h = some t) hR hA (fun h => (hS h).1) (lasting_vacantCall hR)
    (lasting_holds hR) (fun _ hw => hw.1) (fun _ _ hw => hw.1.1.1) (fun _ hw => hw.1.1) ?_
    (fun h => ?_) fun h => ?_
  · refine triple_handleOf hR hA.stable (fun h => (hS h).1.stable) (lasting_vacantCall hR).stable
      (holds_stable hR) ?_ ?_
    · rintro w h hinv ⟨hholds, hrecord⟩ hreg
      refine ⟨⟨⟨hholds, .inl hreg⟩, (hR.inv w hinv).registered id h hreg⟩, fun record hrec => ?_⟩
      simp only [looked, World.setRecord, Function.update_self] at hrec
      obtain ⟨old, hold, rfl⟩ := Option.map_eq_some_iff.mp hrec
      obtain ⟨hcall, hended, hbefore⟩ := hrecord old hold
      refine ⟨hcall, fun halive => ?_⟩
      have hlive : w.ended h = false := halive
      have hpast : old.endedBefore h = false := by
        by_contra hpast
        have hdead := ((hR.inv w hinv).before t old h hold (by simpa using hpast)).1
        simp [hlive] at hdead
      exact ⟨by simp [hended, hreg, hlive], by simp [hbefore, hreg, hpast]⟩
    · rintro w - ⟨hholds, hrecord⟩ hnone
      exact vacant_looked hholds hrecord hnone
  · refine Triple.weaken (triple_probeStopped (F := Recorded t (Begun call)) hR (hS h).2 hbegun
      (fun _ hw => .inr hw.1.2) ?_) (fun _ _ hw => hw)
      (fun _ _ _ hw => ⟨⟨hw.1.1.1.1, hw.2.1⟩, hw.1.1.1.kept, hw.2.2⟩) fun _ _ _ hw => hw
    intro w _ hw hlive record hrec
    exact ⟨(hw.2 record hrec).1, (hw.2 record hrec).2 hlive⟩
  · refine triple_popHandle hR hA.stable (lasting_vacantCall hR).stable (holds_stable hR) ?_
    rintro w w' hpopped ⟨hholds, hrecord⟩
    refine ⟨⟨?_, hpopped.registered⟩, hrecord.congr (congrFun hpopped.record t)⟩
    simpa only [Holds, hpopped.lock] using hholds

/-- A check that asks a worker finds it alive. -/
theorem triple_checkServing (hR : Above R) :
    Triple R t (fun w => Holds t id w ∧ Recorded t (Begun call) w)
      (interpret carryOut (McpRuntime.checkLocked cfg id))
      (fun response w => (response.runtimeStatus = .stopped ∧ Vacant t id call w) ∨
        Serves t id (fun record => record.call = call ∧ record.foundBefore = false) w)
      fun _ => Holds t id := by
  have hA : Lasting R t fun w => Holds t id w ∧ Recorded t (Begun call) w :=
    (lasting_holds hR).and (lasting_recorded hR)
  let S : Handle → World → Prop := fun h w => (Serving t id h w ∧ Published h w) ∧
    Recorded t (Knows (fun record => record.call = call) h) w
  have hS : ∀ h, Lasting R t (S h) := fun h =>
    ((lasting_serving hR).and (lasting_published hR)).and (lasting_recorded hR)
  have hS' : ∀ h, Aside R t (S h) := fun h =>
    ((aside_serving hR).and (aside_published hR)).and (aside_recorded hR)
  have hfresh : Aside R t (Recorded t fun record => record.foundBefore = false) :=
    aside_recorded hR
  refine Triple.weaken (triple_checkLocked (S := S)
    (D := fun h w => S h w ∧ Recorded t (fun record => record.foundBefore = false) w)
    (M := fun h w => Vacant t id call w ∧ Mine t h w) (N := Vacant t id call)
    (E := Holds t id) hR hA hS (fun h => (hS h).and (lasting_recorded hR))
    (lasting_vacantCall hR) (fun _ => (lasting_vacantCall hR).and (lasting_mine hR))
    (lasting_holds hR) (fun _ hw => hw.1) (fun _ _ hw => hw.1.1.1) (fun _ _ hw => hw.1)
    (fun _ hw => hw.1.1) (fun _ _ hw => hw.2) ?_ (fun h => ?_) (triple_own hR)
    (triple_disown hR)) (fun _ _ hw => hw) ?_ fun _ _ _ hw => hw
  · refine triple_handleOf hR hA.stable (fun h => (hS h).stable) (lasting_vacantCall hR).stable
      (holds_stable hR) ?_ ?_
    · rintro w h hinv ⟨hholds, hrecord⟩ hreg
      refine ⟨⟨⟨hholds, .inl hreg⟩, (hR.inv w hinv).registered id h hreg⟩,
        hrecord.map (Function.update_self ..) fun record hbegun => ?_⟩
      exact ⟨hbegun.1, hreg, by simp [hbegun.2.2, hreg]⟩
    · rintro w - ⟨hholds, hrecord⟩ hnone
      exact vacant_looked hholds hrecord hnone
  · refine triple_send hR (hS' h) hfresh (fun _ hw => .inr hw.1.2) ?_ .listTools
    intro w hinv hw hlive record hrec
    rw [(hw.2 record hrec).2.2]
    by_contra hpast
    have hdead := ((hR.inv w hinv).before t record h hrec (by simpa using hpast)).1
    simp [hlive] at hdead
  · rintro response w - (hstopped | ⟨h, ⟨⟨hserving, -⟩, hknows⟩, hfresh⟩)
    · exact .inl hstopped
    · refine .inr ⟨h, hserving, fun record hrec => ?_⟩
      obtain ⟨hcall, hhandle⟩ := hknows record hrec
      exact ⟨⟨hcall, hfresh record hrec⟩, hhandle⟩

end Bodies

section Calls

variable {cfg : Settings} {allowed : TaskId → TaskOp → TaskChoice → World → Prop}
  {R : Protocol (exec cfg) allowed} {t : TaskId} {α : Type} {id : ServerId} {call : ManagerCall}
  {φ ψ : CallRecord → Prop} {A : World → Prop}

theorem triple_locked {p : McpServers.Program α} {B Q : α → World → Prop} (hR : Above R)
    (hB : ∀ a, Stable R t (B a)) (hQ : ∀ a, Stable R t (Q a))
    (hholds : ∀ a w, B a w → Holds t id w)
    (hpost : ∀ a {w w'}, Released t id w w' → B a w → Q a w')
    (hp : Triple R t (fun w => Holds t id w ∧ Recorded t (Begun call) w) (interpret carryOut p) B
      fun _ => Holds t id) :
    Triple R t (Recorded t (Begun call)) (interpret carryOut (McpRuntime.withLock id p)) Q
      fun _ _ => True := by
  refine triple_withLock hR (recorded_stable hR)
    (fun hsame hbegun => hbegun.congr (congrFun hsame.record t)) hQ (Stable.const True)
    (fun _ _ => trivial) hp (fun a => ?_) fun e => ?_
  · exact triple_release hR (hB a) (hQ a) (Stable.const True) (hholds a) (hpost a)
  · exact triple_release hR (holds_stable hR) (Stable.const True) (Stable.const True)
      (fun _ hw => hw) fun _ _ => trivial

theorem triple_start (hR : Above R) :
    Triple R t (Recorded t (Begun call)) (interpret carryOut (McpRuntime.start cfg id))
      (fun _ => Answered t fun record => record.call = call) fun _ _ => True :=
  triple_enabled hR (lasting_recorded hR) (fun _ _ => trivial)
    (triple_locked hR (fun _ => (lasting_serves hR).stable) (fun _ => answered_stable hR)
      (fun _ _ hw => hw.holds) (fun _ _ _ hreleased hw => hw.answered (fun _ _ hc => hc) hreleased)
      (triple_startAny hR))

theorem triple_stop (hR : Above R) :
    Triple R t (Recorded t (Begun call)) (interpret carryOut (McpRuntime.stop cfg id))
      (fun _ => Recorded t (Begun call)) fun _ _ => True :=
  triple_locked hR (fun _ => (lasting_vacantCall hR).stable) (fun _ => recorded_stable hR)
    (fun _ _ hw => hw.1.1) (fun _ _ _ hreleased hw => hw.2.map
      ((congrFun hreleased.record t).trans (Function.update_self ..)) fun _ hrecord => hrecord)
    (triple_stopVacant hR)

theorem triple_restart (hR : Above R) :
    Triple R t (Recorded t (Begun call)) (interpret carryOut (McpRuntime.restart cfg id))
      (fun _ => Answered t (Begun call)) fun _ _ => True :=
  triple_enabled hR (lasting_recorded hR) (fun _ _ => trivial)
    (triple_locked hR (fun _ => (lasting_serves hR).stable) (fun _ => answered_stable hR)
      (fun _ _ hw => hw.holds) (fun _ _ _ hreleased hw => hw.answered (fun _ _ hc => hc) hreleased)
      (Interpretation.triple_bind (triple_stopVacant hR) fun _ => triple_startVacant hR))

theorem triple_check (hR : Above R) :
    Triple R t (Recorded t (Begun call)) (interpret carryOut (McpRuntime.check cfg id))
      (fun response w =>
        (response.runtimeStatus = .stopped ∧ Recorded t (fun record => record.call = call) w) ∨
        Answered t (fun record => record.call = call ∧ record.foundBefore = false) w)
      fun _ _ => True := by
  refine triple_enabled hR (lasting_recorded hR) (fun _ _ => trivial)
    (triple_locked hR (fun response => ?_) (fun response => ?_) (fun response w hw => ?_)
      (fun response w w' hreleased hw => ?_) (triple_checkServing hR))
  · exact ((Stable.const _).and (lasting_vacantCall hR).stable).or (lasting_serves hR).stable
  · exact ((Stable.const _).and (recorded_stable hR)).or (answered_stable hR)
  · rcases hw with ⟨-, hvacant⟩ | hserves
    · exact hvacant.1.1
    · exact hserves.holds
  · rcases hw with ⟨hstatus, -, hbegun⟩ | hserves
    · exact .inl ⟨hstatus, hbegun.map
        ((congrFun hreleased.record t).trans (Function.update_self ..)) fun _ hrecord => hrecord.1⟩
    · exact .inr (hserves.answered (fun _ _ hc => hc) hreleased)

/-- The record is final when the call has returned. -/
def Final (t : TaskId) (w : World) : Prop :=
  ∀ record, w.record t = some record → Returned t w record

theorem Served.mono {w w' : World} {record : CallRecord}
    (hstopper : ∀ h t', w.stopper h = some t' → w'.stopper h = some t')
    (hserved : Served t w record) : Served t w' record := by
  obtain ⟨h, hhandle, hfound, hleft⟩ := hserved
  exact ⟨h, hhandle, hfound, hleft.imp_right fun ⟨hnone, t', hne, hs⟩ =>
    ⟨hnone, t', hne, hstopper h t' hs⟩⟩

theorem Returned.mono {w w' : World} {record : CallRecord}
    (hstopper : ∀ h t', w.stopper h = some t' → w'.stopper h = some t')
    (hreturned : Returned t w record) : Returned t w' record := by
  unfold Returned at hreturned ⊢
  cases hcall : record.call with
  | start id =>
      rw [hcall] at hreturned
      exact Served.mono hstopper hreturned
  | stop id =>
      rw [hcall] at hreturned
      exact hreturned
  | restart id =>
      rw [hcall] at hreturned
      exact ⟨hreturned.1, hreturned.2.1, hreturned.2.2.mono hstopper⟩
  | check id =>
      rw [hcall] at hreturned
      exact Or.imp_right (fun h => ⟨h.1, h.2.mono hstopper⟩) hreturned
  | shutdown => trivial

theorem final_stable (hR : Above R) : Stable R t (Final t) := by
  intro w w' _ hfinal hrely _ record hrec
  have hbase := hR.rely t w w' hrely
  exact (hfinal record (hbase.record ▸ hrec)).mono hbase.stopper

/-- A call's answer is the last thing that is recorded of it. -/
theorem triple_answering {p : McpServers.Program McpRuntime.McpLifecycleResponse}
    {B : McpRuntime.McpLifecycleResponse → World → Prop} (hR : Above R)
    (hB : ∀ response, Stable R t (B response))
    (hp : Triple R t A (interpret carryOut p) B fun _ _ => True)
    (hfinal : ∀ response w record, B response w → w.record t = some record →
      Returned t w { record with status := some response.runtimeStatus }) :
    Triple R t A (answering p) (fun _ => Final t) fun _ _ => True := by
  refine Triple.bind hp fun response => triple_returned hR (hB response) (final_stable hR)
    (Stable.const True) _ ?_
  rintro w w' hrewritten hw record hrec
  obtain ⟨old, hold, rfl⟩ := Option.map_eq_some_iff.mp (hrewritten.record.symm.trans hrec)
  have hreturned := hfinal response w old hw hold
  unfold Returned Served at hreturned ⊢
  rw [hrewritten.stopper]
  exact hreturned

theorem triple_body (hR : Above R) (call : ManagerCall) :
    Triple R t (Recorded t (Begun call)) (body cfg call) (fun _ => Final t) fun _ _ => True := by
  cases call with
  | start id =>
      refine triple_answering hR (fun _ => answered_stable hR) (triple_start hR) ?_
      intro response w record hw hrec
      obtain ⟨hcall, hserved⟩ := hw record hrec
      simp only [Returned, hcall]
      exact hserved
  | stop id =>
      refine triple_answering hR (fun _ => recorded_stable hR) (triple_stop hR) ?_
      intro response w record hw hrec
      obtain ⟨hcall, hended, -⟩ := hw record hrec
      simp only [Returned, hcall]
      exact hended
  | restart id =>
      refine triple_answering hR (fun _ => answered_stable hR) (triple_restart hR) ?_
      intro response w record hw hrec
      obtain ⟨⟨hcall, hended, hbefore⟩, hserved⟩ := hw record hrec
      simp only [Returned, hcall]
      exact ⟨hended, hbefore, hserved⟩
  | check id =>
      refine triple_answering hR (fun _ => ((Stable.const _).and (recorded_stable hR)).or
        (answered_stable hR)) (triple_check hR) ?_
      rintro response w record (⟨hstatus, hw⟩ | hw) hrec
      · simp only [Returned, hw record hrec, hstatus]
        exact .inl trivial
      · obtain ⟨⟨hcall, hbefore⟩, hserved⟩ := hw record hrec
        simp only [Returned, hcall]
        exact .inr ⟨hbefore, hserved⟩
  | shutdown =>
      have hrecorded : Lasting R t (Recorded t (Begun .shutdown)) := lasting_recorded hR
      refine Triple.bind (Triple.weaken (triple_shutdown hR hrecorded (aside_recorded hR)
        fun hpopped hw => hw.congr (congrFun hpopped.record t)) (fun _ _ hw => hw)
        (fun _ _ _ hw => hw) fun _ _ _ _ => trivial) fun _ => ?_
      refine triple_returned hR hrecorded.stable (final_stable hR) (Stable.const True) none ?_
      rintro w w' hrewritten hw record hrec
      obtain ⟨old, hold, rfl⟩ := Option.map_eq_some_iff.mp (hrewritten.record.symm.trans hrec)
      simp only [Returned, (hw old hold).1]

end Calls

section Runs

variable {cfg : Settings} {allowed : TaskId → TaskOp → TaskChoice → World → Prop} {t : TaskId}

/-- A task that has not begun. -/
def Fresh (t : TaskId) (w : World) : Prop :=
  (∀ h, w.owner h ≠ .task t) ∧ w.record t = none

theorem fresh_stable {R : Protocol (exec cfg) allowed} (hR : Above R) : Stable R t (Fresh t) := by
  intro w w' _ hfresh hrely _
  have hbase := hR.rely t w w' hrely
  exact ⟨fun h howner => hfresh.1 h ((hbase.owns h).mp howner), hbase.record.trans hfresh.2⟩

/-- What a task that has ended leaves: a call that has returned has a final record. -/
def Ends (t : TaskId) (r : Except Exn Unit) (w : World) : Prop :=
  r = .ok () → Final t w

/-- A step of a worker and a further cancellation leave all records as they are. -/
theorem exec_record {op : TaskOp} {h : Handle} (hop : op = .work h ∨ op = .interrupt h)
    {choice : TaskChoice} {w w' : World} {r : Except Exn (TaskReply op)}
    (hexec : exec cfg t op choice w = some (r, w')) :
    w'.record = w.record ∧ w'.owner = w.owner := by
  rcases hop with rfl | rfl
  · obtain ⟨outcome, x, -, -, -, -, rfl⟩ := exec_work hexec
    exact ⟨rfl, rfl⟩
  · cases choice <;> simp only [exec, reduceCtorEq] at hexec
    split at hexec
    · obtain ⟨-, rfl⟩ := Prod.mk.inj (Option.some.inj hexec)
      exact ⟨rfl, rfl⟩
    · simp at hexec

theorem safe_runs {R : Protocol (exec cfg) allowed} (hR : Above R) {p : TaskProgram Unit}
    (hp : Runs cfg p) {w : World} (hinv : R.inv w) (hfresh : Fresh t w) :
    Safe R t (Ends t) p w := by
  have hlift : ∀ {p : TaskProgram Unit}, Triple R t (Fresh t) p (fun _ => Final t)
      (fun _ _ => True) → Safe R t (Ends t) p w := by
    intro p htriple
    refine Safe.mono ?_ (htriple w hinv hfresh)
    rintro (e | u) w' - hfinal
    · simp [Ends]
    · exact fun _ => hfinal
  have hone : ∀ {op : TaskOp} {h : Handle}, op = .work h ∨ op = .interrupt h →
      Triple R t (Fresh t) (await op) (fun _ => Final t) fun _ _ => True := by
    intro op h hop
    refine Triple.perform (fresh_stable hR) (fun _ => final_stable hR) (fun _ => Stable.const True)
      (fun w hinv _ => hR.pre t op w hinv (by rcases hop with rfl | rfl <;> trivial)) ?_
    intro w choice r w' _ hw _ _ hexec
    have hnone : w'.record t = none :=
      (congrFun (exec_record hop hexec).1 t).trans hw.2
    cases r with
    | error e => trivial
    | ok reply => exact fun record hrec => by simp [hnone] at hrec
  cases hp with
  | call call =>
      refine hlift (Triple.bind (triple_began hR (fresh_stable hR) (recorded_stable hR)
        (Stable.const True) call (fun _ hw => hw.1) ?_) fun _ => triple_body hR call)
      rintro w w' hrewritten - record hrec
      obtain rfl := Option.some.inj (hrewritten.record.symm.trans hrec)
      exact ⟨rfl, rfl, rfl⟩
  | work h =>
      have hop : TaskOp.work h = .work h ∨ TaskOp.work h = .interrupt h := .inl rfl
      exact hlift (hone hop)
  | interrupt h =>
      have hop : TaskOp.interrupt h = .work h ∨ TaskOp.interrupt h = .interrupt h := .inr rfl
      exact hlift (hone hop)

theorem inv_initial (manager : McpSystem.World) : Inv (World.initial manager) where
  unborn _ _ := ⟨rfl, rfl, rfl⟩
  born h hlt := absurd hlt (Nat.not_lt_zero h)
  sound _ := McpWorkerSteps.sound_new
  keys := List.nodup_nil
  registered id h hreg := by simp [World.registered, World.initial, List.lookup_nil] at hreg
  stopped h t hs := by simp [World.initial] at hs
  abandoned h hab := by simp [World.initial] at hab
  before t record h hrec := by simp [World.initial] at hrec

/-- In every run, whatever is interrupted or fails, the discipline of the registry is kept. -/
theorem reachable_invariant {c : McpTasks.Config} (hreach : Reachable cfg allowed c) :
    Invariant (registryProtocol cfg allowed) Fresh Ends c := by
  obtain ⟨manager, hsteps⟩ := hreach
  refine Invariant.steps (fun t => fresh_stable above_registry) ?_ (Invariant.idle
    (inv_initial manager) fun t => ⟨fun h => by simp [World.initial], rfl⟩) hsteps
  exact fun t p hp w hinv hfresh => safe_runs above_registry hp hinv hfresh

/-- A call that can answer that its server is running. -/
def MayAnswerRunning (call : ManagerCall) : Prop :=
  ∃ id, call = .start id ∨ call = .restart id ∨ call = .check id

theorem Returned.served {w : World} {record : CallRecord} (hreturned : Returned t w record)
    (hcall : MayAnswerRunning record.call) (hstatus : record.status = some .running) :
    Served t w record ∧ (record.foundBefore = true → ∃ id, record.call = .start id) := by
  unfold Returned at hreturned
  obtain ⟨id, hcall | hcall | hcall⟩ := hcall
  · rw [hcall] at hreturned
    exact ⟨hreturned, fun _ => ⟨id, hcall⟩⟩
  · rw [hcall] at hreturned
    exact ⟨hreturned.2.2, by simp [hreturned.2.1]⟩
  · rw [hcall] at hreturned
    rcases hreturned with hstopped | ⟨hbefore, hserved⟩
    · simp [hstopped] at hstatus
    · exact ⟨hserved, by simp [hbefore]⟩

/-- **Running answers.** A call that answers `running` leaves a handle registered whose worker had
not terminated before, unless it is a start that has found such a handle in the registry; where
nothing is registered any more, another call has stopped the worker meanwhile. -/
theorem running_lived_iff {c : McpTasks.Config} (hreach : Reachable cfg unrestricted c)
    {record : CallRecord} (htask : c.task t = some (.leave (.ok ())))
    (hrec : c.shared.record t = some record) (hcall : MayAnswerRunning record.call)
    (hstatus : record.status = some .running) :
    ((∀ h, record.left = some h → record.endedBefore h = false) ↔
        record.left = none ∨ record.foundBefore = false) ∧
      (record.foundBefore = true → ∃ id, record.call = .start id) ∧
      (record.left = none → ∃ h t', record.handle = some h ∧ t' ≠ t ∧
        c.shared.stopper h = some t') := by
  have hfinal : Final t c.shared := (reachable_invariant hreach).ended htask rfl
  obtain ⟨⟨h, hhandle, hfound, hleft⟩, hstart⟩ := (hfinal record hrec).served hcall hstatus
  refine ⟨?_, hstart, fun hnone => ?_⟩
  · rw [hfound]
    rcases hleft with hleft | ⟨hleft, -⟩
    · rw [hleft]
      simp
    · simp [hleft]
  · rcases hleft with hleft | ⟨-, t', hne, hs⟩
    · simp [hleft] at hnone
    · exact ⟨h, t', hhandle, hne, hs⟩

end Runs

section Schedules

abbrev TaskMove := Move TaskReply Exn TaskId TaskChoice

/-- The next awaits of a task succeed: those of the manager, and those of the probe. -/
def succeeding (t : TaskId) (n : Nat) : List TaskMove :=
  List.replicate n (.resume t (.manager (.succeed [])))

def proceeding (t : TaskId) (n : Nat) : List TaskMove :=
  List.replicate n (.resume t .proceed)

/-- The event loop runs a worker, as a task of its own. -/
def working (t : TaskId) (h : Handle) (outcome : Except Exn (List Json)) : List TaskMove :=
  [.spawn t (await (.work h)), .resume t (.inner outcome)]

/-- A start, up to its return. -/
def startSchedule (cfg : Settings) (t t' : TaskId) : List TaskMove :=
  .spawn t (run cfg (.start 0)) :: proceeding t 1 ++ succeeding t 7 ++ proceeding t 1 ++
    working t' 0 (.ok []) ++ proceeding t 1 ++ succeeding t 10 ++ proceeding t 1

/-- A check whose inner `list_tools` is cancelled, which ends the worker. -/
def fatalCheckSchedule (cfg : Settings) : List TaskMove :=
  .spawn 2 (run cfg (.check 0)) :: proceeding 2 1 ++ succeeding 2 3 ++ proceeding 2 1 ++
    working 3 0 (.ok []) ++ working 4 0 (.error .cancelled) ++ proceeding 2 1 ++ succeeding 2 2

/-- A start that finds a handle in the registry. -/
def shortCutSchedule (cfg : Settings) : List TaskMove :=
  .spawn 5 (run cfg (.start 0)) :: proceeding 5 1 ++ succeeding 5 12 ++ proceeding 5 1

theorem reachable_of_follow {cfg : Settings}
    {allowed : TaskId → TaskOp → TaskChoice → World → Prop}
    [∀ t op choice w, Decidable (allowed t op choice w)] {moves : List TaskMove}
    {c : McpTasks.Config} (hspawn : ∀ p ∈ started moves, Runs cfg p)
    (hc : follow (exec cfg) allowed (.idle (World.initial McpFailures.stoppedWorld)) moves =
      some c) : Reachable cfg allowed c :=
  ⟨McpFailures.stoppedWorld, follow_steps hspawn hc⟩

/-- A start answers `running` over the worker of a handle that had terminated before it began. -/
theorem running_over_terminated : ∃ (c : McpTasks.Config) (record : CallRecord),
    Reachable McpLocks.enabledRuntime unrestricted c ∧
      c.task 5 = some (.leave (.ok ())) ∧ c.shared.record 5 = some record ∧
      record.call = .start 0 ∧ record.status = some .running ∧ record.left = some 0 ∧
      record.endedBefore 0 = true := by
  have hrun : ∃ (c : McpTasks.Config) (record : CallRecord),
      follow (exec McpLocks.enabledRuntime) unrestricted
          (.idle (World.initial McpFailures.stoppedWorld))
          (startSchedule McpLocks.enabledRuntime 0 1 ++
            fatalCheckSchedule McpLocks.enabledRuntime ++
            shortCutSchedule McpLocks.enabledRuntime) = some c ∧
        c.task 5 = some (.leave (.ok ())) ∧ c.shared.record 5 = some record ∧
        record.call = .start 0 ∧ record.status = some .running ∧ record.left = some 0 ∧
        record.endedBefore 0 = true := ⟨_, _, rfl, rfl, rfl, rfl, rfl, rfl, rfl⟩
  obtain ⟨c, record, hc, hfacts⟩ := hrun
  refine ⟨c, record, reachable_of_follow ?_ hc, hfacts⟩
  have hstarted : started (startSchedule McpLocks.enabledRuntime 0 1 ++
      fatalCheckSchedule McpLocks.enabledRuntime ++ shortCutSchedule McpLocks.enabledRuntime) =
      [run McpLocks.enabledRuntime (.start 0), await (.work 0),
        run McpLocks.enabledRuntime (.check 0), await (.work 0), await (.work 0),
        run McpLocks.enabledRuntime (.start 0)] := rfl
  rw [hstarted]
  simp [Runs.call, Runs.work]

theorem running_lived_started : ∃ (c : McpTasks.Config) (record : CallRecord),
    c.shared.record 0 = some record ∧ record.left = some 0 ∧
      ((∀ h, record.left = some h → record.endedBefore h = false) ↔
        record.left = none ∨ record.foundBefore = false) := by
  have hrun : ∃ (c : McpTasks.Config) (record : CallRecord),
      follow (exec McpLocks.enabledRuntime) unrestricted
          (.idle (World.initial McpFailures.stoppedWorld))
          (startSchedule McpLocks.enabledRuntime 0 1) = some c ∧
        c.task 0 = some (.leave (.ok ())) ∧ c.shared.record 0 = some record ∧
        record.call = .start 0 ∧ record.status = some .running ∧ record.left = some 0 :=
    ⟨_, _, rfl, rfl, rfl, rfl, rfl, rfl⟩
  obtain ⟨c, record, hc, htask, hrec, hcall, hstatus, hleft⟩ := hrun
  have hstarted : started (startSchedule McpLocks.enabledRuntime 0 1) =
      [run McpLocks.enabledRuntime (.start 0), await (.work 0)] := rfl
  have hreach : Reachable McpLocks.enabledRuntime unrestricted c := by
    refine reachable_of_follow ?_ hc
    rw [hstarted]
    simp [Runs.call, Runs.work]
  obtain ⟨hiff, -⟩ := running_lived_iff hreach htask hrec ⟨0, .inl hcall⟩ hstatus
  exact ⟨c, record, hrec, hleft, hiff⟩

end Schedules

end ChangeQuality.McpReturns
