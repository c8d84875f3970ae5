import ChangeQuality.McpInnerHandles

/-!
The calls of the manager keep the discipline of the inner handles: when nothing is in flight, an
inner handle belongs to a live worker in the registry, or its inner stop was invoked.
-/

namespace ChangeQuality.McpInnerRuns

open ChangeQuality.Values
open ChangeQuality.McpServers
open ChangeQuality.McpRuntime (Settings)
open ChangeQuality.McpWorkers
open ChangeQuality.McpTasks
open ChangeQuality.McpRegistry
open ChangeQuality.McpCalls
open ChangeQuality.McpBodies
open ChangeQuality.McpReturns
open ChangeQuality.McpInnerHandles
open ChangeQuality.Coroutine
open ChangeQuality.Interference
open ChangeQuality.Interpretation
open ChangeQuality.McpTasks (await)

section Assertions

variable {cfg : Settings} {t : TaskId} {id : ServerId} {h : Handle} {w w' : World}

theorem above_inner : Above (innerProtocol cfg) :=
  ⟨fun _ hw => hw.1, fun _ _ _ hw => hw.1, fun _ _ _ _ _ => trivial⟩

/-- All workers of the task's own are settled, but for the given ones. -/
def ClearBut (t : TaskId) (exempt : Handle → Prop) (w : World) : Prop :=
  ∀ h, w.owner h = .task t → ¬ exempt h → settled w h = true

abbrev Clear (t : TaskId) (w : World) : Prop :=
  ClearBut t (fun _ => False) w

variable {exempt : Handle → Prop}

theorem clear_stable : Stable (innerProtocol cfg) t (ClearBut t exempt) :=
  fun _ _ _ hclear hrely _ h howner hnot =>
    hrely.2 h (hclear h ((hrely.1.owns h).mp howner) hnot)

theorem ClearBut.congr (hworker : w'.worker = w.worker) (howner : w'.owner = w.owner)
    (habandoned : w'.abandoned = w.abandoned) (hclear : ClearBut t exempt w) :
    ClearBut t exempt w' := by
  intro h hown hnot
  have hsettled := hclear h (howner ▸ hown) hnot
  simpa only [settled, World.ended, hworker, habandoned] using hsettled

theorem lasting_clear : Lasting (innerProtocol cfg) t (ClearBut t exempt) :=
  ⟨clear_stable, fun hsame _ hclear => hclear.congr hsame.worker hsame.owner hsame.abandoned⟩

theorem aside_clear : Aside (innerProtocol cfg) t (ClearBut t exempt) :=
  ⟨clear_stable, fun hsame hclear h howner hnot =>
    settled_of_talk hsame (hclear h (hsame.owner ▸ howner) hnot)⟩

/-- The last open worker is settled. -/
theorem ClearBut.close (hclear : ClearBut t (fun h' => h' = h) w) (hsettled : settled w h = true) :
    Clear t w := by
  intro h' howner _
  by_cases hh : h' = h
  · rw [hh]
    exact hsettled
  · exact hclear h' howner hh

/-- The call may not fail to stop its worker: it is not a check. -/
def Bound (record : CallRecord) : Prop :=
  ∀ id, record.call ≠ .check id

/-- A task that holds the lock, with all its own workers settled. -/
def Tidy (t : TaskId) (id : ServerId) (w : World) : Prop :=
  Holds t id w ∧ Clear t w

theorem lasting_tidy : Lasting (innerProtocol cfg) t (Tidy t id) :=
  (lasting_holds above_inner).and lasting_clear

theorem aside_tidy : Aside (innerProtocol cfg) t (Tidy t id) :=
  (aside_holds above_inner).and aside_clear

/-- A task with one worker of its own that is open. -/
def Opened (t : TaskId) (h : Handle) (w : World) : Prop :=
  Mine t h w ∧ ClearBut t (fun h' => h' = h) w

theorem lasting_opened : Lasting (innerProtocol cfg) t (Opened t h) :=
  (lasting_mine above_inner).and lasting_clear

theorem aside_opened : Aside (innerProtocol cfg) t (Opened t h) :=
  (aside_mine above_inner).and aside_clear

/-- A new worker is the open one. -/
theorem opened_created (hcreated : Created t h w w') (hclear : Clear t w) : Opened t h w' := by
  refine ⟨?_, fun h' howner hne => ?_⟩
  · rw [Mine, hcreated.owner]
    exact Function.update_self ..
  · rw [hcreated.owner, Function.update_of_ne hne] at howner
    have hsettled := hclear h' howner id
    simpa only [settled, World.ended, hcreated.worker, hcreated.abandoned] using hsettled

/-- A worker in the registry is not the task's own any more. -/
theorem Opened.entered (hentered : Entered t id h w w') (hopened : Opened t h w) : Clear t w' := by
  intro h' howner _
  by_cases hh : h' = h
  · subst hh
    rw [hentered.owner, Function.update_self] at howner
    simp at howner
  · rw [hentered.owner, Function.update_of_ne hh] at howner
    have hsettled := hopened.2 h' howner hh
    simpa only [settled, World.ended, hentered.worker, hentered.abandoned] using hsettled

end Assertions

section Bodies

variable {cfg : Settings} {t : TaskId} {id : ServerId} {h : Handle} {F : World → Prop}

theorem triple_openWorker (hF : Aside (innerProtocol cfg) t F)
    (hcreated : ∀ {w w' h}, Created t h w w' → F w → F w') (server : McpServer) :
    Triple (innerProtocol cfg) t (fun w => F w ∧ Clear t w) (TaskOwnedMcpProbe.start server)
      (fun started w => F w ∧ Opened t started.1 w) fun _ w => F w ∧ Clear t w := by
  refine triple_probeStart (M := fun h w => F w ∧ Opened t h w) above_inner
    (hF.and aside_clear) (fun _ => hF.and aside_opened) (fun _ _ hw => hw.2.1)
    (fun hnew hw => ⟨hcreated hnew hw.1, opened_created hnew hw.2⟩) (fun h => ?_) server
  -- the worker is settled once it was cancelled
  refine Triple.perform (hF.and aside_opened).stable (fun _ => (hF.and aside_clear).stable)
    (fun _ => (hF.and aside_clear).stable) (fun _ _ _ => trivial) ?_
  intro w choice r w' _ hw _ _ hexec
  have htalk : Talk (.cancelTask h) := trivial
  have hsame := exec_talk htalk hexec
  have haside : Aside (innerProtocol cfg) t (ClearBut t fun h' => h' = h) := aside_clear
  have hbut : ClearBut t (fun h' => h' = h) w' := haside.frame hsame hw.2.2
  cases choice <;> simp only [exec, Option.some.injEq, Prod.mk.injEq, reduceCtorEq] at hexec
  obtain ⟨rfl, rfl⟩ := hexec
  exact ⟨hF.frame hsame hw.1, hbut.close (by simp [settled])⟩

/-- A stop that was sent, or a worker that has terminated, settles the worker. -/
theorem triple_closeWorker (hF : Aside (innerProtocol cfg) t F) :
    Triple (innerProtocol cfg) t (fun w => F w ∧ Opened t h w) (TaskOwnedMcpProbe.stop h)
      (fun _ w => F w ∧ Clear t w) fun _ w => F w ∧ Clear t w := by
  have hclear : Aside (innerProtocol cfg) t fun w => F w ∧ Clear t w := hF.and aside_clear
  have hown : Aside (innerProtocol cfg) t fun w => (F w ∧ Clear t w) ∧ Mine t h w :=
    hclear.and (aside_mine above_inner)
  refine triple_probeStop above_inner hclear hclear (fun _ hw => hw) ?_
  refine Triple.bind (B := fun _ w => (F w ∧ Clear t w) ∧ Mine t h w) ?_ fun future => ?_
  · refine Triple.perform (hF.and aside_opened).stable (fun _ => hown.stable)
      (fun _ => hclear.stable) (fun _ _ _ => trivial) ?_
    intro w choice r w' _ hw _ _ hexec
    have htalk : Talk (.put h .stop) := trivial
    have hsame := exec_talk htalk hexec
    have hkept : F w' ∧ Opened t h w' := (hF.and aside_opened).frame hsame hw
    have hsettled : settled w' h = true ∧ ∃ future, r = .ok future := by
      rcases exec_put hexec with ⟨hended, rfl, rfl⟩ | ⟨x, -, hput, rfl, rfl⟩
      · exact ⟨by simp [settled, hended], _, rfl⟩
      · refine ⟨?_, _, rfl⟩
        unfold Worker.put at hput
        split at hput
        · simp at hput
        · obtain rfl := Option.some.inj hput
          simp [settled, stopQueued, World.setWorker]
    obtain ⟨hsettled, future, rfl⟩ := hsettled
    exact ⟨⟨hkept.1, hkept.2.2.close hsettled⟩, hkept.2.1⟩
  · cases future with
    | none =>
        refine Triple.bind (B := fun _ w => F w ∧ Clear t w) ?_ fun _ =>
          Triple.raise hclear.stable fun _ _ hw => hw
        exact Triple.weaken (triple_talk above_inner hclear trivial fun _ _ => trivial)
          (fun _ _ hw => hw.1) (fun _ _ _ hw => hw) fun _ _ _ hw => hw
    | some n =>
        exact Triple.weaken (triple_talk above_inner hown trivial fun _ hw => .inl hw.2)
          (fun _ _ hw => hw) (fun _ _ _ hw => hw.1) fun _ _ _ hw => hw.1

/-- The server has no handle, and the task is not a check. -/
def Launching (t : TaskId) (id : ServerId) (w : World) : Prop :=
  (Holds t id w ∧ w.registered id = none) ∧ Recorded t Bound w

theorem lasting_launching : Lasting (innerProtocol cfg) t (Launching t id) :=
  (lasting_vacant above_inner).and (lasting_recorded above_inner)

theorem aside_launching : Aside (innerProtocol cfg) t (Launching t id) :=
  (aside_vacant above_inner).and (aside_recorded above_inner)

/-- The task stores what its worker has answered. -/
def Storing (t : TaskId) (id : ServerId) (h : Handle) (w : World) : Prop :=
  Launching t id w ∧ Opened t h w

theorem lasting_storing : Lasting (innerProtocol cfg) t (Storing t id h) :=
  lasting_launching.and lasting_opened

theorem failing_stable {B E : World → Prop} {e : Exn} (hB : Stable (innerProtocol cfg) t B)
    (hE : Stable (innerProtocol cfg) t E) : Stable (innerProtocol cfg) t (Failing B E e) :=
  fun w w' hinv hw hrely hinv' =>
    ⟨fun he => hB w w' hinv (hw.1 he) hrely hinv', fun he => hE w w' hinv (hw.2 he) hrely hinv'⟩

/-- A careful step does not cancel a call that has an open worker. -/
theorem clear_of_cancelled {op : Op} {e : Exn} {poisons : Bool} {w : World} (hinv : Inv w)
    (hbound : Recorded t Bound w) (he : e.isException = false)
    (hcareful : Careful t (.manager op) (.manager (.fail e poisons)) w) : Clear t w := by
  intro h howner _
  have hchecks : checks t w = false := by
    unfold checks
    split
    next id hcall =>
      obtain ⟨record, hrec, hcheck⟩ := Option.map_eq_some_iff.mp hcall
      exact absurd hcheck (hbound record hrec id)
    next => rfl
  have hlt : h < w.nextWorker := by
    by_contra hle
    simp [(hinv.unborn h (Nat.le_of_not_lt hle)).1] at howner
  simp only [Careful, careful, he, hchecks, Bool.false_or, List.all_eq_true] at hcareful
  simpa [howner] using hcareful h (List.mem_range.mpr hlt)

theorem triple_storing {op : Op} (hop : Neutral op) :
    Triple (innerProtocol cfg) t (Storing t id h) (interpret carryOut (McpServers.await op))
      (fun _ => Storing t id h) (Failing (Storing t id h) (Tidy t id)) := by
  refine triple_manager (carryOut_neutral hop) (Triple.perform lasting_storing.stable
    (fun _ => lasting_storing.stable)
    (fun _ => failing_stable lasting_storing.stable lasting_tidy.stable)
    (fun _ _ _ => trivial) ?_)
  intro w choice r w' hinv hw _ hallowed hexec
  obtain ⟨hsame, hlock⟩ := exec_neutral hop hexec
  have hlasting : Lasting (innerProtocol cfg) t (Storing t id h) := lasting_storing
  have hkept : Storing t id h w' := hlasting.frame hsame hlock hw
  cases r with
  | ok reply => exact hkept
  | error e =>
      refine ⟨fun _ => hkept, fun he => ⟨hkept.1.1.1, ?_⟩⟩
      obtain ⟨c, m, rfl, hbase, -⟩ := exec_manager hexec
      cases c with
      | succeed tools =>
          obtain ⟨reply, hr, -⟩ := McpSystem.exec_succeed hbase
          simp at hr
      | fail e' poisons =>
          obtain ⟨-, hr, -⟩ := McpSystem.exec_fail hbase
          obtain rfl : e = e' := by simpa using hr
          have hclear := clear_of_cancelled hinv.1 hw.1.2 he hallowed.1
          exact hclear.congr hsame.worker hsame.owner hsame.abandoned

/-- What the storing itself raises is an `Exception`. -/
theorem triple_storingRaise {α : Type} {e : Exn} (he : e.isException = true)
    {Q : α → World → Prop} : Triple (innerProtocol cfg) t (Storing t id h)
      (interpret carryOut (throw e : McpServers.Program α)) Q
      (Failing (Storing t id h) (Tidy t id)) :=
  Triple.raise (failing_stable lasting_storing.stable lasting_tidy.stable)
    fun _ _ hw => ⟨fun _ => hw, fun hnot => by simp [he] at hnot⟩

theorem triple_storingTools (tools : List Json) :
    Triple (innerProtocol cfg) t (Storing t id h)
      (interpret carryOut (McpRuntime.toolModels id tools)) (fun _ => Storing t id h)
      (Failing (Storing t id h) (Tidy t id)) := by
  have hstable : Stable (innerProtocol cfg) t (Storing t id h) := lasting_storing.stable
  induction tools with
  | nil => exact Triple.done hstable fun _ _ hw => hw
  | cons tool tools ih =>
      refine Interpretation.triple_bind (B := fun _ => Storing t id h) ?_ fun row =>
        Interpretation.triple_bind ih fun rows => Triple.done hstable fun _ _ hw => hw
      refine Interpretation.triple_bind (B := fun _ => Storing t id h) ?_ fun name =>
        Triple.done hstable fun _ _ hw => hw
      unfold McpRuntime.toolName
      split
      · exact Triple.done hstable fun _ _ hw => hw
      · exact triple_storingRaise rfl

theorem triple_storeStart (tools : List Json) :
    Triple (innerProtocol cfg) t (Storing t id h) (interpret carryOut (storeStart id tools))
      (fun _ => Storing t id h) (Failing (Storing t id h) (Tidy t id)) := by
  have hstable : Stable (innerProtocol cfg) t (Storing t id h) := lasting_storing.stable
  refine Interpretation.triple_bind (B := fun _ => Storing t id h) ?_ fun _ => ?_
  · exact Interpretation.triple_bind (triple_storing trivial) fun _ =>
      Interpretation.triple_bind (triple_storingTools tools) fun rows => triple_storing trivial
  · refine Interpretation.triple_bind (B := fun _ => Storing t id h) ?_ fun _ =>
      Triple.done hstable fun _ _ hw => hw
    refine Interpretation.triple_bind (B := fun _ => Storing t id h) ?_ fun _ =>
      triple_storing trivial
    refine Interpretation.triple_bind (triple_storing trivial) fun row => ?_
    cases row with
    | none => exact triple_storingRaise rfl
    | some server => exact Triple.done hstable fun _ _ hw => hw

theorem tidy_looked {w : World} (hw : Tidy t id w) : Tidy t id (looked t id w) :=
  ⟨hw.1, hw.2.congr rfl rfl rfl⟩

theorem bound_looked {w : World} (hbound : Recorded t Bound w) :
    Recorded t Bound (looked t id w) :=
  hbound.map (Function.update_self ..) fun _ hrecord => hrecord

theorem triple_startTidy :
    Triple (innerProtocol cfg) t (fun w => Tidy t id w ∧ Recorded t Bound w)
      (interpret carryOut (McpRuntime.startLocked cfg id)) (fun _ => Tidy t id)
      fun _ => Tidy t id := by
  have hA : Lasting (innerProtocol cfg) t fun w => Tidy t id w ∧ Recorded t Bound w :=
    lasting_tidy.and (lasting_recorded above_inner)
  have hN : Lasting (innerProtocol cfg) t fun w => Launching t id w ∧ Clear t w :=
    lasting_launching.and lasting_clear
  refine triple_startLocked (M := fun h => Storing t id h) above_inner hA hN lasting_tidy
    lasting_tidy (fun _ hw => hw.1) (fun _ hw => ⟨hw.1.1.1, hw.2⟩) (fun _ hw => hw) ?_
    (triple_openWorker aside_launching ?_) (fun h tools => triple_storeStart tools)
    (fun h => triple_closeWorker aside_launching) fun h => ?_
  · refine Triple.weaken (triple_handleOf (S := fun _ => Tidy t id) above_inner hA.stable
      (fun _ => lasting_tidy.stable) hN.stable lasting_tidy.stable ?_ ?_) (fun _ _ hw => hw) ?_
      fun _ _ _ hw => hw
    · exact fun w h _ hw _ => tidy_looked hw.1
    · intro w _ hw hnone
      have htidy : Tidy t id (looked t id w) := tidy_looked hw.1
      exact ⟨⟨⟨hw.1.1, hnone⟩, bound_looked hw.2⟩, htidy.2⟩
    · rintro (h | _) w - hw
      · exact .inr ⟨rfl, hw⟩
      · exact .inl ⟨by simp, hw⟩
  · rintro w w' h hcreated ⟨⟨hholds, hnone⟩, hbound⟩
    refine ⟨?_, hbound.congr (congrFun hcreated.record t)⟩
    simpa only [Holds, World.registered, hcreated.manager] using And.intro hholds hnone
  · refine triple_setHandle above_inner lasting_storing.stable lasting_tidy.stable
      lasting_tidy.stable (fun _ hw => ⟨hw.1.1, hw.2.1⟩) ?_
    rintro w w' - hentered ⟨⟨⟨hholds, -⟩, -⟩, hopened⟩
    exact ⟨by simpa only [Holds, hentered.lock] using hholds, hopened.entered hentered⟩

theorem triple_stopTidy :
    Triple (innerProtocol cfg) t (fun w => Tidy t id w ∧ Recorded t Bound w)
      (interpret carryOut (McpRuntime.stopLocked cfg id))
      (fun _ w => Tidy t id w ∧ Recorded t Bound w) fun _ => Tidy t id := by
  let S : Handle → World → Prop := fun h w =>
    (Tidy t id w ∧ Recorded t Bound w) ∧ Published h w ∧ McpBodies.Kept t id h w
  have hA : Lasting (innerProtocol cfg) t fun w => Tidy t id w ∧ Recorded t Bound w :=
    lasting_tidy.and (lasting_recorded above_inner)
  have hS : ∀ h, Lasting (innerProtocol cfg) t (S h) := fun h =>
    hA.and ((lasting_published above_inner).and (lasting_kept above_inner))
  have haside : ∀ h, Aside (innerProtocol cfg) t (S h) := fun h =>
    (aside_tidy.and (aside_recorded above_inner)).and
      ((aside_published above_inner).and (aside_kept above_inner))
  refine triple_stopLocked (S := S) (D := fun h w => (Tidy t id w ∧ Recorded t Bound w) ∧
      McpBodies.Kept t id h w ∧ w.stopper h = some t) above_inner hA hS hA lasting_tidy
    (fun _ hw => hw.1) (fun _ _ hw => hw.1.1) (fun _ hw => hw.1) ?_ (fun h => ?_) fun h => ?_
  · refine triple_handleOf above_inner hA.stable (fun h => (hS h).stable) hA.stable
      lasting_tidy.stable ?_ ?_
    · exact fun w h hinv hw hreg => ⟨⟨tidy_looked hw.1, bound_looked hw.2⟩,
        hinv.1.registered id h hreg, .inl hreg⟩
    · exact fun w _ hw _ => ⟨tidy_looked hw.1, bound_looked hw.2⟩
  · exact Triple.weaken (triple_probeStopped above_inner (haside h) (aside_const True)
      (fun _ hw => .inr hw.2.1) fun _ _ _ _ => trivial) (fun _ _ hw => hw)
      (fun _ _ _ hw => ⟨hw.1.1, hw.1.2.2, hw.2.2⟩) fun _ _ _ hw => hw
  · refine triple_popHandle above_inner hA.stable hA.stable lasting_tidy.stable ?_
    rintro w w' hpopped ⟨⟨hholds, hclear⟩, hbound⟩
    refine ⟨⟨by simpa only [Holds, hpopped.lock] using hholds, ?_⟩,
      hbound.congr (congrFun hpopped.record t)⟩
    exact hclear.congr hpopped.worker hpopped.owner hpopped.abandoned

theorem triple_checkTidy :
    Triple (innerProtocol cfg) t (Tidy t id)
      (interpret carryOut (McpRuntime.checkLocked cfg id)) (fun _ => Tidy t id)
      fun _ => Tidy t id := by
  let S : Handle → World → Prop := fun h w => Tidy t id w ∧ Published h w
  have hS : ∀ h, Lasting (innerProtocol cfg) t (S h) := fun h =>
    lasting_tidy.and (lasting_published above_inner)
  have hM : ∀ h, Lasting (innerProtocol cfg) t fun w => Holds t id w ∧ Opened t h w := fun h =>
    (lasting_holds above_inner).and lasting_opened
  refine Triple.weaken (triple_checkLocked (S := S) (D := S)
    (M := fun h w => Holds t id w ∧ Opened t h w) (N := Tidy t id) above_inner lasting_tidy hS hS
    lasting_tidy hM lasting_tidy (fun _ hw => hw) (fun _ _ hw => hw.1) (fun _ _ hw => hw)
    (fun _ hw => hw) (fun _ _ hw => hw.2.1) ?_ (fun h => ?_)
    (triple_openWorker (aside_holds above_inner) ?_)
    (fun h => triple_closeWorker (aside_holds above_inner))) (fun _ _ hw => hw) ?_
    fun _ _ _ hw => hw
  · refine triple_handleOf above_inner lasting_tidy.stable (fun h => (hS h).stable)
      lasting_tidy.stable lasting_tidy.stable ?_ ?_
    · exact fun w h hinv hw hreg => ⟨tidy_looked hw, hinv.1.registered id h hreg⟩
    · exact fun w _ hw _ => tidy_looked hw
  · exact Triple.weaken (triple_send above_inner
      (aside_tidy.and (aside_published above_inner)) (aside_const True) (fun _ hw => .inr hw.2)
      (fun _ _ _ _ => trivial) .listTools) (fun _ _ hw => hw) (fun _ _ _ hw => hw.1)
      fun _ _ _ hw => hw
  · intro w w' h hcreated hholds
    simpa only [Holds, hcreated.manager] using hholds
  · rintro response w - (⟨-, hw⟩ | ⟨h, hw, -⟩)
    · exact hw
    · exact hw

end Bodies

section Calls

variable {cfg : Settings} {t : TaskId} {id : ServerId} {A : World → Prop}

theorem triple_lockedClear {p : McpServers.Program McpRuntime.McpLifecycleResponse}
    {B : World → Prop} (hA : Stable (innerProtocol cfg) t A)
    (hframe : ∀ {w w'}, SameRegistry w w' → A w → A w') (hAE : ∀ w, A w → Clear t w)
    (hB : Stable (innerProtocol cfg) t B) (hBE : ∀ w, B w → Tidy t id w)
    (hp : Triple (innerProtocol cfg) t (fun w => Holds t id w ∧ A w) (interpret carryOut p)
      (fun _ => B) fun _ => Tidy t id) :
    Triple (innerProtocol cfg) t A (interpret carryOut (McpRuntime.withLock id p))
      (fun _ => Clear t) fun _ => Clear t := by
  have hrelease : ∀ {X : World → Prop}, Stable (innerProtocol cfg) t X →
      (∀ w, X w → Tidy t id w) → Triple (innerProtocol cfg) t X
        (await (.manager (.release id))) (fun _ => Clear t) fun _ => Clear t := fun hX htidy =>
    triple_release above_inner hX clear_stable clear_stable (fun w hw => (htidy w hw).1)
      fun hreleased hw => (htidy _ hw).2.congr hreleased.worker hreleased.owner hreleased.abandoned
  exact triple_withLock above_inner hA hframe (fun _ => clear_stable) clear_stable hAE hp
    (fun _ => hrelease hB hBE) fun _ => hrelease lasting_tidy.stable fun _ hw => hw

/-- A call that has begun, with its own workers settled. -/
def Calling (t : TaskId) (call : ManagerCall) (w : World) : Prop :=
  Clear t w ∧ Recorded t (fun record => record.call = call) w

theorem lasting_calling {call : ManagerCall} : Lasting (innerProtocol cfg) t (Calling t call) :=
  lasting_clear.and (lasting_recorded above_inner)

theorem calling_frame {call : ManagerCall} {w w' : World} (hsame : SameRegistry w w')
    (hcalling : Calling t call w) : Calling t call w' :=
  ⟨hcalling.1.congr hsame.worker hsame.owner hsame.abandoned,
    hcalling.2.congr (congrFun hsame.record t)⟩

theorem bound_of_call {call : ManagerCall} {w : World} (hcall : ∀ id, call ≠ .check id)
    (hcalling : Calling t call w) : Recorded t Bound w := by
  intro record hrec id hcheck
  exact hcall id ((hcalling.2 record hrec).symm.trans hcheck)

theorem triple_answeringClear {p : McpServers.Program McpRuntime.McpLifecycleResponse}
    (hp : Triple (innerProtocol cfg) t A (interpret carryOut p) (fun _ => Clear t)
      fun _ => Clear t) :
    Triple (innerProtocol cfg) t A (answering p) (fun _ => Clear t) fun _ => Clear t :=
  Triple.bind hp fun _ => triple_returned above_inner clear_stable clear_stable clear_stable _
    fun hrewritten hw => hw.congr hrewritten.worker hrewritten.owner hrewritten.abandoned

theorem triple_bodyClear (call : ManagerCall) :
    Triple (innerProtocol cfg) t (Calling t call) (body cfg call) (fun _ => Clear t)
      fun _ => Clear t := by
  have hclear : ∀ w, Calling t call w → Clear t w := fun _ hw => hw.1
  have hbound : ∀ {id}, (∀ id, call ≠ .check id) → ∀ w, Holds t id w ∧ Calling t call w →
      Tidy t id w ∧ Recorded t Bound w := fun hcall w hw =>
    ⟨⟨hw.1, hw.2.1⟩, bound_of_call hcall hw.2⟩
  have hrecorded : ∀ {id}, Stable (innerProtocol cfg) t
      fun w => Tidy t id w ∧ Recorded t Bound w :=
    lasting_tidy.stable.and (recorded_stable above_inner)
  cases call with
  | start id =>
      refine triple_answeringClear (triple_enabled above_inner lasting_calling hclear
        (triple_lockedClear lasting_calling.stable calling_frame hclear lasting_tidy.stable
          (fun _ hw => hw) (Triple.weaken triple_startTidy ?_ (fun _ _ _ hw => hw)
          fun _ _ _ hw => hw)))
      exact fun w _ hw => hbound (by simp) w hw
  | stop id =>
      refine triple_answeringClear (triple_lockedClear lasting_calling.stable calling_frame hclear
        hrecorded (fun _ hw => hw.1) (Triple.weaken triple_stopTidy ?_ (fun _ _ _ hw => hw)
        fun _ _ _ hw => hw))
      exact fun w _ hw => hbound (by simp) w hw
  | restart id =>
      refine triple_answeringClear (triple_enabled above_inner lasting_calling hclear
        (triple_lockedClear lasting_calling.stable calling_frame hclear lasting_tidy.stable
          (fun _ hw => hw) (Triple.weaken (Interpretation.triple_bind triple_stopTidy
            fun _ => triple_startTidy) ?_ (fun _ _ _ hw => hw) fun _ _ _ hw => hw)))
      exact fun w _ hw => hbound (by simp) w hw
  | check id =>
      exact triple_answeringClear (triple_enabled above_inner lasting_calling hclear
        (triple_lockedClear lasting_calling.stable calling_frame hclear lasting_tidy.stable
          (fun _ hw => hw) (Triple.weaken triple_checkTidy (fun _ _ hw => ⟨hw.1, hw.2.1⟩)
          (fun _ _ _ hw => hw) fun _ _ _ hw => hw)))
  | shutdown =>
      refine Triple.bind (Triple.weaken (triple_shutdown above_inner lasting_clear aside_clear
        fun hpopped hw => hw.congr hpopped.worker hpopped.owner hpopped.abandoned)
        (fun w _ hw => hclear w hw) (fun _ _ _ hw => hw) fun _ _ _ hw => hw) fun _ => ?_
      exact triple_returned above_inner clear_stable clear_stable clear_stable none
        fun hrewritten hw => hw.congr hrewritten.worker hrewritten.owner hrewritten.abandoned

theorem safe_clear {p : TaskProgram Unit} (hp : Runs cfg p) {w : World}
    (hinv : (innerProtocol cfg).inv w) (hfresh : Fresh t w) :
    Safe (innerProtocol cfg) t (fun _ => Clear t) p w := by
  have hlift : ∀ {p : TaskProgram Unit}, Triple (innerProtocol cfg) t (Fresh t) p
      (fun _ => Clear t) (fun _ => Clear t) →
      Safe (innerProtocol cfg) t (fun _ => Clear t) p w := by
    intro p htriple
    refine Safe.mono ?_ (htriple w hinv hfresh)
    rintro (e | u) w' - hclear
    · exact hclear
    · exact hclear
  have hone : ∀ {op : TaskOp} {h : Handle}, op = .work h ∨ op = .interrupt h →
      Triple (innerProtocol cfg) t (Fresh t) (await op) (fun _ => Clear t) fun _ => Clear t := by
    intro op h hop
    refine Triple.perform (fresh_stable above_inner) (fun _ => clear_stable)
      (fun _ => clear_stable) (fun _ _ _ => trivial) ?_
    intro w choice r w' _ hw _ _ hexec
    have hclear : Clear t w' := by
      intro h' howner _
      rw [(exec_record hop hexec).2] at howner
      exact absurd howner (hw.1 h')
    cases r with
    | error e => exact hclear
    | ok reply => exact hclear
  cases hp with
  | call call =>
      refine hlift (Triple.bind (triple_began above_inner (fresh_stable above_inner)
        lasting_calling.stable clear_stable call (fun _ hw => hw.1) ?_)
        fun _ => triple_bodyClear call)
      rintro w w' hrewritten hw
      refine ⟨fun h howner _ => ?_, fun record hrec => ?_⟩
      · rw [hrewritten.owner] at howner
        exact absurd howner (hw.1 h)
      · obtain rfl := Option.some.inj (hrewritten.record.symm.trans hrec)
        rfl
  | work h =>
      have hop : TaskOp.work h = .work h ∨ TaskOp.work h = .interrupt h := .inl rfl
      exact hlift (hone hop)
  | interrupt h =>
      have hop : TaskOp.interrupt h = .work h ∨ TaskOp.interrupt h = .interrupt h := .inr rfl
      exact hlift (hone hop)

end Calls

section Runs

variable {cfg : Settings}

theorem lossless_initial (manager : McpSystem.World) : Lossless (World.initial manager) where
  starting _ _ := rfl
  abandoned _ _ := rfl
  cancelled h hrequested := by simp [World.initial] at hrequested
  ended h hended := by simp [World.initial, World.ended, Worker.done] at hended
  registered h howner := by simp [World.initial] at howner

theorem careful_invariant {c : McpTasks.Config} (hreach : Reachable cfg Careful c) :
    Invariant (innerProtocol cfg) Fresh (fun t _ => Clear t) c := by
  obtain ⟨manager, hsteps⟩ := hreach
  have hfresh : ∀ t, Fresh t (World.initial manager) := fun t =>
    ⟨fun h => by simp [World.initial], rfl⟩
  have hbase : Invariant (registryProtocol cfg Careful) Fresh Ends
      (.idle (World.initial manager)) := Invariant.idle (inv_initial manager) hfresh
  have hpre := hbase.steps_pre (fun t => fresh_stable above_registry)
    (fun t p hp w hinv hw => safe_runs above_registry hp hinv hw) hsteps
  have hinv : (innerProtocol cfg).inv (World.initial manager) :=
    ⟨inv_initial manager, lossless_initial manager⟩
  exact (Invariant.idle hinv hfresh).steps (fun t => fresh_stable above_inner)
    (fun t p hp w hinv hw => safe_clear hp hinv hw) hpre

/-- No call and no command is in flight. -/
structure Quiescent (c : McpTasks.Config) : Prop where
  tasks : ∀ t p, c.task t = some p → ∃ r, p = .leave r
  commands : ∀ h, c.shared.ended h = false → (c.shared.worker h).commands = []

/-- What the registry loses was stopped. -/
structure Stopping (w w' : World) : Prop where
  registered : ∀ id h, w.registered id = some h →
    w'.registered id = some h ∨ ∃ t, w'.stopper h = some t
  stopper : ∀ h t, w.stopper h = some t → w'.stopper h = some t

theorem Stopping.refl (w : World) : Stopping w w :=
  ⟨fun _ _ hreg => .inl hreg, fun _ _ hs => hs⟩

theorem Stopping.trans {w₁ w₂ w₃ : World} (h₁ : Stopping w₁ w₂) (h₂ : Stopping w₂ w₃) :
    Stopping w₁ w₃ := by
  refine ⟨fun id h hreg => ?_, fun h t hs => h₂.stopper h t (h₁.stopper h t hs)⟩
  rcases h₁.registered id h hreg with hkept | ⟨t, hs⟩
  · exact h₂.registered id h hkept
  · exact .inr ⟨t, h₂.stopper h t hs⟩

theorem stopping_steps {c c' : McpTasks.Config} (hreach : Reachable cfg unrestricted c)
    (hsteps : Steps (exec cfg) (Runs cfg) unrestricted c c') :
    Stopping c.shared c'.shared := by
  refine (reachable_invariant hreach).steps_relation (R := Stopping)
    (fun t => fresh_stable above_registry)
    (fun t p hp w hinv hw => safe_runs above_registry hp hinv hw) Stopping.refl
    (fun h₁ h₂ => h₁.trans h₂) ?_ hsteps
  intro t op choice w r w' hinv hpre _ hexec
  have hrely : Rely (t + 1) w w' :=
    (keeps_exec hinv hpre hexec).2 (t + 1) (Nat.succ_ne_self t)
  refine ⟨fun id h hreg => ?_, hrely.stopper⟩
  rcases hrely.registered id h hreg with hkept | ⟨t', -, hs⟩
  · exact .inl hkept
  · exact .inr ⟨t', hs⟩

/-- **Inner handles.** Where nothing is in flight after careful steps, every inner handle that was
started belongs to a live worker in the registry, or its inner stop was invoked. In every run, what
leaves the registry had its inner stop invoked. -/
theorem inner_handles_kept (cfg : Settings) :
    (∀ c, Reachable cfg Careful c → Quiescent c →
      ∀ h, (c.shared.worker h).innerStarted = true →
        (c.shared.ended h = false ∧ ∃ id, c.shared.registered id = some h) ∨
          (c.shared.worker h).stopInvoked = true) ∧
      ∀ c c', Reachable cfg unrestricted c →
        Steps (exec cfg) (Runs cfg) unrestricted c c' →
          ∀ id h, c.shared.registered id = some h →
            c'.shared.registered id = some h ∨ (c'.shared.worker h).stopInvoked = true := by
  refine ⟨fun c hreach hquiet h hinner => ?_, fun c c' hreach hsteps id h hreg => ?_⟩
  · have hinv := careful_invariant hreach
    obtain ⟨hbase, hlossless⟩ := hinv.shared
    have hended := hlossless.ended h
    cases hend : c.shared.ended h with
    | true => exact .inr (hended hend hinner)
    | false =>
        cases howner : c.shared.owner h with
        | nobody =>
            have hunborn : c.shared.nextWorker ≤ h := by
              by_contra hlt
              exact hbase.born h (Nat.lt_of_not_le hlt) howner
            simp [(hbase.unborn h hunborn).2.1] at hinner
        | registry =>
            rcases hlossless.registered h howner with hstop | hreg
            · exact .inr hstop
            · exact .inl ⟨rfl, hreg⟩
        | task t =>
            -- the task has ended, with its worker settled
            have hclear : Clear t c.shared := by
              cases htask : c.task t with
              | none => exact absurd howner ((hinv.fresh t htask).1 h)
              | some p =>
                  obtain ⟨r, rfl⟩ := hquiet.tasks t p htask
                  exact hinv.ended htask
            have hsettled := hclear h howner id
            simp only [settled, Bool.or_eq_true, hend, Bool.false_eq_true, or_false] at hsettled
            rcases hsettled with (hab | hstop) | hqueued
            · simp [hlossless.abandoned h hab] at hinner
            · exact .inr hstop
            · simp [stopQueued, hquiet.commands h hend] at hqueued
  · have hinv' := reachable_invariant (hreach.imp fun _ hinitial => hinitial.trans hsteps)
    rcases (stopping_steps hreach hsteps).registered id h hreg with hkept | ⟨t, hs⟩
    · exact .inl hkept
    · exact .inr (hinv'.shared.stopped h t hs).2

end Runs

section Schedules

/-- A start that times out when its inner start has just succeeded. -/
def lostStartSchedule (cfg : Settings) : List TaskMove :=
  .spawn 0 (run cfg (.start 0)) :: proceeding 0 1 ++ succeeding 0 7 ++ proceeding 0 1 ++
    working 1 0 (.ok []) ++ [.resume 0 (.interrupt (.timeout ""))] ++ proceeding 0 1 ++
    working 2 0 (.ok []) ++ proceeding 0 1 ++ succeeding 0 5

theorem lostStart_runs :
    ∀ p ∈ started (lostStartSchedule McpLocks.enabledRuntime), Runs McpLocks.enabledRuntime p := by
  have hstarted : started (lostStartSchedule McpLocks.enabledRuntime) =
      [run McpLocks.enabledRuntime (.start 0), await (.work 0), await (.work 0)] := rfl
  rw [hstarted]
  simp [Runs.call, Runs.work]

/-- Only the tasks of a schedule and the workers that it creates can be busy after it. -/
theorem quiescent_of_follow {allowed : TaskId → TaskOp → TaskChoice → World → Prop}
    [∀ t op choice w, Decidable (allowed t op choice w)] {cfg : Settings} {moves : List TaskMove}
    {c : McpTasks.Config} (hreach : Reachable cfg allowed c)
    (hc : follow (exec cfg) allowed (.idle (World.initial McpFailures.stoppedWorld)) moves =
      some c)
    (htasks : ∀ t ∈ moves.map Move.task, ∃ r, c.task t = some (.leave r))
    (hworkers : ∀ h < c.shared.nextWorker, c.shared.ended h = false →
      (c.shared.worker h).commands = []) : Quiescent c := by
  refine ⟨fun t p htask => ?_, fun h hlive => ?_⟩
  · by_cases ht : t ∈ moves.map Move.task
    · obtain ⟨r, hended⟩ := htasks t ht
      exact ⟨r, Option.some.inj (htask.symm.trans hended)⟩
    · rw [follow_task ht hc] at htask
      simp [Config.idle] at htask
  · by_cases hlt : h < c.shared.nextWorker
    · exact hworkers h hlt hlive
    · rw [((reachable_invariant hreach).shared.unborn h (Nat.le_of_not_lt hlt)).2.1]

/-- A started inner handle is neither in the registry nor stopped. -/
theorem inner_handle_lost : ∃ c : McpTasks.Config,
    Reachable McpLocks.enabledRuntime unrestricted c ∧ Quiescent c ∧
      (c.shared.worker 0).innerStarted = true ∧ (c.shared.worker 0).stopInvoked = false ∧
      c.shared.ended 0 = true ∧ ∀ id, c.shared.registered id = none := by
  have hrun : ∃ c : McpTasks.Config,
      follow (exec McpLocks.enabledRuntime) unrestricted
          (.idle (World.initial McpFailures.stoppedWorld))
          (lostStartSchedule McpLocks.enabledRuntime) = some c ∧
        (∃ e, c.task 0 = some (.leave (.error e))) ∧ c.task 1 = some (.leave (.ok ())) ∧
        c.task 2 = some (.leave (.ok ())) ∧ c.shared.nextWorker = 1 ∧
        (c.shared.worker 0).commands = [] ∧
        (c.shared.worker 0).innerStarted = true ∧ (c.shared.worker 0).stopInvoked = false ∧
        c.shared.ended 0 = true ∧ ∀ id, c.shared.registered id = none :=
    ⟨_, rfl, ⟨_, rfl⟩, rfl, rfl, rfl, rfl, rfl, rfl, rfl, fun _ => rfl⟩
  obtain ⟨c, hc, ⟨e, hfirst⟩, hsecond, hthird, hnext, hcommands, hfacts⟩ := hrun
  have hreach : Reachable McpLocks.enabledRuntime unrestricted c :=
    reachable_of_follow lostStart_runs hc
  refine ⟨c, hreach, quiescent_of_follow hreach hc ?_ ?_, hfacts⟩
  · have hmoves : (lostStartSchedule McpLocks.enabledRuntime).map Move.task =
        List.replicate 10 0 ++ [1, 1, 0, 0, 2, 2] ++ List.replicate 6 0 := rfl
    rw [hmoves]
    simpa using ⟨⟨_, hfirst⟩, ⟨_, hsecond⟩, ⟨_, hfirst⟩, ⟨_, hthird⟩, ⟨_, hfirst⟩⟩
  · rw [hnext]
    simpa using fun _ => hcommands

theorem inner_handles_kept_started : ∃ c : McpTasks.Config,
    c.shared.registered 0 = some 0 ∧ (c.shared.worker 0).innerStarted = true ∧
      ((c.shared.ended 0 = false ∧ ∃ id, c.shared.registered id = some 0) ∨
        (c.shared.worker 0).stopInvoked = true) := by
  have hrun : ∃ c : McpTasks.Config,
      follow (exec McpLocks.enabledRuntime) Careful
          (.idle (World.initial McpFailures.stoppedWorld))
          (startSchedule McpLocks.enabledRuntime 0 1) = some c ∧
        c.task 0 = some (.leave (.ok ())) ∧ c.task 1 = some (.leave (.ok ())) ∧
        c.shared.nextWorker = 1 ∧ (c.shared.worker 0).commands = [] ∧
        c.shared.registered 0 = some 0 ∧ (c.shared.worker 0).innerStarted = true :=
    ⟨_, rfl, rfl, rfl, rfl, rfl, rfl, rfl⟩
  obtain ⟨c, hc, hfirst, hsecond, hnext, hcommands, hreg, hinner⟩ := hrun
  have hstarted : started (startSchedule McpLocks.enabledRuntime 0 1) =
      [run McpLocks.enabledRuntime (.start 0), await (.work 0)] := rfl
  have hreach : Reachable McpLocks.enabledRuntime Careful c := by
    refine reachable_of_follow ?_ hc
    rw [hstarted]
    simp [Runs.call, Runs.work]
  have hquiet : Quiescent c := by
    refine quiescent_of_follow hreach hc ?_ ?_
    · have hmoves : (startSchedule McpLocks.enabledRuntime 0 1).map Move.task =
          List.replicate 10 0 ++ [1, 1] ++ List.replicate 12 0 := rfl
      rw [hmoves]
      simpa using ⟨⟨_, hfirst⟩, ⟨_, hsecond⟩, ⟨_, hfirst⟩⟩
    · rw [hnext]
      simpa using fun _ => hcommands
  exact ⟨c, hreg, hinner, (inner_handles_kept McpLocks.enabledRuntime).1 c hreach hquiet 0 hinner⟩

end Schedules

end ChangeQuality.McpInnerRuns
