import ChangeQuality.McpReturns

/-!
Registered handles whose worker has terminated. No stop takes such a handle out of the registry, so
it stays there for good.
-/

namespace ChangeQuality.McpTerminated

open ChangeQuality.Values
open ChangeQuality.McpServers
open ChangeQuality.McpRuntime (Settings)
open ChangeQuality.McpTasks
open ChangeQuality.McpRegistry
open ChangeQuality.McpCalls
open ChangeQuality.McpBodies
open ChangeQuality.McpReturns
open ChangeQuality.Coroutine
open ChangeQuality.Interference
open ChangeQuality.Interpretation
open ChangeQuality.McpTasks (await)

variable {cfg : Settings} {t : TaskId} {id : ServerId} {h : Handle} {s : Option TaskId}

/-- The steps of all tasks but one. -/
def Without (s : Option TaskId) (t : TaskId) (_ : TaskOp) (_ : TaskChoice) (_ : World) : Prop :=
  s ≠ some t

/-- The registry has the handle of a worker that has terminated, and `s` has stopped it. -/
structure Stuck (id : ServerId) (h : Handle) (s : Option TaskId) (w : World) : Prop where
  registered : w.registered id = some h
  ended : w.ended h = true
  stopper : w.stopper h = s

/-- Only the call that has stopped the worker could take its handle out of the registry. -/
theorem Stuck.step {op : TaskOp} {choice : TaskChoice} {w w' : World}
    {r : Except Exn (TaskReply op)} (hstuck : Stuck id h s w) (hne : s ≠ some t) (hinv : Inv w)
    (hpre : Pre t op w) (hexec : exec cfg t op choice w = some (r, w')) : Stuck id h s w' := by
  obtain ⟨-, hothers⟩ := keeps_exec hinv hpre hexec
  have hrely : Rely (t + 1) w w' := hothers (t + 1) (Nat.succ_ne_self t)
  have hstopper : w'.stopper h = s := (hrely.closed h hstuck.ended).trans hstuck.stopper
  refine ⟨?_, hrely.ended h hstuck.ended, hstopper⟩
  cases s with
  | none =>
      rcases hrely.registered id h hstuck.registered with hkept | ⟨t', -, hs⟩
      · exact hkept
      · simp [hstopper] at hs
  | some s =>
      have hother : s ≠ t := fun heq => hne (congrArg some heq)
      rcases (hothers s hother).registered id h hstuck.registered with hkept | ⟨t', hne', hs⟩
      · exact hkept
      · exact absurd (Option.some.inj (hs.symm.trans hstopper)) hne'

/-- The discipline of the registry where one of its handles is stuck. -/
def stuckProtocol (cfg : Settings) (id : ServerId) (h : Handle) (s : Option TaskId) :
    Protocol (exec cfg)
      fun t op choice w => Without s t op choice w ∧ (registryProtocol cfg (Without s)).pre t op w :=
  (registryProtocol cfg (Without s)).extend (Stuck id h s) (fun _ _ _ => True) (fun _ _ _ => True)
    (fun _ _ => trivial) (fun _ _ => trivial)
    fun hinv hstuck hpre _ hallowed hexec _ =>
      ⟨hstuck.step hallowed hinv hpre hexec, fun _ _ _ => trivial⟩

theorem above_stuck : Above (stuckProtocol cfg id h s) :=
  ⟨fun _ hw => hw.1, fun _ _ _ hw => hw.1, fun _ _ _ _ _ => trivial⟩

/-- A stop finds the handle, and its worker does not accept the command. -/
theorem triple_stopStuck :
    Triple (stuckProtocol cfg id h s) t (Holds t id)
      (interpret carryOut (McpRuntime.stopLocked cfg id)) (fun _ _ => False)
      fun _ => Holds t id := by
  let S : Handle → World → Prop := fun h' w => (Holds t id w ∧ Published h' w) ∧ h' = h
  have hR : Above (stuckProtocol cfg id h s) := above_stuck
  have hS : ∀ h', Lasting (stuckProtocol cfg id h s) t (S h') := fun _ =>
    ((lasting_holds hR).and (lasting_published hR)).and (lasting_const _)
  refine triple_stopLocked (S := S) (D := fun _ _ => False) hR (lasting_holds hR) hS
    (lasting_const False) (lasting_holds hR) (fun _ hw => hw) (fun _ _ hw => hw.1.1)
    (fun _ hw => hw.elim) ?_ (fun h' => ?_) fun h' => Triple.of_false fun _ _ hw => hw
  · refine triple_handleOf hR (holds_stable hR) (fun h' => (hS h').stable) (Stable.const False)
      (holds_stable hR) ?_ ?_
    · intro w h' hinv hholds hreg
      obtain rfl : h' = h := Option.some.inj (hreg.symm.trans hinv.2.registered)
      exact ⟨⟨hholds, hinv.1.registered id h' hreg⟩, rfl⟩
    · intro w hinv _ hnone
      simp [hinv.2.registered] at hnone
  · have haside : Aside (stuckProtocol cfg id h s) t (S h') :=
      ((aside_holds hR).and (aside_published hR)).and (aside_const _)
    refine Triple.weaken (triple_probeStopped (F := fun _ => False) hR haside (aside_const False)
      (fun _ hw => .inr hw.1.2) ?_) (fun _ _ hw => hw) (fun _ _ _ hw => hw.2.1)
      fun _ _ _ hw => hw
    rintro w hinv ⟨-, rfl⟩ hlive
    simp [hinv.2.ended] at hlive

/-- A stop and a restart of the server raise. -/
theorem triple_runStuck {call : ManagerCall} (hcall : call = .stop id ∨ call = .restart id) :
    Triple (stuckProtocol cfg id h s) t (fun _ => True) (run cfg call) (fun _ _ => False)
      fun _ _ => True := by
  have hR : Above (stuckProtocol cfg id h s) := above_stuck
  have hbegan : Triple (stuckProtocol cfg id h s) t (fun _ => True) (await (.began call))
      (fun _ _ => True) fun _ _ => True :=
    Triple.perform (Stable.const True) (fun _ => Stable.const True) (fun _ => Stable.const True)
      (fun _ _ _ => trivial) fun _ _ r _ _ _ _ _ _ => by cases r <;> trivial
  have hlocked : ∀ {p : McpServers.Program McpRuntime.McpLifecycleResponse},
      Triple (stuckProtocol cfg id h s) t (Holds t id) (interpret carryOut p) (fun _ _ => False)
        (fun _ => Holds t id) →
      Triple (stuckProtocol cfg id h s) t (fun _ => True)
        (interpret carryOut (McpRuntime.withLock id p)) (fun _ _ => False) fun _ _ => True := by
    intro p hp
    refine triple_withLock hR (B := fun _ _ => False) (F := fun _ => Holds t id)
      (Stable.const True) (fun _ _ => trivial) (fun _ => Stable.const False)
      (Stable.const True) (fun _ _ => trivial) (Triple.weaken hp (fun _ _ hw => hw.1)
        (fun _ _ _ hw => hw) fun _ _ _ hw => hw) (fun _ => Triple.of_false fun _ _ hw => hw)
      fun _ => triple_release hR (holds_stable hR) (Stable.const True) (Stable.const True)
        (fun _ hw => hw) fun _ _ => trivial
  have hanswer : ∀ {p : McpServers.Program McpRuntime.McpLifecycleResponse},
      Triple (stuckProtocol cfg id h s) t (fun _ => True) (interpret carryOut p)
        (fun _ _ => False) (fun _ _ => True) →
      Triple (stuckProtocol cfg id h s) t (fun _ => True) (answering p) (fun _ _ => False)
        fun _ _ => True := fun hp =>
    Triple.bind hp fun _ => Triple.of_false fun _ _ hw => hw
  refine Triple.bind hbegan fun _ => ?_
  rcases hcall with rfl | rfl
  · exact hanswer (hlocked triple_stopStuck)
  · exact hanswer (triple_enabled hR (lasting_const True) (fun _ _ => trivial)
      (hlocked (Interpretation.triple_bind triple_stopStuck fun _ =>
        Triple.of_false fun _ _ hw => hw)))

/-- The tasks that have ended take no step. -/
theorem steps_without {c c' : McpTasks.Config}
    (hinv : Invariant (registryProtocol cfg unrestricted) Fresh Ends c)
    (hidle : ∀ t, s = some t → ∃ r, c.task t = some (.leave r))
    (hsteps : Steps (exec cfg) (Runs cfg) unrestricted c c') :
    Steps (exec cfg) (Runs cfg) (fun t op choice w =>
      Without s t op choice w ∧ (registryProtocol cfg (Without s)).pre t op w) c c' := by
  have hpre := hinv.steps_pre (fun t => fresh_stable above_registry)
    (fun t p hp w hw hfresh => safe_runs above_registry hp hw hfresh) hsteps
  have hboth : Steps (exec cfg) (Runs cfg) (fun t op choice w =>
      Without s t op choice w ∧ (registryProtocol cfg (Without s)).pre t op w) c c' ∧
      ∀ t, s = some t → ∃ r, c'.task t = some (.leave r) := by
    clear hsteps
    induction hpre with
    | refl => exact ⟨.refl, hidle⟩
    | @tail mid c'' _ hstep ih =>
        obtain ⟨hsteps, hidle⟩ := ih
        cases hstep with
        | @spawn t p htask hp =>
            refine ⟨hsteps.tail (.spawn htask hp), fun t' hs => ?_⟩
            obtain ⟨r, hended⟩ := hidle t' hs
            have hne : t' ≠ t := fun heq => by simp [heq, htask] at hended
            exact ⟨r, by simpa only [Function.update_of_ne hne] using hended⟩
        | @resume t op k choice r w htask hallowed hexec =>
            have hother : ∀ t', s = some t' → t' ≠ t := by
              rintro t' hs rfl
              obtain ⟨r, hended⟩ := hidle t' hs
              cases r <;> simp [Program.leave, htask] at hended
            refine ⟨hsteps.tail (.resume htask ⟨fun hs => hother t hs rfl, hallowed.2⟩ hexec),
              fun t' hs => ?_⟩
            obtain ⟨r, hended⟩ := hidle t' hs
            exact ⟨r, by simpa only [Function.update_of_ne (hother t' hs)] using hended⟩
  exact hboth.1

/-- The call that has stopped the worker of the handle, if there was one, has ended. -/
def StopperEnded (h : Handle) (c : McpTasks.Config) : Prop :=
  ∀ t, c.shared.stopper h = some t → ∃ r, c.task t = some (.leave r)

/-- A task that is about to stop or to restart the server. -/
def Stops (cfg : Settings) (id : ServerId) (c : McpTasks.Config) (t : TaskId) : Prop :=
  ∃ call, (call = .stop id ∨ call = .restart id) ∧ c.task t = some (run cfg call)

/-- From then on the handle is registered in every run, and no stop of the server returns. -/
theorem stuck_forever {c c' : McpTasks.Config} (hreach : Reachable cfg unrestricted c)
    (hreg : c.shared.registered id = some h) (hended : c.shared.ended h = true)
    (hstopper : StopperEnded h c) (hsteps : Steps (exec cfg) (Runs cfg) unrestricted c c') :
    c'.shared.registered id = some h ∧
      ∀ t, Stops cfg id c t → c'.task t ≠ some (.leave (.ok ())) := by
  have hbase := reachable_invariant hreach
  have hidle : ∀ {t w} (p : TaskProgram Unit), ¬ Stops cfg id c t →
      Safe (stuckProtocol cfg id h (c.shared.stopper h)) t
        (fun r _ => Stops cfg id c t → r ≠ .ok ()) p w := fun p hnot =>
    Safe.mono (fun _ _ _ _ hstops => absurd hstops hnot) (Safe.of_pre (fun _ _ => trivial) p _)
  have hstart : Invariant (stuckProtocol cfg id h (c.shared.stopper h))
      (fun t _ => ¬ Stops cfg id c t) (fun t r _ => Stops cfg id c t → r ≠ .ok ()) c := by
    refine ⟨⟨hbase.shared, hreg, hended, rfl⟩, ?_, fun t p htask => ?_⟩
    · rintro t hnone ⟨call, -, htask⟩
      simp [hnone] at htask
    · by_cases hstops : Stops cfg id c t
      · obtain ⟨call, hcall, hrun⟩ := hstops
        obtain rfl : p = run cfg call := Option.some.inj (htask.symm.trans hrun)
        refine Safe.mono ?_ (triple_runStuck hcall c.shared ⟨hbase.shared, hreg, hended, rfl⟩
          trivial)
        rintro (e | u) w - hw
        · simp
        · exact hw.elim
      · exact hidle p hstops
  have hend := hstart.steps (fun t => Stable.const _) (fun t p _ w _ hnot => hidle p hnot)
    (steps_without hbase hstopper hsteps)
  exact ⟨hend.shared.2.registered, fun t hstops htask => hend.ended htask hstops rfl⟩

/-- **Terminated workers.** A stop or a restart that finds in the registry the handle of a worker
that has terminated does not return. Unless the call that has stopped the worker is about to take
the handle out, the handle stays registered in every run, and no stop or restart of the server ever
returns. -/
theorem terminated_never_stopped {c : McpTasks.Config}
    (hreach : Reachable cfg unrestricted c) :
    (∀ t record, c.shared.record t = some record →
      (∃ id, record.call = .stop id ∨ record.call = .restart id) → record.foundEnded = true →
        c.task t ≠ some (.leave (.ok ()))) ∧
      ∀ id h, c.shared.registered id = some h → c.shared.ended h = true → StopperEnded h c →
        ∀ c', Steps (exec cfg) (Runs cfg) unrestricted c c' →
          c'.shared.registered id = some h ∧
            ∀ t, Stops cfg id c t → c'.task t ≠ some (.leave (.ok ())) := by
  refine ⟨fun t record hrec hcall hfound htask => ?_, fun id h hreg hended hstopper c' hsteps =>
    stuck_forever hreach hreg hended hstopper hsteps⟩
  have hreturned := (reachable_invariant hreach).ended htask rfl record hrec
  obtain ⟨id, hcall | hcall⟩ := hcall
  · simp [Returned, hcall, hfound] at hreturned
  · simp [Returned, hcall, hfound] at hreturned

section Schedules

/-- A stop that times out while the worker stops its inner handle, which then succeeds. -/
def lateStopSchedule (cfg : Settings) : List TaskMove :=
  .spawn 2 (run cfg (.stop 0)) :: proceeding 2 1 ++ succeeding 2 7 ++ proceeding 2 1 ++
    working 3 0 (.ok []) ++ [.resume 2 (.interrupt (.timeout ""))] ++ proceeding 2 1 ++
    succeeding 2 5 ++ working 4 0 (.ok [])

/-- A stop over a healthy repository. -/
def secondStopSchedule (cfg : Settings) : List TaskMove :=
  .spawn 5 (run cfg (.stop 0)) :: proceeding 5 1 ++ succeeding 5 7 ++ proceeding 5 4 ++
    succeeding 5 5

theorem lateStop_runs : ∀ p ∈ started (startSchedule McpLocks.enabledRuntime 0 1 ++
    lateStopSchedule McpLocks.enabledRuntime), Runs McpLocks.enabledRuntime p := by
  have hstarted : started (startSchedule McpLocks.enabledRuntime 0 1 ++
      lateStopSchedule McpLocks.enabledRuntime) =
      [run McpLocks.enabledRuntime (.start 0), await (.work 0),
        run McpLocks.enabledRuntime (.stop 0), await (.work 0), await (.work 0)] := rfl
  rw [hstarted]
  simp [Runs.call, Runs.work]

/-- A server whose worker has terminated after a stop had timed out cannot be stopped. -/
theorem stop_fails_terminated : ∃ c c' : McpTasks.Config,
    Reachable McpLocks.enabledRuntime unrestricted c ∧
      c.shared.registered 0 = some 0 ∧ c.shared.ended 0 = true ∧ c.shared.stopper 0 = none ∧
      follow (exec McpLocks.enabledRuntime) unrestricted c
        (secondStopSchedule McpLocks.enabledRuntime) = some c' ∧
      (∃ e, c'.task 5 = some (.leave (.error e))) ∧ c'.shared.registered 0 = some 0 := by
  have hrun : ∃ c c' : McpTasks.Config,
      follow (exec McpLocks.enabledRuntime) unrestricted
          (.idle (World.initial McpFailures.stoppedWorld))
          (startSchedule McpLocks.enabledRuntime 0 1 ++
            lateStopSchedule McpLocks.enabledRuntime) = some c ∧
        c.shared.registered 0 = some 0 ∧ c.shared.ended 0 = true ∧ c.shared.stopper 0 = none ∧
        follow (exec McpLocks.enabledRuntime) unrestricted c
          (secondStopSchedule McpLocks.enabledRuntime) = some c' ∧
        (∃ e, c'.task 5 = some (.leave (.error e))) ∧ c'.shared.registered 0 = some 0 :=
    ⟨_, _, rfl, rfl, rfl, rfl, rfl, ⟨_, rfl⟩, rfl⟩
  obtain ⟨c, c', hc, hfacts⟩ := hrun
  exact ⟨c, c', reachable_of_follow lateStop_runs hc, hfacts⟩

theorem terminated_never_stopped_late : ∃ c : McpTasks.Config,
    c.shared.ended 0 = true ∧
      ∀ c', Steps (exec McpLocks.enabledRuntime) (Runs McpLocks.enabledRuntime) unrestricted c c' →
        c'.shared.registered 0 = some 0 ∧
          ∀ t, Stops McpLocks.enabledRuntime 0 c t → c'.task t ≠ some (.leave (.ok ())) := by
  have hrun : ∃ c : McpTasks.Config,
      follow (exec McpLocks.enabledRuntime) unrestricted
          (.idle (World.initial McpFailures.stoppedWorld))
          (startSchedule McpLocks.enabledRuntime 0 1 ++
            lateStopSchedule McpLocks.enabledRuntime) = some c ∧
        c.shared.registered 0 = some 0 ∧ c.shared.ended 0 = true ∧ c.shared.stopper 0 = none :=
    ⟨_, rfl, rfl, rfl, rfl⟩
  obtain ⟨c, hc, hreg, hended, hnone⟩ := hrun
  obtain ⟨-, hforever⟩ := terminated_never_stopped (reachable_of_follow lateStop_runs hc)
  exact ⟨c, hended, hforever 0 0 hreg hended fun t hs => by simp [hnone] at hs⟩

end Schedules

end ChangeQuality.McpTerminated
