import ChangeQuality.McpReturns

/-!
The inner handles of the workers: the steps on which one is lost, and what all other steps keep.
-/

namespace ChangeQuality.McpInnerHandles

open ChangeQuality.Values
open ChangeQuality.McpServers
open ChangeQuality.McpRuntime (Settings)
open ChangeQuality.McpWorkers
open ChangeQuality.McpTasks
open ChangeQuality.McpWorkerSteps
open ChangeQuality.McpRegistry
open ChangeQuality.McpCalls
open ChangeQuality.McpBodies
open ChangeQuality.McpReturns
open ChangeQuality.Coroutine
open ChangeQuality.Interference
open ChangeQuality.Interpretation
open ChangeQuality.McpTasks (await)

/-- A stop is among the commands that the worker has not taken. -/
def stopQueued (x : Worker) : Bool :=
  x.commands.any fun command => decide (command.name = .stop)

/-- The worker needs nobody any more: it was cancelled, it has terminated, or a stop has reached
it. -/
def settled (w : World) (h : Handle) : Bool :=
  w.abandoned h || w.ended h || (w.worker h).stopInvoked || stopQueued (w.worker h)

def isStarting : Phase → Bool
  | .starting => true
  | _ => false

def isListing : Phase → Bool
  | .listing _ => true
  | _ => false

/-- The call of the task is a check, which stops its worker on every exit. -/
def checks (t : TaskId) (w : World) : Bool :=
  match (w.record t).map CallRecord.call with
  | some (.check _) => true
  | _ => false

/-- The steps on which no inner handle is lost. -/
def careful (t : TaskId) (w : World) : TaskOp → TaskChoice → Bool
  -- a start is not interrupted once the inner start has succeeded
  | .cancelTask h, _ => !(w.worker h).innerStarted
  -- an inner start that was given up does not succeed
  | .work h, .inner (.ok _) => !(isStarting (w.worker h).phase && w.abandoned h)
  -- before the inner stop, the inner `list_tools` raises nothing but an `Exception`
  | .work h, .inner (.error e) =>
      !isListing (w.worker h).phase || e.isException || (w.worker h).stopInvoked
  -- a call is not cancelled between the start of its worker and the registration
  | .manager _, .manager (.fail e _) =>
      e.isException || checks t w ||
        (List.range w.nextWorker).all fun h => !decide (w.owner h = .task t) || settled w h
  | _, _ => true

def Careful (t : TaskId) (op : TaskOp) (choice : TaskChoice) (w : World) : Prop :=
  careful t w op choice = true

instance (t : TaskId) (op : TaskOp) (choice : TaskChoice) (w : World) :
    Decidable (Careful t op choice w) :=
  inferInstanceAs (Decidable (_ = _))

section Workers

variable {x y : Worker} {outcome : Except Exn (List Json)}

/-- What a step of a worker leaves of what the worker has done. -/
structure Worked (x : Worker) (outcome : Except Exn (List Json)) (y : Worker) : Prop where
  phase : y.phase ≠ .starting
  innerStarted : y.innerStarted = true → x.innerStarted = true ∨
    x.phase = .starting ∧ y.done = false ∧ ∃ tools, outcome = .ok tools
  stopInvoked : x.stopInvoked = true → y.stopInvoked = true
  cancelRequested : y.cancelRequested = true → x.cancelRequested = true
  queued : stopQueued x = true → stopQueued y = true ∨ y.stopInvoked = true
  /-- The ways in which a worker ends. -/
  done : y.done = true → x.phase = .starting ∨ x.cancelRequested = true ∨ y.stopInvoked = true ∨
    isListing x.phase = true ∧ ∃ e, outcome = .error e ∧ e.isException = false

/-- The loop goes on. -/
theorem next_worked (x : Worker) :
    x.next.phase ≠ .starting ∧ x.next.done = false ∧ x.next.innerStarted = x.innerStarted ∧
      (x.stopInvoked = true → x.next.stopInvoked = true) ∧
      x.next.cancelRequested = x.cancelRequested ∧
      (stopQueued x = true → stopQueued x.next = true ∨ x.next.stopInvoked = true) := by
  rcases next_cases x with ⟨hcommands, heq⟩ | ⟨future, commands, hcommands, heq⟩ |
    ⟨future, commands, hcommands, heq⟩
  · rw [heq]
    exact ⟨by simp, rfl, rfl, fun h => h, rfl, fun h => .inl h⟩
  · rw [heq]
    refine ⟨by simp, rfl, rfl, fun h => h, rfl, fun h => .inl ?_⟩
    simpa [stopQueued, hcommands] using h
  · rw [heq]
    exact ⟨by simp, rfl, rfl, fun _ => rfl, rfl, fun _ => .inr rfl⟩

theorem worked_next {z : Worker} (hstarted : z.innerStarted = true → x.innerStarted = true ∨
      x.phase = .starting ∧ ∃ tools, outcome = .ok tools)
    (hstop : z.stopInvoked = x.stopInvoked)
    (hcancel : z.cancelRequested = true → x.cancelRequested = true)
    (hcommands : z.commands = x.commands) : Worked x outcome z.next := by
  obtain ⟨hphase, hdone, hinner, hinvoked, hrequested, hqueued⟩ := next_worked z
  refine ⟨hphase, fun h => ?_, fun h => hinvoked (hstop.trans h), fun h => hcancel (hrequested ▸ h),
    fun h => hqueued (by simpa only [stopQueued, hcommands] using h), by simp [hdone]⟩
  exact (hstarted (hinner ▸ h)).imp_right fun ⟨hx, htools⟩ => ⟨hx, hdone, htools⟩

/-- A worker that ends keeps what it has done. -/
theorem worked_ended {z : Worker} {e : Option Exn} (hphase : z.phase = .ended e)
    (hinner : z.innerStarted = x.innerStarted) (hstop : z.stopInvoked = x.stopInvoked)
    (hcancel : z.cancelRequested = true → x.cancelRequested = true)
    (hcommands : z.commands = x.commands)
    (hdone : x.phase = .starting ∨ x.cancelRequested = true ∨ x.stopInvoked = true ∨
      isListing x.phase = true ∧ ∃ e, outcome = .error e ∧ e.isException = false) :
    Worked x outcome z := by
  refine ⟨by simp [hphase], fun h => .inl (hinner ▸ h), fun h => hstop.trans h, hcancel,
    fun h => .inl (by simpa only [stopQueued, hcommands] using h), fun _ => ?_⟩
  rw [hstop]
  exact hdone

theorem worked_refuse {n : Nat} {e : Exn}
    (hdone : e.isException = false → x.stopInvoked = true ∨ isListing x.phase = true) :
    Worked x (.error e) ({ x with cancelRequested := false }.refuse n e) := by
  unfold Worker.refuse
  dsimp only
  split
  · exact worked_next (fun h => .inl h) rfl (by simp [Worker.answer, Worker.modifyReply]) rfl
  next he =>
    refine worked_ended rfl rfl rfl (by simp [Worker.crash, Worker.answer, Worker.modifyReply]) rfl
      ?_
    rcases hdone (by simpa using he) with hstop | hlisting
    · exact .inr (.inr (.inl hstop))
    · exact .inr (.inr (.inr ⟨hlisting, e, rfl, by simpa using he⟩))

theorem work_worked (hsound : Sound x) (hstep : WorkStep x outcome y) : Worked x outcome y := by
  cases hstep with
  | @launched tools hphase =>
      exact worked_next (fun _ => .inr ⟨hphase, tools, rfl⟩) rfl (by simp) rfl
  | launchFailed hphase => exact worked_ended rfl rfl rfl (fun h => h) rfl (.inl hphase)
  | cancelled hphase hcancel =>
      exact worked_ended rfl rfl rfl (fun h => h) rfl (.inr (.inl hcancel))
  | taken hphase hcancel hcommands => exact worked_next (fun h => .inl h) rfl (fun h => h) rfl
  | listed hphase =>
      exact worked_next (fun h => .inl h) rfl (by simp [Worker.answer, Worker.modifyReply]) rfl
  | listFailed hphase => exact worked_refuse fun _ => .inr (by simp [hphase, isListing])
  | @stopped n tools hphase =>
      exact worked_ended rfl rfl rfl (fun h => h) rfl
        (.inr (.inr (.inl (hsound.stopping n hphase))))
  | @stopFailed n e hphase => exact worked_refuse fun _ => .inl (hsound.stopping n hphase)

end Workers

section Steps

variable {cfg : Settings} {t : TaskId} {op : TaskOp} {choice : TaskChoice} {w w' : World}

/-- What a step does to the workers: one of them takes a step, or nothing but a wait ends, a command
is put or a worker is cancelled. -/
structure Workers (op : TaskOp) (choice : TaskChoice) (w w' : World) : Prop where
  worker : ∀ h, (∃ outcome, op = .work h ∧ choice = .inner outcome ∧
      WorkStep (w.worker h) outcome (w'.worker h)) ∨
    Calm (w.worker h) (w'.worker h) ∧ ((w'.worker h).cancelRequested = true →
      (w.worker h).cancelRequested = true ∨ w'.abandoned h = true)
  cancels : ∀ h, w'.abandoned h = true → w.abandoned h = true ∨ op = .cancelTask h
  abandoned : ∀ h, w.abandoned h = true → w'.abandoned h = true

theorem workers_same (hworker : w'.worker = w.worker) (habandoned : w'.abandoned = w.abandoned) :
    Workers op choice w w' := by
  refine ⟨fun h => .inr ?_, fun h hab => .inl (habandoned ▸ hab), fun h hab => habandoned ▸ hab⟩
  rw [hworker]
  exact ⟨Calm.refl _, fun hrequested => .inl hrequested⟩

theorem workers_setWorker {h : Handle} {x : Worker} (hcalm : Calm (w.worker h) x)
    (hworker : w'.worker = Function.update w.worker h x)
    (hcancels : ∀ h, w'.abandoned h = true → w.abandoned h = true ∨ op = .cancelTask h)
    (habandoned : ∀ h, w.abandoned h = true → w'.abandoned h = true)
    (hrequested : x.cancelRequested = true →
      (w.worker h).cancelRequested = true ∨ w'.abandoned h = true) :
    Workers op choice w w' := by
  refine ⟨fun h' => .inr ?_, hcancels, habandoned⟩
  rw [hworker]
  by_cases hh : h' = h
  · subst hh
    rw [Function.update_self]
    exact ⟨hcalm, hrequested⟩
  · rw [Function.update_of_ne hh]
    exact ⟨Calm.refl _, fun hrequested => .inl hrequested⟩

theorem exec_workers {r : Except Exn (TaskReply op)} (hinv : Inv w)
    (hexec : exec cfg t op choice w = some (r, w')) : Workers op choice w w' := by
  cases op with
  | manager op =>
      obtain ⟨c, m, -, -, rfl⟩ := exec_manager hexec
      obtain ⟨-, hworker, -, -, habandoned⟩ := note_frame t { w with manager := m } op r
      exact workers_same hworker habandoned
  | handles | taskDone h | began call | returned status =>
      cases choice <;> simp only [exec, Option.some.injEq, Prod.mk.injEq, reduceCtorEq] at hexec
      obtain ⟨-, rfl⟩ := hexec
      exact workers_same rfl rfl
  | createTask server =>
      obtain ⟨h, -, hcreated⟩ := exec_createTask hinv hexec
      exact workers_same hcreated.worker hcreated.abandoned
  | joined h =>
      obtain ⟨-, rfl⟩ := exec_ended (.inl rfl) hexec
      exact workers_same rfl rfl
  | taskResult h =>
      obtain ⟨-, rfl⟩ := exec_ended (.inr rfl) hexec
      exact workers_same rfl rfl
  | started h =>
      rcases exec_started hexec with ⟨-, -, rfl⟩ | ⟨e, -, -, -, rfl⟩
      · exact workers_same rfl rfl
      · exact workers_setWorker (h := h) (x := { w.worker h with
            started := (w.worker h).started.cancel }) ⟨rfl, rfl, rfl, fun _ hc => hc⟩ rfl
          (fun _ hab => .inl hab) (fun _ hab => hab) fun hrequested => .inl hrequested
  | cancelTask h =>
      cases choice <;> simp only [exec, Option.some.injEq, Prod.mk.injEq, reduceCtorEq] at hexec
      obtain ⟨-, rfl⟩ := hexec
      refine workers_setWorker (calm_cancel (w.worker h)) rfl (fun h' hab => ?_)
        (fun h' hab => ?_) fun _ => .inr (Function.update_self ..)
      · by_cases hh : h' = h
        · exact .inr (by rw [hh])
        · exact .inl ((Function.update_of_ne hh _ _).symm.trans hab)
      · by_cases hh : h' = h
        · subst hh
          exact Function.update_self ..
        · exact (Function.update_of_ne hh _ _).trans hab
  | put h name =>
      rcases exec_put hexec with ⟨-, -, rfl⟩ | ⟨x, -, hput, -, rfl⟩
      · exact workers_same rfl rfl
      · refine workers_setWorker (calm_put hput) rfl (fun _ hab => .inl hab)
          (fun _ hab => hab) fun hrequested => .inl ?_
        unfold Worker.put at hput
        split at hput
        · simp at hput
        · obtain rfl := Option.some.inj hput
          exact hrequested
  | replied h n =>
      rcases exec_replied hexec with ⟨-, -, rfl⟩ | ⟨e, -, -, -, rfl⟩
      · exact workers_same rfl rfl
      · exact workers_setWorker (h := h) (x := (w.worker h).giveUp n)
          ⟨rfl, rfl, rfl, fun _ hc => hc⟩ rfl (fun _ hab => .inl hab) (fun _ hab => hab)
          fun hrequested => .inl hrequested
  | work h =>
      obtain ⟨outcome, x, rfl, -, -, hstep, rfl⟩ := exec_work hexec
      refine ⟨fun h' => ?_, fun _ hab => .inl hab, fun _ hab => hab⟩
      by_cases hh : h' = h
      · subst hh
        refine .inl ⟨outcome, rfl, rfl, ?_⟩
        simpa only [World.setWorker, Function.update_self] using hstep
      · refine .inr ?_
        simp only [World.setWorker, Function.update_of_ne hh]
        exact ⟨Calm.refl _, fun hrequested => .inl hrequested⟩
  | interrupt h =>
      cases choice <;> simp only [exec, reduceCtorEq] at hexec
      split at hexec
      next hab =>
        obtain ⟨-, rfl⟩ := Prod.mk.inj (Option.some.inj hexec)
        exact workers_setWorker (calm_cancel (w.worker h)) rfl (fun _ hab => .inl hab)
          (fun _ hab => hab) fun _ => .inr hab
      next => simp at hexec

/-- What holds of the inner handles between any two careful steps. -/
structure Lossless (w : World) : Prop where
  starting : ∀ h, (w.worker h).phase = .starting → (w.worker h).innerStarted = false
  abandoned : ∀ h, w.abandoned h = true → (w.worker h).innerStarted = false
  cancelled : ∀ h, (w.worker h).cancelRequested = true → w.abandoned h = true
  ended : ∀ h, w.ended h = true → (w.worker h).innerStarted = true →
    (w.worker h).stopInvoked = true
  registered : ∀ h, w.owner h = .registry →
    (w.worker h).stopInvoked = true ∨ ∃ id, w.registered id = some h

/-- What has been settled about a worker stays settled. -/
theorem settled_mono {h : Handle} (habandoned : w.abandoned h = true → w'.abandoned h = true)
    (hended : w.ended h = true → w'.ended h = true)
    (hstop : (w.worker h).stopInvoked = true → (w'.worker h).stopInvoked = true)
    (hqueued : stopQueued (w.worker h) = true →
      stopQueued (w'.worker h) = true ∨ (w'.worker h).stopInvoked = true)
    (hsettled : settled w h = true) : settled w' h = true := by
  simp only [settled, Bool.or_eq_true] at hsettled ⊢
  rcases hsettled with ((hab | hend) | hinvoked) | hcommand
  · exact .inl (.inl (.inl (habandoned hab)))
  · exact .inl (.inl (.inr (hended hend)))
  · exact .inl (.inr (hstop hinvoked))
  · rcases hqueued hcommand with hcommand' | hinvoked
    · exact .inr hcommand'
    · exact .inl (.inr hinvoked)

theorem queued_of_calm {x y : Worker} (hcalm : Calm x y) (hqueued : stopQueued x = true) :
    stopQueued y = true := by
  simp only [stopQueued, List.any_eq_true] at hqueued ⊢
  obtain ⟨command, hmem, hname⟩ := hqueued
  exact ⟨command, hcalm.commands command hmem, hname⟩

theorem settled_of_talk {h : Handle} (hsame : SameManager w w')
    (hsettled : settled w h = true) : settled w' h = true := by
  have hcalm := hsame.worker h
  exact settled_mono (hsame.abandoned h)
    (fun hended => by simpa only [World.ended, hcalm.done] using hended)
    (fun hstop => hcalm.stopInvoked.trans hstop)
    (fun hqueued => .inl (queued_of_calm hcalm hqueued)) hsettled

theorem settled_of_workers {h : Handle} (hsound : Sound (w.worker h))
    (hworkers : Workers op choice w w') (hended : w.ended h = true → w'.ended h = true)
    (hsettled : settled w h = true) : settled w' h = true := by
  rcases hworkers.worker h with ⟨outcome, -, -, hstep⟩ | ⟨hcalm, -⟩
  · have hworked := work_worked hsound hstep
    exact settled_mono (hworkers.abandoned h) hended hworked.stopInvoked hworked.queued hsettled
  · exact settled_mono (hworkers.abandoned h) hended
      (fun hstop => hcalm.stopInvoked.trans hstop)
      (fun hqueued => .inl (queued_of_calm hcalm hqueued)) hsettled

/-- The registry answers for a worker from its registration on. -/
theorem exec_published {r : Except Exn (TaskReply op)} {h : Handle} (hinv : Inv w)
    (hexec : exec cfg t op choice w = some (r, w')) (hbefore : w.owner h ≠ .registry)
    (hafter : w'.owner h = .registry) : ∃ id, w'.registered id = some h := by
  cases op with
  | manager op =>
      have hexec' := hexec
      obtain ⟨c, m, -, -, rfl⟩ := exec_manager hexec
      rcases note_owner t { w with manager := m } op r with heq | ⟨id, handle, rfl, -⟩
      · rw [heq] at hafter
        exact absurd hafter hbefore
      · obtain ⟨-, hreg, -, -, howner, -⟩ := exec_setHandle hexec'
        by_cases hh : h = handle
        · subst hh
          exact ⟨id, hreg⟩
        · rw [howner, Function.update_of_ne hh] at hafter
          exact absurd hafter hbefore
  | createTask server =>
      obtain ⟨h', -, hcreated⟩ := exec_createTask hinv hexec
      rw [hcreated.owner] at hafter
      by_cases hh : h = h'
      · subst hh
        simp at hafter
      · rw [Function.update_of_ne hh] at hafter
        exact absurd hafter hbefore
  | started h' | cancelTask h' | joined h' | taskDone h' | taskResult h' | replied h' n =>
      have hsame : SameManager w w' := exec_talk (by exact trivial) hexec
      exact absurd (hsame.owner ▸ hafter) hbefore
  | put h' name =>
      have hsame : SameManager w w' := exec_talk (by exact trivial) hexec
      exact absurd (hsame.owner ▸ hafter) hbefore
  | work h' =>
      have hop : TaskOp.work h' = .work h' ∨ TaskOp.work h' = .interrupt h' := .inl rfl
      exact absurd ((exec_record hop hexec).2 ▸ hafter) hbefore
  | interrupt h' =>
      have hop : TaskOp.interrupt h' = .work h' ∨ TaskOp.interrupt h' = .interrupt h' := .inr rfl
      exact absurd ((exec_record hop hexec).2 ▸ hafter) hbefore
  | handles | began call | returned status =>
      cases choice <;> simp only [exec, Option.some.injEq, Prod.mk.injEq, reduceCtorEq] at hexec
      obtain ⟨-, rfl⟩ := hexec
      exact absurd hafter hbefore

/-- A careful step loses no inner handle. -/
theorem Lossless.step {r : Except Exn (TaskReply op)} (hinv : Inv w) (hlossless : Lossless w)
    (hpre : Pre t op w) (hcareful : Careful t op choice w)
    (hexec : exec cfg t op choice w = some (r, w')) : Lossless w' := by
  obtain ⟨hinv', hothers⟩ := keeps_exec hinv hpre hexec
  have hrely : Rely (t + 1) w w' := hothers (t + 1) (Nat.succ_ne_self t)
  have hworkers := exec_workers hinv hexec
  have hinvoked : ∀ h, (w.worker h).stopInvoked = true → (w'.worker h).stopInvoked = true := by
    intro h hstop
    rcases hworkers.worker h with ⟨outcome, -, -, hstep⟩ | ⟨hcalm, -⟩
    · exact (work_worked (hinv.sound h) hstep).stopInvoked hstop
    · exact hcalm.stopInvoked.trans hstop
  refine ⟨fun h hphase => ?_, fun h hab => ?_, fun h hrequested => ?_, fun h hended hinner => ?_,
    fun h howner => ?_⟩
  · rcases hworkers.worker h with ⟨outcome, -, -, hstep⟩ | ⟨hcalm, -⟩
    · exact absurd hphase (work_worked (hinv.sound h) hstep).phase
    · exact hcalm.innerStarted.trans (hlossless.starting h (hcalm.phase ▸ hphase))
  · -- a worker is cancelled before its inner start has succeeded, and it never does then
    rcases hworkers.worker h with ⟨outcome, rfl, rfl, hstep⟩ | ⟨hcalm, -⟩
    · have hold : w.abandoned h = true := (hworkers.cancels h hab).resolve_right (by simp)
      by_contra hinner
      rcases (work_worked (hinv.sound h) hstep).innerStarted (by simpa using hinner) with
        hstarted | ⟨hphase, -, tools, rfl⟩
      · simp [hlossless.abandoned h hold] at hstarted
      · simp [Careful, careful, hphase, isStarting, hold] at hcareful
    · rw [hcalm.innerStarted]
      rcases hworkers.cancels h hab with hold | rfl
      · exact hlossless.abandoned h hold
      · cases choice with
        | proceed => simpa [Careful, careful] using hcareful
        | manager c => simp [exec] at hexec
        | interrupt e => simp [exec] at hexec
        | inner outcome => simp [exec] at hexec
  · rcases hworkers.worker h with ⟨outcome, -, -, hstep⟩ | ⟨-, hcancel⟩
    · exact hworkers.abandoned h (hlossless.cancelled h
        ((work_worked (hinv.sound h) hstep).cancelRequested hrequested))
    · rcases hcancel hrequested with hold | hab
      · exact hworkers.abandoned h (hlossless.cancelled h hold)
      · exact hab
  · rcases hworkers.worker h with ⟨outcome, rfl, rfl, hstep⟩ | ⟨hcalm, -⟩
    · have hworked := work_worked (hinv.sound h) hstep
      have hold : (w.worker h).innerStarted = true := by
        rcases hworked.innerStarted hinner with hold | ⟨-, hlive, -⟩
        · exact hold
        · simp [World.ended, hlive] at hended
      rcases hworked.done hended with hphase | hrequested | hstop | ⟨hlisting, e, rfl, he⟩
      · simp [hlossless.starting h hphase] at hold
      · simp [hlossless.abandoned h (hlossless.cancelled h hrequested)] at hold
      · exact hstop
      · have hstop : (w.worker h).stopInvoked = true := by
          simpa [Careful, careful, hlisting, he] using hcareful
        exact hworked.stopInvoked hstop
    · rw [hcalm.stopInvoked]
      refine hlossless.ended h ?_ (hcalm.innerStarted ▸ hinner)
      simpa only [World.ended, hcalm.done] using hended
  · by_cases hold : w.owner h = .registry
    · rcases hlossless.registered h hold with hstop | ⟨id, hreg⟩
      · exact .inl (hinvoked h hstop)
      · rcases hrely.registered id h hreg with hkept | ⟨t', -, hs⟩
        · exact .inr ⟨id, hkept⟩
        · exact .inl (hinv'.stopped h t' hs).2
    · exact .inr (exec_published hinv hexec hold howner)

end Steps

/-- The discipline of the inner handles, on top of that of the registry. -/
def innerProtocol (cfg : Settings) : Protocol (exec cfg) fun t op choice w =>
    Careful t op choice w ∧ (registryProtocol cfg Careful).pre t op w :=
  (registryProtocol cfg Careful).extend Lossless
    (fun _ w w' => ∀ h, settled w h = true → settled w' h = true) (fun _ _ _ => True)
    (fun _ _ _ hsettled => hsettled) (fun h₁ h₂ h hsettled => h₂ h (h₁ h hsettled))
    fun hinv hlossless hpre _ hallowed hexec _ =>
      ⟨hlossless.step hinv hpre hallowed hexec, fun _ _ hrely h hsettled =>
        settled_of_workers (hinv.sound h) (exec_workers hinv hexec) (hrely.ended h) hsettled⟩

end ChangeQuality.McpInnerHandles
