import ChangeQuality.McpTasks

/-!
What a step of a worker task does to its commands and replies, and what becomes of a stop that was
put into its queue.
-/

namespace ChangeQuality.McpWorkerSteps

open ChangeQuality.Values
open ChangeQuality.McpServers
open ChangeQuality.McpWorkers
open ChangeQuality.McpTasks

variable {x y : Worker} {t t' : TaskId} {m n : Nat} {name : CommandName}
  {outcome : Except Exn (List Json)} {s : Option TaskId}

theorem future_modifyReply (f : Future → Future) :
    (x.modifyReply m f).future n = if m = n then (x.future n).map f else x.future n := by
  simp only [Worker.future, Worker.modifyReply, List.getElem?_modify]
  split <;> cases x.replies[n]? <;> rfl

/-- The task that waits for a command's future. -/
def callerOf (x : Worker) (n : Nat) : Option TaskId :=
  (x.replies[n]?).map Reply.caller

theorem callerOf_modifyReply (f : Future → Future) :
    callerOf (x.modifyReply m f) n = callerOf x n := by
  simp only [callerOf, Worker.modifyReply, List.getElem?_modify]
  split <;> cases x.replies[n]? <;> rfl

theorem length_modifyReply (f : Future → Future) :
    (x.modifyReply m f).replies.length = x.replies.length :=
  List.length_modify ..

/-- Where the loop goes on. -/
theorem next_cases (x : Worker) :
    x.commands = [] ∧ x.next = { x with phase := .waiting } ∨
      (∃ future commands, x.commands = { name := .listTools, future } :: commands ∧
        x.next = { x with phase := .listing future, commands }) ∨
      ∃ future commands, x.commands = { name := .stop, future } :: commands ∧
        x.next = { x with phase := .stopping future, commands, stopInvoked := true } := by
  obtain ⟨phase, started, commands, replies, cancelRequested, innerStarted, stopInvoked⟩ := x
  cases commands with
  | nil => exact .inl ⟨rfl, rfl⟩
  | cons command commands =>
      obtain ⟨name, future⟩ := command
      cases name with
      | listTools => exact .inr (.inl ⟨future, commands, rfl, rfl⟩)
      | stop => exact .inr (.inr ⟨future, commands, rfl, rfl⟩)

/-- The futures that a worker knows are those of its replies, and a stop was invoked before it is
under way. -/
structure Sound (x : Worker) : Prop where
  commands : ∀ command ∈ x.commands, command.future < x.replies.length
  listing : ∀ n, x.phase = .listing n → n < x.replies.length
  stopping : ∀ n, x.phase = .stopping n → x.stopInvoked = true

theorem sound_new : Sound {} := by
  constructor <;> simp

theorem Sound.next (h : Sound x) : Sound x.next := by
  rcases next_cases x with ⟨-, heq⟩ | ⟨future, commands, hcommands, heq⟩ |
    ⟨future, commands, hcommands, heq⟩
  all_goals rw [heq]
  · exact ⟨h.commands, by simp, by simp⟩
  · have hall := h.commands
    rw [hcommands, List.forall_mem_cons] at hall
    exact ⟨hall.2, by rintro n ⟨⟩; exact hall.1, by simp⟩
  · have hall := h.commands
    rw [hcommands, List.forall_mem_cons] at hall
    exact ⟨hall.2, by simp, fun _ _ => rfl⟩

theorem Sound.modifyReply (h : Sound x) (f : Future → Future) : Sound (x.modifyReply m f) where
  commands command hcommand := by
    rw [length_modifyReply]
    exact h.commands command hcommand
  listing n hn := by
    rw [length_modifyReply]
    exact h.listing n hn
  stopping := h.stopping

theorem Sound.crash (h : Sound x) (e : Exn) : Sound (x.crash e) :=
  ⟨h.commands, by simp [Worker.crash], by simp [Worker.crash]⟩

theorem Sound.refuse (h : Sound x) (e : Exn) : Sound (x.refuse m e) := by
  unfold Worker.refuse
  dsimp only
  split
  · exact (h.modifyReply _).next
  · exact (h.modifyReply _).crash e

theorem Sound.put (h : Sound x) (hput : x.put t name = some y) : Sound y := by
  unfold Worker.put at hput
  split at hput
  · simp at hput
  · obtain rfl := Option.some.inj hput
    refine ⟨?_, ?_, h.stopping⟩
    · intro command hcommand
      simp only [List.length_append, List.length_singleton]
      rcases List.mem_append.mp hcommand with hold | hnew
      · exact Nat.lt_succ_of_lt (h.commands command hold)
      · rw [List.mem_singleton] at hnew
        simp [hnew]
    · intro n hn
      simp only [List.length_append, List.length_singleton]
      exact Nat.lt_succ_of_lt (h.listing n hn)

/-- What a step of the worker does, phase by phase. -/
inductive WorkStep (x : Worker) : Except Exn (List Json) → Worker → Prop
  | launched {tools : List Json} : x.phase = .starting →
      WorkStep x (.ok tools)
        ({ x with started := x.started.set (.ok tools), innerStarted := true
                  cancelRequested := false } : Worker).next
  | launchFailed {e : Exn} : x.phase = .starting → WorkStep x (.error e) (x.crash e)
  | cancelled {outcome : Except Exn (List Json)} : x.phase = .waiting →
      x.cancelRequested = true → WorkStep x outcome (x.crash .cancelled)
  | taken {outcome : Except Exn (List Json)} : x.phase = .waiting → x.cancelRequested = false →
      x.commands ≠ [] → WorkStep x outcome x.next
  | listed {n : Nat} {tools : List Json} : x.phase = .listing n →
      WorkStep x (.ok tools) ({ x with cancelRequested := false }.answer n (.ok tools)).next
  | listFailed {n : Nat} {e : Exn} : x.phase = .listing n →
      WorkStep x (.error e) ({ x with cancelRequested := false }.refuse n e)
  | stopped {n : Nat} {tools : List Json} : x.phase = .stopping n →
      WorkStep x (.ok tools) { x.answer n (.ok []) with phase := .ended none }
  | stopFailed {n : Nat} {e : Exn} : x.phase = .stopping n →
      WorkStep x (.error e) ({ x with cancelRequested := false }.refuse n e)

theorem work_step (h : x.work outcome = some y) : WorkStep x outcome y := by
  unfold Worker.work at h
  split at h
  next hphase =>
    cases outcome with
    | ok tools =>
        obtain rfl := Option.some.inj h
        exact .launched hphase
    | error e =>
        obtain rfl := Option.some.inj h
        exact .launchFailed hphase
  next hphase =>
    split at h
    next hcancel =>
      obtain rfl := Option.some.inj h
      exact .cancelled hphase hcancel
    next hcancel =>
      split at h
      next => simp at h
      next hcommands =>
        obtain rfl := Option.some.inj h
        exact .taken hphase (by simpa using hcancel) (by simpa using hcommands)
  next n hphase =>
    cases outcome with
    | ok tools =>
        obtain rfl := Option.some.inj h
        exact .listed hphase
    | error e =>
        obtain rfl := Option.some.inj h
        exact .listFailed hphase
  next n hphase =>
    cases outcome with
    | ok tools =>
        obtain rfl := Option.some.inj h
        exact .stopped hphase
    | error e =>
        obtain rfl := Option.some.inj h
        exact .stopFailed hphase
  next => simp at h

theorem WorkStep.not_done (h : WorkStep x outcome y) : x.done = false := by
  cases h <;> simp [Worker.done, *]

theorem Sound.work (h : Sound x) (hstep : WorkStep x outcome y) : Sound y := by
  have hclear : Sound { x with cancelRequested := false } := ⟨h.commands, h.listing, h.stopping⟩
  cases hstep with
  | launched hphase => exact Sound.next ⟨h.commands, h.listing, h.stopping⟩
  | launchFailed hphase => exact h.crash _
  | cancelled hphase hcancel => exact h.crash _
  | taken hphase hcancel hcommands => exact h.next
  | listed hphase => exact (hclear.modifyReply _).next
  | listFailed hphase => exact hclear.refuse _
  | stopped hphase =>
      exact ⟨(h.modifyReply _).commands, by simp, by simp⟩
  | stopFailed hphase => exact hclear.refuse _

/-- Command `n` of the worker is a stop sent by `t`, and `s` is `t` once it has succeeded. -/
structure Sent (t : TaskId) (n : Nat) (s : Option TaskId) (x : Worker) : Prop where
  caller : callerOf x n = some t
  name : ∀ command ∈ x.commands, command.future = n → command.name = .stop
  phase : x.phase ≠ .listing n
  success : ∀ tools, x.future n = some (.done (.ok tools)) → s = some t

theorem Sent.next (h : Sent t n s x) : Sent t n s x.next := by
  rcases next_cases x with ⟨-, heq⟩ | ⟨future, commands, hcommands, heq⟩ |
    ⟨future, commands, hcommands, heq⟩
  all_goals rw [heq]
  · exact ⟨h.caller, h.name, by simp, h.success⟩
  · have hall := h.name
    rw [hcommands, List.forall_mem_cons] at hall
    exact ⟨h.caller, hall.2, by rintro ⟨⟩; exact absurd (hall.1 rfl) (by simp), h.success⟩
  · have hall := h.name
    rw [hcommands, List.forall_mem_cons] at hall
    exact ⟨h.caller, hall.2, by simp, h.success⟩

/-- An answer to another command, or an exception. -/
theorem Sent.answer {r : Except Exn (List Json)} (h : Sent t n s x)
    (hr : m = n → ∃ e, r = .error e) : Sent t n s (x.answer m r) := by
  refine ⟨?_, h.name, h.phase, fun tools => ?_⟩
  · exact (callerOf_modifyReply _).trans h.caller
  · intro hfuture
    rw [Worker.answer, future_modifyReply] at hfuture
    split at hfuture
    next heq =>
      obtain ⟨e, rfl⟩ := hr heq
      obtain ⟨future, hold, hset⟩ := Option.map_eq_some_iff.mp hfuture
      cases future with
      | pending => simp [Future.set] at hset
      | done r => exact h.success tools (hold.trans (congrArg some hset))
      | cancelled => simp [Future.set] at hset
    next => exact h.success tools hfuture

theorem Sent.crash (h : Sent t n s x) (e : Exn) : Sent t n s (x.crash e) :=
  ⟨h.caller, h.name, by simp [Worker.crash], h.success⟩

theorem Sent.refuse (h : Sent t n s x) (e : Exn) : Sent t n s (x.refuse m e) := by
  have hanswer : Sent t n s (x.answer m (.error e)) := h.answer fun _ => ⟨e, rfl⟩
  unfold Worker.refuse
  dsimp only
  split
  · exact hanswer.next
  · exact hanswer.crash e

theorem Sent.giveUp (h : Sent t n s x) : Sent t n s (x.giveUp m) := by
  refine ⟨?_, h.name, h.phase, fun tools => ?_⟩
  · exact (callerOf_modifyReply _).trans h.caller
  · intro hfuture
    rw [Worker.giveUp, future_modifyReply] at hfuture
    split at hfuture
    next =>
      obtain ⟨future, hold, hcancel⟩ := Option.map_eq_some_iff.mp hfuture
      cases future with
      | pending => simp [Future.cancel] at hcancel
      | done r => exact h.success tools (hold.trans (congrArg some hcancel))
      | cancelled => simp [Future.cancel] at hcancel
    next => exact h.success tools hfuture

theorem Sent.lt (h : Sent t n s x) : n < x.replies.length := by
  have hcaller := h.caller
  by_contra hle
  simp [callerOf, List.getElem?_eq_none (Nat.le_of_not_lt hle)] at hcaller

theorem Sent.put (h : Sent t n s x) (hput : x.put t' name = some y) : Sent t n s y := by
  have hlt := h.lt
  unfold Worker.put at hput
  split at hput
  · simp at hput
  · obtain rfl := Option.some.inj hput
    refine ⟨?_, ?_, h.phase, ?_⟩
    · simpa only [callerOf, List.getElem?_append_left hlt] using h.caller
    · intro command hcommand hfuture
      rcases List.mem_append.mp hcommand with hold | hnew
      · exact h.name command hold hfuture
      · rw [List.mem_singleton] at hnew
        subst hnew
        exact absurd hfuture (Nat.ne_of_gt hlt)
    · simpa only [Worker.future, List.getElem?_append_left hlt] using h.success

/-- A step of the worker, which records whose stop it has carried out. -/
theorem Sent.work (h : Sent t n s x) (hopen : ∀ t', s = some t' → x.done = true)
    (hstep : WorkStep x outcome y) : Sent t n ((stoppedFor outcome x).or s) y := by
  have hs : s = none := by
    rw [Option.eq_none_iff_forall_ne_some]
    intro t' ht'
    exact absurd (hopen t' ht') (by simp [hstep.not_done])
  subst hs
  have hfresh : ∀ tools, x.future n ≠ some (.done (.ok tools)) := fun tools hfuture => by
    simpa using h.success tools hfuture
  have hclear : Sent t n none { x with cancelRequested := false } :=
    ⟨h.caller, h.name, h.phase, h.success⟩
  cases hstep with
  | launched hphase =>
      rw [show stoppedFor _ x = none by simp [stoppedFor, hphase]]
      exact Sent.next ⟨h.caller, h.name, h.phase, h.success⟩
  | launchFailed hphase =>
      rw [show stoppedFor _ x = none by simp [stoppedFor, hphase]]
      exact h.crash _
  | cancelled hphase hcancel =>
      rw [show stoppedFor _ x = none by simp [stoppedFor, hphase]]
      exact h.crash _
  | taken hphase hcancel hcommands =>
      rw [show stoppedFor _ x = none by simp [stoppedFor, hphase]]
      exact h.next
  | @listed m tools hphase =>
      rw [show stoppedFor _ x = none by simp [stoppedFor, hphase]]
      refine (hclear.answer fun heq => ?_).next
      exact absurd (heq ▸ hphase) h.phase
  | listFailed hphase =>
      rw [show stoppedFor _ x = none by simp [stoppedFor, hphase]]
      exact hclear.refuse _
  | @stopped m tools hphase =>
      refine ⟨(callerOf_modifyReply _).trans h.caller, h.name, by simp, fun tools' hfuture => ?_⟩
      change (x.answer m (.ok [])).future n = _ at hfuture
      rw [Worker.answer, future_modifyReply] at hfuture
      split at hfuture
      next heq =>
        subst heq
        obtain ⟨future, hold, hset⟩ := Option.map_eq_some_iff.mp hfuture
        cases future with
        | pending =>
            have hcaller : (x.replies[m]?).map Reply.caller = some t := h.caller
            simp [stoppedFor, hphase, Worker.pending, hold, Future.isPending, hcaller]
        | done r => exact absurd (hold.trans (congrArg some hset)) (hfresh tools')
        | cancelled => simp [Future.set] at hset
      next => exact absurd hfuture (hfresh tools')
  | stopFailed hphase =>
      rw [show stoppedFor _ x = none by simp [stoppedFor, hphase]]
      exact hclear.refuse _

/-- A stop that was just put into the queue. -/
theorem sent_put (h : Sound x) (hput : x.put t .stop = some y) :
    Sent t x.replies.length s y := by
  unfold Worker.put at hput
  split at hput
  · simp at hput
  · obtain rfl := Option.some.inj hput
    refine ⟨?_, ?_, ?_, ?_⟩
    · simp [callerOf]
    · intro command hcommand hfuture
      rcases List.mem_append.mp hcommand with hold | hnew
      · exact absurd hfuture (Nat.ne_of_lt (h.commands command hold))
      · rw [List.mem_singleton] at hnew
        rw [hnew]
    · intro hphase
      exact absurd (h.listing _ hphase) (Nat.lt_irrefl _)
    · simp [Worker.future]

theorem Sound.cancel (hsound : Sound x) : Sound x.cancel := by
  unfold Worker.cancel
  split
  · exact hsound
  · exact ⟨hsound.commands, hsound.listing, hsound.stopping⟩

theorem Sent.cancel (hsent : Sent t n s x) : Sent t n s x.cancel := by
  unfold Worker.cancel
  split
  · exact hsent
  · exact ⟨hsent.caller, hsent.name, hsent.phase, hsent.success⟩

theorem cancel_done (x : Worker) : x.cancel.done = x.done := by
  unfold Worker.cancel
  split <;> rfl

theorem cancel_stopInvoked (x : Worker) : x.cancel.stopInvoked = x.stopInvoked := by
  unfold Worker.cancel
  split <;> rfl

theorem put_done (hput : x.put t name = some y) :
    y.done = x.done ∧ y.stopInvoked = x.stopInvoked := by
  unfold Worker.put at hput
  split at hput
  · simp at hput
  · obtain rfl := Option.some.inj hput
    exact ⟨rfl, rfl⟩

/-- Only a worker whose inner stop was invoked answers a stop. -/
theorem stoppedFor_eq_some (hsound : Sound x) (hstep : WorkStep x outcome y)
    (hfor : stoppedFor outcome x = some t) :
    y.done = true ∧ y.stopInvoked = true := by
  unfold stoppedFor at hfor
  split at hfor
  next n _ hphase =>
    cases hstep with
    | stopped hphase' => exact ⟨rfl, hsound.stopping n hphase⟩
    | launched hphase' => simp [hphase] at hphase'
    | cancelled hphase' => simp [hphase] at hphase'
    | taken hphase' => simp [hphase] at hphase'
    | listed hphase' => simp [hphase] at hphase'
  next => simp at hfor

end ChangeQuality.McpWorkerSteps
