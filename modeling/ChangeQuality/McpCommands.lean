import ChangeQuality.McpWorkers

/-!
The commands of one worker: what becomes of their futures when the loop of the worker ends.
-/

namespace ChangeQuality.McpCommands

open ChangeQuality.Values
open ChangeQuality.McpServers
open ChangeQuality.McpWorkers
open ChangeQuality.Runs

/-- What can happen around a handle: a call of `_send`, the interruption of one, a cancellation of
the worker's task, and a step of the worker. -/
inductive Move where
  | send (caller : TaskId) (name : CommandName)
  | giveUp (future : Nat)
  | cancel
  | work (outcome : Except Exn (List Json))

/-- A command that is not accepted leaves the worker as it was. -/
def step : Move → Worker → Option Worker
  | .send caller name, w => some ((w.put caller name).getD w)
  | .giveUp n, w => some (w.giveUp n)
  | .cancel, w => some w.cancel
  | .work outcome, w => w.work outcome

/-- Every accepted command has been answered or given up. -/
def Answered (w : Worker) : Prop :=
  ∀ n, w.pending n = false

/-- The property of a state: a worker that has ended owes nothing. -/
def EndsAnswered (w : Worker) : Prop :=
  w.done = true → Answered w

/-- The condition on a step: when the worker leaves its loop, the callers of the commands that still
wait in its queue have given up. -/
def LeavesNobody (m : Move) (w : Worker) : Prop :=
  match m with
  | .work outcome => w.exits outcome = true → ∀ c ∈ w.commands, w.pending c.future = false
  | _ => True

instance (m : Move) (w : Worker) : Decidable (LeavesNobody m w) :=
  match m with
  | .work outcome => inferInstanceAs
      (Decidable (w.exits outcome = true → ∀ c ∈ w.commands, w.pending c.future = false))
  | .send _ _ | .giveUp _ | .cancel => inferInstanceAs (Decidable True)

/-- The futures that the worker has yet to answer: that of the command it carries out, and those of
the commands in its queue. -/
def current (w : Worker) : List Nat :=
  match w.phase with
  | .listing n | .stopping n => [n]
  | _ => []

def owed (w : Worker) : List Nat :=
  current w ++ w.commands.map Command.future

/-- A future that is pending is one that the worker owes, and it owes each one once. -/
structure Accounted (w : Worker) : Prop where
  pending : ∀ n, w.pending n = true → n ∈ owed w
  nodup : (owed w).Nodup
  known : ∀ n ∈ owed w, n < w.replies.length

section Futures

variable {w : Worker}

theorem Future.isPending_set (outcome : Except Exn (List Json)) (future : Future) :
    (future.set outcome).isPending = false := by
  cases future <;> rfl

theorem Future.isPending_cancel (future : Future) : future.cancel.isPending = false := by
  cases future <;> rfl

theorem pending_modifyReply {f : Future → Future} (hf : ∀ future, (f future).isPending = false)
    (n m : Nat) : (w.modifyReply n f).pending m = (w.pending m && m != n) := by
  by_cases hmn : n = m
  · subst hmn
    cases h : w.replies[n]? with
    | none => simp [Worker.pending, Worker.future, Worker.modifyReply, h]
    | some reply => simp [Worker.pending, Worker.future, Worker.modifyReply, h, hf]
  · have hne : (m != n) = true := by simpa using fun h => hmn h.symm
    simp [Worker.pending, Worker.future, Worker.modifyReply, hmn, hne]

theorem pending_answer (n m : Nat) (outcome : Except Exn (List Json)) :
    (w.answer n outcome).pending m = (w.pending m && m != n) :=
  pending_modifyReply (Future.isPending_set outcome) n m

theorem pending_giveUp (n m : Nat) : (w.giveUp n).pending m = (w.pending m && m != n) :=
  pending_modifyReply Future.isPending_cancel n m

theorem pending_next (m : Nat) : w.next.pending m = w.pending m := by
  unfold Worker.next
  split <;> rfl

theorem done_next : w.next.done = false := by
  unfold Worker.next
  split <;> rfl

theorem owed_next : owed w.next = w.commands.map Command.future := by
  unfold Worker.next
  split
  next h => simp [owed, current, h]
  next h => simp [owed, current, h]
  next h => simp [owed, current, h]

theorem length_replies_next : w.next.replies.length = w.replies.length := by
  unfold Worker.next
  split <;> rfl

theorem length_replies_modifyReply (n : Nat) (f : Future → Future) :
    (w.modifyReply n f).replies.length = w.replies.length :=
  List.length_modify _ _ _

theorem pending_put {caller : TaskId} {name : CommandName} {w' : Worker}
    (h : w.put caller name = some w') (m : Nat) :
    w'.pending m = true ↔ w.pending m = true ∨ m = w.replies.length := by
  unfold Worker.put at h
  split at h
  · cases h
  · obtain rfl := Option.some.inj h
    rcases Nat.lt_trichotomy m w.replies.length with hlt | rfl | hgt
    · simp [Worker.pending, Worker.future, List.getElem?_append_left hlt, Nat.ne_of_lt hlt]
    · simp [Worker.pending, Worker.future, Future.isPending]
    · have hnone : w.replies[m]? = none := List.getElem?_eq_none (Nat.le_of_lt hgt)
      have hlong : (w.replies ++ [{ caller, future := .pending }])[m]? = none :=
        List.getElem?_eq_none (by simpa using Nat.succ_le_of_lt hgt)
      simp [Worker.pending, Worker.future, hnone, hlong, Nat.ne_of_gt hgt]

end Futures

/-- What a step of the worker does to the futures. -/
structure Worked (w w' : Worker) (exited : Bool) : Prop where
  done : w'.done = exited
  pending : ∀ n, w'.pending n = true ↔ w.pending n = true ∧ n ∉ current w
  owed : owed w' = w.commands.map Command.future
  length : w'.replies.length = w.replies.length

section Steps

variable {w w' : Worker} {outcome : Except Exn (List Json)}

theorem pending_of_replies (h : w'.replies = w.replies) (n : Nat) : w'.pending n = w.pending n := by
  simp only [Worker.pending, Worker.future, h]

theorem Worked.next {mid : Worker}
    (hpending : ∀ n, mid.pending n = true ↔ w.pending n = true ∧ n ∉ current w)
    (hcommands : mid.commands = w.commands) (hlength : mid.replies.length = w.replies.length) :
    Worked w mid.next false where
  done := done_next
  pending n := by rw [pending_next, hpending]
  owed := by rw [owed_next, hcommands]
  length := by rw [length_replies_next, hlength]

theorem Worked.ended {mid : Worker} {exception : Option Exn}
    (hphase : mid.phase = .ended exception)
    (hpending : ∀ n, mid.pending n = true ↔ w.pending n = true ∧ n ∉ current w)
    (hcommands : mid.commands = w.commands) (hlength : mid.replies.length = w.replies.length) :
    Worked w mid true where
  done := by simp only [Worker.done, hphase]
  pending := hpending
  owed := by simp only [McpCommands.owed, current, hphase, hcommands, List.nil_append]
  length := hlength

/-- No command is answered. -/
theorem pending_kept (hcurrent : current w = []) (h : w'.replies = w.replies) (m : Nat) :
    w'.pending m = true ↔ w.pending m = true ∧ m ∉ current w := by
  rw [pending_of_replies h, hcurrent]
  simp

/-- One command is answered. -/
theorem pending_answered {n : Nat} (hcurrent : current w = [n]) (h : w'.replies = w.replies)
    (outcome : Except Exn (List Json)) (m : Nat) :
    (w'.answer n outcome).pending m = true ↔ w.pending m = true ∧ m ∉ current w := by
  rw [pending_answer, pending_of_replies h, hcurrent]
  simp

theorem Worked.refuse {n : Nat} {e : Exn} (hcurrent : current w = [n])
    (hreplies : w'.replies = w.replies) (hcommands : w'.commands = w.commands) :
    Worked w (w'.refuse n e) (!e.isException) := by
  have hpending := pending_answered hcurrent hreplies (.error e)
  have hlength : (w'.answer n (.error e)).replies.length = w.replies.length := by
    rw [← hreplies]
    exact length_replies_modifyReply n _
  unfold Worker.refuse
  dsimp only
  split
  next he =>
    rw [he]
    exact Worked.next hpending hcommands hlength
  next he =>
    rw [Bool.not_eq_true] at he
    rw [he]
    exact Worked.ended rfl hpending hcommands hlength

theorem work_spec (h : w.work outcome = some w') : Worked w w' (w.exits outcome) := by
  cases hphase : w.phase with
  | starting =>
      have hcurrent : current w = [] := by simp [current, hphase]
      cases outcome with
      | ok tools =>
          have hexits : w.exits (.ok tools) = false := by simp [Worker.exits, hphase]
          simp only [Worker.work, hphase, Option.some.injEq] at h
          rw [hexits, ← h]
          exact Worked.next (pending_kept hcurrent rfl) rfl rfl
      | error e =>
          have hexits : w.exits (.error e) = true := by simp [Worker.exits, hphase]
          simp only [Worker.work, hphase, Option.some.injEq] at h
          rw [hexits, ← h]
          exact Worked.ended rfl (pending_kept hcurrent rfl) rfl rfl
  | waiting =>
      have hcurrent : current w = [] := by simp [current, hphase]
      have hexits : w.exits outcome = w.cancelRequested := by simp [Worker.exits, hphase]
      simp only [Worker.work, hphase] at h
      rw [hexits]
      split at h
      next hcancel =>
        rw [hcancel, ← Option.some.inj h]
        exact Worked.ended rfl (pending_kept hcurrent rfl) rfl rfl
      next hcancel =>
        split at h
        · cases h
        · rw [Bool.not_eq_true] at hcancel
          rw [hcancel, ← Option.some.inj h]
          exact Worked.next (pending_kept hcurrent rfl) rfl rfl
  | listing n =>
      have hcurrent : current w = [n] := by simp [current, hphase]
      cases outcome with
      | ok tools =>
          have hexits : w.exits (.ok tools) = false := by simp [Worker.exits, hphase]
          simp only [Worker.work, hphase, Option.some.injEq] at h
          rw [hexits, ← h]
          exact Worked.next (pending_answered hcurrent rfl _) rfl (length_replies_modifyReply n _)
      | error e =>
          have hexits : w.exits (.error e) = !e.isException := by simp [Worker.exits, hphase]
          simp only [Worker.work, hphase, Option.some.injEq] at h
          rw [hexits, ← h]
          exact Worked.refuse hcurrent rfl rfl
  | stopping n =>
      have hcurrent : current w = [n] := by simp [current, hphase]
      cases outcome with
      | ok tools =>
          have hexits : w.exits (.ok tools) = true := by simp [Worker.exits, hphase]
          simp only [Worker.work, hphase, Option.some.injEq] at h
          rw [hexits, ← h]
          exact Worked.ended rfl (pending_answered hcurrent rfl _) rfl
            (length_replies_modifyReply n _)
      | error e =>
          have hexits : w.exits (.error e) = !e.isException := by simp [Worker.exits, hphase]
          simp only [Worker.work, hphase, Option.some.injEq] at h
          rw [hexits, ← h]
          exact Worked.refuse hcurrent rfl rfl
  | ended exception => simp only [Worker.work, hphase, reduceCtorEq] at h

end Steps

section Accounting

variable {w w' : Worker}

theorem Accounted.put {caller : TaskId} {name : CommandName} (h : Accounted w)
    (hput : w.put caller name = some w') : Accounted w' := by
  have howed : owed w' = owed w ++ [w.replies.length] := by
    unfold Worker.put at hput
    split at hput
    · cases hput
    · obtain rfl := Option.some.inj hput
      simp [owed, current]
  have hlength : w'.replies.length = w.replies.length + 1 := by
    unfold Worker.put at hput
    split at hput
    · cases hput
    · obtain rfl := Option.some.inj hput
      simp
  refine ⟨fun n hn => ?_, ?_, fun n hn => ?_⟩
  · rw [howed, List.mem_append, List.mem_singleton]
    exact ((pending_put hput n).mp hn).imp_left (h.pending n)
  · rw [howed]
    refine List.nodup_append.mpr ⟨h.nodup, by simp, fun n hn m hm heq => ?_⟩
    rw [List.mem_singleton] at hm
    exact absurd (h.known n hn) (by omega)
  · rw [howed, List.mem_append, List.mem_singleton] at hn
    rw [hlength]
    rcases hn with hn | rfl
    · exact Nat.lt_succ_of_lt (h.known n hn)
    · exact Nat.lt_succ_self _

theorem Accounted.giveUp (h : Accounted w) (n : Nat) : Accounted (w.giveUp n) where
  pending m hm := by
    rw [pending_giveUp, Bool.and_eq_true] at hm
    exact h.pending m hm.1
  nodup := h.nodup
  known m hm := by
    rw [Worker.giveUp, length_replies_modifyReply]
    exact h.known m hm

theorem Accounted.cancel (h : Accounted w) : Accounted w.cancel := by
  unfold Worker.cancel
  split
  · exact h
  · exact ⟨h.pending, h.nodup, h.known⟩

theorem Accounted.work {outcome : Except Exn (List Json)} (h : Accounted w)
    (hwork : w.work outcome = some w') : Accounted w' := by
  have hspec := work_spec hwork
  refine ⟨fun n hn => ?_, ?_, fun n hn => ?_⟩
  · obtain ⟨hpending, hcurrent⟩ := (hspec.pending n).mp hn
    rw [hspec.owed]
    exact (List.mem_append.mp (h.pending n hpending)).resolve_left hcurrent
  · rw [hspec.owed]
    exact (List.nodup_append.mp h.nodup).2.1
  · rw [hspec.owed] at hn
    rw [hspec.length]
    exact h.known n (List.mem_append_right _ hn)

theorem Accounted.step {m : Move} (h : Accounted w) (hstep : step m w = some w') :
    Accounted w' := by
  cases m with
  | send caller name =>
      obtain rfl := Option.some.inj hstep
      cases hput : w.put caller name with
      | none => exact h
      | some w' => exact h.put hput
  | giveUp n =>
      obtain rfl := Option.some.inj hstep
      exact h.giveUp n
  | cancel =>
      obtain rfl := Option.some.inj hstep
      exact h.cancel
  | work outcome => exact h.work hstep

/-- The step with which the worker ends leaves nothing unanswered exactly when it leaves nobody
behind. -/
theorem answered_iff_of_exits {outcome : Except Exn (List Json)} (h : Accounted w)
    (hwork : w.work outcome = some w') :
    Answered w' ↔ ∀ c ∈ w.commands, w.pending c.future = false := by
  have hspec := work_spec hwork
  constructor
  · intro hanswered c hc
    by_contra hpending
    have hcurrent : c.future ∉ current w := fun hmem =>
      (List.nodup_append.mp h.nodup).2.2 _ hmem _ (List.mem_map_of_mem hc) rfl
    have hstill := (hspec.pending c.future).mpr ⟨by simpa using hpending, hcurrent⟩
    rw [hanswered] at hstill
    cases hstill
  · intro hcommands n
    by_contra hpending
    obtain ⟨hn, hcurrent⟩ := (hspec.pending n).mp (by simpa using hpending)
    have howed := (List.mem_append.mp (h.pending n hn)).resolve_left hcurrent
    obtain ⟨c, hc, rfl⟩ := List.mem_map.mp howed
    rw [hcommands c hc] at hn
    cases hn

/-- What a step does to the property of a state. -/
theorem endsAnswered_iff {m : Move} (h : Accounted w) (hends : EndsAnswered w)
    (hstep : step m w = some w') : EndsAnswered w' ↔ LeavesNobody m w := by
  cases m with
  | send caller name =>
      obtain rfl := Option.some.inj hstep
      refine iff_of_true ?_ trivial
      cases hput : w.put caller name with
      | none => exact hends
      | some w' =>
          unfold Worker.put at hput
          split at hput
          · cases hput
          next hdone =>
            obtain rfl := Option.some.inj hput
            exact fun hdone' => absurd hdone' hdone
  | giveUp n =>
      obtain rfl := Option.some.inj hstep
      refine iff_of_true (fun hdone m => ?_) trivial
      rw [pending_giveUp, hends hdone m, Bool.false_and]
  | cancel =>
      obtain rfl := Option.some.inj hstep
      refine iff_of_true ?_ trivial
      unfold Worker.cancel
      split
      · exact hends
      · exact fun hdone => hends hdone
  | work outcome =>
      have hspec := work_spec hstep
      unfold EndsAnswered LeavesNobody
      rw [hspec.done]
      exact imp_congr_right fun _ => answered_iff_of_exits h hstep

end Accounting

/-- In a run of callers and worker, no state has a worker that ended with a command unanswered,
exactly when the worker never leaves its loop while a caller waits behind it. -/
theorem ends_answered_iff {ms : List Move} {w : Worker} (h : run step ms {} = some w) :
    Throughout step EndsAnswered ms {} ↔ Along step LeavesNobody ms {} :=
  throughout_iff_along (I := Accounted) (fun _ _ _ => Accounted.step)
    (fun _ _ _ => endsAnswered_iff) ⟨by simp [Worker.pending, Worker.future], by simp [owed, current],
      by simp [owed, current]⟩ (fun hdone => by cases hdone) h

/-- A stop, and a `list_tools` whose caller gives up before the stop has ended the worker. -/
def givenUpRun : List Move :=
  [.work (.ok []), .send 0 .stop, .work (.ok []), .send 1 .listTools, .giveUp 1, .work (.ok [])]

theorem ends_answered_givenUp : Throughout step EndsAnswered givenUpRun {} :=
  (ends_answered_iff (w := ((run step givenUpRun {}).get rfl)) rfl).mpr (by decide)

/-- A stop, and a `list_tools` that is accepted while the inner handle is being stopped: the worker
returns, and nobody answers the second caller. -/
def behindStopRun : List Move :=
  [.work (.ok []), .send 0 .stop, .work (.ok []), .send 1 .listTools, .work (.ok [])]

theorem not_forall_ends_answered :
    ¬ ∀ (ms : List Move) (w : Worker), run step ms {} = some w →
      Throughout step EndsAnswered ms {} := by
  intro h
  have hrun : ∃ w, run step behindStopRun {} = some w ∧ w.done = true ∧ w.pending 1 = true :=
    ⟨_, rfl, rfl, rfl⟩
  obtain ⟨w, hw, hdone, hpending⟩ := hrun
  have hanswered := (h behindStopRun w hw).last hw hdone 1
  rw [hpending] at hanswered
  cases hanswered

end ChangeQuality.McpCommands
