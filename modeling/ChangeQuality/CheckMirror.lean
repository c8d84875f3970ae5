import ChangeQuality.CheckView
import ChangeQuality.Runs

/-!
The view of a check mirrors its events exactly as long as each event that is taken is the next one
after the cursor. An answer for the detail moves the cursor under a source that is still open, and
the events that this source goes on to fire are taken without another look at the cursor.
-/

namespace ChangeQuality.CheckMirror

open ChangeQuality.Records
open ChangeQuality.SequencedLog
open ChangeQuality.SopTables
open ChangeQuality.Runs
open ChangeQuality.CheckView

/-- The source fires an event that the hook takes. -/
def Takes (s : System) (event : SopQualityCheckEvent) : Prop :=
  s.hook.terminalRef = false ∧ event.checkId = s.hook.checkId ∧ event.type.listened = true ∧
    ∃ source, s.hook.eventSource = some source ∧ nextAfter (·.sequence) s.log source.position = some event

/-- An event that is taken is the next one after the cursor. -/
def TakesNext : Turn → System → Prop
  | .deliver, s => ∀ event, Takes s event → nextAfter (·.sequence) s.log s.hook.cursorRef = some event
  | _, _ => True

/-- The snapshots that are on their way are no newer than a sequence. -/
def AnsweredBy (sequence : Nat) (hook : Hook) : Prop :=
  ∀ requestId detail, hook.requests.lookup requestId = some (some detail) →
    detail.displayState.latestSequence ≤ sequence

/-- What holds between any two turns. -/
structure Coherent (s : System) : Prop where
  ascending : Ascending 0 (s.log.map (·.sequence))
  hydrated : s.hook.hydratedAt ≤ s.hook.cursorRef
  cursor : s.hook.cursorRef ≤ latestSequence s.log
  answers : AnsweredBy (latestSequence s.log) s.hook

section Reducer

variable {state : SopQualityCheckViewState} {event : SopQualityCheckEvent}

theorem updateEventNode_events (status : NodeStatus) :
    (updateEventNode state event status).events = state.events := by
  unfold updateEventNode
  split <;> rfl

theorem appendEventNodeMessage_events :
    (appendEventNodeMessage state event).events = state.events := by
  unfold appendEventNodeMessage
  split
  · rfl
  · split <;> rfl

/-- The reducer keeps each event that it is given. -/
theorem reduce_events :
    (reduceSopQualityCheckEvent state event).events = state.events ++ [event] := by
  unfold reduceSopQualityCheckEvent
  split
  all_goals first
    | exact updateEventNode_events _
    | exact appendEventNodeMessage_events
    | rfl

end Reducer

/-- What the mirror depends on. -/
def shown (hook : Hook) : Nat × Nat × List SopQualityCheckEvent :=
  (hook.hydratedAt, hook.cursorRef, hook.state.events)

section Hook

variable {hook : Hook}

@[simp] theorem refreshDetail_shown : shown hook.refreshDetail = shown hook := rfl

@[simp] theorem setConnectionStatus_shown (connectionStatus : ConnectionStatus) :
    shown (hook.setConnectionStatus connectionStatus) = shown hook := rfl

@[simp] theorem connect_shown : shown hook.connect = shown hook := by
  unfold Hook.connect
  split <;> rfl

@[simp] theorem streamEffect_shown : shown hook.cleanUp.streamEffect = shown hook := by
  unfold Hook.streamEffect
  split
  · rfl
  · split
    · rfl
    · exact connect_shown

@[simp] theorem onError_shown (source : EventSource) : shown (hook.onError source) = shown hook := by
  unfold Hook.onError
  split <;> rfl

@[simp] theorem onDetailError_shown (requestId : Nat) (error : String) :
    shown ((hook.settle requestId).onDetailError requestId error) = shown hook := by
  unfold Hook.onDetailError
  split <;> rfl

theorem AnsweredBy.refreshDetail {sequence : Nat} (h : AnsweredBy sequence hook) :
    AnsweredBy sequence hook.refreshDetail := by
  intro requestId detail hlookup
  simp only [Hook.refreshDetail, lookup_put] at hlookup
  split at hlookup
  · cases hlookup
  · exact h requestId detail hlookup

theorem AnsweredBy.settle {sequence : Nat} (h : AnsweredBy sequence hook) (requestId : Nat) :
    AnsweredBy sequence (hook.settle requestId) := by
  intro other detail hlookup
  simp only [Hook.settle, lookup_without] at hlookup
  split at hlookup
  · cases hlookup
  · exact h other detail hlookup

/-- What the hook does with an event that it takes. -/
theorem handle_takes {event : SopQualityCheckEvent} (hopen : hook.terminalRef = false)
    (hcheck : event.checkId = hook.checkId) :
    shown (hook.handleCheckMessage (some event.sequence) event) =
        (hook.hydratedAt, max hook.cursorRef event.sequence, hook.state.events ++ [event]) ∧
      ∀ sequence, AnsweredBy sequence hook →
        AnsweredBy sequence (hook.handleCheckMessage (some event.sequence) event) := by
  unfold Hook.handleCheckMessage
  rw [if_neg (by simp [hopen, hcheck])]
  generalize hreduced : ({ hook with
    cursorRef := nextCursor hook.cursorRef (some event.sequence) event
    state := reduceSopQualityCheckEvent hook.state event } : Hook) = reduced
  have hshown : shown reduced =
      (hook.hydratedAt, max hook.cursorRef event.sequence, hook.state.events ++ [event]) := by
    subst hreduced
    rw [← reduce_events]
    rfl
  have hanswers : ∀ sequence, AnsweredBy sequence hook → AnsweredBy sequence reduced := by
    subst hreduced
    exact fun _ h => h
  dsimp only
  split <;> split
  · exact ⟨hshown, fun _ h => ((hanswers _ h).refreshDetail).refreshDetail⟩
  · exact ⟨hshown, fun _ h => (hanswers _ h).refreshDetail⟩
  · exact ⟨hshown, fun _ h => (hanswers _ h).refreshDetail⟩
  · exact ⟨hshown, hanswers⟩

end Hook

/-- What a turn does to what the mirror depends on. -/
inductive Happens (s : System) (turn : Turn) (s' : System) : Prop
  | kept : s'.log = s.log → shown s'.hook = shown s.hook →
      (turn = .deliver → ∀ event, ¬ Takes s event) → Happens s turn s'
  | appended (event : SopQualityCheckEvent) : latestSequence s.log < event.sequence →
      s'.log = s.log ++ [event] → shown s'.hook = shown s.hook → turn ≠ .deliver →
      Happens s turn s'
  | hydrated (sequence : Nat) : sequence ≤ latestSequence s.log → s'.log = s.log →
      shown s'.hook = (sequence, sequence, []) → turn ≠ .deliver → Happens s turn s'
  | took (event : SopQualityCheckEvent) : turn = .deliver → Takes s event → s'.log = s.log →
      shown s'.hook = (s.hook.hydratedAt, max s.hook.cursorRef event.sequence,
        s.hook.state.events ++ [event]) → Happens s turn s'

section Step

variable {s s' : System} {turn : Turn}

theorem Takes.unique {source : EventSource} {event other : SopQualityCheckEvent}
    (h : Takes s other) (hsource : s.hook.eventSource = some source)
    (hevent : nextAfter (·.sequence) s.log source.position = some event) : other = event := by
  obtain ⟨-, -, -, source', hsource', hother⟩ := h
  obtain rfl := Option.some_inj.mp (hsource.symm.trans hsource')
  exact Option.some_inj.mp (hother.symm.trans hevent)

theorem deliver_happens {source : EventSource} {event : SopQualityCheckEvent}
    (hsource : s.hook.eventSource = some source)
    (hevent : nextAfter (·.sequence) s.log source.position = some event)
    (hstep : step .deliver s = some s') (hanswers : AnsweredBy (latestSequence s.log) s.hook) :
    Happens s .deliver s' ∧ AnsweredBy (latestSequence s'.log) s'.hook := by
  simp only [step, hsource, hevent, Option.some.injEq] at hstep
  have honly : ∀ other, Takes s other → other = event :=
    fun other hother => hother.unique hsource hevent
  generalize hmoved : ({ s.hook with
    eventSource := some { source with position := event.sequence } } : Hook) = moved at hstep
  have hopen : moved.terminalRef = s.hook.terminalRef := by rw [← hmoved]
  have hcheck : moved.checkId = s.hook.checkId := by rw [← hmoved]
  have hshown : shown moved = shown s.hook := by rw [← hmoved]; rfl
  have hanswers : AnsweredBy (latestSequence s.log) moved := by rw [← hmoved]; exact hanswers
  by_cases htakes : Takes s event
  · have ⟨hterminal, hid, hlistened, _⟩ := htakes
    rw [if_pos hlistened] at hstep
    obtain ⟨hhandled, hbound⟩ :=
      handle_takes (hopen.trans hterminal) (hid.trans hcheck.symm)
    subst hstep
    refine ⟨.took event rfl htakes rfl (hhandled.trans ?_), hbound _ hanswers⟩
    simp only [shown, Prod.mk.injEq] at hshown
    rw [hshown.1, hshown.2.1, hshown.2.2]
  · have hnot : ∀ other, ¬ Takes s other := fun other hother => htakes (honly other hother ▸ hother)
    have hsame : s' = { s with hook := moved } := by
      rw [← hstep]
      split
      · rename_i hlistened
        unfold Hook.handleCheckMessage
        rw [if_pos]
        by_contra hguard
        simp only [not_or, Bool.not_eq_true, ne_eq, not_not, hopen, hcheck] at hguard
        exact htakes ⟨hguard.1, hguard.2, hlistened, source, hsource, hevent⟩
      · rfl
    subst hsame
    exact ⟨.kept rfl hshown fun _ => hnot, hanswers⟩

theorem step_happens (h : Coherent s) (hstep : step turn s = some s') :
    Happens s turn s' ∧ AnsweredBy (latestSequence s'.log) s'.hook := by
  cases turn with
  | append event =>
      simp only [step, Option.ite_none_right_eq_some, Option.some.injEq] at hstep
      obtain ⟨⟨-, hlater⟩, rfl⟩ := hstep
      refine ⟨.appended event hlater rfl rfl nofun, fun requestId detail hlookup => ?_⟩
      have hbound := h.answers requestId detail hlookup
      have hlatest : latestSequence (s.log ++ [event]) = max (latestSequence s.log) event.sequence :=
        latest_concat
      dsimp only
      omega
  | refresh =>
      obtain rfl := Option.some.inj hstep
      exact ⟨.kept rfl rfl nofun, h.answers.refreshDetail⟩
  | answer requestId status nodes isRunning =>
      simp only [step] at hstep
      split at hstep
      · obtain rfl := Option.some.inj hstep
        refine ⟨.kept rfl rfl nofun, fun other detail hlookup => ?_⟩
        rw [lookup_put] at hlookup
        split at hlookup
        · obtain rfl := Option.some.inj (Option.some.inj hlookup)
          exact le_rfl
        · exact h.answers other detail hlookup
      · cases hstep
  | arrive requestId =>
      simp only [step] at hstep
      split at hstep
      · rename_i nextDetail hlookup
        obtain rfl := Option.some.inj hstep
        have hsettled := h.answers.settle requestId
        by_cases hcurrent : s.hook.detailRequestRef = requestId
        · refine ⟨.hydrated nextDetail.displayState.latestSequence
            (h.answers requestId nextDetail hlookup) rfl ?_ nofun, ?_⟩
          · rw [Hook.onDetail, if_neg (by simpa [Hook.settle] using hcurrent)]
            rfl
          · rw [Hook.onDetail, if_neg (by simpa [Hook.settle] using hcurrent)]
            exact hsettled
        · rw [Hook.onDetail, if_pos (by simpa [Hook.settle] using hcurrent)]
          exact ⟨.kept rfl rfl nofun, hsettled⟩
      · cases hstep
  | refuse requestId error =>
      simp only [step] at hstep
      split at hstep
      · obtain rfl := Option.some.inj hstep
        refine ⟨.kept rfl (onDetailError_shown _ _) nofun, ?_⟩
        have hsettled := h.answers.settle requestId
        unfold Hook.onDetailError
        split <;> exact hsettled
      · cases hstep
  | rerun =>
      obtain rfl := Option.some.inj hstep
      refine ⟨.kept rfl streamEffect_shown nofun, ?_⟩
      unfold Hook.streamEffect Hook.connect
      split
      · exact h.answers
      · split
        · exact h.answers
        · split <;> exact h.answers
  | opened =>
      simp only [step] at hstep
      split at hstep
      · obtain rfl := Option.some.inj hstep
        dsimp only
        split <;> exact ⟨.kept rfl rfl nofun, h.answers⟩
      · cases hstep
  | deliver =>
      simp only [step] at hstep
      split at hstep
      · rename_i source hsource
        split at hstep
        · rename_i event hevent
          exact deliver_happens hsource hevent (by simp [step, hsource, hevent, hstep]) h.answers
        · cases hstep
      · cases hstep
  | error =>
      simp only [step] at hstep
      split at hstep
      · rename_i source hsource
        obtain rfl := Option.some.inj hstep
        refine ⟨.kept rfl (onError_shown source) nofun, ?_⟩
        unfold Hook.onError
        split <;> exact h.answers
      · cases hstep
  | reconnect =>
      simp only [step, Option.ite_none_right_eq_some, Option.some.injEq] at hstep
      obtain ⟨-, rfl⟩ := hstep
      refine ⟨.kept rfl connect_shown nofun, ?_⟩
      unfold Hook.connect
      split <;> exact h.answers

theorem coherent_step (turn : Turn) (s s' : System) (h : Coherent s)
    (hstep : step turn s = some s') : Coherent s' := by
  obtain ⟨hhappens, hanswers⟩ := step_happens h hstep
  have hhydrated := h.hydrated
  have hcursor := h.cursor
  cases hhappens with
  | kept hlog hshown _ =>
      simp only [shown, Prod.mk.injEq] at hshown
      obtain ⟨hat, hto, -⟩ := hshown
      exact ⟨hlog ▸ h.ascending, by omega, by rw [hlog]; omega, hanswers⟩
  | appended event hlater hlog hshown _ =>
      simp only [shown, Prod.mk.injEq] at hshown
      obtain ⟨hat, hto, -⟩ := hshown
      have hlatest : latestSequence s'.log = max (latestSequence s.log) event.sequence := by
        rw [hlog]
        exact latest_concat
      refine ⟨?_, by omega, by omega, hanswers⟩
      rw [hlog, List.map_append]
      exact ascending_concat.mpr ⟨h.ascending, hlater⟩
  | hydrated sequence hbound hlog hshown _ =>
      simp only [shown, Prod.mk.injEq] at hshown
      obtain ⟨hat, hto, -⟩ := hshown
      exact ⟨hlog ▸ h.ascending, by omega, by rw [hlog]; omega, hanswers⟩
  | took event _ htakes hlog hshown =>
      simp only [shown, Prod.mk.injEq] at hshown
      obtain ⟨hat, hto, -⟩ := hshown
      obtain ⟨-, -, -, source, -, hevent⟩ := htakes
      have hbound : event.sequence ≤ latestSequence s.log :=
        le_latest (List.mem_of_find?_eq_some hevent)
      exact ⟨hlog ▸ h.ascending, by omega, by rw [hlog]; omega, hanswers⟩

/-- From a state that mirrors the events, a turn leads to one that does exactly when it takes the
next event. -/
theorem mirrors_step (turn : Turn) (s s' : System) (h : Coherent s) (hmirrors : Mirrors s)
    (hstep : step turn s = some s') : Mirrors s' ↔ TakesNext turn s := by
  obtain ⟨hhappens, -⟩ := step_happens h hstep
  unfold Mirrors at hmirrors ⊢
  cases hhappens with
  | kept hlog hshown hnone =>
      simp only [shown, Prod.mk.injEq] at hshown
      obtain ⟨hat, hto, hevents⟩ := hshown
      rw [hlog, hat, hto, hevents]
      refine iff_of_true hmirrors ?_
      unfold TakesNext
      split
      · exact fun event htakes => absurd htakes (hnone rfl event)
      · trivial
  | appended event hlater hlog hshown hother =>
      simp only [shown, Prod.mk.injEq] at hshown
      obtain ⟨hat, hto, hevents⟩ := hshown
      have hbehind : between (·.sequence) [event] s.hook.hydratedAt s.hook.cursorRef = [] := by
        refine between_eq_nil fun e he => ?_
        obtain rfl := List.mem_singleton.mp he
        exact Nat.lt_of_le_of_lt h.cursor hlater
      rw [hlog, hat, hto, hevents, between_append, hbehind, List.append_nil]
      refine iff_of_true hmirrors ?_
      unfold TakesNext
      split
      · exact absurd rfl hother
      · trivial
  | hydrated sequence _ hlog hshown hother =>
      simp only [shown, Prod.mk.injEq] at hshown
      obtain ⟨hat, hto, hevents⟩ := hshown
      rw [hat, hto, hevents, between_self]
      refine iff_of_true rfl ?_
      unfold TakesNext
      split
      · exact absurd rfl hother
      · trivial
  | took event hdeliver htakes hlog hshown =>
      simp only [shown, Prod.mk.injEq] at hshown
      obtain ⟨hat, hto, hevents⟩ := hshown
      subst hdeliver
      rw [hlog, hat, hto, hevents, hmirrors]
      have ⟨_, _, _, source, hsource, hevent⟩ := htakes
      have hmem := List.mem_of_find?_eq_some hevent
      constructor
      · intro hcontinues other hother
        obtain rfl := hother.unique hsource hevent
        exact nextAfter_of_between h.ascending h.hydrated hmem hcontinues.symm
      · intro hnext
        have hnext := hnext event htakes
        have hlt := (nextAfter_split h.ascending hnext).1
        rw [Nat.max_eq_right hlt.le]
        exact (between_next h.ascending h.hydrated hnext).symm

end Step

theorem start_coherent {checkId : String} {log : List SopQualityCheckEvent}
    (hlog : Ascending 0 (log.map (·.sequence))) : Coherent (start checkId log) := by
  refine ⟨hlog, Nat.le_refl 0, Nat.zero_le _, fun requestId detail hlookup => ?_⟩
  simp only [start, lookup_cons_eq, List.lookup_nil] at hlookup
  split at hlookup <;> cases hlookup

theorem start_mirrors (checkId : String) (log : List SopQualityCheckEvent) :
    Mirrors (start checkId log) :=
  between_self.symm

/-- All along a run the view has reduced exactly the events of the check between the snapshot of
its last hydration and its cursor, if and only if each event that is taken is the next one after
the cursor. -/
theorem mirrors_iff_takesNext (checkId : String) (log : List SopQualityCheckEvent)
    (hlog : Ascending 0 (log.map (·.sequence))) (turns : List Turn) {s : System}
    (hrun : run step turns (start checkId log) = some s) :
    Throughout step Mirrors turns (start checkId log) ↔
      Along step TakesNext turns (start checkId log) :=
  throughout_iff_along coherent_step mirrors_step (start_coherent hlog)
    (start_mirrors checkId log) hrun

/-- An event of the check, which tells nothing of a node. -/
def plainEvent (type : CheckEventType) (sequence : Nat) : SopQualityCheckEvent where
  checkId := "check"
  sequence := sequence
  type := type
  node := none
  channel := none
  message := none

/-- The view is hydrated, follows the stream, and takes a checkpoint. -/
def untilCheckpoint : List Turn :=
  [.answer 1 .running [] true, .arrive 1, .rerun, .append (plainEvent .checkpoint 1), .deliver]

/-- The answer to the refresh that the checkpoint causes tells of one more event. -/
def untilRefreshed : List Turn :=
  untilCheckpoint ++ [.append (plainEvent .updates 2), .answer 2 .running [] true, .arrive 2]

theorem mirrors_iff_takesNext_checkpoint :
    Throughout step Mirrors untilCheckpoint (start "check" []) ↔
      Along step TakesNext untilCheckpoint (start "check" []) :=
  mirrors_iff_takesNext "check" [] (by simp [Ascending]) untilCheckpoint rfl

/-- The source that is still open fires the event that the snapshot has told of. -/
theorem not_forall_mirrors : ¬ ∀ checkId log turns s, Ascending 0 (log.map (·.sequence)) →
    run step turns (start checkId log) = some s → Mirrors s := by
  intro h
  have hmirrors := h "check" [] (untilRefreshed ++ [.deliver]) _ (by simp [Ascending]) rfl
  exact absurd (congrArg List.length hmirrors) (by decide)

/-- A source that stands at the cursor fires the next event. -/
theorem takesNext_of_position {s : System} {source : EventSource}
    (hsource : s.hook.eventSource = some source) (hposition : source.position = s.hook.cursorRef)
    (turn : Turn) : TakesNext turn s := by
  unfold TakesNext
  split
  · rintro event ⟨-, -, -, source', hsource', hevent⟩
    obtain rfl := Option.some_inj.mp (hsource.symm.trans hsource')
    exact hposition ▸ hevent
  · trivial

end ChangeQuality.CheckMirror
