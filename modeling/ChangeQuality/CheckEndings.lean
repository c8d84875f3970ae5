import ChangeQuality.CheckView

/-!
What the events that end a check leave of the nodes in the view.
-/

namespace ChangeQuality.CheckEndings

open ChangeQuality.Records
open ChangeQuality.CheckView

/-- The view after a sequence of events. -/
def reduceAll (state : SopQualityCheckViewState) (events : List SopQualityCheckEvent) :
    SopQualityCheckViewState :=
  events.foldl reduceSopQualityCheckEvent state

/-- The view shows the node as running. -/
def Running (nodes : List (String × SopQualityNodeState)) (nodeId : String) : Prop :=
  ∃ node, nodes.lookup nodeId = some node ∧ node.status = .running

/-- The view of a check that has ended. -/
def Settled (state : SopQualityCheckViewState) : Prop :=
  state.isRunning = false ∧ ∀ nodeId, ¬ Running state.nodes nodeId

section Endings

variable {state : SopQualityCheckViewState} {event : SopQualityCheckEvent}
  {nodes : List (String × SopQualityNodeState)}

theorem lookup_settleRunningNodes (nodeId : String) :
    (settleRunningNodes nodes).lookup nodeId = (nodes.lookup nodeId).map fun node =>
      if node.status = .running then { node with status := .done } else node := by
  induction nodes with
  | nil => rfl
  | cons entry nodes ih =>
      have hcons : settleRunningNodes (entry :: nodes) =
          (entry.1, if entry.2.status = .running then { entry.2 with status := .done } else entry.2) ::
            settleRunningNodes nodes := rfl
      rw [hcons, lookup_cons_eq, lookup_cons_eq, ih]
      cases hid : nodeId == entry.1 <;> rfl

theorem not_running_settleRunningNodes (nodeId : String) :
    ¬ Running (settleRunningNodes nodes) nodeId := by
  rintro ⟨node, hnode, hrunning⟩
  rw [lookup_settleRunningNodes] at hnode
  obtain ⟨before, -, rfl⟩ := Option.map_eq_some_iff.mp hnode
  by_cases hstatus : before.status = .running <;> simp [hstatus] at hrunning

/-- An event that settles the node it names leaves the others as they are. -/
theorem running_updateEventNode {status : NodeStatus} (hstatus : status ≠ .running)
    (nodeId : String) : Running (updateEventNode state event status).nodes nodeId ↔
      Running state.nodes nodeId ∧ nodeOf event ≠ some nodeId := by
  unfold updateEventNode
  cases hnode : nodeOf event with
  | none => simp
  | some node =>
      by_cases hsame : nodeId = node
      · subst hsame
        simp [Running, updateNode, lookup_put, hstatus]
      · simp [Running, updateNode, lookup_put, hsame, Ne.symm hsame]

theorem settled_updateEventNode {status : NodeStatus} (hstatus : status ≠ .running) :
    (∀ nodeId, ¬ Running (updateEventNode state event status).nodes nodeId) ↔
      ∀ nodeId, Running state.nodes nodeId → nodeOf event = some nodeId := by
  refine forall_congr' fun nodeId => ?_
  rw [running_updateEventNode hstatus, not_and, not_not]

/-- The event completes the check, or names every node that is running. -/
def EndsAll (state : SopQualityCheckViewState) (event : SopQualityCheckEvent) : Prop :=
  event.type = .completed ∨ ∀ nodeId, Running state.nodes nodeId → nodeOf event = some nodeId

theorem settled_reduce (hterminal : isTerminalEvent event = true) :
    Settled (reduceSopQualityCheckEvent state event) ↔ EndsAll state event := by
  have htypes : event.type = .completed ∨ event.type = .failed ∨ event.type = .interrupted := by
    simpa [isTerminalEvent] using hterminal
  unfold Settled EndsAll reduceSopQualityCheckEvent
  rcases htypes with htype | htype | htype
  · simp only [htype, true_or, iff_true, true_and]
    exact fun nodeId => not_running_settleRunningNodes nodeId
  · simp only [htype, reduceCtorEq, false_or, true_and]
    exact settled_updateEventNode (by decide)
  · simp only [htype, reduceCtorEq, false_or, true_and]
    exact settled_updateEventNode (by decide)

/-- Whatever the view was hydrated from and whatever came before, a terminal event settles it exactly
if it completes the check or names every running node. -/
theorem terminal_settles_iff (state : SopQualityCheckViewState) (events : List SopQualityCheckEvent)
    (last : SopQualityCheckEvent) (hterminal : isTerminalEvent last = true) :
    Settled (reduceAll state (events ++ [last])) ↔ EndsAll (reduceAll state events) last := by
  have hlast : reduceAll state (events ++ [last]) =
      reduceSopQualityCheckEvent (reduceAll state events) last := by
    simp [reduceAll]
  rw [hlast]
  exact settled_reduce hterminal

end Endings

/-- An event of a check, with no channel and no message. -/
def eventOf (sequence : Nat) (type : CheckEventType) (node : Option String) :
    SopQualityCheckEvent :=
  { checkId := "c", sequence, type, node, channel := none, message := none }

theorem completed_settles :
    Settled (reduceAll createInitialSopQualityCheckViewState
      ([eventOf 1 .started (some "review_sop")] ++ [eventOf 2 .completed none])) :=
  (terminal_settles_iff _ _ _ rfl).mpr (.inl rfl)

/-- The events of an interrupted start name no node. -/
theorem interrupted_leaves_running :
    isTerminalEvent (eventOf 2 .interrupted none) = true ∧
      ¬ Settled (reduceAll createInitialSopQualityCheckViewState
        ([eventOf 1 .started (some "review_sop")] ++ [eventOf 2 .interrupted none])) := by
  refine ⟨rfl, fun h => h.2 "review_sop" ?_⟩
  exact ⟨_, rfl, rfl⟩

end ChangeQuality.CheckEndings
