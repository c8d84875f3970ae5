import ChangeQuality.NodeProjection

/-!
The nodes of a running check over a history of session events. A message clears the live buffer of
its step but not the thinking mark, and the steps count in the order in which they came first.
-/

namespace ChangeQuality.NodeHistory

open ChangeQuality.Values
open ChangeQuality.Records
open ChangeQuality.SopTables
open ChangeQuality.SessionStream (Event Delta)
open ChangeQuality.SessionView
open ChangeQuality.NodeProjection

def stepMessage (message : SessionMessage) : StepMessage where
  sequence := message.sequence
  role := message.role
  content := some message.content
  additionalKwargs := message.additionalKwargs

def sessionState (state : SessionViewState) : SessionState where
  latestSequence := state.latestSequence
  messages := state.messages.map stepMessage
  liveBuffers := state.liveBuffers
  thinking := state.thinking

/-- A message as the projection reads it. -/
def persisted (message : Message) : StepMessage where
  sequence := message.sequence
  role := message.role
  content := some message.content
  additionalKwargs := message.additionalKwargs

/-- The view after the events, from the messages that were loaded first. -/
def reduced (columns : Columns) (loaded : List Message) (events : List Event) : SessionViewState :=
  events.foldl (reduceSessionStreamEvent columns)
    (hydrateSessionViewState (loaded.map (readMessage columns)))

/-- An event of the stream adds its message, unless the sequence is there. -/
def receive (messages : List Message) : Event → List Message
  | .message m =>
      if messages.any fun existing => existing.sequence = m.sequence then messages
      else messages ++ [m]
  | _ => messages

/-- The messages of the history, in the order in which they were received. -/
def received (loaded : List Message) (events : List Event) : List Message :=
  events.foldl receive loaded

/-- The steps of the messages of the history. -/
def steps (messages : List Message) : List String :=
  stepsOf (messages.map persisted)

def isThinking (delta : Delta) : Bool :=
  (delta.additionalKwargs.get "channel").asStr? = some "thinking"

/-- The step that an event marks as thinking. -/
def markedStep : Event → Option String
  | .messageDelta delta => if isThinking delta then readKey delta.additionalKwargs "step" else none
  | _ => none

/-- The steps that are marked, in the order of their first marks. -/
def markedSteps (events : List Event) : List String :=
  firsts (events.filterMap markedStep)

/-- The event is live text of the step. -/
def Streams (step : String) : Event → Prop
  | .messageDelta delta => isThinking delta = false ∧ delta.content ≠ "" ∧
      readKey delta.additionalKwargs "step" = some step
  | _ => False

/-- A delta of a step that has messages comes before the last of them. -/
def DeltasFirst (loaded : List Message) (events : List Event) : Prop :=
  ∀ before delta after, events = before ++ .messageDelta delta :: after →
    ∀ step ∈ readKey delta.additionalKwargs "step", step ∈ steps (received loaded events) →
      step ∈ steps ((received loaded events).drop (received loaded before).length)

/-- A message of the step is followed by a message of another step. -/
def Passed (messages : List Message) (step : String) : Prop :=
  ∃ other, other ≠ step ∧ [step, other].Sublist (steps messages)

/-- No step that has been passed is shown as running, as thinking, or with other text than that of
its messages. -/
def HidesPassed (columns : Columns) (loaded : List Message) (events : List Event) : Prop :=
  ∀ view, projectSessionStateToSopView (sessionState (reduced columns loaded events)) true =
      some view →
    ∀ step, Passed (received loaded events) step → ∀ node ∈ view.nodes.lookup step,
      node.status = .done ∧ node.thinkingText = none ∧ node.streamText =
        "\n".intercalate (chunksOf ((received loaded events).map persisted) step)

/-- The step that was marked last of all has not been passed; and where none was marked and no
step without a message has live text, the step that was the last to come has not been passed. -/
def LastStepOpen (loaded : List Message) (events : List Event) : Prop :=
  match (markedSteps events).getLast? with
  | some step => ¬ Passed (received loaded events) step
  | none =>
      (∃ step, (∃ event ∈ events, Streams step event) ∧ step ∉ steps (received loaded events)) ∨
        ∀ step, (firsts (steps (received loaded events))).getLast? = some step →
          ¬ Passed (received loaded events) step

section Keys

variable {step : String} {additional : Json}

theorem stepOfKey_eq_some {stepKey : String} :
    stepOfKey stepKey = some step ↔ stepKey = "step:" ++ step := by
  unfold stepOfKey
  rw [Option.map_eq_some_iff]
  constructor
  · rintro ⟨rest, hrest, rfl⟩
    have hchars := List.append_eq_of_isPrefixOf?_eq_some hrest
    rw [← String.toList_inj, String.toList_append, ← hchars]
    simp
  · rintro rfl
    refine ⟨step.toList, ?_, String.ofList_toList⟩
    rw [String.toList_append]
    rfl

theorem stepOfKey_bufferKey : stepOfKey (bufferKey additional) = readKey additional "step" := by
  unfold bufferKey
  split
  · rename_i step hstep
    exact (stepOfKey_eq_some.mpr rfl).trans hstep.symm
  · rename_i turnId hnone hturn
    rw [hnone, stepOfKey, String.toList_append]
    rfl
  · rename_i hnone hturn
    rw [hnone]
    rfl

theorem stepOfKey_injective (a b : String) (ha : (stepOfKey a).isSome)
    (h : stepOfKey a = stepOfKey b) : a = b := by
  obtain ⟨step, hstep⟩ := Option.isSome_iff_exists.mp ha
  exact (stepOfKey_eq_some.mp hstep).trans (stepOfKey_eq_some.mp (h.symm.trans hstep)).symm

theorem bufferKey_eq_iff :
    bufferKey additional = "step:" ++ step ↔ readKey additional "step" = some step := by
  rw [← stepOfKey_eq_some, stepOfKey_bufferKey]

end Keys

section Reducer

variable {columns : Columns} {loaded : List Message} {events : List Event} {e : Event}

theorem reduced_concat : reduced columns loaded (events ++ [e]) =
    reduceSessionStreamEvent columns (reduced columns loaded events) e := by
  simp [reduced]

theorem received_concat :
    received loaded (events ++ [e]) = receive (received loaded events) e := by
  simp [received]

theorem prefix_receive (messages : List Message) (e : Event) : messages <+: receive messages e := by
  cases e with
  | message m =>
      simp only [receive]
      split
      · exact List.prefix_rfl
      · exact List.prefix_append _ _
  | _ => exact List.prefix_rfl

theorem prefix_received (loaded : List Message) (before after : List Event) :
    received loaded before <+: received loaded (before ++ after) := by
  induction after using List.reverseRecOn with
  | nil => simp
  | append_singleton after e ih =>
      rw [← List.append_assoc, received_concat]
      exact ih.trans (prefix_receive _ _)

theorem mem_steps {messages : List Message} {step : String} :
    step ∈ steps messages ↔ ∃ m ∈ messages, readKey m.additionalKwargs "step" = some step := by
  simp [steps, stepsOf, persisted]

theorem steps_subset {messages messages' : List Message} (h : messages ⊆ messages') :
    steps messages ⊆ steps messages' := by
  intro step hstep
  obtain ⟨m, hm, hread⟩ := mem_steps.mp hstep
  exact mem_steps.mpr ⟨m, h hm, hread⟩

theorem steps_append {messages messages' : List Message} :
    steps (messages ++ messages') = steps messages ++ steps messages' := by
  simp [steps, stepsOf]

theorem steps_concat {messages : List Message} {m : Message} : steps (messages ++ [m]) =
    steps messages ++ (readKey m.additionalKwargs "step").toList := by
  rw [steps, List.map_append]
  exact stepsOf_concat

/-- Both drop the same messages. -/
theorem any_sequence_eq {shown : List SessionMessage} {messages : List Message}
    (h : shown.map stepMessage = messages.map persisted) (sequence : Nat) :
    (shown.any fun existing => existing.sequence = sequence) =
      messages.any fun existing => existing.sequence = sequence := by
  have hmap := congrArg (List.any · fun existing => existing.sequence = sequence) h
  rw [List.any_map, List.any_map] at hmap
  exact hmap

theorem reduced_messages : (reduced columns loaded events).messages.map stepMessage =
    (received loaded events).map persisted := by
  induction events using List.reverseRecOn with
  | nil =>
      simp only [reduced, received, List.foldl_nil, hydrateSessionViewState, List.map_map]
      rfl
  | append_singleton events e ih =>
      rw [reduced_concat, received_concat]
      cases e with
      | message m =>
          simp only [reduceSessionStreamEvent, receive, any_sequence_eq ih]
          split
          · exact ih
          · rw [List.map_append, List.map_append, ih]
            rfl
      | messageDelta delta =>
          simp only [reduceSessionStreamEvent]
          split
          · exact ih
          · split <;> exact ih
      | ended status => exact ih

theorem markedSteps_concat : markedSteps (events ++ [e]) =
    (markedStep e).elim (markedSteps events) (note (markedSteps events)) := by
  rw [markedSteps, List.filterMap_append]
  cases h : markedStep e <;> simp [h, markedSteps]

variable (columns) in
theorem keys_thinking : (keys (reduced columns loaded events).thinking).filterMap stepOfKey =
    markedSteps events := by
  induction events using List.reverseRecOn with
  | nil => rfl
  | append_singleton events e ih =>
      rw [reduced_concat, markedSteps_concat]
      cases e with
      | message m =>
          simp only [reduceSessionStreamEvent]
          split <;> exact ih
      | messageDelta delta =>
          simp only [reduceSessionStreamEvent, markedStep, isThinking, decide_eq_true_eq]
          split
          · rw [keys_put, filterMap_note stepOfKey_injective, stepOfKey_bufferKey, ih]
          · split <;> exact ih
      | ended status => exact ih

/-- A step has live text after an event that streams it, and keeps it until its next message. -/
theorem mem_liveBuffers_concat {step : String} :
    "step:" ++ step ∈ keys (reduced columns loaded (events ++ [e])).liveBuffers ↔
      Streams step e ∨ "step:" ++ step ∈ keys (reduced columns loaded events).liveBuffers ∧
        step ∉ steps ((received loaded (events ++ [e])).drop (received loaded events).length) := by
  rw [reduced_concat, received_concat]
  cases e with
  | message m =>
      simp only [reduceSessionStreamEvent, receive, any_sequence_eq reduced_messages, Streams,
        false_or]
      split
      · simp [steps, stepsOf]
      · rw [keys_without, List.drop_left, ← List.nil_append [m], steps_concat, List.mem_filter]
        simp only [bne_iff_ne, steps, stepsOf, List.map_nil, List.filterMap_nil, List.nil_append,
          Option.mem_toList]
        rw [← bufferKey_eq_iff, ne_comm, ne_eq]
  | messageDelta delta =>
      simp only [reduceSessionStreamEvent, receive, Streams, isThinking, decide_eq_false_iff_not]
      split
      · rename_i hthinking
        simp [hthinking, steps, stepsOf]
      · rename_i hthinking
        split
        · rename_i hempty
          simp [hempty, steps, stepsOf]
        · rename_i hcontent
          rw [keys_put, mem_note, ← bufferKey_eq_iff]
          simp [hthinking, hcontent, steps, stepsOf, or_comm, eq_comm]
  | ended status => simp [reduceSessionStreamEvent, receive, Streams, steps, stepsOf]

/-- A step with live text at the end has had no message since. -/
theorem exists_of_mem_liveBuffers {step : String}
    (h : "step:" ++ step ∈ keys (reduced columns loaded events).liveBuffers) :
    ∃ before event after, events = before ++ event :: after ∧ Streams step event ∧
      step ∉ steps ((received loaded events).drop (received loaded before).length) := by
  induction events using List.reverseRecOn with
  | nil => simp [reduced, hydrateSessionViewState, createInitialSessionViewState, keys] at h
  | append_singleton events e ih =>
      rcases mem_liveBuffers_concat.mp h with hstreams | ⟨hold, hnone⟩
      · refine ⟨events, e, [], rfl, hstreams, ?_⟩
        have hsame : received loaded (events ++ [e]) = received loaded events := by
          rw [received_concat]
          cases e with
          | messageDelta delta => rfl
          | _ => exact hstreams.elim
        simp [hsame, steps, stepsOf]
      · obtain ⟨before, event, after, rfl, hstreams, hbefore⟩ := ih hold
        refine ⟨before, event, after ++ [e], by simp, hstreams, ?_⟩
        obtain ⟨rest, hrest⟩ := prefix_received loaded (before ++ event :: after) [e]
        have hlength := (prefix_received loaded before (event :: after)).length_le
        rw [← hrest, List.drop_left] at hnone
        rw [← hrest, List.drop_append_of_le_length hlength, steps_append, List.mem_append]
        exact fun h => h.elim hbefore hnone

variable (columns) in
theorem mem_liveBuffers {step : String} (hstreams : ∃ event ∈ events, Streams step event)
    (hnone : step ∉ steps (received loaded events)) :
    "step:" ++ step ∈ keys (reduced columns loaded events).liveBuffers := by
  induction events using List.reverseRecOn with
  | nil => simp at hstreams
  | append_singleton events e ih =>
      refine mem_liveBuffers_concat.mpr ?_
      obtain ⟨event, hevent, hstreams⟩ := hstreams
      rcases List.mem_append.mp hevent with hold | hlast
      · refine .inr ⟨ih ⟨event, hold, hstreams⟩ ?_, ?_⟩
        · exact fun h => hnone (steps_subset (prefix_received loaded events [e]).subset h)
        · exact fun h => hnone (steps_subset (List.drop_subset _ _) h)
      · exact .inl (List.mem_singleton.mp hlast ▸ hstreams)

end Reducer

/-- The steps of the live buffers, in the order of their keys. -/
def liveSteps (columns : Columns) (loaded : List Message) (events : List Event) : List String :=
  (keys (reduced columns loaded events).liveBuffers).filterMap stepOfKey

/-- The step that the projection takes for the one in progress. -/
def lastSeen (columns : Columns) (loaded : List Message) (events : List Event) : Option String :=
  (markedSteps events).getLast?.or ((liveSteps columns loaded events).getLast?.or
    (firsts (steps (received loaded events))).getLast?)

section Projection

variable {columns : Columns} {loaded : List Message} {events : List Event} {step : String}

theorem Passed.mem {messages : List Message} (h : Passed messages step) : step ∈ steps messages := by
  obtain ⟨other, -, hsublist⟩ := h
  exact hsublist.subset (by simp)

theorem mem_liveSteps : step ∈ liveSteps columns loaded events ↔
    "step:" ++ step ∈ keys (reduced columns loaded events).liveBuffers := by
  simp [liveSteps, stepOfKey_eq_some]

theorem live_not_persisted (hfirst : DeltasFirst loaded events)
    (h : step ∈ liveSteps columns loaded events) : step ∉ steps (received loaded events) := by
  obtain ⟨before, event, after, hevents, hstreams, hnone⟩ :=
    exists_of_mem_liveBuffers (mem_liveSteps.mp h)
  cases event with
  | messageDelta delta =>
      exact fun hstep => hnone (hfirst before delta after hevents step hstreams.2.2 hstep)
  | _ => exact hstreams.elim

variable (columns) in
theorem lastStepOpen_iff (hfirst : DeltasFirst loaded events) : LastStepOpen loaded events ↔
    ∀ step, lastSeen columns loaded events = some step → ¬ Passed (received loaded events) step := by
  unfold LastStepOpen lastSeen
  split
  · rename_i step hmarked
    simp [hmarked]
  · rename_i hmarked
    rw [hmarked, Option.none_or]
    cases hlive : (liveSteps columns loaded events).getLast? with
    | some step =>
        have hmem := List.mem_of_getLast? hlive
        have hnone := live_not_persisted hfirst hmem
        refine iff_of_true (.inl ?_) ?_
        · obtain ⟨before, event, after, rfl, hstreams, -⟩ :=
            exists_of_mem_liveBuffers (mem_liveSteps.mp hmem)
          exact ⟨step, ⟨event, by simp, hstreams⟩, hnone⟩
        · intro other hother hpassed
          obtain rfl := Option.some_inj.mp hother
          exact hnone hpassed.mem
    | none =>
        rw [Option.none_or]
        have hempty : liveSteps columns loaded events = [] := List.getLast?_eq_none_iff.mp hlive
        refine or_iff_right ?_
        rintro ⟨step, hstreams, hnone⟩
        have hmem := mem_liveSteps.mpr (mem_liveBuffers columns hstreams hnone)
        simp [hempty] at hmem

variable (columns) in
/-- What the projection of the view works with. -/
theorem group_reduced (hsteps : ∀ step ∈ steps (received loaded events), step ∉ inherited) :
    ∃ grouping, group (sessionState (reduced columns loaded events)) true =
        some (grouping, lastSeen columns loaded events) ∧
      ∀ step ∈ steps (received loaded events), step ∈ grouping.seenSteps ∧
        grouping.grouped.lookup step =
          some (chunksOf ((received loaded events).map persisted) step) := by
  obtain ⟨grouping, hfold, hcollects⟩ := grouping_collects hsteps
  have hmessages : (sessionState (reduced columns loaded events)).messages =
      (received loaded events).map persisted := reduced_messages
  generalize hsequence : (reduced columns loaded events).latestSequence = latestSequence
  obtain ⟨live, hlive, hlivefold⟩ := seeKeys latestSequence grouping.seenSteps.getLast?
    hcollects.keys (keys (reduced columns loaded events).liveBuffers)
  obtain ⟨marked, hmarked, hmarkedfold⟩ := seeKeys latestSequence _ hlive.keys
    (keys (reduced columns loaded events).thinking)
  refine ⟨marked, ?_, fun step hstep => ?_⟩
  · have hlast : (firsts (steps (received loaded events))).getLast? =
        grouping.seenSteps.getLast? := by rw [hcollects.seen]; rfl
    rw [group, hmessages, hfold, lastSeen, hlast, ← keys_thinking columns]
    simp only [sessionState, hsequence, Option.map_some, if_true, hlivefold]
    exact congrArg some hmarkedfold
  · have hseen : step ∈ grouping.seenSteps := by
      rw [hcollects.seen]
      exact mem_firsts.mpr hstep
    refine ⟨hmarked.seen step (hlive.seen step hseen), ?_⟩
    rw [hmarked.grouped step (hlive.seen step hseen), hlive.grouped step hseen, hcollects.grouped]
    exact if_pos hstep

end Projection

/-- A running check shows no step that has been passed as running exactly when the step that it
takes for the one in progress has not been passed. -/
theorem hides_passed_iff (columns : Columns) (loaded : List Message) (events : List Event)
    (hfirst : DeltasFirst loaded events) : HidesPassed columns loaded events ↔
      ((∀ step ∈ steps (received loaded events), step ∉ inherited) →
        LastStepOpen loaded events) := by
  constructor
  · intro hhides hsteps
    obtain ⟨grouping, hgroup, hknown⟩ := group_reduced columns hsteps
    obtain ⟨view, hview, hlookup⟩ := projection_lookup _ _ hgroup
    refine (lastStepOpen_iff columns hfirst).mpr fun step hlast hpassed => ?_
    have hnode := hhides view hview step hpassed _ (by
      rw [hlookup, if_pos (hknown step hpassed.mem).1]
      exact rfl)
    simp [nodeOf, hlast] at hnode
  · intro hopen view hview step hpassed node hnode
    obtain ⟨found, hgroup, -⟩ := Option.map_eq_some_iff.mp hview
    obtain ⟨grouping, hfold, -⟩ := Option.map_eq_some_iff.mp hgroup
    have hmessages : (sessionState (reduced columns loaded events)).messages =
        (received loaded events).map persisted := reduced_messages
    have hsteps := not_inherited (hmessages ▸ hfold)
    have hlast := (lastStepOpen_iff columns hfirst).mp (hopen hsteps)
    obtain ⟨grouping', hgroup', hknown⟩ := group_reduced columns hsteps
    obtain ⟨view', hview', hlookup⟩ := projection_lookup _ _ hgroup'
    obtain rfl := Option.some_inj.mp (hview.symm.trans hview')
    obtain ⟨hseen, hchunks⟩ := hknown step hpassed.mem
    have hother : ¬ some step = lastSeen columns loaded events :=
      fun h => hlast step h.symm hpassed
    rw [hlookup, if_pos hseen, Option.mem_some_iff] at hnode
    subst hnode
    simp only [nodeOf, hother, and_false, false_and, if_false, hchunks, Option.getD_some, true_and]
    split <;> rfl

theorem deltasFirst_cons {delta : Delta} {later : List Message}
    (hlater : ∀ step ∈ readKey delta.additionalKwargs "step",
      step ∈ steps (received [] (later.map .message))) :
    DeltasFirst [] (.messageDelta delta :: later.map .message) := by
  intro before delta' after hevents step hstep _
  rcases before with _ | ⟨e, before⟩
  · obtain ⟨hdelta, -⟩ := List.cons.inj hevents
    obtain rfl := Event.messageDelta.inj hdelta
    exact hlater step hstep
  · obtain ⟨-, hrest⟩ := List.cons.inj hevents
    have hmem : Event.messageDelta delta' ∈ later.map .message := by simp [hrest]
    simp at hmem

def unlabelled : Columns where
  id _ := ""
  createdAt _ := ""

/-- The review is done, and the summary follows. -/
def answers : List Message := [
  ⟨1, 1, "assistant", "No issues.", .obj [("step", .str "review_sop")]⟩,
  ⟨1, 2, "assistant", "Approved.", .obj [("step", .str "summarize_result")]⟩]

/-- A delta of the review that goes before them. -/
def reviewDelta (channel content : String) : Delta where
  role := "assistant"
  content := content
  additionalKwargs := .obj [("step", .str "review_sop"), ("channel", .str channel)]

theorem review_first (channel content : String) :
    DeltasFirst [] (.messageDelta (reviewDelta channel content) :: answers.map .message) :=
  deltasFirst_cons fun step hstep => by
    obtain rfl : "review_sop" = step := Option.some_inj.mp hstep
    decide

theorem hides_passed_text : HidesPassed unlabelled []
    (.messageDelta (reviewDelta "text" "No") :: answers.map .message) := by
  refine (hides_passed_iff _ _ _ (review_first "text" "No")).mpr fun _ => .inr ?_
  rintro step hstep ⟨other, hother, hsublist⟩
  obtain rfl : "summarize_result" = step := Option.some_inj.mp hstep
  have hlast : ["summarize_result", other].Sublist ["review_sop", "summarize_result"] := hsublist
  rcases List.sublist_cons_iff.mp hlast with hrest | ⟨rest, hrest, -⟩
  · exact absurd hrest.length_le (by simp)
  · exact absurd (List.cons.inj hrest).1 (by decide)

/-- A thinking mark of the review outlives its message. -/
theorem not_forall_hides_passed : ¬ ∀ columns loaded events,
    DeltasFirst loaded events → HidesPassed columns loaded events := by
  intro h
  obtain ⟨view, hview, hlookup⟩ := projection_lookup (sessionState (reduced unlabelled []
    (.messageDelta (reviewDelta "thinking" "") :: answers.map .message))) true rfl
  have hnode := h unlabelled [] _ (review_first "thinking" "") view hview "review_sop"
    ⟨"summarize_result", by decide, by decide⟩ _ (hlookup "review_sop")
  exact absurd hnode.1 (by decide)

end ChangeQuality.NodeHistory
