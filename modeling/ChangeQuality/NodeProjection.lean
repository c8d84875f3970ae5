import ChangeQuality.SessionView
import Mathlib.Algebra.Group.Nat.Defs

/-!
The nodes of a check as they are read off the messages of its session, twice: by
`display_state_from_session_messages` on the server, and by `projectSessionStateToSopView` in the
browser, which also has the live buffers and the thinking marks.
-/

namespace ChangeQuality.NodeProjection

open ChangeQuality.Values
open ChangeQuality.Records
open ChangeQuality.SessionStream (stepOf)
open ChangeQuality.SessionView (readKey)

/-- What the two read of a message. -/
structure StepMessage where
  sequence : Nat
  role : String
  content : Option String
  additionalKwargs : Json

inductive NodeStatus where
  | running
  | done
  deriving DecidableEq

/-- `ordered_steps` and `ORDERED_STEPS`. -/
def orderedSteps : List String :=
  ["load_sop", "review_sop", "summarize_result", "submit_result"]

section Server

structure DisplayNode where
  status : NodeStatus
  streamText : String

structure DisplayState where
  latestSequence : Nat
  nodes : List (String × DisplayNode)
  isRunning : Bool

def stepFromMessage (message : StepMessage) : Option String :=
  message.additionalKwargs.asObj?.bind stepOf

def messageToDisplayDict (message : StepMessage) : Json :=
  .obj [
    ("step", (stepFromMessage message).elim .null .str),
    ("role", .str message.role),
    ("content", message.content.elim .null .str),
    ("additional_kwargs", message.additionalKwargs.asObj?.getD (.obj []))]

/-- `_message_step`. -/
def messageStep (message : Json) : Option String :=
  match (message.get "step").asStr? with
  | some step => some step
  | none => (message.get "additional_kwargs").asObj?.bind stepOf

/-- The local variables of `display_state_from_session_messages`. -/
structure Display where
  grouped : List (String × List String)
  seenOrder : List String

namespace Display

def init : Display where
  grouped := orderedSteps.map fun step => (step, [])
  seenOrder := []

/-- One round of the loop over the messages. -/
def read (display : Display) (message : Json) : Display :=
  match messageStep message with
  | none => display
  | some step =>
      match display.grouped.lookup step with
      | none => display
      | some chunks =>
          match ((message.get "content").orElse (.str "")).asStr? with
          | none => display
          | some content => {
              grouped := put step (chunks ++ [content]) display.grouped
              seenOrder := note display.seenOrder step }

def node (display : Display) (isRunning : Bool) (step : String) : Option (String × DisplayNode) :=
  match (display.grouped.lookup step).getD [] with
  | [] => none
  | chunks => some (step, {
      status := if isRunning ∧ display.seenOrder.getLast? = some step then .running else .done
      streamText := "\n".intercalate chunks })

end Display

def displayStateFromSessionMessages (messages : List Json) (latestSequence : Nat)
    (isRunning : Bool) : DisplayState :=
  let display := messages.foldl Display.read .init
  { latestSequence
    nodes := display.seenOrder.filterMap (display.node isRunning)
    isRunning }

end Server

section Browser

structure SopQualityNodeState where
  status : NodeStatus
  streamText : String
  thinkingText : Option String
  firstSequence : Option Nat

structure SopProjection where
  latestSequence : Nat
  nodes : List (String × SopQualityNodeState)

/-- What the projection reads of a `SessionViewState`. -/
structure SessionState where
  latestSequence : Nat
  messages : List StepMessage
  liveBuffers : List (String × String)
  thinking : List (String × Bool)

/-- `hydrateSessionViewState`. -/
def hydrated (messages : List StepMessage) : SessionState where
  latestSequence := messages.foldl (fun max message => Nat.max max message.sequence) 0
  messages := messages
  liveBuffers := []
  thinking := []

/-- What `step in grouped` finds in an object that has no such entry. -/
def inherited : List String :=
  ["constructor", "__defineGetter__", "__defineSetter__", "hasOwnProperty", "__lookupGetter__",
    "__lookupSetter__", "isPrototypeOf", "propertyIsEnumerable", "toString", "valueOf",
    "__proto__", "toLocaleString"]

/-- The local variables that collect the steps. -/
structure Grouping where
  seenSteps : List String
  grouped : List (String × List String)
  firstSequence : List (String × Nat)

namespace Grouping

def init : Grouping where
  seenSteps := []
  grouped := []
  firstSequence := []

/-- `if (!(step in grouped))`. -/
def see (grouping : Grouping) (step : String) (sequence : Nat) : Grouping :=
  if step ∈ inherited ∨ step ∈ keys grouping.grouped then grouping
  else {
    seenSteps := grouping.seenSteps ++ [step]
    grouped := put step [] grouping.grouped
    firstSequence := put step sequence grouping.firstSequence }

/-- `grouped[step].push`, which is no function on what an object inherits. -/
def push (grouping : Grouping) (step content : String) : Option Grouping :=
  (grouping.grouped.lookup step).map fun chunks =>
    { grouping with grouped := put step (chunks ++ [content]) grouping.grouped }

def addMessage (grouping : Grouping) (message : StepMessage) : Option Grouping :=
  match readKey message.additionalKwargs "step" with
  | none => some grouping
  | some step => (grouping.see step message.sequence).push step (message.content.getD "")

end Grouping

/-- `stepKey.slice("step:".length)`, of a key that starts with it. -/
def stepOfKey (stepKey : String) : Option String :=
  ("step:".toList.isPrefixOf? stepKey.toList).map String.ofList

/-- One round of the loops over the keys of the live buffers and of the marks. -/
def seeKey (latestSequence : Nat) (found : Grouping × Option String) (stepKey : String) :
    Grouping × Option String :=
  match stepOfKey stepKey with
  | none => found
  | some step => (found.1.see step (latestSequence + 1), some step)

def sortSteps (seen : List String) (firstSequence : List (String × Nat)) : List String :=
  let sequenceOf step := (firstSequence.lookup step).getD (2 ^ 53 - 1)
  orderedSteps.filter (· ∈ seen) ++
    (seen.filter (· ∉ orderedSteps)).mergeSort fun left right =>
      sequenceOf left ≤ sequenceOf right

def nodeOf (sessionState : SessionState) (isRunning : Bool) (grouping : Grouping)
    (lastSeen : Option String) (step : String) : SopQualityNodeState :=
  let persistedChunks := (grouping.grouped.lookup step).getD []
  let isLast := isRunning ∧ some step = lastSeen
  let liveText := sessionState.liveBuffers.lookup ("step:" ++ step)
  let isThinking := sessionState.thinking.lookup ("step:" ++ step) = some true
  { status := if isLast then .running else .done
    streamText :=
      match liveText with
      | some text => if isLast then text else "\n".intercalate persistedChunks
      | none => "\n".intercalate persistedChunks
    thinkingText := if isLast ∧ isThinking then some "思考中" else none
    firstSequence := grouping.firstSequence.lookup step }

/-- The steps of the messages and, for a running check, those of the live keys. -/
def group (sessionState : SessionState) (isRunning : Bool) :
    Option (Grouping × Option String) :=
  (sessionState.messages.foldlM Grouping.addMessage .init).map fun grouping =>
    let found := (grouping, grouping.seenSteps.getLast?)
    if isRunning then
      (keys sessionState.thinking).foldl (seeKey sessionState.latestSequence)
        ((keys sessionState.liveBuffers).foldl (seeKey sessionState.latestSequence) found)
    else found

def projectSessionStateToSopView (sessionState : SessionState) (isRunning : Bool) :
    Option SopProjection :=
  (group sessionState isRunning).map fun (grouping, lastSeen) => {
    latestSequence := sessionState.messages.foldl
      (fun max message => Nat.max max message.sequence) sessionState.latestSequence
    nodes := (sortSteps grouping.seenSteps grouping.firstSequence).map fun step =>
      (step, nodeOf sessionState isRunning grouping lastSeen step) }

end Browser

/-- The steps of the messages, in order. -/
def stepsOf (messages : List StepMessage) : List String :=
  messages.filterMap fun message => readKey message.additionalKwargs "step"

/-- The contents of the messages of a step. -/
def chunksOf (messages : List StepMessage) (step : String) : List String :=
  messages.filterMap fun message =>
    if readKey message.additionalKwargs "step" = some step then some (message.content.getD "")
    else none

section Messages

variable {messages : List StepMessage} {message : StepMessage} {step : String}

theorem stepsOf_concat : stepsOf (messages ++ [message]) =
    stepsOf messages ++ (readKey message.additionalKwargs "step").toList := by
  simp only [stepsOf, List.filterMap_append]
  cases h : readKey message.additionalKwargs "step" <;> simp [h]

theorem chunksOf_concat : chunksOf (messages ++ [message]) step = chunksOf messages step ++
    if readKey message.additionalKwargs "step" = some step then [message.content.getD ""]
    else [] := by
  simp only [chunksOf, List.filterMap_append]
  split <;> simp_all

theorem chunksOf_ne_nil : chunksOf messages step ≠ [] ↔ step ∈ stepsOf messages := by
  simp [chunksOf, stepsOf, List.filterMap_eq_nil_iff]

theorem chunksOf_eq_nil (h : step ∉ stepsOf messages) : chunksOf messages step = [] :=
  not_not.mp fun hne => h (chunksOf_ne_nil.mp hne)

end Messages

/-- What the loop of the server has collected. -/
structure Display.Collects (display : Display) (messages : List StepMessage) : Prop where
  seen : display.seenOrder = firsts (stepsOf messages)
  grouped : ∀ step, display.grouped.lookup step =
    if step ∈ orderedSteps then some (chunksOf messages step) else none

/-- What the loop of the browser has collected. -/
structure Grouping.Collects (grouping : Grouping) (messages : List StepMessage) : Prop where
  seen : grouping.seenSteps = firsts (stepsOf messages)
  keys : keys grouping.grouped = grouping.seenSteps
  grouped : ∀ step, grouping.grouped.lookup step =
    if step ∈ stepsOf messages then some (chunksOf messages step) else none

section Server

variable {messages : List StepMessage} {message : StepMessage} {display : Display}

theorem stepFromMessage_eq : stepFromMessage message = stepOf message.additionalKwargs := by
  unfold stepFromMessage
  cases message.additionalKwargs <;> rfl

theorem messageStep_toDisplayDict :
    messageStep (messageToDisplayDict message) = stepOf message.additionalKwargs := by
  have hdict : (message.additionalKwargs.asObj?.getD (.obj [])).asObj?.bind stepOf =
      stepOf message.additionalKwargs := by
    cases message.additionalKwargs <;> rfl
  unfold messageStep messageToDisplayDict
  rw [stepFromMessage_eq]
  cases hstep : stepOf message.additionalKwargs with
  | none => exact hdict.trans hstep
  | some step => rfl

theorem content_toDisplayDict :
    (((messageToDisplayDict message).get "content").orElse (.str "")).asStr? =
      some (message.content.getD "") := by
  change ((message.content.elim Json.null Json.str).orElse (.str "")).asStr? = _
  cases message.content with
  | none => rfl
  | some content =>
      by_cases hempty : content = ""
      · subst hempty
        rfl
      · simp [Json.orElse, Json.truthy, Json.asStr?, hempty]

/-- The steps of the messages are absent, or among the nodes of the graph. -/
def Known (messages : List StepMessage) : Prop :=
  ∀ message ∈ messages, ∀ step ∈ stepOf message.additionalKwargs, step ∈ orderedSteps

theorem readKey_eq_of_known (h : ∀ step ∈ stepOf message.additionalKwargs, step ∈ orderedSteps) :
    readKey message.additionalKwargs "step" = stepOf message.additionalKwargs := by
  unfold readKey
  change (stepOf message.additionalKwargs).filter _ = _
  cases hstep : stepOf message.additionalKwargs with
  | none => rfl
  | some step =>
      have hne : step ≠ "" := by
        rintro rfl
        exact absurd (h "" hstep) (by decide)
      simp [hne]

theorem Display.Collects.read (h : display.Collects messages)
    (hknown : ∀ step ∈ stepOf message.additionalKwargs, step ∈ orderedSteps) :
    (display.read (messageToDisplayDict message)).Collects (messages ++ [message]) := by
  have hkey := readKey_eq_of_known hknown
  unfold Display.read
  rw [messageStep_toDisplayDict, content_toDisplayDict]
  cases hstep : stepOf message.additionalKwargs with
  | none =>
      rw [hstep] at hkey
      refine ⟨?_, fun step => ?_⟩
      · simp [stepsOf_concat, hkey, h.seen]
      · simp [chunksOf_concat, hkey, h.grouped]
  | some step =>
      rw [hstep] at hkey
      simp only [h.grouped step, if_pos (hknown step hstep)]
      refine ⟨?_, fun other => ?_⟩
      · simp [stepsOf_concat, hkey, h.seen]
      · rw [lookup_put, chunksOf_concat, hkey, h.grouped]
        by_cases hother : other = step
        · simp [hother, hknown step hstep]
        · simp [hother, Ne.symm hother]

theorem display_collects (hknown : Known messages) :
    ((messages.map messageToDisplayDict).foldl Display.read .init).Collects messages := by
  induction messages using List.reverseRecOn with
  | nil =>
      refine ⟨rfl, fun step => ?_⟩
      exact lookup_map (fun _ => []) orderedSteps
  | append_singleton messages message ih =>
      rw [List.map_append, List.foldl_append]
      refine Display.Collects.read (ih fun m hm => hknown m (by simp [hm])) ?_
      exact hknown message (by simp)

theorem known_steps (hknown : Known messages) {step : String} (h : step ∈ stepsOf messages) :
    step ∈ orderedSteps := by
  obtain ⟨message, hmessage, hstep⟩ := List.mem_filterMap.mp h
  have hread := readKey_eq_of_known (hknown message hmessage)
  exact hknown message hmessage step (hread ▸ hstep)

theorem displayState_nodes (hknown : Known messages) (latestSequence : Nat) (isRunning : Bool) :
    (displayStateFromSessionMessages (messages.map messageToDisplayDict) latestSequence
        isRunning).nodes =
      (firsts (stepsOf messages)).map fun step => (step, {
        status := if isRunning ∧ (firsts (stepsOf messages)).getLast? = some step then .running
          else .done
        streamText := "\n".intercalate (chunksOf messages step) }) := by
  have hcollects := display_collects hknown
  unfold displayStateFromSessionMessages
  generalize (messages.map messageToDisplayDict).foldl Display.read .init = display at hcollects
  change display.seenOrder.filterMap (display.node isRunning) = _
  rw [hcollects.seen, ← List.filterMap_eq_map]
  refine List.filterMap_congr fun step hstep => ?_
  have hmem := mem_firsts.mp hstep
  have hchunks := chunksOf_ne_nil.mpr hmem
  unfold Display.node
  rw [hcollects.grouped, if_pos (known_steps hknown hmem), hcollects.seen]
  split
  · rename_i hempty
    exact absurd hempty hchunks
  · rfl

theorem displayState_lookup (hknown : Known messages) (latestSequence : Nat) (isRunning : Bool)
    (step : String) :
    (displayStateFromSessionMessages (messages.map messageToDisplayDict) latestSequence
        isRunning).nodes.lookup step =
      if step ∈ stepsOf messages then some {
        status := if isRunning ∧ (firsts (stepsOf messages)).getLast? = some step then .running
          else .done
        streamText := "\n".intercalate (chunksOf messages step) }
      else none := by
  simp only [displayState_nodes hknown, lookup_map, mem_firsts]

end Server

section Browser

variable {messages : List StepMessage} {message : StepMessage} {step : String}
variable {grouping : Grouping} {sequence : Nat}

theorem see_inherited (h : step ∈ inherited) : grouping.see step sequence = grouping :=
  if_pos (.inl h)

/-- What the loops do to a step that no object inherits. -/
theorem see_eq (sequence : Nat) (h : step ∉ inherited)
    (hkeys : keys grouping.grouped = grouping.seenSteps) :
    (grouping.see step sequence).seenSteps = note grouping.seenSteps step ∧
      keys (grouping.see step sequence).grouped = (grouping.see step sequence).seenSteps ∧
      ∀ other, (grouping.see step sequence).grouped.lookup other =
        if other = step then some ((grouping.grouped.lookup step).getD [])
        else grouping.grouped.lookup other := by
  unfold Grouping.see note
  rw [hkeys]
  split
  · rename_i hold
    have hmem := hold.resolve_left h
    obtain ⟨chunks, hchunks⟩ := Option.isSome_iff_exists.mp (mem_keys_iff.mp (hkeys ▸ hmem))
    refine ⟨(if_pos hmem).symm, hkeys, fun other => ?_⟩
    split
    · rename_i hsame
      rw [hsame, hchunks]
      rfl
    · rfl
  · rename_i hnew
    have hmem : step ∉ grouping.seenSteps := fun hmem => hnew (.inr hmem)
    have hnone : grouping.grouped.lookup step = none := by
      rw [← Option.not_isSome_iff_eq_none, ← mem_keys_iff, hkeys]
      exact hmem
    refine ⟨(if_neg hmem).symm, ?_, fun other => ?_⟩
    · rw [keys_put, hkeys, note, if_neg hmem]
    · rw [lookup_put, hnone]
      simp

theorem Grouping.Collects.addMessage (h : grouping.Collects messages)
    (hstep : ∀ step ∈ readKey message.additionalKwargs "step", step ∉ inherited) :
    ∃ grouping', grouping.addMessage message = some grouping' ∧
      grouping'.Collects (messages ++ [message]) := by
  unfold Grouping.addMessage
  cases hread : readKey message.additionalKwargs "step" with
  | none =>
      refine ⟨grouping, rfl, ?_, h.keys, fun other => ?_⟩
      · simp [stepsOf_concat, hread, h.seen]
      · simp [stepsOf_concat, chunksOf_concat, hread, h.grouped]
  | some step =>
      obtain ⟨hseen, hkeys, hgrouped⟩ :=
        see_eq message.sequence (hstep step hread) h.keys
      have hchunks : (grouping.grouped.lookup step).getD [] = chunksOf messages step := by
        rw [h.grouped]
        split
        · rfl
        · rename_i hnew
          exact (chunksOf_eq_nil hnew).symm
      have hpushed := hgrouped step
      rw [if_pos rfl, hchunks] at hpushed
      have hmem : step ∈ (grouping.see step message.sequence).seenSteps := by
        rw [hseen, mem_note]
        exact .inr rfl
      refine ⟨_, congrArg (Option.map _) hpushed, ?_, ?_, fun other => ?_⟩
      · simp [stepsOf_concat, hread, hseen, h.seen]
      · rw [keys_put, hkeys, note, if_pos hmem]
      · rw [lookup_put, stepsOf_concat, chunksOf_concat, hread, hgrouped]
        by_cases hother : other = step
        · simp [hother]
        · simp [hother, Ne.symm hother, h.grouped]

theorem grouping_collects
    (hsteps : ∀ step ∈ stepsOf messages, step ∉ inherited) :
    ∃ grouping, messages.foldlM Grouping.addMessage .init = some grouping ∧
      grouping.Collects messages := by
  induction messages using List.reverseRecOn with
  | nil => exact ⟨.init, rfl, rfl, rfl, fun step => rfl⟩
  | append_singleton messages message ih =>
      simp only [stepsOf_concat, List.mem_append, Option.mem_toList] at hsteps
      obtain ⟨grouping, hfold, hcollects⟩ := ih fun step hstep => hsteps step (.inl hstep)
      obtain ⟨grouping', hadd, hcollects'⟩ :=
        hcollects.addMessage fun step hstep => hsteps step (.inr hstep)
      refine ⟨grouping', ?_, hcollects'⟩
      rw [List.foldlM_append, hfold]
      simpa using hadd

/-- A message whose step every object has stops the projection with an error. -/
theorem not_inherited (h : messages.foldlM Grouping.addMessage .init = some grouping) :
    ∀ step ∈ stepsOf messages, step ∉ inherited := by
  induction messages using List.reverseRecOn generalizing grouping with
  | nil => simp [stepsOf]
  | append_singleton messages message ih =>
      rw [List.foldlM_append] at h
      obtain ⟨before, hbefore, hadd⟩ := Option.bind_eq_some_iff.mp h
      have hsteps := ih hbefore
      obtain ⟨before', hfold, hcollects⟩ := grouping_collects hsteps
      obtain rfl := Option.some_inj.mp (hbefore.symm.trans hfold)
      rw [stepsOf_concat]
      intro step hstep
      rcases List.mem_append.mp hstep with hold | hlast
      · exact hsteps step hold
      · intro hinherited
        have hread := Option.mem_toList.mp hlast
        have hnone : before.grouped.lookup step = none := by
          rw [hcollects.grouped]
          exact if_neg fun hold => hsteps step hold hinherited
        have hadd : before.addMessage message = some grouping := by simpa using hadd
        rw [Grouping.addMessage, hread] at hadd
        simp [Grouping.push, see_inherited hinherited, hnone] at hadd

theorem mem_sortSteps {seen : List String} {firstSequence : List (String × Nat)} :
    step ∈ sortSteps seen firstSequence ↔ step ∈ seen := by
  simp only [sortSteps, List.mem_append, List.mem_mergeSort, List.mem_filter, decide_eq_true_eq]
  by_cases h : step ∈ orderedSteps <;> simp [h]

theorem projection_lookup (sessionState : SessionState) (isRunning : Bool)
    {lastSeen : Option String} (h : group sessionState isRunning = some (grouping, lastSeen)) :
    ∃ view, projectSessionStateToSopView sessionState isRunning = some view ∧
      ∀ step, view.nodes.lookup step =
        if step ∈ grouping.seenSteps
        then some (nodeOf sessionState isRunning grouping lastSeen step) else none := by
  refine ⟨_, by rw [projectSessionStateToSopView, h]; rfl, fun step => ?_⟩
  simp only [lookup_map, mem_sortSteps]

/-- The loops over the live keys add steps, and change nothing of those that are there. -/
structure Grouping.Extends (grouping grouping' : Grouping) : Prop where
  keys : keys grouping'.grouped = grouping'.seenSteps
  seen : ∀ step ∈ grouping.seenSteps, step ∈ grouping'.seenSteps
  grouped : ∀ step ∈ grouping.seenSteps,
    grouping'.grouped.lookup step = grouping.grouped.lookup step

theorem Grouping.Extends.see {grouping' : Grouping} (h : grouping.Extends grouping') :
    grouping.Extends (grouping'.see step sequence) := by
  by_cases hinherited : step ∈ inherited
  · rw [see_inherited hinherited]
    exact h
  · obtain ⟨hseen, hkeys, hgrouped⟩ := see_eq sequence hinherited h.keys
    refine ⟨hkeys, fun other hother => ?_, fun other hother => ?_⟩
    · rw [hseen, mem_note]
      exact .inl (h.seen other hother)
    · rw [hgrouped, ← h.grouped other hother]
      split
      · rename_i hsame
        subst hsame
        have hsome := mem_keys_iff.mp (h.keys.symm ▸ h.seen other hother)
        obtain ⟨chunks, hchunks⟩ := Option.isSome_iff_exists.mp hsome
        rw [hchunks]
        rfl
      · rfl

theorem seeKeys (latestSequence : Nat) (lastSeen : Option String)
    (hkeys : keys grouping.grouped = grouping.seenSteps) (stepKeys : List String) :
    ∃ grouping', grouping.Extends grouping' ∧
      stepKeys.foldl (seeKey latestSequence) (grouping, lastSeen) =
        (grouping', (stepKeys.filterMap stepOfKey).getLast?.or lastSeen) := by
  induction stepKeys using List.reverseRecOn with
  | nil => exact ⟨grouping, ⟨hkeys, fun _ h => h, fun _ _ => rfl⟩, rfl⟩
  | append_singleton stepKeys stepKey ih =>
      obtain ⟨grouping', hextends, hfold⟩ := ih
      rw [List.foldl_append, List.filterMap_append, hfold]
      cases hkey : stepOfKey stepKey with
      | none => exact ⟨grouping', hextends, by simp [seeKey, hkey]⟩
      | some step => exact ⟨_, hextends.see, by simp [seeKey, hkey]; rfl⟩

end Browser

/-- What a node of the browser has in common with one of the server. -/
def SopQualityNodeState.display (node : SopQualityNodeState) : DisplayNode where
  status := node.status
  streamText := node.streamText

/-- The server and the browser show the same nodes for a session that is read from the start. -/
theorem nodes_agree (messages : List StepMessage) (hknown : Known messages)
    (latestSequence : Nat) (isRunning : Bool) :
    ∃ view, projectSessionStateToSopView (hydrated messages) isRunning = some view ∧
      ∀ step,
        (displayStateFromSessionMessages (messages.map messageToDisplayDict) latestSequence
            isRunning).nodes.lookup step =
          (view.nodes.lookup step).map SopQualityNodeState.display := by
  have hsteps : ∀ step ∈ stepsOf messages, step ∉ inherited := fun step hstep =>
    (by decide : ∀ step ∈ orderedSteps, step ∉ inherited) step (known_steps hknown hstep)
  obtain ⟨grouping, hfold, hcollects⟩ := grouping_collects hsteps
  have hgroup : group (hydrated messages) isRunning =
      some (grouping, grouping.seenSteps.getLast?) := by
    simp only [group, hydrated, hfold, Option.map_some]
    cases isRunning <;> rfl
  obtain ⟨view, hview, hlookup⟩ := projection_lookup _ _ hgroup
  refine ⟨view, hview, fun step => ?_⟩
  rw [displayState_lookup hknown, hlookup, hcollects.seen]
  simp only [mem_firsts]
  split
  · rename_i hmem
    simp only [Option.map_some, SopQualityNodeState.display, nodeOf, hydrated, List.lookup_nil,
      hcollects.grouped, if_pos hmem, Option.getD_some, eq_comm]
  · rfl

/-- Steps that come again, a message without content and one without a step. -/
def repeated : List StepMessage := [
  ⟨1, "assistant", some "Loaded.", .obj [("step", .str "load_sop")]⟩,
  ⟨2, "assistant", none, .obj [("step", .str "review_sop")]⟩,
  ⟨3, "user", some "Again.", .obj []⟩,
  ⟨4, "assistant", some "Reloaded.", .obj [("step", .str "load_sop")]⟩]

theorem repeated_known : Known repeated := by
  have hsteps : repeated.all fun message =>
      (stepOf message.additionalKwargs).all (· ∈ orderedSteps) := by decide
  intro message hmessage step hstep
  have hall := List.all_eq_true.mp hsteps message hmessage
  rw [Option.mem_def.mp hstep] at hall
  simpa using hall

theorem nodes_agree_repeated : ∃ view,
    projectSessionStateToSopView (hydrated repeated) true = some view ∧ ∀ step,
      (displayStateFromSessionMessages (repeated.map messageToDisplayDict) 4 true).nodes.lookup
          step = (view.nodes.lookup step).map SopQualityNodeState.display :=
  nodes_agree repeated repeated_known 4 true

end ChangeQuality.NodeProjection
