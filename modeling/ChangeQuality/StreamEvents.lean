import ChangeQuality.JsonConverters

/-!
The events that the chunks of a graph's stream are turned into.
-/

namespace ChangeQuality.StreamEvents

open ChangeQuality.Records
open ChangeQuality.JsonConverters

/-- The only exception of the code: a mapping has no entry for a key. -/
inductive StreamError where
  | keyError (key : String)
  deriving DecidableEq

/-- A `JsonObject` by its entries. -/
abbrev JsonObject := List (String × Value)

structure StreamEvent where
  runId : String
  threadId : String
  sequence : Int
  type : String
  node : Option String
  checkpointId : Option String
  taskId : Option String
  payload : JsonObject

/-- A missing id stands for a missing entry. -/
structure RuntimeEvent where
  type : String
  node : String
  payload : JsonObject
  checkpointId : Option String
  taskId : Option String

def supportedEventTypes : List String :=
  ["tasks", "messages", "updates", "custom", "checkpoints", "error", "done"]

/-- `mapping.get(key)` on the entries of a mapping. -/
def get (entries : List (Value × Value)) (key : String) : Option Value :=
  (entries.find? fun entry =>
    match entry.1 with
    | .str text => text == key
    | _ => false).map Prod.snd

/-- `isinstance(value, Sequence) and not isinstance(value, str | bytes)`. -/
def items? : Value → Option (List Value)
  | .list items | .tuple items | .sequence items => some items
  | _ => none

/-- `_is_message_tuple`, with the first two items. -/
def messageTuple? (chunk : Value) : Option (Value × Value) :=
  match items? chunk with
  | some (message :: metadata :: _) => some (message, metadata)
  | _ => none

/-- `_string_or_none`. -/
def stringOrNone : Option Value → Option String
  | some (.str text) => some text
  | _ => none

/-- The entries of `metadata` in a chunk that is a mapping. -/
def mappingMetadata (chunk : Value) : List (Value × Value) :=
  match chunk with
  | .mapping _ entries =>
      match get entries "metadata" with
      | some (.mapping _ metadata) => metadata
      | _ => []
  | _ => []

/-- `_extract_metadata`. -/
def extractMetadata (chunk : Value) : List (Value × Value) :=
  match messageTuple? chunk with
  | some (_, .mapping _ metadata) => metadata
  | _ => mappingMetadata chunk

/-- The first of the names that has a string for its value. -/
def firstString (entries : List (Value × Value)) : List String → Option String
  | [] => none
  | name :: names =>
      match stringOrNone (get entries name) with
      | some text => some text
      | none => firstString entries names

/-- The only key of a chunk, if it is a string. -/
def onlyKey : Value → Option String
  | .mapping _ [(.str key, _)] => some key
  | _ => none

/-- `_extract_node`. -/
def extractNode (eventType : String) (chunk : Value) : Option String :=
  match firstString (extractMetadata chunk) ["langgraph_node", "node"] with
  | some node => some node
  | none =>
      match if eventType = "updates" then onlyKey chunk else none with
      | some key => some key
      | none =>
          match chunk with
          | .mapping _ entries => stringOrNone (get entries "node")
          | _ => none

/-- `_text_block_delta`. -/
def textBlockDelta : Value → Option String
  | .str text => some text
  | .mapping _ entries => stringOrNone (get entries "text")
  | _ => none

/-- `_content_delta`. -/
def contentDelta (content : Value) : Option String :=
  match content with
  | .str text => some text
  | content =>
      match items? content with
      | none => none
      | some blocks =>
          let parts := (blocks.filterMap textBlockDelta).filter (· != "")
          if parts = [] then none else some (String.join parts)

/-- `getattr(value, "content", None)`. -/
def contentAttribute : Value → Value
  | .model _ _ _ _ content | .object _ _ _ content => content
  | _ => .none

/-- `_message_delta`. -/
def messageDelta (chunk : Value) : Option String :=
  let message := ((messageTuple? chunk).map Prod.fst).getD chunk
  match message with
  | .str text => some text
  | .mapping _ entries => contentDelta ((get entries "content").getD .none)
  | message => contentDelta (contentAttribute message)

section Events

variable (rendering : Rendering)

/-- `_build_payload` after its first branch. -/
def plainPayload (eventType : String) (chunk : Value) : JsonObject :=
  if eventType = "error" then
    [("error", streamJsonSafe rendering chunk), ("raw", streamJsonSafe rendering chunk)]
  else if eventType = "done" then
    [("status", .str "done"), ("raw", streamJsonSafe rendering chunk)]
  else [("raw", streamJsonSafe rendering chunk)]

/-- `_build_payload`. -/
def buildPayload (eventType : String) (chunk : Value) (node : Option String) :
    Except StreamError JsonObject :=
  match eventType == "updates", node, chunk with
  | true, some node, .mapping isDict entries =>
      if node = "" then .ok (plainPayload rendering eventType chunk)
      else
        match get entries node with
        | some update => .ok [
            ("node", .str node),
            ("update", streamJsonSafe rendering update),
            ("raw", streamJsonSafe rendering (.mapping isDict entries))]
        | none => .error (.keyError node)
  | _, _, _ => .ok (plainPayload rendering eventType chunk)

/-- `normalize_langgraph_chunk`. -/
def normalizeLanggraphChunk (chunkType : String) (chunk : Value) (runId threadId : String)
    (sequence : Int) : Except StreamError StreamEvent := do
  let eventType := if chunkType ∈ supportedEventTypes then chunkType else "custom"
  let node := extractNode eventType chunk
  let payload ← buildPayload rendering eventType chunk node
  let metadata := extractMetadata chunk
  return {
    runId, threadId, sequence, type := eventType, node
    checkpointId := stringOrNone (get metadata "checkpoint_id")
    taskId := stringOrNone (get metadata "task_id")
    payload }

/-- `None` or a string. -/
def optionalText : Option String → Value
  | some text => .str text
  | none => .none

/-- `runtime_stream_event`. -/
def runtimeStreamEvent (chunkType : String) (chunk : Value) : Except StreamError RuntimeEvent := do
  let event ← normalizeLanggraphChunk rendering chunkType chunk "" "" 0
  let payload :=
    if chunkType = "messages" then put "delta" (optionalText (messageDelta chunk)) event.payload
    else event.payload
  return {
    type := event.type
    node := if event.node.getD "" = "" then "agent" else event.node.getD ""
    payload
    checkpointId := event.checkpointId
    taskId := event.taskId }

end Events

/-- The node that the metadata of a mapping names. -/
def metadataNode (entries : List (Value × Value)) : Option String :=
  match get entries "metadata" with
  | some (.mapping _ metadata) =>
      (stringOrNone (get metadata "langgraph_node")).or (stringOrNone (get metadata "node"))
  | _ => none

/-- A mapping names a node in its metadata, or else, with more than one entry, in a field. -/
def Names (entries : List (Value × Value)) (node : String) : Prop :=
  metadataNode entries = some node ∨
    metadataNode entries = none ∧ entries.length ≠ 1 ∧ get entries "node" = some (.str node)

/-- An update names a node, and has no entry for it. -/
def Dangling (chunkType : String) (chunk : Value) : Prop :=
  chunkType = "updates" ∧ ∃ isDict entries node, chunk = .mapping isDict entries ∧
    Names entries node ∧ node ≠ "" ∧ get entries node = none

/-- A payload that is a JSON object. -/
def JsonPayload (payload : JsonObject) : Prop :=
  IsJson (.mapping true (payload.map fun entry => (.str entry.1, entry.2)))

section Events

variable {rendering : Rendering} {eventType chunkType : String} {chunk : Value}
  {node : Option String} {payload : JsonObject}

theorem jsonPayload_iff :
    JsonPayload payload ↔ (keys payload).Nodup ∧ ∀ entry ∈ payload, IsJson entry.2 := by
  have hkeys : (payload.map fun entry => (Value.str entry.1, entry.2)).map Prod.fst =
      (keys payload).map .str := by
    simp [keys, Function.comp_def]
  rw [JsonPayload, IsJson, jsonEntries_iff, hkeys]
  refine and_congr_left fun _ => ⟨List.Nodup.of_map _, fun h => ?_⟩
  exact h.map fun a b hab => Value.str.inj hab

theorem isJson_streamJsonSafe (value : Value) : IsJson (streamJsonSafe rendering value) :=
  isJson_convert value

theorem jsonPayload_plainPayload : JsonPayload (plainPayload rendering eventType chunk) := by
  rw [jsonPayload_iff]
  unfold plainPayload
  split
  · simp [keys, isJson_streamJsonSafe]
  · split <;> simp [keys, isJson_streamJsonSafe, IsJson]

/-- Every payload is a JSON object. -/
theorem jsonPayload_buildPayload (h : buildPayload rendering eventType chunk node = .ok payload) :
    JsonPayload payload := by
  unfold buildPayload at h
  split at h
  · split at h
    · exact Except.ok.inj h ▸ jsonPayload_plainPayload
    · split at h
      · obtain rfl := Except.ok.inj h
        rw [jsonPayload_iff]
        simp [keys, isJson_streamJsonSafe, IsJson]
      · cases h
  · exact Except.ok.inj h ▸ jsonPayload_plainPayload

/-- The payload fails exactly for an update whose node is a name that it has no entry for. -/
theorem buildPayload_error_iff :
    (∃ error, buildPayload rendering eventType chunk node = .error error) ↔
      eventType = "updates" ∧ ∃ isDict entries name, chunk = .mapping isDict entries ∧
        node = some name ∧ name ≠ "" ∧ get entries name = none := by
  unfold buildPayload
  split
  next name isDict entries heq =>
    have hupdates : eventType = "updates" := eq_of_beq heq
    by_cases hempty : name = ""
    · simp [hempty]
    · cases hget : get entries name with
      | none => simp [hempty, hupdates, hget]
      | some update => simp [hempty, hget]
  next hother =>
    refine iff_of_false (by simp) ?_
    rintro ⟨rfl, isDict, entries, name, rfl, rfl, -⟩
    exact hother name isDict entries rfl rfl rfl

theorem stringOrNone_eq_some {value : Option Value} {text : String} :
    stringOrNone value = some text ↔ value = some (.str text) := by
  unfold stringOrNone
  split <;> simp_all

theorem get_node_of_onlyKey {key : String} (h : onlyKey chunk = some key) :
    ∃ isDict entries, chunk = .mapping isDict entries ∧ (get entries key).isSome = true := by
  unfold onlyKey at h
  split at h
  next isDict own value =>
    obtain rfl := Option.some.inj h
    exact ⟨isDict, _, rfl, by simp [get]⟩
  · cases h

/-- The metadata of a mapping, as the node is looked up in it. -/
theorem firstString_mapping (isDict : Bool) (entries : List (Value × Value)) :
    firstString (extractMetadata (.mapping isDict entries)) ["langgraph_node", "node"] =
      metadataNode entries := by
  have hfirst (metadata : List (Value × Value)) :
      firstString metadata ["langgraph_node", "node"] =
        (stringOrNone (get metadata "langgraph_node")).or
          (stringOrNone (get metadata "node")) := by
    simp only [firstString]
    cases stringOrNone (get metadata "langgraph_node") with
    | some text => rfl
    | none => cases stringOrNone (get metadata "node") <;> rfl
  have hmetadata : extractMetadata (.mapping isDict entries) =
      mappingMetadata (.mapping isDict entries) := rfl
  rw [hmetadata, hfirst, mappingMetadata, metadataNode]
  split <;> rfl

/-- An update has no entry for its node exactly if it names it in its metadata or a field. -/
theorem extractNode_missing_iff {isDict : Bool} {entries : List (Value × Value)} {name : String}
    (hmissing : get entries name = none) :
    extractNode "updates" (.mapping isDict entries) = some name ↔ Names entries name := by
  unfold extractNode Names
  rw [firstString_mapping]
  cases hmetadata : metadataNode entries with
  | some node => simp
  | none =>
      simp only [reduceCtorEq, if_true, false_or, true_and]
      cases honly : onlyKey (.mapping isDict entries) with
      | some key =>
          obtain ⟨_, _, heq, hget⟩ := get_node_of_onlyKey honly
          obtain ⟨-, rfl⟩ := Value.mapping.inj heq
          have hlength : entries.length = 1 := by
            unfold onlyKey at honly
            split at honly
            next heq => obtain ⟨-, rfl⟩ := Value.mapping.inj heq; rfl
            · cases honly
          refine iff_of_false (fun h => ?_) (fun h => h.1 hlength)
          obtain rfl := Option.some.inj h
          simp [hmissing] at hget
      | none =>
          constructor
          · intro h
            have hnode := stringOrNone_eq_some.mp h
            refine ⟨fun hlength => ?_, hnode⟩
            obtain ⟨⟨key, value⟩, rfl⟩ := List.length_eq_one_iff.mp hlength
            cases key with
            | str text => cases honly
            | _ => cases hnode
          · rintro ⟨-, h⟩
            rw [h]
            rfl

theorem mem_supportedEventTypes :
    (if chunkType ∈ supportedEventTypes then chunkType else "custom") ∈ supportedEventTypes := by
  split
  · assumption
  · decide

/-- The event is refused exactly for an update that names a node it has no entry for. -/
theorem normalize_error_iff {runId threadId : String} {sequence : Int} :
    (∃ error, normalizeLanggraphChunk rendering chunkType chunk runId threadId sequence =
      .error error) ↔ Dangling chunkType chunk := by
  have htype : (if chunkType ∈ supportedEventTypes then chunkType else "custom") = "updates" ↔
      chunkType = "updates" := by
    split
    · exact Iff.rfl
    next hunsupported =>
      exact iff_of_false (by decide) fun h => hunsupported (h ▸ by decide)
  have hbind : (∃ error, normalizeLanggraphChunk rendering chunkType chunk runId threadId sequence =
      .error error) ↔ ∃ error, buildPayload rendering
        (if chunkType ∈ supportedEventTypes then chunkType else "custom") chunk
        (extractNode (if chunkType ∈ supportedEventTypes then chunkType else "custom") chunk) =
          .error error := by
    simp only [normalizeLanggraphChunk, bind, Except.bind]
    split <;> simp_all [pure, Except.pure]
  rw [hbind, buildPayload_error_iff, htype, Dangling]
  refine and_congr_right fun hupdates => ?_
  subst hupdates
  refine exists_congr fun isDict => exists_congr fun entries => exists_congr fun name => ?_
  refine and_congr_right fun hmapping => ?_
  subst hmapping
  by_cases hmissing : get entries name = none
  · simp only [hmissing, and_true]
    rw [if_pos (by decide), extractNode_missing_iff hmissing]
  · simp [hmissing]

/-- An event that is made has a supported type and a JSON object for its payload. -/
theorem normalize_ok {runId threadId : String} {sequence : Int} {event : StreamEvent}
    (h : normalizeLanggraphChunk rendering chunkType chunk runId threadId sequence = .ok event) :
    event.type ∈ supportedEventTypes ∧ JsonPayload event.payload := by
  simp only [normalizeLanggraphChunk, bind, Except.bind] at h
  split at h
  · cases h
  next payload hpayload =>
    obtain rfl := Except.ok.inj h
    exact ⟨mem_supportedEventTypes, jsonPayload_buildPayload hpayload⟩

theorem jsonPayload_put {key : String} {value : Value} (h : JsonPayload payload)
    (hvalue : IsJson value) : JsonPayload (put key value payload) := by
  obtain ⟨hnodup, hvalues⟩ := jsonPayload_iff.mp h
  refine jsonPayload_iff.mpr ⟨?_, fun entry hentry => ?_⟩
  · rw [keys_put]
    exact nodup_note hnodup
  · rcases mem_put hentry with rfl | hmem
    · exact hvalue
    · exact hvalues entry hmem

theorem isJson_optionalText (text : Option String) : IsJson (optionalText text) := by
  cases text <;> simp [optionalText, IsJson]

theorem runtime_ok {event : RuntimeEvent}
    (h : runtimeStreamEvent rendering chunkType chunk = .ok event) :
    event.type ∈ supportedEventTypes ∧ JsonPayload event.payload := by
  simp only [runtimeStreamEvent, bind, Except.bind] at h
  split at h
  · cases h
  next made hmade =>
    obtain rfl := Except.ok.inj h
    obtain ⟨htype, hpayload⟩ := normalize_ok hmade
    refine ⟨htype, ?_⟩
    dsimp only
    split
    · exact jsonPayload_put hpayload (isJson_optionalText _)
    · exact hpayload

theorem runtime_error_iff :
    (∃ error, runtimeStreamEvent rendering chunkType chunk = .error error) ↔
      Dangling chunkType chunk := by
  rw [← @normalize_error_iff rendering chunkType chunk "" "" 0]
  simp only [runtimeStreamEvent, bind, Except.bind]
  split <;> simp_all [pure, Except.pure]

/-- The result of a call that returns has the property. -/
def ReturnsWith {α : Type} (φ : α → Prop) (result : Except StreamError α) : Prop :=
  ∃ value, result = .ok value ∧ φ value

theorem returnsWith_iff {α : Type} {φ : α → Prop} {result : Except StreamError α}
    (hok : ∀ value, result = .ok value → φ value) :
    ReturnsWith φ result ↔ ¬ ∃ error, result = .error error := by
  cases result with
  | ok value => simpa [ReturnsWith] using hok value rfl
  | error error => simp [ReturnsWith]

end Events

/-- The update of a graph node called `metadata`, which sets `node` in the state. -/
def metadataUpdate : Value :=
  .mapping true [(.str "metadata", .mapping true [(.str "node", .str "review")])]

end ChangeQuality.StreamEvents
