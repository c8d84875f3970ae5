import ChangeQuality.SopRunner
import Mathlib.Data.List.Forall2

/-!
`DeepAgentStreamRunner`: the text of a step, taken from the chunks of a streamed run or from the
final state of an invoked one.
-/

namespace ChangeQuality.AgentStreaming

open ChangeQuality.Values
open ChangeQuality.SopRunner (deltaEvent)
open ChangeQuality.Coroutine.Program (Returns Returns.bind returns_true)

/-- An item of a list of content blocks. A dict has its `text` here when that is a string. -/
inductive ContentItem where
  | str (text : String)
  | block (text : Option String)

/-- The `content` of a message; `other` is `None` or a value of any other type. -/
inductive Content where
  | str (text : String)
  | list (items : List ContentItem)
  | other

/-- A message object or dict, as far as the runner looks at it. -/
structure Message where
  content : Content
  additionalKwargs : Json := .null

/-- A chunk is a message, or a tuple or list that starts with one. -/
inductive StreamChunk where
  | message (message : Message)
  | items (items : List Message)

structure StreamItem where
  chunkType : String
  chunk : StreamChunk

/-- What an invoked agent returns. -/
inductive Output where
  | str (text : String)
  /-- A dict, with its `messages` when that is a list. -/
  | state (messages : Option (List Message))
  | message (message : Message)
  | other

inductive Exn where
  | typeError (message : String)
  | valueError (message : String)

/-- The methods of an agent, where it has them. -/
structure Agent where
  astream : Option (List Json → List StreamItem)
  ainvoke : Option (List Json → Output)
  invoke : Option (List Json → Output)

/-- `chunk[0] if _is_tuple(chunk) else chunk`; an empty tuple has no content. -/
def StreamChunk.first : StreamChunk → Message
  | .message found => found
  | .items (found :: _) => found
  | .items [] => { content := .other }

def contentDelta (message : Message) : String :=
  match message.content with
  | .str text => text
  | _ => ""

def hasReasoning (message : Message) : Bool :=
  ["reasoning_content", "reasoning"].any fun key =>
    match (message.additionalKwargs.get key).asStr? with
    | some value => value ≠ ""
    | none => false

/-- The text of an item of a content list, if it has one. -/
def ContentItem.text? : ContentItem → Option String
  | .str text => some text
  | .block text => text

def messageText (message : Message) : String :=
  match message.content with
  | .str text => text
  | .list items => "\n".intercalate (items.filterMap ContentItem.text?)
  | .other => ""

def extractText : Output → Except Exn String
  | .str text => .ok text
  | .message message => .ok (messageText message)
  | .state (some messages) =>
      match messages.getLast? with
      | some message => .ok (messageText message)
      | none => .error (.valueError "Agent did not return text output.")
  | _ => .error (.valueError "Agent did not return text output.")

section Runner

variable (sessionId : Option SopTables.SessionId) (step : String)

/-- The loop of `_run_astream`: the chunks that it collects and the events that it publishes. -/
def collect : Bool → List StreamItem → List String × List Json
  | _, [] => ([], [])
  | thinkingPublished, item :: items =>
      if item.chunkType ≠ "messages" then collect thinkingPublished items
      else
        let message := item.chunk.first
        let thinking := !thinkingPublished && hasReasoning message
        let started :=
          if thinking then
            [deltaEvent sessionId "" (.obj [("step", .str step), ("channel", .str "thinking"),
              ("status", .str "started")])]
          else []
        let delta := contentDelta message
        let (chunks, events) := collect (thinkingPublished || thinking) items
        if delta = "" then (chunks, started ++ events)
        else
          (delta :: chunks, started ++ deltaEvent sessionId delta
            (.obj [("step", .str step), ("channel", .str "content")]) :: events)

def runAstream (items : List StreamItem) : String × List Json :=
  let (chunks, events) := collect sessionId step false items
  (String.join chunks, events)

def runInvoke (agent : Agent) (payload : List Json) : Except Exn String :=
  match agent.ainvoke with
  | some ainvoke => extractText (ainvoke payload)
  | none =>
      match agent.invoke with
      | some invoke => extractText (invoke payload)
      | none => .error (.typeError "Agent does not support astream, ainvoke, or invoke.")

/-- The message that the step appends to the transcript. -/
structure StepMessage where
  step : String
  role : String
  content : String
  additionalKwargs : Json

/-- What a step leaves behind. -/
structure StepOutcome where
  finalText : String
  persisted : StepMessage
  published : List Json

/-- `run_step`. -/
def runStep (agent : Agent) (messages : List Json) : Except Exn StepOutcome := do
  let (finalText, published) ←
    match agent.astream with
    | none => (runInvoke agent messages).map fun text => (text, [])
    | some astream => .ok (runAstream sessionId step (astream messages))
  pure {
    finalText
    persisted := {
      step
      role := "assistant"
      content := finalText
      additionalKwargs := .obj [("kind", .str "final_message"), ("step", .str step)] }
    published }

end Runner

section Runs

/-- The messages of a run: those of the assistant and of the tools on the way, and the final one of
the assistant. -/
structure AgentRun where
  earlier : List Message
  final : Message

def AgentRun.messages (run : AgentRun) : List Message :=
  run.earlier ++ [run.final]

/-- The chunks carry pieces of the content: strings that make up a string, or lists of blocks. -/
def Pieces : Content → List Content → Prop
  | .str text, chunks => ∃ parts : List String, chunks = parts.map .str ∧ String.join parts = text
  | .list _, chunks => ∀ chunk ∈ chunks, chunk = .str "" ∨ ∃ items, chunk = .list items
  | .other, chunks => ∀ chunk ∈ chunks, chunk = .other

/-- The contents of the chunks of type `messages`. -/
def streamedContents (items : List StreamItem) : List Content :=
  (items.filter (·.chunkType = "messages")).map fun item => item.chunk.first.content

/-- The stream carries the messages one after the other, each in chunks of any size. -/
def Streams (run : AgentRun) (items : List StreamItem) : Prop :=
  ∃ pieces : List (List Content),
    List.Forall₂ (fun message chunks => Pieces message.content chunks) run.messages pieces ∧
      streamedContents items = pieces.flatten

/-- The condition: beside a final string no other string is streamed, and beside a final list the
strings that are streamed make up its text. -/
def Agrees (run : AgentRun) : Prop :=
  match run.final.content with
  | .str _ => ∀ message ∈ run.earlier, contentDelta message = ""
  | _ => String.join (run.earlier.map contentDelta) = messageText run.final

variable {run : AgentRun}

/-- What a content adds to the streamed text. -/
def delta : Content → String
  | .str text => text
  | _ => ""

theorem contentDelta_eq (message : Message) : contentDelta message = delta message.content := by
  unfold contentDelta delta
  cases message.content <;> rfl

/-- The collected chunks are the strings among the streamed contents. -/
theorem join_collect (sessionId : Option SopTables.SessionId) (step : String)
    (thinkingPublished : Bool) (items : List StreamItem) :
    String.join (collect sessionId step thinkingPublished items).1 =
      String.join ((streamedContents items).map delta) := by
  induction items generalizing thinkingPublished with
  | nil => rfl
  | cons item items ih =>
      rw [collect]
      split
      next hother => simpa [streamedContents, hother] using ih thinkingPublished
      next hmessages =>
        have htype : item.chunkType = "messages" := not_not.mp hmessages
        have hcontents : streamedContents (item :: items) =
            item.chunk.first.content :: streamedContents items := by
          simp [streamedContents, htype]
        rw [hcontents, List.map_cons, String.join_cons, ← contentDelta_eq]
        dsimp only
        split
        next hempty => rw [hempty, String.empty_append, ih]
        · rw [String.join_cons, ih]

theorem delta_pieces {content : Content} {chunks : List Content} (h : Pieces content chunks) :
    String.join (chunks.map delta) = delta content := by
  have hsilent (hchunks : ∀ chunk ∈ chunks, delta chunk = "") :
      String.join (chunks.map delta) = "" := by
    have hnone : chunks.map delta = List.replicate chunks.length "" :=
      List.map_eq_replicate_iff.mpr hchunks
    rw [hnone]
    induction chunks.length with
    | zero => rfl
    | succ n ih => rw [List.replicate_succ, String.join_cons, String.empty_append, ih]
  cases content with
  | str text =>
      obtain ⟨parts, rfl, hparts⟩ := h
      have hsame : (parts.map Content.str).map delta = parts := by
        rw [List.map_map]
        exact List.map_id parts
      rw [hsame, hparts]
      rfl
  | list items =>
      refine hsilent fun chunk hchunk => ?_
      rcases h chunk hchunk with rfl | ⟨_, rfl⟩ <;> rfl
  | other =>
      refine hsilent fun chunk hchunk => ?_
      rw [h chunk hchunk]
      rfl

/-- However the messages are cut into chunks, the streamed text is that of all their strings. -/
theorem runAstream_text {items : List StreamItem} (h : Streams run items)
    (sessionId : Option SopTables.SessionId) (step : String) :
    (runAstream sessionId step items).1 = String.join (run.messages.map contentDelta) := by
  obtain ⟨pieces, hpieces, hitems⟩ := h
  have hall : ∀ {messages : List Message} {pieces : List (List Content)},
      List.Forall₂ (fun message chunks => Pieces message.content chunks) messages pieces →
      String.join (pieces.flatten.map delta) = String.join (messages.map contentDelta) := by
    intro messages pieces hpieces
    induction hpieces with
    | nil => rfl
    | cons hhead _ ih =>
        rw [List.flatten_cons, List.map_append, String.join_append, delta_pieces hhead, ih,
          List.map_cons, String.join_cons, contentDelta_eq]
  change String.join (collect sessionId step false items).1 = _
  rw [join_collect, hitems, hall hpieces]

theorem join_eq_empty {texts : List String} : String.join texts = "" ↔ ∀ text ∈ texts, text = "" := by
  rw [← String.toList_inj, String.toList_join, String.toList_empty, List.flatMap_eq_nil_iff]
  simp

theorem append_eq_right {a b : String} : a ++ b = b ↔ a = "" := by
  rw [← String.toList_inj, String.toList_append, List.append_left_eq_self, String.toList_eq_nil_iff]

/-- A streamed step returns and persists the text of the final state exactly under the condition. -/
theorem streamed_agrees_iff {agent : Agent} {astream : List Json → List StreamItem}
    (sessionId : Option SopTables.SessionId) (step : String) (payload : List Json)
    (input : List Message) (hagent : agent.astream = some astream)
    (hstreams : Streams run (astream payload)) :
    ∃ outcome text, runStep sessionId step agent payload = .ok outcome ∧
      outcome.persisted.content = outcome.finalText ∧
      extractText (.state (some (input ++ run.messages))) = .ok text ∧
      (outcome.finalText = text ↔ Agrees run) := by
  have hrun : runStep sessionId step agent payload = .ok {
      finalText := (runAstream sessionId step (astream payload)).1
      persisted := {
        step
        role := "assistant"
        content := (runAstream sessionId step (astream payload)).1
        additionalKwargs := .obj [("kind", .str "final_message"), ("step", .str step)] }
      published := (runAstream sessionId step (astream payload)).2 } := by
    rw [runStep, hagent]
    rfl
  have hfinal : extractText (.state (some (input ++ run.messages))) = .ok (messageText run.final) := by
    simp [extractText, AgentRun.messages]
  refine ⟨_, messageText run.final, hrun, rfl, hfinal, ?_⟩
  have htext : (runAstream sessionId step (astream payload)).1 =
      String.join (run.earlier.map contentDelta) ++ contentDelta run.final := by
    rw [runAstream_text hstreams, AgentRun.messages, List.map_append, String.join_append,
      List.map_singleton, String.join_cons, String.join_nil, String.append_empty]
  change (runAstream sessionId step (astream payload)).1 = messageText run.final ↔ Agrees run
  rw [htext, Agrees, contentDelta_eq run.final]
  cases hcontent : run.final.content with
  | str text =>
      have hsame : messageText run.final = text := by rw [messageText, hcontent]
      rw [hsame]
      change _ ++ text = text ↔ _
      rw [append_eq_right, join_eq_empty, List.forall_mem_map]
  | list items => exact Iff.of_eq (congrArg (· = messageText run.final) String.append_empty)
  | other => exact Iff.of_eq (congrArg (· = messageText run.final) String.append_empty)

/-- The chunks of a stream as the graph's nodes read them. -/
def messageChunks (items : List StreamItem) : List SopRepository.Chunk :=
  (items.filter (·.chunkType = "messages")).map fun item =>
    { hasReasoning := hasReasoning item.chunk.first, content := contentDelta item.chunk.first }

/-- The coroutine of the loop, whenever it returns, returns the text that is collected here. -/
theorem publishChunks_returns (c : SopRunner.Collaborators)
    (sessionId : Option SopTables.SessionId) (step : String) (items : List StreamItem) :
    Returns (· = (runAstream sessionId step items).1)
      (SopRunner.publishChunks c sessionId step false "" (messageChunks items)) := by
  suffices h : ∀ (thinkingPublished : Bool) (text : String),
      Returns (· = text ++ String.join (collect sessionId step thinkingPublished items).1)
        (SopRunner.publishChunks c sessionId step thinkingPublished text (messageChunks items)) by
    simpa [runAstream] using h false ""
  induction items with
  | nil =>
      intro thinkingPublished text
      refine Returns.bind (returns_true _) fun _ _ => ?_
      exact (String.append_empty (s := text)).symm
  | cons item items ih =>
      intro thinkingPublished text
      by_cases htype : item.chunkType = "messages"
      · have hchunks : messageChunks (item :: items) =
            { hasReasoning := hasReasoning item.chunk.first,
              content := contentDelta item.chunk.first } :: messageChunks items := by
          simp [messageChunks, htype]
        have hjoin : String.join (collect sessionId step thinkingPublished (item :: items)).1 =
            contentDelta item.chunk.first ++ String.join (collect sessionId step
              (thinkingPublished || (!thinkingPublished && hasReasoning item.chunk.first))
              items).1 := by
          rw [collect, if_neg (not_not.mpr htype)]
          dsimp only
          split
          next hempty => rw [hempty, String.empty_append]
          · rw [String.join_cons]
        rw [hchunks, hjoin, SopRunner.publishChunks]
        dsimp only
        -- the marker of the reasoning changes nothing of the text
        split
        · refine Returns.bind (returns_true _) fun _ _ => ?_
          split
          next hempty =>
            rw [hempty, String.empty_append]
            exact ih _ text
          · rw [← String.append_assoc]
            exact Returns.bind (returns_true _) fun _ _ => ih _ _
        · split
          next hempty =>
            rw [hempty, String.empty_append]
            exact ih _ text
          · rw [← String.append_assoc]
            exact Returns.bind (returns_true _) fun _ _ => ih _ _
      · have hchunks : messageChunks (item :: items) = messageChunks items := by
          simp [messageChunks, htype]
        rw [hchunks, collect, if_pos htype]
        exact ih thinkingPublished text

/-- A chunk as LangGraph yields it, with one message. -/
def messageItem (content : Content) : StreamItem :=
  { chunkType := "messages", chunk := .items [{ content }] }

/-- An agent that streams the same items for every payload. -/
def streamingAgent (items : List StreamItem) : Agent :=
  { astream := some fun _ => items, ainvoke := none, invoke := none }

def answer : Message :=
  { content := .str "The answer is 42." }

def answerItems : List StreamItem :=
  [messageItem (.str "The answer "), messageItem (.str "is 42.")]

/-- A run whose tool answers in blocks. -/
def quietRun : AgentRun :=
  { earlier := [{ content := .str "" }, { content := .list [.block (some "42")] }], final := answer }

theorem quietRun_agrees : ∃ outcome text,
    runStep none "review_sop" (streamingAgent
      (messageItem (.list [.block (some "42")]) :: answerItems)) [] = .ok outcome ∧
      extractText (.state (some quietRun.messages)) = .ok text ∧ outcome.finalText = text := by
  have hstreams : Streams quietRun (messageItem (.list [.block (some "42")]) :: answerItems) := by
    refine ⟨[[], [.list [.block (some "42")]], [.str "The answer ", .str "is 42."]], ?_, rfl⟩
    refine .cons ⟨[], rfl, rfl⟩ (.cons ?_ (.cons ⟨["The answer ", "is 42."], rfl, rfl⟩ .nil))
    exact fun chunk hchunk => .inr ⟨_, List.mem_singleton.mp hchunk⟩
  have hquiet : Agrees quietRun := by
    intro message hmessage
    simp only [quietRun, List.mem_cons, List.not_mem_nil, or_false] at hmessage
    rcases hmessage with rfl | rfl <;> rfl
  obtain ⟨outcome, text, hrun, _, hfinal, hiff⟩ :=
    @streamed_agrees_iff _ (streamingAgent _) _ none "review_sop" [] [] rfl hstreams
  exact ⟨outcome, text, hrun, hfinal, hiff.mpr hquiet⟩

/-- A run whose tool answers with a string. -/
def lookupRun : AgentRun :=
  { earlier := [{ content := .str "" }, { content := .str "42" }], final := answer }

/-- The answer of a tool is persisted in front of the final message. -/
theorem tool_text_persisted : ¬ ∀ (run : AgentRun) (items : List StreamItem), Streams run items →
    ∀ outcome, runStep none "review_sop" (streamingAgent items) [] = .ok outcome →
      extractText (.state (some run.messages)) = .ok outcome.persisted.content := by
  intro h
  have hstreams : Streams lookupRun (messageItem (.str "42") :: answerItems) := by
    refine ⟨[[], [.str "42"], [.str "The answer ", .str "is 42."]], ?_, rfl⟩
    exact .cons ⟨[], rfl, rfl⟩ (.cons ⟨["42"], rfl, rfl⟩
      (.cons ⟨["The answer ", "is 42."], rfl, rfl⟩ .nil))
  have hsame := Except.ok.inj (h lookupRun _ hstreams _ rfl)
  revert hsame
  decide

end Runs

end ChangeQuality.AgentStreaming
