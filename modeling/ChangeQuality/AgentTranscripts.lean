import ChangeQuality.AgentStreaming
import ChangeQuality.Solo

/-!
What a streamed step of an agent publishes and persists, in the order in which it does so.
-/

namespace ChangeQuality.AgentTranscripts

open ChangeQuality.Values
open ChangeQuality.Coroutine
open ChangeQuality.Solo
open ChangeQuality.AgentStreaming
open ChangeQuality.SopRunner (deltaEvent)

section Performances

variable {Op ε α β : Type}

/-- The program awaits the operations one after the other and returns the value, unless one of them
raises. -/
def Performs (a : α) : List Op → Program (fun _ : Op => Unit) ε α → Prop
  | [], p => p = .done a
  | op :: ops, p => ∃ k, p = .await op k ∧ (∀ e, k (.error e) = .raise e) ∧
      Performs a ops (k (.ok ()))

/-- An environment answers each operation as it likes, and what was awaited is noted. -/
def noting (answer : List Op → Op → Except ε Unit) :
    Semantics (fun _ : Op => Unit) ε Unit Unit (List Op) :=
  fun _ op _ past => some (answer past op, past ++ [op])

/-- The program ends with a result, after the operations. -/
abbrev Transcribes (answer : List Op → Op → Except ε Unit)
    (p : Program (fun _ : Op => Unit) ε α) (past : List Op) (result : Except ε α)
    (performed : List Op) : Prop :=
  Yields (noting answer) (fun _ _ => ()) () p past result performed

variable {a : α} {b : β} {ops ops' : List Op} {p : Program (fun _ : Op => Unit) ε α}

theorem Performs.bind {f : α → Program (fun _ : Op => Unit) ε β} (hp : Performs a ops p)
    (hf : Performs b ops' (f a)) : Performs b (ops ++ ops') (p.bind f) := by
  induction ops generalizing p with
  | nil =>
      obtain rfl : p = .done a := hp
      exact hf
  | cons op ops ih =>
      obtain ⟨k, rfl, hraise, hrest⟩ := hp
      refine ⟨fun r => (k r).bind f, rfl, fun e => ?_, ih hrest⟩
      change (k (.error e)).bind f = .raise e
      rw [hraise e]
      rfl

theorem Performs.perform (op : Op) :
    Performs () [op] (Program.perform op : Program (fun _ : Op => Unit) ε Unit) :=
  ⟨_, rfl, fun _ => rfl, rfl⟩

/-- A program that is to perform operations performs a beginning of them, and all of them when it
returns. -/
theorem Performs.transcribes (answer : List Op → Op → Except ε Unit) (hp : Performs a ops p)
    (past : List Op) : ∃ result performed, Transcribes answer p past result (past ++ performed) ∧
      performed <+: ops ∧ (∀ value, result = .ok value → performed = ops ∧ value = a) ∧
      ((∀ past op, answer past op = .ok ()) → result = .ok a) := by
  induction ops generalizing p past with
  | nil =>
      obtain rfl : p = .done a := hp
      refine ⟨.ok a, [], ?_, List.prefix_refl [], ?_, fun _ => rfl⟩
      · rw [List.append_nil]
        exact .done
      · exact fun value hvalue => ⟨rfl, (Except.ok.inj hvalue).symm⟩
  | cons op ops ih =>
      obtain ⟨k, rfl, hraise, hrest⟩ := hp
      cases hanswer : answer past op with
      | ok =>
          obtain ⟨result, performed, hyields, hprefix, hreturns, hall⟩ := ih hrest (past ++ [op])
          refine ⟨result, op :: performed, ?_, ?_, fun value hvalue => ?_, hall⟩
          · rw [List.append_cons]
            refine .await (congrArg some (Prod.ext hanswer rfl)) hyields
          · exact List.cons_prefix_cons.mpr ⟨rfl, hprefix⟩
          · obtain ⟨rfl, hsame⟩ := hreturns value hvalue
            exact ⟨rfl, hsame⟩
      | error e =>
          refine ⟨.error e, [op], ?_, ?_, fun value hvalue => (by cases hvalue), fun hall => ?_⟩
          · refine .await (congrArg some (Prod.ext hanswer rfl)) ?_
            rw [hraise e]
            exact .raise
          · exact List.cons_prefix_cons.mpr ⟨rfl, List.nil_prefix⟩
          · cases (hall past op).symm.trans hanswer

end Performances

/-- What a step awaits beside its agent: `_publish`, which drops the event when the runner has no
publisher, and the writer of the transcript. -/
inductive StepOp where
  | publish (event : Json)
  | appendStepMessage (message : StepMessage)

section Step

variable {ε : Type} (sessionId : Option SopTables.SessionId) (step : String)

/-- The event that says that the agent has begun to reason. -/
def startedEvent : Json :=
  deltaEvent sessionId "" (.obj [("step", .str step), ("channel", .str "thinking"),
    ("status", .str "started")])

/-- The event of a piece of the answer. -/
def contentEvent (delta : String) : Json :=
  deltaEvent sessionId delta (.obj [("step", .str step), ("channel", .str "content")])

/-- The loop of `_run_astream`, with the chunks collected so far. -/
def publishDeltas (thinkingPublished : Bool) (chunks : List String) :
    List StreamItem → Program (fun _ : StepOp => Unit) ε (List String)
  | [] => pure chunks
  | item :: items =>
      if item.chunkType ≠ "messages" then publishDeltas thinkingPublished chunks items
      else do
        let message := item.chunk.first
        let thinking := !thinkingPublished && hasReasoning message
        if thinking then Program.perform (.publish (startedEvent sessionId step)) else pure ()
        let delta := contentDelta message
        if delta = "" then publishDeltas (thinkingPublished || thinking) chunks items
        else do
          Program.perform (.publish (contentEvent sessionId step delta))
          publishDeltas (thinkingPublished || thinking) (chunks ++ [delta]) items

/-- `run_step` of an agent with an `astream` that delivers the items. -/
def streamStep (items : List StreamItem) : Program (fun _ : StepOp => Unit) ε String := do
  let chunks ← publishDeltas sessionId step false [] items
  let finalText := String.join chunks
  Program.perform (.appendStepMessage {
    step
    role := "assistant"
    content := finalText
    additionalKwargs := .obj [("kind", .str "final_message"), ("step", .str step)] })
  pure finalText

/-- The message that ends the step. -/
def finalMessage (content : String) : StepMessage where
  step
  role := "assistant"
  content
  additionalKwargs := .obj [("kind", .str "final_message"), ("step", .str step)]

/-- What follows the marker of the reasoning, if there is one to publish. -/
theorem performs_started {α : Type} {a : α} {ops : List StepOp} (thinking : Bool)
    {rest : Program (fun _ : StepOp => Unit) ε α} (hrest : Performs a ops rest) :
    Performs a ((if thinking then [startedEvent sessionId step] else []).map .publish ++ ops)
      (if thinking then
        (Program.perform (.publish (startedEvent sessionId step))).bind fun _ => rest
      else rest) := by
  cases thinking with
  | true => exact Performs.bind (Performs.perform _) hrest
  | false => exact hrest

/-- The loop publishes the events and collects the chunks. -/
theorem performs_publishDeltas (items : List StreamItem) :
    ∀ (thinkingPublished : Bool) (chunks : List String),
      Performs (chunks ++ (collect sessionId step thinkingPublished items).1)
        ((collect sessionId step thinkingPublished items).2.map .publish)
        (publishDeltas sessionId step thinkingPublished chunks items :
          Program (fun _ : StepOp => Unit) ε (List String)) := by
  induction items with
  | nil =>
      intro thinkingPublished chunks
      exact congrArg Program.done (List.append_nil chunks).symm
  | cons item items ih =>
      intro thinkingPublished chunks
      rw [collect, publishDeltas]
      split
      · exact ih thinkingPublished chunks
      · dsimp only
        split
        · rw [List.map_append]
          exact performs_started sessionId step _ (ih _ chunks)
        · rw [List.map_append, List.map_cons, List.append_cons chunks]
          refine performs_started sessionId step _ ?_
          refine Performs.bind (Performs.perform _) ?_
          exact ih _ (chunks ++ [contentDelta item.chunk.first])

theorem performs_streamStep (items : List StreamItem) :
    Performs (runAstream sessionId step items).1
      ((runAstream sessionId step items).2.map .publish ++
        [.appendStepMessage (finalMessage step (runAstream sessionId step items).1)])
      (streamStep sessionId step items : Program (fun _ : StepOp => Unit) ε String) := by
  refine (performs_publishDeltas sessionId step items false []).bind ?_
  exact Performs.bind (Performs.perform _) rfl

/-- The outcome of a streamed step is what the coroutine performs. -/
theorem performs_runStep {agent : Agent} {astream : List Json → List StreamItem}
    (hagent : agent.astream = some astream) (messages : List Json) :
    ∃ outcome, runStep sessionId step agent messages = .ok outcome ∧
      Performs outcome.finalText
        (outcome.published.map .publish ++ [.appendStepMessage outcome.persisted])
        (streamStep sessionId step (astream messages) :
          Program (fun _ : StepOp => Unit) ε String) := by
  have hrun : runStep sessionId step agent messages = .ok {
      finalText := (runAstream sessionId step (astream messages)).1
      persisted := finalMessage step (runAstream sessionId step (astream messages)).1
      published := (runAstream sessionId step (astream messages)).2 } := by
    rw [runStep, hagent]
    rfl
  exact ⟨_, hrun, performs_streamStep sessionId step (astream messages)⟩

end Step

/-- The channel of an event. -/
def channelOf (event : Json) : Option String :=
  ((event.get "additional_kwargs").get "channel").asStr?

/-- The content deltas among the events. -/
def contentDeltas (events : List Json) : List String :=
  (events.filter fun event => channelOf event = some "content").map fun event =>
    (event.get "content").text

/-- The thinking markers among the events. -/
def thinkingMarkers (events : List Json) : List Json :=
  events.filter fun event => channelOf event = some "thinking"

section Step

variable {ε : Type} (sessionId : Option SopTables.SessionId) (step : String)

theorem channelOf_startedEvent : channelOf (startedEvent sessionId step) = some "thinking" := rfl

theorem channelOf_contentEvent (delta : String) :
    channelOf (contentEvent sessionId step delta) = some "content" := rfl

/-- The deltas that are published are the chunks that are collected. -/
theorem contentDeltas_collect (thinkingPublished : Bool) (items : List StreamItem) :
    contentDeltas (collect sessionId step thinkingPublished items).2 =
      (collect sessionId step thinkingPublished items).1 := by
  induction items generalizing thinkingPublished with
  | nil => rfl
  | cons item items ih =>
      have hstarted (thinking : Bool) (events : List Json) :
          contentDeltas ((if thinking then [startedEvent sessionId step] else []) ++ events) =
            contentDeltas events := by
        cases thinking with
        | true => simp [contentDeltas, channelOf_startedEvent]
        | false => rfl
      have hcontent (delta : String) (events : List Json) :
          contentDeltas (contentEvent sessionId step delta :: events) =
            delta :: contentDeltas events := by
        rw [contentDeltas, List.filter_cons_of_pos (by simp [channelOf_contentEvent])]
        rfl
      rw [collect]
      split
      · exact ih thinkingPublished
      · dsimp only
        split
        · exact (hstarted _ _).trans (ih _)
        · refine (hstarted _ _).trans ((hcontent _ _).trans ?_)
          rw [ih]

/-- The only marker is the event that the agent has begun to reason, and it comes once. -/
theorem thinkingMarkers_collect (thinkingPublished : Bool) (items : List StreamItem) :
    thinkingMarkers (collect sessionId step thinkingPublished items).2 = [] ∨
      thinkingPublished = false ∧
        thinkingMarkers (collect sessionId step thinkingPublished items).2 =
          [startedEvent sessionId step] := by
  induction items generalizing thinkingPublished with
  | nil => exact .inl rfl
  | cons item items ih =>
      have hcontent (delta : String) (events : List Json) :
          thinkingMarkers (contentEvent sessionId step delta :: events) =
            thinkingMarkers events := by
        rw [thinkingMarkers, List.filter_cons_of_neg (by simp [channelOf_contentEvent])]
        rfl
      have hstarted (thinking : Bool) (events : List Json) :
          thinkingMarkers ((if thinking then [startedEvent sessionId step] else []) ++ events) =
            (if thinking then [startedEvent sessionId step] else []) ++ thinkingMarkers events := by
        cases thinking with
        | true => simp [thinkingMarkers, channelOf_startedEvent]
        | false => rfl
      have hlater : thinkingMarkers (collect sessionId step thinkingPublished (item :: items)).2 =
            thinkingMarkers (collect sessionId step thinkingPublished items).2 ∨
          thinkingMarkers (collect sessionId step thinkingPublished (item :: items)).2 =
            (if !thinkingPublished && hasReasoning item.chunk.first then
              [startedEvent sessionId step] else []) ++
            thinkingMarkers (collect sessionId step (thinkingPublished ||
              (!thinkingPublished && hasReasoning item.chunk.first)) items).2 := by
        rw [collect]
        split
        · exact .inl rfl
        · dsimp only
          split
          · exact .inr (hstarted _ _)
          · exact .inr ((hstarted _ _).trans (congrArg _ (hcontent _ _)))
      rcases hlater with hlater | hlater
      · rw [hlater]
        exact ih thinkingPublished
      · rw [hlater]
        cases thinkingPublished with
        | true => exact (ih true).imp_right fun h => Bool.noConfusion h.1
        | false =>
            cases hreasoning : hasReasoning item.chunk.first with
            | true =>
                refine .inr ⟨rfl, ?_⟩
                rcases ih true with hnone | ⟨hfalse, -⟩
                · exact congrArg (startedEvent sessionId step :: ·) hnone
                · cases hfalse
            | false => exact ih false

/-- What a step shows of an item: of its reasoning only whether there is any. -/
def view (item : StreamItem) : String × String × Bool :=
  (item.chunkType, contentDelta item.chunk.first, hasReasoning item.chunk.first)

/-- The text of the reasoning has no part in what is published and persisted. -/
theorem collect_of_view {items other : List StreamItem} (h : items.map view = other.map view)
    (thinkingPublished : Bool) :
    collect sessionId step thinkingPublished items =
      collect sessionId step thinkingPublished other := by
  induction items generalizing other thinkingPublished with
  | nil =>
      obtain rfl := List.map_eq_nil_iff.mp h.symm
      rfl
  | cons item items ih =>
      obtain ⟨first, rest, rfl, hview, hrest⟩ := List.map_eq_cons_iff.mp h.symm
      obtain ⟨htype, hdelta, hreasoning⟩ : first.chunkType = item.chunkType ∧
          contentDelta first.chunk.first = contentDelta item.chunk.first ∧
          hasReasoning first.chunk.first = hasReasoning item.chunk.first := by
        simpa [view] using hview
      rw [collect, collect]
      simp only [htype, hdelta, hreasoning, ih hrest.symm]

/-- Whatever the stream delivers and whichever of the calls raise, the step publishes the events,
then persists the one message, and returns its text; when a call raises, it has made a beginning of
these calls. The deltas make up the text, and of reasoning only one marker is published, which is
the same for every reasoning. -/
theorem step_transcript (answer : List StepOp → StepOp → Except ε Unit)
    (items : List StreamItem) :
    ∃ result performed published finalText,
      Transcribes answer (streamStep sessionId step items) [] result performed ∧
      performed <+: published.map .publish ++ [.appendStepMessage (finalMessage step finalText)] ∧
      (∀ text, result = .ok text → text = finalText ∧ performed =
        published.map .publish ++ [.appendStepMessage (finalMessage step finalText)]) ∧
      ((∀ past op, answer past op = .ok ()) → result = .ok finalText) ∧
      String.join (contentDeltas published) = finalText ∧
      (thinkingMarkers published = [] ∨
        thinkingMarkers published = [startedEvent sessionId step]) ∧
      ∀ other, other.map view = items.map view →
        runAstream sessionId step other = (finalText, published) := by
  obtain ⟨result, performed, hyields, hprefix, hreturns, hall⟩ :=
    (performs_streamStep sessionId step items).transcribes answer []
  refine ⟨result, performed, _, _, hyields, hprefix, fun text htext => (hreturns text htext).symm,
    hall, ?_, ?_, fun other hother => ?_⟩
  · exact congrArg String.join (contentDeltas_collect sessionId step false items)
  · exact (thinkingMarkers_collect sessionId step false items).imp_right And.right
  · unfold runAstream
    rw [collect_of_view sessionId step hother]

end Step

/-- A message that reasons, then an answer in two pieces. -/
def reasoningItems : List StreamItem :=
  [{ chunkType := "messages", chunk := .message {
      content := .other
      additionalKwargs := .obj [("reasoning", .str "Compare the two versions.")] } },
    messageItem (.str "Two "), { chunkType := "updates", chunk := .items [] },
    messageItem (.str "findings.")]

theorem reasoning_transcript :
    ∃ performed, Transcribes (fun _ _ => (.ok () : Except Unit Unit))
      (streamStep (some 1) "review_sop" reasoningItems) [] (.ok "Two findings.") performed ∧
        performed.length = 4 := by
  obtain ⟨result, performed, published, finalText, htranscribes, -, hreturns, hall, -, -, hsame⟩ :=
    step_transcript (some 1) "review_sop" (fun _ _ => (.ok () : Except Unit Unit)) reasoningItems
  obtain rfl : result = .ok finalText := hall fun _ _ => rfl
  obtain ⟨rfl, rfl⟩ := Prod.mk.inj (hsame reasoningItems rfl)
  obtain ⟨-, rfl⟩ := hreturns _ rfl
  exact ⟨_, htranscribes, rfl⟩

end ChangeQuality.AgentTranscripts
