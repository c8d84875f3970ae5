import ChangeQuality.CheckView
import ChangeQuality.Runs
import ChangeQuality.SessionFrames
import ChangeQuality.SopVerdicts

/-!
The connection behind the view of a check, as text: the frames that the server writes for the events
that it yields, and what the browser makes of the part of them that has come.
-/

namespace ChangeQuality.CheckFrames

open ChangeQuality.Runs
open ChangeQuality.Texts
open ChangeQuality.JsonDecoding
open ChangeQuality.EventSource
open ChangeQuality.SequencedLog
open ChangeQuality.SopTables
open ChangeQuality.SopVerdicts (characters)
open ChangeQuality.SessionFrames
open ChangeQuality.CheckView

section Server

/-- What the tables of the model leave out: `str` of the key of a check, and of the time at which an
event was stored. -/
structure Columns where
  checkId : CheckId → String
  createdAt : SopQualityEvent → String

/-- The type of an event of the table among those that the client knows. -/
def viewType : EventType → CheckEventType
  | .created => .created
  | .started => .started
  | .checkpoint => .checkpoint
  | .completed => .completed
  | .failed => .failed
  | .cancelled => .cancelled
  | .interrupted => .interrupted

def typeName : CheckEventType → String
  | .created => "created"
  | .started => "started"
  | .messages => "messages"
  | .updates => "updates"
  | .checkpoint => "checkpoint"
  | .completed => "completed"
  | .failed => "failed"
  | .cancelled => "cancelled"
  | .interrupted => "interrupted"

def textOrNull (value : Option String) : Value :=
  (value.map fun text => .str (ofString text)).getD .null

/-- `event_to_dict`, and `_event_to_message`, which builds the same. -/
def eventToDict (columns : Columns) (event : SopQualityEvent) : Dict := [
  (ofString "check_id", .str (ofString (columns.checkId event.checkId))),
  (ofString "sequence", .int event.sequence),
  (ofString "type", .str (ofString (typeName (viewType event.type)))),
  (ofString "node", textOrNull event.node),
  (ofString "checkpoint_id", textOrNull event.checkpointId),
  (ofString "task_id", textOrNull event.taskId),
  (ofString "message", textOrNull event.message),
  (ofString "created_at", .str (ofString (columns.createdAt event)))]

/-- `format_sse_event`. -/
def formatSseEvent (printing : Printing) (event : Dict) : Text :=
  let data := unicodeDumps printing (.obj event)
  match sequenceText event with
  | some sequence =>
      ofString "id: " ++ sequence ++ ofString "\nevent: " ++ typeText printing event ++
        ofString "\ndata: " ++ data ++ ofString "\n\n"
  | none =>
      ofString "event: " ++ typeText printing event ++ ofString "\ndata: " ++ data ++
        ofString "\n\n"

/-- What the server writes for an event. -/
def frame (printing : Printing) (columns : Columns) (event : SopQualityEvent) : Text :=
  formatSseEvent printing (eventToDict columns event)

end Server

section Browser

def checkEventTypes : List CheckEventType :=
  [.created, .started, .messages, .updates, .checkpoint, .completed, .failed, .cancelled,
    .interrupted]

/-- The types whose events reach `handleCheckMessage`: `onmessage` hears `message`, the listeners
hear `CHECK_EVENT_NAMES`. -/
def handledTypes : List Text :=
  ofString "message" ::
    (checkEventTypes.filter (·.listened)).map fun type => ofString (typeName type)

/-- `parseSopQualityCheckEvent`. What `JSON.parse` makes of anything but an object has no
`check_id`. -/
def parseSopQualityCheckEvent (jsonParse : Text → Option Value) (data : Text) : Option Dict :=
  if data.all isJsSpace then none
  else
    match jsonParse data with
    | some (.obj event) =>
        match getItem event (ofString "check_id"), getItem event (ofString "sequence"),
            getItem event (ofString "type") with
        | some (.str _), some (.int _), some (.str _)
        | some (.str _), some (.float _), some (.str _) => some event
        | _, _, _ => none
    | _ => none

def readText (event : Dict) (key : String) : Option String :=
  match getItem event (ofString key) with
  | some (.str text) => some (characters text)
  | _ => none

def readType (name : String) : Option CheckEventType :=
  checkEventTypes.find? fun type => typeName type = name

def readChannel : String → Option Channel
  | "thinking" => some .thinking
  | "summary" => some .summary
  | "result" => some .result
  | _ => none

/-- The object as the hook and the reducer read it; `none` for a type that they do not know. -/
def readEvent (event : Dict) : Option SopQualityCheckEvent :=
  match readText event "check_id", getItem event (ofString "sequence"),
      (readText event "type").bind readType with
  | some checkId, some (.int sequence), some type =>
      some {
        checkId
        sequence := sequence.toNat
        type
        node := readText event "node"
        channel := (readText event "channel").bind readChannel
        message := readText event "message" }
  | _, _, _ => none

/-- Whether a number is negative, and what follows its sign. -/
def signed : Text → Bool × Text
  | 0x2d :: digits => (true, digits)
  | 0x2b :: digits => (false, digits)
  | digits => (false, digits)

/-- `Number.parseInt(text, 10)`. -/
def parseInt (text : Text) : Option Int :=
  let (negative, rest) := signed (text.dropWhile isJsSpace)
  let digits := rest.takeWhile isDigit
  if digits = [] then none
  else some (if negative then -(digitsValue digits : Int) else digitsValue digits)

/-- The source fires an event, unless it is closed. -/
def fire (jsonParse : Text → Option Value) (hook : Hook) (event : EventSource.Event) : Hook :=
  match hook.eventSource with
  | none => hook
  | some source =>
      let parsedId := (parseInt event.lastEventId).map Int.toNat
      let moved := { hook with
        eventSource := some { source with position := parsedId.getD source.position } }
      if handledTypes.contains event.type then
        match (parseSopQualityCheckEvent jsonParse event.data).bind readEvent with
        | some parsed => moved.handleCheckMessage parsedId parsed
        | none => moved
      else moved

end Browser

section Events

variable (columns : Columns)

/-- An event of the table as it is in the view. -/
def eventOf (event : SopQualityEvent) : SopQualityCheckEvent where
  checkId := columns.checkId event.checkId
  sequence := event.sequence
  type := viewType event.type
  node := event.node
  channel := none
  message := event.message

/-- The source fires an event of the check, as the view has it. -/
def receive (hook : Hook) (event : SopQualityCheckEvent) : Hook :=
  match hook.eventSource with
  | none => hook
  | some source =>
      let moved := { hook with eventSource := some { source with position := event.sequence } }
      if event.type.listened then moved.handleCheckMessage (some event.sequence) event else moved

variable {columns} {event : SopQualityEvent}

theorem characters_ofString (s : String) : characters (ofString s) = s := by
  have hchars : (s.toList.map Char.toNat).map Char.ofNat = s.toList := by
    rw [List.map_map]
    exact (List.map_congr_left fun c _ => Char.ofNat_toNat c).trans (List.map_id _)
  rw [characters, ofString, hchars, String.ofList_toList]

theorem typeName_mem (type : CheckEventType) : type ∈ checkEventTypes := by
  cases type <;> decide

theorem readType_typeName (type : CheckEventType) : readType (typeName type) = some type := by
  cases type <;> rfl

theorem readText_textOrNull {entries : Dict} {key : String} {value : Option String}
    (h : getItem entries (ofString key) = some (textOrNull value)) :
    readText entries key = value := by
  rw [readText, h]
  cases value with
  | none => rfl
  | some text => exact congrArg some (characters_ofString text)

theorem readText_string {entries : Dict} {key value : String}
    (h : getItem entries (ofString key) = some (.str (ofString value))) :
    readText entries key = some value :=
  readText_textOrNull (h : _ = some (textOrNull (some value)))

/-- The browser reads the event that the server has written. -/
theorem readEvent_eventToDict : readEvent (eventToDict columns event) =
    some (eventOf columns event) := by
  have hcheckId : readText (eventToDict columns event) "check_id" =
      some (columns.checkId event.checkId) := readText_string rfl
  have htype : (readText (eventToDict columns event) "type").bind readType =
      some (viewType event.type) := by
    have htext : readText (eventToDict columns event) "type" =
        some (typeName (viewType event.type)) := readText_string rfl
    rw [htext]
    exact readType_typeName _
  have hsequence : getItem (eventToDict columns event) (ofString "sequence") =
      some (.int event.sequence) := rfl
  have hnode : readText (eventToDict columns event) "node" = event.node := readText_textOrNull rfl
  have hchannel : readText (eventToDict columns event) "channel" = none := rfl
  have hmessage : readText (eventToDict columns event) "message" = event.message :=
    readText_textOrNull rfl
  simp only [readEvent, hcheckId, hsequence, htype, hnode, hchannel, hmessage]
  rfl

theorem digitsValue_repr (n : Nat) : digitsValue (n.repr.toList.map Char.toNat) = n := by
  rw [digitsValue, List.foldl_map, Nat.toList_repr]
  exact (Nat.ofDigitChars_eq_foldl).symm.trans (Nat.ofDigitChars_toDigits (by decide) (by decide))

theorem isDigit_repr (n : Nat) : ∀ c ∈ n.repr.toList.map Char.toNat, isDigit c = true := by
  intro c hc
  obtain ⟨letter, hletter, rfl⟩ := List.mem_map.mp hc
  rw [Nat.toList_repr] at hletter
  have hdigit := Nat.isDigit_of_mem_toDigits (by decide) (by decide) hletter
  simpa [Char.isDigit, isDigit, Char.le_def, UInt32.le_iff_toNat_le] using hdigit

/-- The id line of a frame is parsed to the sequence. -/
theorem parseInt_sequence (n : Nat) :
    parseInt (ofString (toString (n : Int))) = some (n : Int) := by
  have htext : ofString (toString (n : Int)) = n.repr.toList.map Char.toNat := rfl
  have hdigits := isDigit_repr n
  have hvalue := digitsValue_repr n
  have hne : n.repr.toList.map Char.toNat ≠ [] := by
    rw [Nat.toList_repr]
    simp
  rw [htext]
  obtain ⟨first, rest, hcons⟩ := List.exists_cons_of_ne_nil hne
  rw [hcons] at hdigits hvalue ⊢
  have hfirst : isDigit first = true := hdigits first List.mem_cons_self
  have hspace : isJsSpace first = false := by
    simp only [isDigit, Bool.and_eq_true, decide_eq_true_eq] at hfirst
    simp [isJsSpace]
    omega
  have htake : (first :: rest).takeWhile isDigit = first :: rest :=
    List.takeWhile_eq_self_iff.mpr hdigits
  have hsigned : signed (first :: rest) = (false, first :: rest) := by
    unfold signed
    split
    next heq => exact absurd (List.cons.inj heq).1 fun h => absurd (h ▸ hfirst) (by decide)
    next heq => exact absurd (List.cons.inj heq).1 fun h => absurd (h ▸ hfirst) (by decide)
    · rfl
  rw [parseInt, List.dropWhile_cons_of_neg (by simp [hspace])]
  simp only [hsigned, htake, hvalue]
  rfl

end Events

section Frames

variable {printing : Printing} {columns : Columns} {event : SopQualityEvent}
  {jsonParse : Text → Option Value} {hook : Hook}

/-- The fields of a frame. -/
def checkFields (printing : Printing) (columns : Columns) (event : SopQualityEvent) :
    List (Text × Text) := [
  (ofString "id", ofString (toString (event.sequence : Int))),
  (ofString "event", ofString (typeName (viewType event.type))),
  (ofString "data", unicodeDumps printing (.obj (eventToDict columns event)))]

/-- What the browser dispatches for a frame. -/
def dispatched (printing : Printing) (columns : Columns) (event : SopQualityEvent) :
    EventSource.Event where
  type := ofString (typeName (viewType event.type))
  data := unicodeDumps printing (.obj (eventToDict columns event))
  lastEventId := ofString (toString (event.sequence : Int))

theorem frame_eq : frame printing columns event = block (checkFields printing columns event) := by
  have hid : ofString "id: " = ofString "id" ++ [0x3a, 0x20] := by decide
  have hevent : ofString "\nevent: " = 0x0a :: (ofString "event" ++ [0x3a, 0x20]) := by decide
  have hdata : ofString "\ndata: " = 0x0a :: (ofString "data" ++ [0x3a, 0x20]) := by decide
  have hend : ofString "\n\n" = [0x0a, 0x0a] := by decide
  have hsequence : sequenceText (eventToDict columns event) =
      some (ofString (toString (event.sequence : Int))) := rfl
  have htype : typeText printing (eventToDict columns event) =
      ofString (typeName (viewType event.type)) := rfl
  simp [frame, formatSseEvent, hsequence, htype, block, checkFields, fieldLine, hid, hevent, hdata,
    hend]

/-- The dict of an event has no float, so its text is the same with every printer. -/
theorem printable_data :
    Printable (unicodeDumps printing (.obj (eventToDict columns event))) := by
  have hvalue (value : Option String) :
      unicodeDumps printing (textOrNull value) = unicodeDumps zeroPrinting (textOrNull value) := by
    cases value <;> rfl
  have hprinting : unicodeDumps printing (.obj (eventToDict columns event)) =
      unicodeDumps zeroPrinting (.obj (eventToDict columns event)) := by
    simp only [eventToDict, unicodeDumps, unicodeMembers, hvalue]
  rw [hprinting]
  exact printable_unicodeDumps (fun _ => (by decide : Printable (ofString "0.0"))) _

theorem legible_checkFields : ∀ entry ∈ checkFields printing columns event, Legible entry := by
  have hnames : ∀ name ∈ [ofString "id", ofString "event", ofString "data"],
      name ≠ [] ∧ 0x3a ∉ name ∧ Printable name := by decide
  have htypes : ∀ type ∈ checkEventTypes, Printable (ofString (typeName type)) := by decide
  have hlegible {name value : Text} (hname : name ∈ [ofString "id", ofString "event",
      ofString "data"]) (hvalue : Printable value) : Legible (name, value) := by
    obtain ⟨hnamed, hcolon, hplain⟩ := hnames name hname
    exact ⟨hnamed, hcolon, .of_printable hplain, .of_printable hvalue⟩
  intro entry hentry
  simp only [checkFields, List.mem_cons, List.not_mem_nil, or_false] at hentry
  rcases hentry with rfl | rfl | rfl
  · exact hlegible (by decide) (printable_int _)
  · exact hlegible (by decide) (htypes _ (typeName_mem _))
  · exact hlegible (by decide) printable_data

/-- A frame is dispatched as one event, and leaves its id behind. -/
theorem filled_checkFields (lastEventId : Text) :
    (checkFields printing columns event).foldl
        (fun buffers entry => buffer entry.1 entry.2 buffers) { Buffers.empty with lastEventId } = {
      data := (dispatched printing columns event).data ++ [0x0a]
      type := (dispatched printing columns event).type
      lastEventId := (dispatched printing columns event).lastEventId } := by
  have hdata : ofString "data" ≠ ofString "event" := by decide
  have hid : ofString "id" ≠ ofString "event" ∧ ofString "id" ≠ ofString "data" := by decide
  have hfields (number type data : Text) (hnull : 0x00 ∉ number) :
      [(ofString "id", number), (ofString "event", type), (ofString "data", data)].foldl
          (fun buffers entry => buffer entry.1 entry.2 buffers) { Buffers.empty with lastEventId } =
        { data := data ++ [0x0a], type, lastEventId := number } := by
    simp [buffer, hnull, hdata, hid, Buffers.empty]
  exact hfields _ _ _ fun hmem => absurd (printable_int _ 0x00 hmem) (by decide)

theorem dispatch_dispatched :
    dispatch {
      data := (dispatched printing columns event).data ++ [0x0a]
      type := (dispatched printing columns event).type
      lastEventId := (dispatched printing columns event).lastEventId } =
        [dispatched printing columns event] := by
  have hnamed : (dispatched printing columns event).type ≠ [] := by
    have htypes : ∀ type ∈ checkEventTypes, ofString (typeName type) ≠ [] := by decide
    exact htypes _ (typeName_mem _)
  rw [dispatch]
  simp [hnamed]

/-- Each frame is one event, whatever comes behind the frames. -/
theorem eventsOf_frames {rest : Text} (yielded : List SopQualityEvent) (lastEventId : Text) :
    ∃ left, eventsOf { Buffers.empty with lastEventId }
        (linesFrom [] (yielded.flatMap (frame printing columns) ++ rest)) =
      yielded.map (dispatched printing columns) ++
        eventsOf { Buffers.empty with lastEventId := left } (linesFrom [] rest) := by
  induction yielded generalizing lastEventId with
  | nil => exact ⟨lastEventId, rfl⟩
  | cons event yielded ih =>
      obtain ⟨left, hleft⟩ := ih (dispatched printing columns event).lastEventId
      refine ⟨left, ?_⟩
      rw [List.flatMap_cons, List.append_assoc, frame_eq, linesFrom_block legible_checkFields,
        eventsOf_block legible_checkFields, filled_checkFields, dispatch_dispatched, List.map_cons,
        List.cons_append]
      exact congrArg _ hleft

theorem frames_mark {rest : Text} (h : rest.head? ≠ some 0xfeff) (yielded : List SopQualityEvent) :
    (yielded.flatMap (frame printing columns) ++ rest).head? ≠ some 0xfeff := by
  cases yielded with
  | nil => exact h
  | cons event yielded =>
      rw [List.flatMap_cons, frame_eq]
      exact (by decide : some 0x69 ≠ some 0xfeff)

theorem events_frames (yielded : List SopQualityEvent) :
    events (yielded.flatMap (frame printing columns)) =
      yielded.map (dispatched printing columns) := by
  have hmark := @frames_mark printing columns [] (by decide) yielded
  obtain ⟨left, hleft⟩ := @eventsOf_frames printing columns [] yielded []
  rw [List.append_nil] at hmark hleft
  rw [events, lines_eq hmark]
  exact hleft.trans (List.append_nil _)

/-- A frame up to its blank line. -/
def unfinished (printing : Printing) (columns : Columns) (event : SopQualityEvent) : Text :=
  (checkFields printing columns event).flatMap fun entry => fieldLine entry.1 entry.2 ++ [0x0a]

theorem frame_unfinished :
    frame printing columns event = unfinished printing columns event ++ [0x0a] :=
  frame_eq

theorem events_unfinished (yielded : List SopQualityEvent) (event : SopQualityEvent) :
    events (yielded.flatMap (frame printing columns) ++ unfinished printing columns event) =
      yielded.map (dispatched printing columns) := by
  have hhead : (unfinished printing columns event).head? ≠ some 0xfeff :=
    (by decide : some 0x69 ≠ some 0xfeff)
  obtain ⟨left, hleft⟩ :=
    @eventsOf_frames printing columns (unfinished printing columns event) yielded []
  have hrest := @eventsOf_fields (checkFields printing columns event)
    { Buffers.empty with lastEventId := left } [] legible_checkFields
  rw [List.append_nil] at hrest
  rw [unfinished, linesFrom_fields legible_checkFields, hrest] at hleft
  rw [events, lines_eq (frames_mark hhead yielded)]
  exact hleft.trans (List.append_nil _)

theorem frames_take_succ {yielded : List SopQualityEvent} {n : Nat} (h : n < yielded.length) :
    (yielded.take (n + 1)).flatMap (frame printing columns) =
      (yielded.take n).flatMap (frame printing columns) ++
        unfinished printing columns yielded[n] ++ [0x0a] := by
  rw [List.take_add_one, List.getElem?_eq_getElem h, Option.toList_some, List.flatMap_append,
    List.flatMap_singleton, frame_unfinished, List.append_assoc]

/-- Frames are all dispatched only once the last character of the last one has come. -/
theorem eq_frames_of_length_le {received : Text} {yielded : List SopQualityEvent} {n : Nat}
    (hn : n < yielded.length)
    (h : received <+: (yielded.take (n + 1)).flatMap (frame printing columns))
    (hlength : n + 1 ≤ (events received).length) :
    received = (yielded.take (n + 1)).flatMap (frame printing columns) := by
  rw [frames_take_succ hn, List.prefix_concat_iff] at h
  rcases h with hwhole | hcut
  · exact hwhole.trans (frames_take_succ hn).symm
  · have hfewer := (events_mono hcut).length_le
    rw [events_unfinished, List.length_map, List.length_take] at hfewer
    omega

/-- Of the frames that were sent, those count whose last character has come. -/
theorem events_received {received : Text} {yielded : List SopQualityEvent}
    (h : received <+: yielded.flatMap (frame printing columns)) :
    ∃ n ≤ yielded.length,
      events received = (yielded.take n).map (dispatched printing columns) ∧
      (yielded.take n).flatMap (frame printing columns) <+: received ∧
      (n < yielded.length →
        ¬ (yielded.take (n + 1)).flatMap (frame printing columns) <+: received) := by
  have hevents : events received <+: yielded.map (dispatched printing columns) :=
    events_frames yielded ▸ events_mono h
  have hlength : (events received).length ≤ yielded.length := by
    simpa using hevents.length_le
  refine ⟨(events received).length, hlength, ?_, ?_, ?_⟩
  · rw [List.map_take]
    exact List.prefix_iff_eq_take.mp hevents
  · have htaken : (yielded.take (events received).length).flatMap (frame printing columns) <+:
        yielded.flatMap (frame printing columns) := by
      conv_rhs => rw [← List.take_append_drop (events received).length yielded]
      rw [List.flatMap_append]
      exact List.prefix_append _ _
    rcases List.prefix_or_prefix_of_prefix h htaken with hshort | hlong
    · cases hn : (events received).length with
      | zero => exact List.nil_prefix
      | succ m =>
          rw [hn] at hshort hlength
          exact (eq_frames_of_length_le hlength hshort hn.ge) ▸ List.prefix_rfl
    · exact hlong
  · intro hmore hnext
    have hone := (events_mono hnext).length_le
    rw [events_frames, List.length_map, List.length_take] at hone
    omega

end Frames

section View

variable {printing : Printing} {columns : Columns} {jsonParse : Text → Option Value} {hook : Hook}

theorem contains_handledTypes (type : CheckEventType) :
    handledTypes.contains (ofString (typeName type)) = type.listened := by
  cases type <;> decide

theorem parse_data {event : SopQualityEvent}
    (hparse : jsonParse (dispatched printing columns event).data =
      some (.obj (eventToDict columns event))) :
    parseSopQualityCheckEvent jsonParse (dispatched printing columns event).data =
      some (eventToDict columns event) := by
  have hspace : (dispatched printing columns event).data.all isJsSpace = false := by
    rw [dispatched, unicodeDumps]
    rfl
  rw [parseSopQualityCheckEvent, hspace, hparse]
  rfl

/-- What the browser dispatches for a frame does to the view what the event does. -/
theorem fire_dispatched {event : SopQualityEvent}
    (hparse : jsonParse (dispatched printing columns event).data =
      some (.obj (eventToDict columns event))) :
    fire jsonParse hook (dispatched printing columns event) =
      receive hook (eventOf columns event) := by
  have hid : parseInt (dispatched printing columns event).lastEventId =
      some (event.sequence : Int) := parseInt_sequence _
  have htype : handledTypes.contains (dispatched printing columns event).type =
      (eventOf columns event).type.listened := contains_handledTypes _
  unfold fire receive
  cases hook.eventSource with
  | none => rfl
  | some source =>
      simp only [hid, htype, parse_data hparse, Option.bind_some, readEvent_eventToDict]
      rfl

theorem foldl_receive_closed (h : hook.eventSource = none) (sent : List SopQualityCheckEvent) :
    sent.foldl receive hook = hook := by
  induction sent with
  | nil => rfl
  | cons event sent ih =>
      have hclosed : receive hook event = hook := by
        rw [receive, h]
      rw [List.foldl_cons, hclosed, ih]

theorem eventSource_handle (parsedId : Option Nat) (event : SopQualityCheckEvent) :
    (hook.handleCheckMessage parsedId event).eventSource = hook.eventSource ∨
      (hook.handleCheckMessage parsedId event).eventSource = none := by
  unfold Hook.handleCheckMessage
  split
  · exact .inl rfl
  · dsimp only
    split
    · exact .inr rfl
    · split
      · exact .inl rfl
      · exact .inl rfl

/-- A source stays where the last event has left it, or it is closed. -/
theorem eventSource_receive {source : CheckView.EventSource} (h : hook.eventSource = some source)
    (event : SopQualityCheckEvent) :
    (receive hook event).eventSource = some { source with position := event.sequence } ∨
      (receive hook event).eventSource = none := by
  unfold receive
  rw [h]
  dsimp only
  split
  · exact eventSource_handle _ _
  · exact .inl rfl

theorem step_deliver {s : System} {source : CheckView.EventSource} {event : SopQualityCheckEvent}
    (hsource : s.hook.eventSource = some source)
    (hnext : nextAfter (·.sequence) s.log source.position = some event) :
    step .deliver s = some { s with hook := receive s.hook event } := by
  simp only [step, receive, hsource, hnext]

/-- The source of the view delivers the events behind its position one after the other, until one of
them closes it. -/
theorem delivered {s : System} {source : CheckView.EventSource}
    (hsource : s.hook.eventSource = some source) (hascending : Ascending 0 (s.log.map (·.sequence)))
    {sent later : List SopQualityCheckEvent}
    (hlog : (s.log.filter fun event => source.position < event.sequence) = sent ++ later) :
    ∃ k ≤ sent.length, run step (List.replicate k .deliver) s =
      some { s with hook := sent.foldl receive s.hook } := by
  induction sent generalizing s source with
  | nil => exact ⟨0, Nat.le_refl 0, rfl⟩
  | cons event sent ih =>
      have hnext : nextAfter (·.sequence) s.log source.position = some event := by
        rw [nextAfter, ← List.head?_filter, hlog]
        rfl
      have hstep := step_deliver hsource hnext
      rcases eventSource_receive hsource event with hopen | hclosed
      · have hrest : (s.log.filter fun other => event.sequence < other.sequence) = sent ++ later :=
          (List.cons.inj ((filter_after_next hascending hnext).symm.trans hlog)).2
        obtain ⟨k, hk, hrun⟩ := @ih { s with hook := receive s.hook event } _ hopen hascending hrest
        refine ⟨k + 1, Nat.succ_le_succ hk, ?_⟩
        rw [List.replicate_succ, run, hstep]
        exact hrun
      · refine ⟨1, Nat.succ_le_succ (Nat.zero_le _), ?_⟩
        rw [List.replicate_one, run, hstep, List.foldl_cons, foldl_receive_closed hclosed]
        rfl

/-- However much of the frames has come, the view is where the events of the complete frames lead it
to, in any order and with any repetition; and where they are the events of the log behind the
position of the source, they are deliveries of the model of the view. -/
theorem view_received {received : Text} {yielded : List SopQualityEvent}
    (hparse : ∀ event ∈ yielded, jsonParse (dispatched printing columns event).data =
      some (.obj (eventToDict columns event)))
    (hreceived : received <+: yielded.flatMap (frame printing columns)) :
    ∃ n ≤ yielded.length,
      (yielded.take n).flatMap (frame printing columns) <+: received ∧
      (n < yielded.length →
        ¬ (yielded.take (n + 1)).flatMap (frame printing columns) <+: received) ∧
      (∀ hook : Hook, (events received).foldl (fire jsonParse) hook =
        ((yielded.take n).map (eventOf columns)).foldl receive hook) ∧
      ∀ (s : System) (source : CheckView.EventSource), s.hook.eventSource = some source →
        Ascending 0 (s.log.map (·.sequence)) →
        (s.log.filter fun event => source.position < event.sequence) =
          yielded.map (eventOf columns) →
        ∃ k ≤ n, run step (List.replicate k .deliver) s =
          some { s with hook := (events received).foldl (fire jsonParse) s.hook } := by
  obtain ⟨n, hn, hevents, hcomplete, hcut⟩ := events_received hreceived
  have hview (hook : Hook) : (events received).foldl (fire jsonParse) hook =
      ((yielded.take n).map (eventOf columns)).foldl receive hook := by
    rw [hevents, List.foldl_map, List.foldl_map]
    refine List.foldl_ext _ _ _ fun hook event hevent => ?_
    exact fire_dispatched (hparse event (List.mem_of_mem_take hevent))
  refine ⟨n, hn, hcomplete, hcut, hview, ?_⟩
  intro s source hsource hascending hlog
  rw [← List.take_append_drop n yielded, List.map_append] at hlog
  obtain ⟨k, hk, hrun⟩ := delivered hsource hascending hlog
  rw [List.length_map, List.length_take] at hk
  exact ⟨k, hk.trans (Nat.min_le_left _ _), by rw [hrun, hview]⟩

end View

section Cut

def plainColumns : Columns where
  checkId := fun _ => "c"
  createdAt := fun _ => "2026-01-01 00:00:00+00:00"

/-- An event with what looks like a field in its message. -/
def lookalike (sequence : Nat) (type : EventType) : SopQualityEvent where
  checkId := 0
  sequence := sequence
  type := type
  node := none
  checkpointId := none
  taskId := none
  message := some "a\n\ndata: b"

/-- A parser that reads the texts of some events. -/
def parseEvents : List SopQualityEvent → Text → Option Value
  | [], _ => none
  | event :: known, data =>
      if data = (dispatched zeroPrinting plainColumns event).data then
        some (.obj (eventToDict plainColumns event))
      else parseEvents known data

/-- The view of a check with two events, whose source has just been opened. -/
def openedView : System where
  log := [lookalike 1 .started, lookalike 2 .completed].map (eventOf plainColumns)
  hook := { (start "c" []).hook with eventSource := some { after := 0, position := 0 } }

/-- The connection is gone when one character of the second frame has come. -/
theorem view_cutFrame :
    ∃ k ≤ 1, run step (List.replicate k .deliver) openedView =
      some { openedView with
        hook := receive openedView.hook (eventOf plainColumns (lookalike 1 .started)) } := by
  have hdata : (dispatched zeroPrinting plainColumns (lookalike 1 .started)).data ≠
      (dispatched zeroPrinting plainColumns (lookalike 2 .completed)).data := by decide
  have hparse : ∀ event ∈ [lookalike 1 .started, lookalike 2 .completed],
      parseEvents [lookalike 1 .started, lookalike 2 .completed]
        (dispatched zeroPrinting plainColumns event).data =
          some (.obj (eventToDict plainColumns event)) := by
    intro event hevent
    simp only [List.mem_cons, List.not_mem_nil, or_false] at hevent
    rcases hevent with rfl | rfl
    · exact if_pos rfl
    · exact (if_neg hdata.symm).trans (if_pos rfl)
  have hreceived : frame zeroPrinting plainColumns (lookalike 1 .started) ++ [0x69] <+:
      [lookalike 1 .started, lookalike 2 .completed].flatMap (frame zeroPrinting plainColumns) :=
    (List.prefix_append_right_inj _).mpr ⟨_, rfl⟩
  obtain ⟨n, hn, hcomplete, hcut, hview, hdeliveries⟩ := view_received hparse hreceived
  have hpos : n ≠ 0 := by
    rintro rfl
    have hfirst : ([lookalike 1 .started, lookalike 2 .completed].take (0 + 1)).flatMap
          (frame zeroPrinting plainColumns) =
        frame zeroPrinting plainColumns (lookalike 1 .started) := List.append_nil _
    exact hcut (Nat.zero_lt_succ 1) (hfirst ▸ List.prefix_append _ _)
  have hshort : n ≠ 2 := by
    rintro rfl
    obtain ⟨rest, hrest⟩ : ∃ rest, frame zeroPrinting plainColumns (lookalike 2 .completed) =
        0x69 :: 0x64 :: rest := ⟨_, rfl⟩
    have hlength := hcomplete.length_le
    simp only [List.take_succ_cons, List.take_zero, List.flatMap_cons, List.flatMap_nil,
      List.length_append, hrest, List.length_cons, List.length_nil] at hlength
    omega
  have hlt : n ≤ 2 := hn
  obtain rfl : n = 1 := by omega
  obtain ⟨k, hk, hrun⟩ := hdeliveries openedView _ rfl ⟨by decide, by decide⟩ rfl
  rw [hview] at hrun
  exact ⟨k, hk, hrun⟩

end Cut

end ChangeQuality.CheckFrames
