import ChangeQuality.EventSource
import ChangeQuality.JsonEncoding

/-!
The frames of a session's stream: what the server writes for an event, and what the client reads.
-/

namespace ChangeQuality.SessionFrames

open ChangeQuality.Texts
open ChangeQuality.JsonDecoding
open ChangeQuality.JsonEncoding
open ChangeQuality.EventSource

/-- The texts of values that the code leaves to the interpreter: `float.__repr__` of the number of a
literal, and `str` of a value that is no string. -/
structure Printing where
  floatRepr : Text → Text
  str : Value → Text

/-- The entries of a dict. -/
abbrev Dict := List (Text × Value)

section Encoding

variable (printing : Printing)

/-- `py_encode_basestring` on one character: without `ensure_ascii`, only what has to be is
escaped. -/
def escapeUnicode (c : Nat) : Text :=
  match shortEscape c with
  | some letter => [0x5c, letter]
  | none => if c < 0x20 then escapeUnit c else [c]

def unicodeString (s : Text) : Text :=
  0x22 :: s.flatMap escapeUnicode ++ [0x22]

mutual

/-- `json.dumps(value, ensure_ascii=False)`. -/
def unicodeDumps : Value → Text
  | .null => ofString "null"
  | .bool true => ofString "true"
  | .bool false => ofString "false"
  | .int value => ofString (toString value)
  | .float literal => printing.floatRepr literal
  | .str text => unicodeString text
  | .arr items => 0x5b :: unicodeItems items ++ [0x5d]
  | .obj entries => 0x7b :: unicodeMembers entries ++ [0x7d]

def unicodeItems : List Value → Text
  | [] => []
  | [value] => unicodeDumps value
  | value :: next :: items => unicodeDumps value ++ 0x2c :: 0x20 :: unicodeItems (next :: items)

def unicodeMembers : List (Text × Value) → Text
  | [] => []
  | [(key, value)] => unicodeString key ++ 0x3a :: 0x20 :: unicodeDumps value
  | (key, value) :: next :: entries =>
    unicodeString key ++ 0x3a :: 0x20 :: unicodeDumps value ++
      0x2c :: 0x20 :: unicodeMembers (next :: entries)

end

end Encoding

/-- `{"type": "message", **message}`. -/
def messageDict (message : Dict) : Dict :=
  message.foldl (fun entries entry => setItem entry.1 entry.2 entries)
    [(ofString "type", .str (ofString "message"))]

/-- The event is of type `message`. -/
def typedMessage (event : Dict) : Bool :=
  match getItem event (ofString "type") with
  | some (.str text) => text == ofString "message"
  | _ => false

/-- `flatten_message_event`. -/
def flattenMessageEvent (event : Dict) : Dict :=
  match typedMessage event, getItem event (ofString "message") with
  | true, some (.obj message) => messageDict message
  | _, _ => event

/-- The text of `event.get("sequence")` if it is an `int`, which a `bool` is too. -/
def sequenceText (event : Dict) : Option Text :=
  match getItem event (ofString "sequence") with
  | some (.int value) => some (ofString (toString value))
  | some (.bool true) => some (ofString "True")
  | some (.bool false) => some (ofString "False")
  | _ => none

section Server

variable (printing : Printing)

/-- The text of `event.get('type', 'live')`. -/
def typeText (event : Dict) : Text :=
  match getItem event (ofString "type") with
  | none => ofString "live"
  | some (.str text) => text
  | some value => printing.str value

/-- `format_session_sse`. -/
def formatSessionSse (event : Dict) : Text :=
  let event := flattenMessageEvent event
  let data := unicodeDumps printing (.obj event)
  match typedMessage event, sequenceText event with
  | true, some sequence =>
      ofString "id: " ++ sequence ++ ofString "\nevent: message\ndata: " ++ data ++ ofString "\n\n"
  | _, _ =>
      ofString "event: " ++ typeText printing event ++ ofString "\ndata: " ++ data ++
        ofString "\n\n"

end Server

/-- The white space of `String.prototype.trim`. -/
def isJsSpace (c : Nat) : Bool :=
  [0x20, 0xa0, 0x1680, 0x2028, 0x2029, 0x202f, 0x205f, 0x3000, 0xfeff].contains c ||
    (0x09 ≤ c && c ≤ 0x0d) || (0x2000 ≤ c && c ≤ 0x200a)

/-- The own entries of an object, which `...` copies; those of an array are under its indices. -/
def ownEntries : Value → Option Dict
  | .obj entries => some entries
  | .arr items => some (items.zipIdx.map fun entry => (ofString (toString entry.2), entry.1))
  | _ => none

/-- `normalizeSessionStreamEvent`. -/
def normalizeSessionStreamEvent (parsed : Dict) : Dict :=
  match typedMessage parsed, (getItem parsed (ofString "message")).bind ownEntries with
  | true, some message => messageDict message
  | _, _ => parsed

def streamEventTypes : List Text :=
  [ofString "message", ofString "message_delta", ofString "completed", ofString "failed",
    ofString "interrupted"]

/-- `parseSessionStreamEvent`. What `JSON.parse` makes of anything but an object has no `type`. -/
def parseSessionStreamEvent (jsonParse : Text → Option Value) (data : Text) : Option Dict :=
  if data.all isJsSpace then none
  else
    match jsonParse data with
    | some (.obj parsed) =>
        let event := normalizeSessionStreamEvent parsed
        match getItem event (ofString "type"), getItem event (ofString "session_id") with
        | some (.str type), some (.int _) | some (.str type), some (.float _) =>
            if type ∈ streamEventTypes then some event else none
        | _, _ => none
    | _ => none

/-- A persisted message, as `message_to_dict` takes it from the table. -/
structure MessageFields where
  id : Text
  sessionId : Int
  sequence : Int
  role : Text
  content : Text
  additionalKwargs : Dict
  createdAt : Option Text

/-- `message_to_dict`. -/
def messageToDict (message : MessageFields) : Dict := [
  (ofString "id", .str message.id),
  (ofString "session_id", .int message.sessionId),
  (ofString "sequence", .int message.sequence),
  (ofString "role", .str message.role),
  (ofString "content", .str message.content),
  (ofString "additional_kwargs", .obj message.additionalKwargs),
  (ofString "created_at", (message.createdAt.map Value.str).getD .null)]

inductive TerminalStatus where
  | completed
  | failed
  | interrupted

def TerminalStatus.text : TerminalStatus → Text
  | .completed => ofString "completed"
  | .failed => ofString "failed"
  | .interrupted => ofString "interrupted"

/-- The events of a session. A message comes flat or nested. -/
inductive SessionEvent where
  | message (nested : Bool) (fields : MessageFields)
  | messageDelta (sessionId : Int) (sequence : Option Int) (role content : Text)
      (additionalKwargs : Dict)
  | terminal (status : TerminalStatus) (sessionId : Int)

/-- The dict of an event. -/
def SessionEvent.dict : SessionEvent → Dict
  | .message true fields => [
      (ofString "type", .str (ofString "message")),
      (ofString "message", .obj (messageToDict fields))]
  | .message false fields => messageDict (messageToDict fields)
  | .messageDelta sessionId sequence role content additionalKwargs => [
      (ofString "type", .str (ofString "message_delta")),
      (ofString "session_id", .int sessionId),
      (ofString "sequence", (sequence.map Value.int).getD .null),
      (ofString "role", .str role),
      (ofString "content", .str content),
      (ofString "additional_kwargs", .obj additionalKwargs)]
  | .terminal status sessionId => [
      (ofString "type", .str status.text),
      (ofString "session_id", .int sessionId)]

/-- The event is a message of the table. -/
def SessionEvent.Persisted : SessionEvent → Prop
  | .message _ _ => True
  | _ => False

section Printable

/-- The text has no control character. -/
def Printable (text : Text) : Prop :=
  ∀ c ∈ text, 0x20 ≤ c

instance (text : Text) : Decidable (Printable text) :=
  inferInstanceAs (Decidable (∀ c ∈ text, 0x20 ≤ c))

variable {printing : Printing}

theorem Printable.append {text text' : Text} (h : Printable text) (h' : Printable text') :
    Printable (text ++ text') :=
  fun c hc => (List.mem_append.mp hc).elim (h c) (h' c)

theorem Printable.cons {c : Nat} {text : Text} (hc : 0x20 ≤ c) (h : Printable text) :
    Printable (c :: text) :=
  List.forall_mem_cons.mpr ⟨hc, h⟩

theorem printable_hexDigitOf (n : Nat) : 0x20 ≤ hexDigitOf n := by
  unfold hexDigitOf
  split <;> omega

theorem printable_escapeUnicode (c : Nat) : Printable (escapeUnicode c) := by
  unfold escapeUnicode
  split
  next letter hletter =>
    have hle : 0x20 ≤ letter := by
      unfold shortEscape at hletter
      grind
    exact .cons (by decide) (.cons hle (List.forall_mem_nil _))
  · split
    · unfold escapeUnit
      refine .cons (by decide) (.cons (by decide) ?_)
      refine .cons (printable_hexDigitOf _) (.cons (printable_hexDigitOf _) ?_)
      exact .cons (printable_hexDigitOf _) (.cons (printable_hexDigitOf _) (List.forall_mem_nil _))
    next hle => exact .cons (Nat.le_of_not_lt hle) (List.forall_mem_nil _)

theorem printable_unicodeString (s : Text) : Printable (unicodeString s) := by
  refine .append (.cons (by decide) ?_) (.cons (by decide) (List.forall_mem_nil _))
  intro c hc
  obtain ⟨original, -, hmem⟩ := List.mem_flatMap.mp hc
  exact printable_escapeUnicode original c hmem

theorem printable_int (value : Int) : Printable (ofString (toString value)) := by
  have hdigits (n : Nat) : ∀ c ∈ n.repr.toList, 0x20 ≤ c.toNat := by
    intro c hc
    rw [Nat.toList_repr] at hc
    have hdigit := Nat.isDigit_of_mem_toDigits (by decide) (by decide) hc
    have hle : '0' ≤ c := by
      simp only [Char.isDigit, Bool.and_eq_true, decide_eq_true_eq] at hdigit
      exact hdigit.1
    exact Nat.le_trans (by decide) hle
  intro c hc
  obtain ⟨letter, hletter, rfl⟩ := List.mem_map.mp hc
  rw [Int.toString_eq_repr, Int.repr_eq_if] at hletter
  split at hletter
  · exact hdigits _ letter hletter
  · rw [String.toList_append] at hletter
    rcases List.mem_append.mp hletter with hminus | hdigit
    · obtain rfl : letter = '-' := by simpa using hminus
      decide
    · exact hdigits _ letter hdigit

mutual

/-- No line break or other control character is left in the output of `json.dumps`. -/
theorem printable_unicodeDumps (hfloat : ∀ literal, Printable (printing.floatRepr literal)) :
    ∀ value, Printable (unicodeDumps printing value)
  | .null => by
      rw [unicodeDumps]
      decide
  | .bool true => by
      rw [unicodeDumps]
      decide
  | .bool false => by
      rw [unicodeDumps]
      decide
  | .int value => by
      rw [unicodeDumps]
      exact printable_int value
  | .float literal => by
      rw [unicodeDumps]
      exact hfloat literal
  | .str text => by
      rw [unicodeDumps]
      exact printable_unicodeString text
  | .arr items => by
      rw [unicodeDumps]
      refine .append (.cons (by decide) (printable_unicodeItems hfloat items)) ?_
      exact .cons (by decide) (List.forall_mem_nil _)
  | .obj entries => by
      rw [unicodeDumps]
      refine .append (.cons (by decide) (printable_unicodeMembers hfloat entries)) ?_
      exact .cons (by decide) (List.forall_mem_nil _)

theorem printable_unicodeItems (hfloat : ∀ literal, Printable (printing.floatRepr literal)) :
    ∀ items, Printable (unicodeItems printing items)
  | [] => List.forall_mem_nil _
  | [value] => by
      rw [unicodeItems]
      exact printable_unicodeDumps hfloat value
  | value :: next :: items => by
      rw [unicodeItems]
      refine (printable_unicodeDumps hfloat value).append ?_
      exact .cons (by decide) (.cons (by decide) (printable_unicodeItems hfloat (next :: items)))

theorem printable_unicodeMembers (hfloat : ∀ literal, Printable (printing.floatRepr literal)) :
    ∀ entries, Printable (unicodeMembers printing entries)
  | [] => List.forall_mem_nil _
  | [(key, value)] => by
      rw [unicodeMembers]
      refine (printable_unicodeString key).append ?_
      exact .cons (by decide) (.cons (by decide) (printable_unicodeDumps hfloat value))
  | (key, value) :: next :: entries => by
      rw [unicodeMembers]
      refine .append ((printable_unicodeString key).append ?_) ?_
      · exact .cons (by decide) (.cons (by decide) (printable_unicodeDumps hfloat value))
      · exact .cons (by decide) (.cons (by decide)
          (printable_unicodeMembers hfloat (next :: entries)))

end

end Printable

section Frames

variable {printing : Printing} {event : Dict}

/-- The fields of a frame. -/
def frameFields (printing : Printing) (event : Dict) : List (Text × Text) :=
  let data := (ofString "data", unicodeDumps printing (.obj event))
  match typedMessage event, sequenceText event with
  | true, some sequence => [(ofString "id", sequence), (ofString "event", ofString "message"), data]
  | _, _ => [(ofString "event", typeText printing event), data]

/-- A frame is written as one block of fields. -/
theorem formatSessionSse_eq : formatSessionSse printing event =
    block (frameFields printing (flattenMessageEvent event)) := by
  have hid : ofString "id: " = ofString "id" ++ [0x3a, 0x20] := by decide
  have hmessage : ofString "\nevent: message\ndata: " = 0x0a :: (ofString "event" ++ 0x3a :: 0x20 ::
      (ofString "message" ++ 0x0a :: (ofString "data" ++ [0x3a, 0x20]))) := by decide
  have hevent : ofString "event: " = ofString "event" ++ [0x3a, 0x20] := by decide
  have hdata : ofString "\ndata: " = 0x0a :: (ofString "data" ++ [0x3a, 0x20]) := by decide
  have hend : ofString "\n\n" = [0x0a, 0x0a] := by decide
  unfold formatSessionSse frameFields
  dsimp only
  split
  · simp [block, fieldLine, hid, hmessage, hend]
  · simp [block, fieldLine, hevent, hdata, hend]

/-- The flattened event. -/
def SessionEvent.flat : SessionEvent → Dict
  | .message _ fields => messageDict (messageToDict fields)
  | event => event.dict

/-- The type of the event. -/
def SessionEvent.type : SessionEvent → Text
  | .message _ _ => ofString "message"
  | .messageDelta _ _ _ _ _ => ofString "message_delta"
  | .terminal status _ => status.text

theorem flattenMessageEvent_dict (event : SessionEvent) :
    flattenMessageEvent event.dict = event.flat := by
  cases event with
  | message nested fields => cases nested <;> rfl
  | messageDelta sessionId sequence role content additionalKwargs => rfl
  | terminal status sessionId => cases status <;> rfl

theorem type_flat (event : SessionEvent) :
    getItem event.flat (ofString "type") = some (.str event.type) := by
  cases event with
  | message nested fields => rfl
  | messageDelta sessionId sequence role content additionalKwargs => rfl
  | terminal status sessionId => rfl

theorem sessionId_flat (event : SessionEvent) :
    ∃ sessionId, getItem event.flat (ofString "session_id") = some (.int sessionId) := by
  cases event with
  | message nested fields => exact ⟨fields.sessionId, rfl⟩
  | messageDelta sessionId sequence role content additionalKwargs => exact ⟨sessionId, rfl⟩
  | terminal status sessionId => exact ⟨sessionId, rfl⟩

theorem message_flat (event : SessionEvent) :
    getItem event.flat (ofString "message") = none := by
  cases event with
  | message nested fields => rfl
  | messageDelta sessionId sequence role content additionalKwargs => rfl
  | terminal status sessionId => rfl

theorem type_mem (event : SessionEvent) : event.type ∈ streamEventTypes := by
  cases event with
  | message nested fields =>
      change ofString "message" ∈ streamEventTypes
      decide
  | messageDelta sessionId sequence role content additionalKwargs =>
      change ofString "message_delta" ∈ streamEventTypes
      decide
  | terminal status sessionId =>
      change status.text ∈ streamEventTypes
      cases status <;> decide

theorem type_printable (event : SessionEvent) : Printable event.type := by
  have hall : ∀ type ∈ streamEventTypes, Printable type := by decide
  exact hall event.type (type_mem event)

theorem type_ne_nil (event : SessionEvent) : event.type ≠ [] := by
  have hall : ∀ type ∈ streamEventTypes, type ≠ [] := by decide
  exact hall event.type (type_mem event)

/-- The value of the id line of an event, if it has one. -/
def SessionEvent.idText? : SessionEvent → Option Text
  | .message _ fields => some (ofString (toString fields.sequence))
  | _ => none

theorem frameFields_flat (printing : Printing) (event : SessionEvent) :
    frameFields printing event.flat =
      (event.idText?.map fun text => (ofString "id", text)).toList ++
        [(ofString "event", event.type),
          (ofString "data", unicodeDumps printing (.obj event.flat))] := by
  cases event with
  | message nested fields => rfl
  | messageDelta sessionId sequence role content additionalKwargs => rfl
  | terminal status sessionId => cases status <;> rfl

theorem idText_printable (event : SessionEvent) : ∀ text ∈ event.idText?, Printable text := by
  intro text htext
  cases event with
  | message nested fields => exact Option.some.inj htext ▸ printable_int fields.sequence
  | messageDelta sessionId sequence role content additionalKwargs => cases htext
  | terminal status sessionId => cases htext

theorem idText_isSome (event : SessionEvent) : event.idText?.isSome = true ↔ event.Persisted := by
  cases event <;> simp [SessionEvent.idText?, SessionEvent.Persisted]

/-- Every field of a frame is read as it was written. -/
theorem legible_frameFields (hfloat : ∀ literal, Printable (printing.floatRepr literal))
    (event : SessionEvent) : ∀ entry ∈ frameFields printing event.flat, Legible entry := by
  have hlegible {name value : Text} (hname : name ∈ [ofString "id", ofString "event",
      ofString "data"]) (hvalue : Printable value) : Legible (name, value) := by
    have hnames : ∀ name ∈ [ofString "id", ofString "event", ofString "data"],
        name ≠ [] ∧ 0x3a ∉ name ∧ Printable name := by decide
    obtain ⟨hnamed, hcolon, hplain⟩ := hnames name hname
    exact ⟨hnamed, hcolon, .of_printable hplain, .of_printable hvalue⟩
  rw [frameFields_flat]
  intro entry hentry
  rcases List.mem_append.mp hentry with hid | hrest
  · obtain ⟨text, htext, rfl⟩ := Option.map_eq_some_iff.mp (Option.mem_toList.mp hid)
    exact hlegible (by decide) (idText_printable event text htext)
  · simp only [List.mem_cons, List.not_mem_nil, or_false] at hrest
    rcases hrest with rfl | rfl
    · exact hlegible (by decide) (type_printable event)
    · exact hlegible (by decide) (printable_unicodeDumps hfloat _)

/-- A frame leaves its fields in the buffers. -/
theorem buffers_frameFields (event : SessionEvent) :
    (frameFields printing event.flat).foldl (fun buffers entry => buffer entry.1 entry.2 buffers)
      .empty = {
        data := unicodeDumps printing (.obj event.flat) ++ [0x0a]
        type := event.type
        lastEventId := event.idText?.getD [] } := by
  have hid (text : Text) (htext : Printable text) :
      buffer (ofString "id") text .empty = { Buffers.empty with lastEventId := text } := by
    have hnull : 0x00 ∉ text := fun hmem => absurd (htext 0x00 hmem) (by decide)
    have hevent : ofString "id" ≠ ofString "event" := by decide
    have hdata : ofString "id" ≠ ofString "data" := by decide
    rw [buffer, if_neg hevent, if_neg hdata, if_pos rfl, if_neg hnull]
  have hfields (buffers : Buffers) (type data : Text) :
      buffer (ofString "data") data (buffer (ofString "event") type buffers) =
        { buffers with type, data := buffers.data ++ data ++ [0x0a] } := by
    have hdata : ofString "data" ≠ ofString "event" := by decide
    rw [buffer, if_neg hdata, if_pos rfl, buffer, if_pos rfl]
  rw [frameFields_flat]
  cases htext : event.idText? with
  | none => exact hfields .empty _ _
  | some text =>
      have hbuffer := hid text (idText_printable event text htext)
      exact (congrArg (fun buffers => buffer (ofString "data") _
        (buffer (ofString "event") event.type buffers)) hbuffer).trans (hfields _ _ _)

/-- What a frame is read as. -/
theorem events_frame (hfloat : ∀ literal, Printable (printing.floatRepr literal))
    (event : SessionEvent) :
    lines (formatSessionSse printing event.dict) =
        (frameFields printing event.flat).map (fun entry => fieldLine entry.1 entry.2) ++ [[]] ∧
      events (formatSessionSse printing event.dict) = [{
        type := event.type
        data := unicodeDumps printing (.obj event.flat)
        lastEventId := event.idText?.getD [] }] := by
  have hmark : (block (frameFields printing event.flat)).head? ≠ some 0xfeff := by
    rw [frameFields_flat]
    cases event.idText? with
    | none => exact (by decide : some 0x65 ≠ some 0xfeff)
    | some text => exact (by decide : some 0x69 ≠ some 0xfeff)
  rw [formatSessionSse_eq, flattenMessageEvent_dict]
  obtain ⟨hlines, hevents⟩ := events_block (legible_frameFields hfloat event) hmark
  refine ⟨hlines, ?_⟩
  rw [hevents, buffers_frameFields, dispatch]
  simp [type_ne_nil]

/-- The lines of a frame have an id among their fields exactly if the event has one. -/
theorem id_line_iff (hfloat : ∀ literal, Printable (printing.floatRepr literal))
    (event : SessionEvent) :
    (∃ line ∈ (frameFields printing event.flat).map (fun entry => fieldLine entry.1 entry.2) ++
      [[]], (field line).1 = ofString "id") ↔ event.idText?.isSome = true := by
  have hread : ∀ entry ∈ frameFields printing event.flat,
      field (fieldLine entry.1 entry.2) = entry :=
    fun entry hentry => field_fieldLine (legible_frameFields hfloat event entry hentry).noColon
  have hothers : ∀ name ∈ [[], ofString "event", ofString "data"], name ≠ ofString "id" := by decide
  constructor
  · rintro ⟨line, hline, hid⟩
    rcases List.mem_append.mp hline with hmem | hmem
    · obtain ⟨entry, hentry, rfl⟩ := List.mem_map.mp hmem
      rw [hread entry hentry] at hid
      rw [frameFields_flat] at hentry
      rcases List.mem_append.mp hentry with hnumber | hrest
      · obtain ⟨text, htext, -⟩ := Option.map_eq_some_iff.mp (Option.mem_toList.mp hnumber)
        exact Option.isSome_of_mem htext
      · simp only [List.mem_cons, List.not_mem_nil, or_false] at hrest
        rcases hrest with rfl | rfl <;> exact absurd hid (hothers _ (by simp))
    · obtain rfl := List.mem_singleton.mp hmem
      exact absurd hid (hothers [] (by simp))
  · intro hsome
    obtain ⟨text, htext⟩ := Option.isSome_iff_exists.mp hsome
    have hentry : (ofString "id", text) ∈ frameFields printing event.flat := by
      rw [frameFields_flat, htext]
      exact List.mem_cons_self
    refine ⟨_, List.mem_append_left _ (List.mem_map_of_mem hentry), ?_⟩
    rw [hread _ hentry]

/-- The client reads an event that `JSON.parse` gives it back. -/
theorem parse_flat {jsonParse : Text → Option Value} (event : SessionEvent)
    (hparse : jsonParse (unicodeDumps printing (.obj event.flat)) = some (.obj event.flat)) :
    parseSessionStreamEvent jsonParse (unicodeDumps printing (.obj event.flat)) =
      some event.flat := by
  have hspace : (unicodeDumps printing (.obj event.flat)).all isJsSpace = false := by
    rw [unicodeDumps]
    rfl
  have hnormal : normalizeSessionStreamEvent event.flat = event.flat := by
    rw [normalizeSessionStreamEvent, message_flat]
    cases typedMessage event.flat <;> rfl
  obtain ⟨sessionId, hsession⟩ := sessionId_flat event
  unfold parseSessionStreamEvent
  simp only [hspace, Bool.false_eq_true, if_false, hparse, hnormal, type_flat, hsession,
    if_pos (type_mem event)]

/-- Every event of a session comes out of its one frame as the flattened event, whatever is in its
texts, and the frame has an id line exactly for a persisted message. -/
theorem session_frame (printing : Printing) (jsonParse : Text → Option Value)
    (event : SessionEvent) (hfloat : ∀ literal, Printable (printing.floatRepr literal))
    (hparse : jsonParse (unicodeDumps printing (.obj (flattenMessageEvent event.dict))) =
      some (.obj (flattenMessageEvent event.dict))) :
    ∃ frame, events (formatSessionSse printing event.dict) = [frame] ∧ frame.type = event.type ∧
      parseSessionStreamEvent jsonParse frame.data = some (flattenMessageEvent event.dict) ∧
      ((∃ line ∈ lines (formatSessionSse printing event.dict), (field line).1 = ofString "id") ↔
        event.Persisted) := by
  rw [flattenMessageEvent_dict] at hparse
  obtain ⟨hlines, hevents⟩ := events_frame hfloat event
  refine ⟨_, hevents, rfl, ?_, ?_⟩
  · rw [flattenMessageEvent_dict]
    exact parse_flat event hparse
  · rw [hlines, ← idText_isSome]
    exact id_line_iff hfloat event

end Frames

/-- A message of a session, with line breaks and what looks like fields in its text. -/
def brokenLines : SessionEvent :=
  .message true {
    id := ofString "7"
    sessionId := 3
    sequence := 12
    role := ofString "assistant"
    content := ofString "a\n\nid: 1\r\ndata: b"
    additionalKwargs := [(ofString "step", .str (ofString "review_sop"))]
    createdAt := none }

/-- Every float is zero. -/
def zeroPrinting : Printing where
  floatRepr := fun _ => ofString "0.0"
  str := fun _ => []

/-- A parser that reads one text. -/
def parseOnly (text : Text) (value : Value) (data : Text) : Option Value :=
  if data = text then some value else none

theorem brokenLines_frame :
    ∃ frame, events (formatSessionSse zeroPrinting brokenLines.dict) = [frame] ∧
      frame.type = ofString "message" ∧
      parseSessionStreamEvent (parseOnly
        (unicodeDumps zeroPrinting (.obj (flattenMessageEvent brokenLines.dict)))
        (.obj (flattenMessageEvent brokenLines.dict))) frame.data =
          some (flattenMessageEvent brokenLines.dict) ∧
      ∃ line ∈ lines (formatSessionSse zeroPrinting brokenLines.dict),
        (field line).1 = ofString "id" := by
  have hfloat : ∀ literal, Printable (zeroPrinting.floatRepr literal) :=
    fun _ => (by decide : Printable (ofString "0.0"))
  obtain ⟨frame, hevents, htype, hparse, hid⟩ :=
    session_frame zeroPrinting (parseOnly _ _) brokenLines hfloat (if_pos rfl)
  exact ⟨frame, hevents, htype, hparse, hid.mpr trivial⟩

end ChangeQuality.SessionFrames
