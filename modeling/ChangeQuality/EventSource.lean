import ChangeQuality.Texts

/-!
The event stream format: how a reader of an event stream takes lines and fields from the decoded
text, and which events it dispatches.
-/

namespace ChangeQuality.EventSource

open ChangeQuality.Texts

/-- The lines that are complete, `line` being what has been read of the first one, backwards. A line
ends with CR LF, LF or CR. -/
def linesFrom (line : Text) : Text → List Text
  | [] => []
  | 0x0d :: 0x0a :: s => line.reverse :: linesFrom [] s
  | c :: s =>
    if c = 0x0a ∨ c = 0x0d then line.reverse :: linesFrom [] s
    else linesFrom (c :: line) s

/-- The lines of a stream, which may start with a byte order mark. -/
def lines : Text → List Text
  | 0xfeff :: s => linesFrom [] s
  | s => linesFrom [] s

/-- The name and the value of a field; one space behind the colon does not count. -/
def field (line : Text) : Text × Text :=
  (line.takeWhile (· != 0x3a),
    match line.dropWhile (· != 0x3a) with
    | _ :: 0x20 :: value => value
    | _ :: value => value
    | [] => [])

/-- An event as it is dispatched. -/
structure Event where
  type : Text
  data : Text
  lastEventId : Text
  deriving DecidableEq

/-- The buffers of a reader. -/
structure Buffers where
  data : Text
  type : Text
  lastEventId : Text
  deriving DecidableEq

def Buffers.empty : Buffers where
  data := []
  type := []
  lastEventId := []

/-- A blank line dispatches what was buffered, unless there is no data. -/
def dispatch (buffers : Buffers) : List Event :=
  if buffers.data = [] then []
  else [{
    type := if buffers.type = [] then ofString "message" else buffers.type
    data := if buffers.data.getLast? = some 0x0a then buffers.data.dropLast else buffers.data
    lastEventId := buffers.lastEventId }]

/-- A field goes into its buffer. The reconnection time and unknown fields are left out. -/
def buffer (name value : Text) (buffers : Buffers) : Buffers :=
  if name = ofString "event" then { buffers with type := value }
  else if name = ofString "data" then { buffers with data := buffers.data ++ value ++ [0x0a] }
  else if name = ofString "id" then
    if 0x00 ∈ value then buffers else { buffers with lastEventId := value }
  else buffers

/-- The events of the lines. A line that starts with a colon is a comment. -/
def eventsOf : Buffers → List Text → List Event
  | _, [] => []
  | buffers, line :: rest =>
      if line = [] then dispatch buffers ++ eventsOf { buffers with data := [], type := [] } rest
      else if line.head? = some 0x3a then eventsOf buffers rest
      else eventsOf (buffer (field line).1 (field line).2 buffers) rest

/-- The events that a stream dispatches. -/
def events (stream : Text) : List Event :=
  eventsOf .empty (lines stream)

/-- The text has no line break. -/
def OneLine (text : Text) : Prop :=
  0x0a ∉ text ∧ 0x0d ∉ text

/-- A line of a stream that sets a field. -/
def fieldLine (name value : Text) : Text :=
  name ++ 0x3a :: 0x20 :: value

section Lines

variable {name value text rest : Text}

theorem OneLine.append {text' : Text} (h : OneLine text) (h' : OneLine text') :
    OneLine (text ++ text') :=
  ⟨fun hmem => (List.mem_append.mp hmem).elim h.1 h'.1,
    fun hmem => (List.mem_append.mp hmem).elim h.2 h'.2⟩

theorem OneLine.of_printable (h : ∀ c ∈ text, 0x20 ≤ c) : OneLine text :=
  ⟨fun hmem => absurd (h 0x0a hmem) (by decide), fun hmem => absurd (h 0x0d hmem) (by decide)⟩

theorem linesFrom_line (line : Text) (h : OneLine text) :
    linesFrom line (text ++ 0x0a :: rest) = (line.reverse ++ text) :: linesFrom [] rest := by
  induction text generalizing line with
  | nil =>
      rw [List.nil_append, linesFrom, if_pos (.inl rfl), List.append_nil]
      rintro _ ⟨⟩
  | cons c text ih =>
      obtain ⟨hlf, hcr⟩ := h
      have hc : ¬ (c = 0x0a ∨ c = 0x0d) := by
        rintro (rfl | rfl)
        · exact hlf List.mem_cons_self
        · exact hcr List.mem_cons_self
      have htext : OneLine text :=
        ⟨fun hmem => hlf (List.mem_cons_of_mem c hmem),
          fun hmem => hcr (List.mem_cons_of_mem c hmem)⟩
      rw [List.cons_append, linesFrom, if_neg hc, ih (c :: line) htext, List.reverse_cons,
        List.append_assoc, List.singleton_append]
      rintro _ rfl
      exact absurd (Or.inr rfl) hc

theorem field_fieldLine (h : 0x3a ∉ name) : field (fieldLine name value) = (name, value) := by
  have hname : ∀ c ∈ name, (c != 0x3a) = true :=
    fun c hc => bne_iff_ne.mpr fun heq => h (heq ▸ hc)
  simp [field, fieldLine, List.takeWhile_append_of_pos hname, List.dropWhile_append_of_pos hname]

end Lines

section Blocks

/-- Field lines and a blank line behind them. -/
def block (fields : List (Text × Text)) : Text :=
  fields.flatMap (fun entry => fieldLine entry.1 entry.2 ++ [0x0a]) ++ [0x0a]

/-- A field that is read as it was written. -/
structure Legible (entry : Text × Text) : Prop where
  named : entry.1 ≠ []
  noColon : 0x3a ∉ entry.1
  name : OneLine entry.1
  value : OneLine entry.2

variable {fields : List (Text × Text)} {rest : Text} {buffers : Buffers}

theorem Legible.oneLine {entry : Text × Text} (h : Legible entry) :
    OneLine (fieldLine entry.1 entry.2) := by
  have hmark : OneLine [0x3a, 0x20] := ⟨by decide, by decide⟩
  exact h.name.append (hmark.append h.value)

theorem linesFrom_block (h : ∀ entry ∈ fields, Legible entry) :
    linesFrom [] (block fields ++ rest) =
      fields.map (fun entry => fieldLine entry.1 entry.2) ++ [] :: linesFrom [] rest := by
  unfold block
  induction fields with
  | nil =>
      have hblank : OneLine [] := ⟨List.not_mem_nil, List.not_mem_nil⟩
      exact linesFrom_line [] hblank
  | cons entry fields ih =>
      obtain ⟨hentry, hfields⟩ := List.forall_mem_cons.mp h
      rw [List.flatMap_cons, List.append_assoc, List.append_assoc, List.append_assoc,
        List.singleton_append, linesFrom_line [] hentry.oneLine, ← List.append_assoc, ih hfields]
      rfl

theorem eventsOf_fields {lines : List Text} (h : ∀ entry ∈ fields, Legible entry) :
    eventsOf buffers (fields.map (fun entry => fieldLine entry.1 entry.2) ++ lines) =
      eventsOf (fields.foldl (fun buffers entry => buffer entry.1 entry.2 buffers) buffers)
        lines := by
  induction fields generalizing buffers with
  | nil => rfl
  | cons entry fields ih =>
      obtain ⟨hentry, hfields⟩ := List.forall_mem_cons.mp h
      obtain ⟨first, name, hname⟩ := List.exists_cons_of_ne_nil hentry.named
      have hline : fieldLine entry.1 entry.2 ≠ [] := by simp [fieldLine]
      have hhead : (fieldLine entry.1 entry.2).head? ≠ some 0x3a := by
        have hfirst : first ≠ 0x3a := fun heq => hentry.noColon (by simp [hname, heq])
        simpa [fieldLine, hname] using hfirst
      rw [List.map_cons, List.cons_append, eventsOf, if_neg hline, if_neg hhead,
        field_fieldLine hentry.noColon, ih hfields, List.foldl_cons]

theorem eventsOf_block {lines : List Text} (h : ∀ entry ∈ fields, Legible entry) :
    eventsOf buffers (fields.map (fun entry => fieldLine entry.1 entry.2) ++ [] :: lines) =
      dispatch (fields.foldl (fun buffers entry => buffer entry.1 entry.2 buffers) buffers) ++
        eventsOf { fields.foldl (fun buffers entry => buffer entry.1 entry.2 buffers) buffers with
          data := [], type := [] } lines := by
  rw [eventsOf_fields h, eventsOf, if_pos rfl]

/-- A block whose blank line has not come yet. -/
theorem linesFrom_fields (h : ∀ entry ∈ fields, Legible entry) :
    linesFrom [] (fields.flatMap fun entry => fieldLine entry.1 entry.2 ++ [0x0a]) =
      fields.map fun entry => fieldLine entry.1 entry.2 := by
  induction fields with
  | nil => rfl
  | cons entry fields ih =>
      obtain ⟨hentry, hfields⟩ := List.forall_mem_cons.mp h
      rw [List.flatMap_cons, List.append_assoc, List.singleton_append,
        linesFrom_line [] hentry.oneLine, ih hfields]
      rfl

theorem lines_eq (h : rest.head? ≠ some 0xfeff) : lines rest = linesFrom [] rest := by
  unfold lines
  split
  next s => exact absurd rfl h
  · rfl

/-- A stream that is one block of fields dispatches what they leave in the buffers. -/
theorem events_block (h : ∀ entry ∈ fields, Legible entry)
    (hmark : (block fields).head? ≠ some 0xfeff) :
    lines (block fields) = fields.map (fun entry => fieldLine entry.1 entry.2) ++ [[]] ∧
      events (block fields) =
        dispatch (fields.foldl (fun buffers entry => buffer entry.1 entry.2 buffers) .empty) := by
  have hlines : lines (block fields) =
      fields.map (fun entry => fieldLine entry.1 entry.2) ++ [[]] := by
    have hblock := @linesFrom_block fields [] h
    rw [List.append_nil] at hblock
    rw [lines_eq hmark, hblock]
    rfl
  refine ⟨hlines, ?_⟩
  rw [events, hlines, eventsOf_fields h]
  exact List.append_nil _

end Blocks

section Prefixes

variable {text text' : Text}

/-- The lines of what has come so far stay the first ones, also where a CR LF was cut in two. -/
theorem linesFrom_mono (line : Text) (h : text <+: text') :
    linesFrom line text <+: linesFrom line text' := by
  obtain ⟨rest, rfl⟩ := h
  induction line, text using linesFrom.induct with
  | case1 line => exact List.nil_prefix
  | case2 line s ih =>
      rw [List.cons_append, List.cons_append, linesFrom, linesFrom]
      exact List.cons_prefix_cons.mpr ⟨rfl, ih⟩
  | case3 line c s hcrlf hbreak ih =>
      rw [linesFrom.eq_3 line c s hcrlf, if_pos hbreak, List.cons_append]
      by_cases hnext : ∃ later, c = 0x0d ∧ s ++ rest = 0x0a :: later
      · obtain ⟨later, rfl, hlater⟩ := hnext
        have hs : s = [] := by
          cases s with
          | nil => rfl
          | cons next s =>
              obtain ⟨rfl, -⟩ := List.cons.inj hlater
              exact absurd rfl (hcrlf s rfl)
        rw [hlater, linesFrom, hs]
        exact List.cons_prefix_cons.mpr ⟨rfl, List.nil_prefix⟩
      · rw [linesFrom.eq_3 line c (s ++ rest) fun later hc hlater => hnext ⟨later, hc, hlater⟩,
          if_pos hbreak]
        exact List.cons_prefix_cons.mpr ⟨rfl, ih⟩
  | case4 line c s hcrlf hbreak ih =>
      have hcr : c ≠ 0x0d := fun heq => hbreak (.inr heq)
      rw [linesFrom.eq_3 line c s hcrlf, if_neg hbreak, List.cons_append,
        linesFrom.eq_3 line c (s ++ rest) fun later hc => absurd hc hcr, if_neg hbreak]
      exact ih

theorem eventsOf_mono {buffers : Buffers} {early late : List Text} (h : early <+: late) :
    eventsOf buffers early <+: eventsOf buffers late := by
  obtain ⟨rest, rfl⟩ := h
  induction early generalizing buffers with
  | nil => exact List.nil_prefix
  | cons line early ih =>
      rw [List.cons_append, eventsOf, eventsOf]
      split
      · exact (List.prefix_append_right_inj _).mpr ih
      · split
        · exact ih
        · exact ih

/-- What comes later takes no event back. -/
theorem events_mono (h : text <+: text') : events text <+: events text' := by
  obtain ⟨rest, rfl⟩ := h
  refine eventsOf_mono ?_
  cases text with
  | nil => exact List.nil_prefix
  | cons c text =>
      by_cases hmark : c = 0xfeff
      · rw [hmark]
        exact linesFrom_mono [] (List.prefix_append _ _)
      · have hhead : (c :: text).head? ≠ some 0xfeff := fun heq => hmark (Option.some.inj heq)
        have hlate : (c :: text ++ rest).head? ≠ some 0xfeff := hhead
        rw [lines_eq hhead, lines_eq hlate]
        exact linesFrom_mono [] (List.prefix_append _ _)

end Prefixes

end ChangeQuality.EventSource
