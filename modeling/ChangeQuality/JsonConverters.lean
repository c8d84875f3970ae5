import ChangeQuality.Records

/-!
The converters from Python values to JSON values.
-/

namespace ChangeQuality.JsonConverters

open ChangeQuality.Records

/-- A finite Python value. A set and a mapping have the order in which they are iterated over. -/
inductive Value where
  | none
  | bool (value : Bool)
  | int (value : Int)
  | float (bits : BitVec 64)
  | str (text : String)
  | bytes (data : List UInt8)
  | list (items : List Value)
  | tuple (items : List Value)
  /-- A `Sequence` of another type. -/
  | sequence (items : List Value)
  | set (items : List Value)
  | mapping (isDict : Bool) (entries : List (Value × Value))
  /-- An object with a `model_dump`; it raises a `TypeError` for a `mode` that it does not take. -/
  | model (identity : Nat) (takesMode : Bool) (jsonDump dump content : Value)
  /-- Any other object; it may have a `dict`. -/
  | object (identity : Nat) (hasDict : Bool) (toDict content : Value)

/-- The texts of values: `str` and `repr`, and `decode(errors="replace")` of bytes. -/
structure Rendering where
  str : Value → String
  repr : Value → String
  decode : List UInt8 → String

/-- `str(value)`. -/
def Rendering.strOf (rendering : Rendering) : Value → String
  | .str text => text
  | value => rendering.str value

/-- A dict comprehension over entries: the last value of a key stays, at its first place. -/
def dictOf (entries : List (String × Value)) : List (Value × Value) :=
  (build entries).map fun entry => (.str entry.1, entry.2)

/-- What a converter looks into. It renders all other values as texts. -/
structure Rules where
  /-- Mappings that are no `dict`. -/
  mappings : Bool
  sequences : Bool
  sets : Bool
  /-- Objects with a `model_dump`. -/
  models : Bool
  /-- Objects with a `dict`. -/
  dicts : Bool
  bytes : Bool
  /-- Keys that are no strings are converted before they are rendered. -/
  keys : Bool
  text : Rendering → Value → String

section Convert

variable (rendering : Rendering) (rules : Rules)

mutual

def convert : Value → Value
  | .none => .none
  | .bool value => .bool value
  | .int value => .int value
  | .float bits => .float bits
  | .str text => .str text
  | .bytes data =>
      if rules.bytes then .str (rendering.decode data)
      else .str (rules.text rendering (.bytes data))
  | .list items => .list (convertItems items)
  | .tuple items => .list (convertItems items)
  | .sequence items =>
      if rules.sequences then .list (convertItems items)
      else .str (rules.text rendering (.sequence items))
  | .set items =>
      if rules.sets then .list (convertItems items)
      else .str (rules.text rendering (.set items))
  | .mapping isDict entries =>
      if isDict || rules.mappings then .mapping true (dictOf (convertEntries entries))
      else .str (rules.text rendering (.mapping isDict entries))
  | .model identity takesMode jsonDump dump content =>
      if rules.models then
        if takesMode then convert jsonDump else convert dump
      else .str (rules.text rendering (.model identity takesMode jsonDump dump content))
  | .object identity hasDict toDict content =>
      -- `json.dumps` raises a `TypeError` on an object, so its text is what is left.
      if rules.dicts && hasDict then convert toDict
      else .str (rules.text rendering (.object identity hasDict toDict content))

def convertItems : List Value → List Value
  | [] => []
  | value :: items => convert value :: convertItems items

def convertEntries : List (Value × Value) → List (String × Value)
  | [] => []
  | (key, value) :: entries =>
      (if rules.keys then rendering.strOf (convert key) else rendering.strOf key,
        convert value) :: convertEntries entries

end

end Convert

/-- `to_json_value`. -/
def toJsonValue (rendering : Rendering) : Value → Value :=
  convert rendering {
    mappings := true
    sequences := false
    sets := true
    models := true
    dicts := false
    bytes := true
    keys := false
    text := Rendering.repr }

/-- `to_jsonable`, with `_json_key`. -/
def toJsonable (rendering : Rendering) : Value → Value :=
  convert rendering {
    mappings := true
    sequences := false
    sets := true
    models := true
    dicts := true
    bytes := true
    keys := true
    text := Rendering.strOf }

/-- `_json_safe` of the stream events. -/
def streamJsonSafe (rendering : Rendering) : Value → Value :=
  convert rendering {
    mappings := true
    sequences := true
    sets := false
    models := false
    dicts := false
    bytes := false
    keys := false
    text := Rendering.repr }

/-- `_json_safe` of the submission. -/
def submitJsonSafe (rendering : Rendering) : Value → Value :=
  convert rendering {
    mappings := false
    sequences := false
    sets := false
    models := false
    dicts := false
    bytes := false
    keys := false
    text := Rendering.repr }

mutual

/-- A JSON value: leaves, lists, and dicts with distinct strings for keys. -/
def IsJson : Value → Prop
  | .none | .bool _ | .int _ | .float _ | .str _ => True
  | .list items => JsonItems items
  | .mapping true entries => (entries.map Prod.fst).Nodup ∧ JsonEntries entries
  | _ => False

def JsonItems : List Value → Prop
  | [] => True
  | value :: items => IsJson value ∧ JsonItems items

def JsonEntries : List (Value × Value) → Prop
  | [] => True
  | (.str _, value) :: entries => IsJson value ∧ JsonEntries entries
  | _ :: _ => False

end

mutual

/-- A value built from JSON leaves, lists, tuples and dicts with strings for keys. -/
def JsonLike : Value → Prop
  | .none | .bool _ | .int _ | .float _ | .str _ => True
  | .list items | .tuple items => LikeItems items
  | .mapping true entries => LikeEntries entries
  | _ => False

def LikeItems : List Value → Prop
  | [] => True
  | value :: items => JsonLike value ∧ LikeItems items

def LikeEntries : List (Value × Value) → Prop
  | [] => True
  | (.str _, value) :: entries => JsonLike value ∧ LikeEntries entries
  | _ :: _ => False

end

section Convert

variable {rendering : Rendering} {rules : Rules}

theorem jsonEntries_iff {entries : List (String × Value)} :
    JsonEntries (entries.map fun entry => (.str entry.1, entry.2)) ↔
      ∀ entry ∈ entries, IsJson entry.2 := by
  induction entries with
  | nil => simp [JsonEntries]
  | cons entry entries ih => simp [JsonEntries, ih]

/-- A dict comprehension over JSON values is a JSON value. -/
theorem isJson_dictOf {entries : List (String × Value)}
    (h : ∀ entry ∈ entries, IsJson entry.2) : IsJson (.mapping true (dictOf entries)) := by
  refine ⟨?_, jsonEntries_iff.mpr fun entry hentry => h entry (mem_build hentry)⟩
  have hkeys : (dictOf entries).map Prod.fst = (keys (build entries)).map .str := by
    simp [dictOf, keys, Function.comp_def]
  rw [hkeys]
  exact nodup_keys_build.map fun a b hab => Value.str.inj hab

mutual

/-- Whatever a converter looks into, it returns a JSON value. -/
theorem isJson_convert : ∀ value, IsJson (convert rendering rules value)
  | .none | .bool _ | .int _ | .float _ | .str _ => by simp [convert, IsJson]
  | .bytes _ => by
      rw [convert]
      split <;> simp [IsJson]
  | .list items | .tuple items => by
      rw [convert, IsJson]
      exact jsonItems_convert items
  | .sequence items | .set items => by
      rw [convert]
      split
      · exact jsonItems_convert items
      · simp [IsJson]
  | .mapping _ entries => by
      rw [convert]
      split
      · exact isJson_dictOf (isJson_convertEntries entries)
      · simp [IsJson]
  | .model _ takesMode jsonDump dump _ => by
      rw [convert]
      split
      · split
        · exact isJson_convert jsonDump
        · exact isJson_convert dump
      · simp [IsJson]
  | .object _ _ toDict _ => by
      rw [convert]
      split
      · exact isJson_convert toDict
      · simp [IsJson]

theorem jsonItems_convert : ∀ items, JsonItems (convertItems rendering rules items)
  | [] => trivial
  | value :: items => ⟨isJson_convert value, jsonItems_convert items⟩

theorem isJson_convertEntries :
    ∀ entries, ∀ entry ∈ convertEntries rendering rules entries, IsJson entry.2
  | [] => by simp [convertEntries]
  | (key, value) :: entries => by
      intro entry hentry
      rw [convertEntries] at hentry
      rcases List.mem_cons.mp hentry with rfl | hmem
      · exact isJson_convert value
      · exact isJson_convertEntries entries entry hmem

end

/-- A string key is rendered as itself, converted or not. -/
theorem keyText_str (text : String) :
    (if rules.keys then rendering.strOf (convert rendering rules (.str text))
      else rendering.strOf (.str text)) = text := by
  cases rules.keys <;> simp [convert, Rendering.strOf]

mutual

/-- A JSON value is left as it is. -/
theorem convert_of_isJson : ∀ value, IsJson value → convert rendering rules value = value
  | .none, _ | .bool _, _ | .int _, _ | .float _, _ | .str _, _ => by rw [convert]
  | .list items, h => by
      rw [convert, convertItems_of_jsonItems items h]
  | .mapping true entries, h => by
      have hentries := convertEntries_of_jsonEntries entries h.2
      have hkeys : entries.map Prod.fst =
          (keys (convertEntries rendering rules entries)).map .str := by
        conv_lhs => rw [← hentries]
        simp [keys, Function.comp_def]
      have hnodup : (keys (convertEntries rendering rules entries)).Nodup :=
        List.Nodup.of_map _ (hkeys ▸ h.1)
      rw [convert, Bool.true_or, if_pos rfl, dictOf, build_of_nodup hnodup, hentries]

theorem convertItems_of_jsonItems :
    ∀ items, JsonItems items → convertItems rendering rules items = items
  | [], _ => rfl
  | value :: items, h => by
      rw [convertItems, convert_of_isJson value h.1, convertItems_of_jsonItems items h.2]

theorem convertEntries_of_jsonEntries : ∀ entries, JsonEntries entries →
    (convertEntries rendering rules entries).map (fun entry => (.str entry.1, entry.2)) = entries
  | [], _ => rfl
  | (.str text, value) :: entries, h => by
      rw [convertEntries, keyText_str, List.map_cons, convert_of_isJson value h.1,
        convertEntries_of_jsonEntries entries h.2]

end

theorem convert_convert (value : Value) :
    convert rendering rules (convert rendering rules value) = convert rendering rules value :=
  convert_of_isJson _ (isJson_convert value)

variable {other : Rules}

mutual

/-- The rules make no difference to a value that is like JSON. -/
theorem convert_of_jsonLike :
    ∀ value, JsonLike value → convert rendering rules value = convert rendering other value
  | .none, _ | .bool _, _ | .int _, _ | .float _, _ | .str _, _ => by rw [convert, convert]
  | .list items, h | .tuple items, h => by
      rw [convert, convert, convertItems_of_likeItems items h]
  | .mapping true entries, h => by
      rw [convert, convert, convertEntries_of_likeEntries entries h, Bool.true_or, Bool.true_or,
        if_pos rfl, if_pos rfl]

theorem convertItems_of_likeItems : ∀ items, LikeItems items →
    convertItems rendering rules items = convertItems rendering other items
  | [], _ => rfl
  | value :: items, h => by
      rw [convertItems, convertItems, convert_of_jsonLike value h.1,
        convertItems_of_likeItems items h.2]

theorem convertEntries_of_likeEntries : ∀ entries, LikeEntries entries →
    convertEntries rendering rules entries = convertEntries rendering other entries
  | [], _ => rfl
  | (.str text, value) :: entries, h => by
      rw [convertEntries, convertEntries, keyText_str, keyText_str, convert_of_jsonLike value h.1,
        convertEntries_of_likeEntries entries h.2]

end

end Convert

/-- The four converters. -/
def converters (rendering : Rendering) : List (Value → Value) :=
  [toJsonValue rendering, toJsonable rendering, streamJsonSafe rendering, submitJsonSafe rendering]

/-- One text for every object. -/
def plainRendering : Rendering where
  str := fun _ => "value"
  repr := fun _ => "<value>"
  decode := fun _ => "bytes"

/-- Off the common part they differ: a set is looked into by two of the four. -/
example : (converters plainRendering).map (fun f => f (.set [.int 1])) =
    [.list [.int 1], .list [.int 1], .str "<value>", .str "<value>"] := by
  rfl

end ChangeQuality.JsonConverters
