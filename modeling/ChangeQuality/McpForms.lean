import ChangeQuality.McpConfigurations
import ChangeQuality.McpRedaction
import Mathlib.Algebra.Group.Nat.Defs

/-!
`McpServerForm` in its edit mode: the texts it loads from the masked view of a server, and the PATCH
that it submits.
-/

namespace ChangeQuality.McpForms

open ChangeQuality.Values
open ChangeQuality.McpServers
open ChangeQuality.McpService
open ChangeQuality.McpConfigurations
open ChangeQuality.McpRedaction (Chars)
open ChangeQuality.TextLines

/-- The white space and line terminators of JavaScript. -/
def isJsSpace (c : Char) : Bool :=
  [0x20, 0xa0, 0x1680, 0x2028, 0x2029, 0x202f, 0x205f, 0x3000, 0xfeff].contains c.toNat ||
    (0x09 ≤ c.toNat && c.toNat ≤ 0x0d) || (0x2000 ≤ c.toNat && c.toNat ≤ 0x200a)

/-- `String.prototype.trim`. -/
abbrev jsTrim : Chars → Chars :=
  trim isJsSpace

/-- A JavaScript object with text values: its own properties in the order of their creation. -/
abbrev JsObject := List (Chars × Chars)

namespace JsObject

/-- The integer that an array index spells. -/
def arrayIndex? (key : Chars) : Option Nat :=
  if key ≠ [] ∧ key.all Char.isDigit ∧ (key.head? = some '0' → key = ['0']) then
    let index := key.foldl (fun n c => 10 * n + (c.toNat - '0'.toNat)) 0
    if index < 2 ^ 32 - 1 then some index else none
  else none

/-- `Object.entries`: the array indices come first, in ascending order. -/
def entries (object : JsObject) : List (Chars × Chars) :=
  let indexed := object.filterMap fun entry => (arrayIndex? entry.1).map fun index => (index, entry)
  (indexed.mergeSort fun a b => a.1 ≤ b.1).map Prod.snd ++
    object.filter fun entry => (arrayIndex? entry.1).isNone

def get (object : JsObject) (key : Chars) : Option Chars :=
  object.lookup key

/-- A property of the object itself, as `JSON.parse` creates it. -/
def define : JsObject → Chars → Chars → JsObject
  | [], key, value => [(key, value)]
  | entry :: object, key, value =>
      if entry.1 = key then (key, value) :: object else entry :: define object key value

/-- `object[key] = value`: the inherited setter of `__proto__` ignores a text. -/
def assign (object : JsObject) (key value : Chars) : JsObject :=
  if key = "__proto__".toList then object else object.define key value

def ofEntries (entries : List (Chars × Chars)) : JsObject :=
  entries.foldl (fun object entry => object.define entry.1 entry.2) []

end JsObject

/-- `REDACTED`, and `REDACTED_VALUE` of the form. -/
def redactedValue : Chars := "********".toList

/-- What the form reads of the server's details. -/
structure McpServerDetail where
  name : Chars
  transport : McpTransport
  command : Option Chars
  args : List Chars
  env : JsObject
  url : Option Chars
  headers : JsObject
  enabled : Bool
  desiredState : McpDesiredState

/-- `redact_mapping`, as the browser reads it. -/
def redactMapping (value : List (String × String)) : JsObject :=
  .ofEntries (value.map fun entry => (entry.1.toList, redactedValue))

/-- `_server_detail`. -/
def serverDetail (server : McpServer) : McpServerDetail where
  name := server.name.toList
  transport := server.transport
  command := server.command.map String.toList
  args := server.args.map String.toList
  env := redactMapping server.env
  url := server.url.map String.toList
  headers := redactMapping server.headers
  enabled := server.enabled
  desiredState := server.desiredState

def argsToText (args : List Chars) : Chars :=
  unlines args

def parseArgsText (value : Chars) : List Chars :=
  ((lines value).map jsTrim).filter (· ≠ [])

/-- One entry as the form prints it. -/
def entryText (key value : Chars) : Chars :=
  key ++ '=' :: value

def keyValueMapToText (value : JsObject) : Chars :=
  unlines (value.entries.map fun entry => entryText entry.1 entry.2)

def formatError (label : String) (index : Nat) : String :=
  label ++ " 第 " ++ toString (index + 1) ++ " 行需要使用 KEY=VALUE 格式。"

/-- The loop of `parseKeyValueText`. -/
def parseLines (label : String) : Nat → List Chars → JsObject → Except String JsObject
  | _, [], parsed => .ok parsed
  | index, rawLine :: rest, parsed =>
      let line := jsTrim rawLine
      if line = [] then parseLines label (index + 1) rest parsed
      else
        match line.findIdx? (· = '=') with
        | none | some 0 => .error (formatError label index)
        | some (separatorIndex + 1) =>
            let key := jsTrim (line.take (separatorIndex + 1))
            let entryValue := jsTrim (line.drop (separatorIndex + 2))
            if key = [] then .error (formatError label index)
            else parseLines label (index + 1) rest (parsed.assign key entryValue)

def parseKeyValueText (label : String) (value : Chars) : Except String JsObject :=
  parseLines label 0 (lines value) []

def hasRedactedValue (value : JsObject) : Bool :=
  value.any fun entry => entry.2 = redactedValue

def shouldOmitRedactedField (currentText : Chars) (original : JsObject) : Bool :=
  hasRedactedValue original && currentText = keyValueMapToText original

def hasUnsafeRedactedPlaceholder (currentText : Chars) (parsed original : JsObject) : Bool :=
  !shouldOmitRedactedField currentText original &&
    parsed.any fun entry => entry.2 = redactedValue && original.get entry.1 = some redactedValue

/-- The state of the form. -/
structure McpServerForm where
  name : Chars
  transport : McpTransport
  command : Chars
  url : Chars
  argsText : Chars
  envText : Chars
  headersText : Chars
  enabled : Bool
  desiredState : McpDesiredState

/-- The effect that fills the form. -/
def load (server : McpServerDetail) : McpServerForm where
  name := server.name
  transport := server.transport
  command := server.command.getD []
  url := server.url.getD []
  argsText := argsToText server.args
  envText := keyValueMapToText server.env
  headersText := keyValueMapToText server.headers
  enabled := server.enabled
  desiredState := server.desiredState

/-- The field of `fieldErrors` that is set, and its text. -/
abbrev FieldError := String × String

section Submit

variable (urlProtocol : Chars → Option Chars)

/-- `urlProtocol` is `new URL(value).protocol`, with `none` for an invalid URL. -/
def isValidHttpUrl (value : Chars) : Bool :=
  match urlProtocol value with
  | some protocol => protocol = "http:".toList || protocol = "https:".toList
  | none => false

/-- `validateForm`: the error that it shows, if any. -/
def validateForm (form : McpServerForm) : Option FieldError :=
  if jsTrim form.name = [] then some ("name", "请填写服务名称。")
  else if form.transport = .stdio ∧ (jsTrim form.command).length = 0 then
    some ("command", "stdio 模式需要填写 command。")
  else
    let nextUrl := jsTrim form.url
    if form.transport = .http ∧ nextUrl.length = 0 then
      some ("url", "http 模式需要填写 url。")
    else if form.transport = .http ∧ isValidHttpUrl urlProtocol nextUrl = false then
      some ("url", "请填写有效的 http url。")
    else
      match parseKeyValueText "env" form.envText with
      | .error message => some ("env", message)
      | .ok _ =>
          match parseKeyValueText "headers" form.headersText with
          | .error message => some ("headers", message)
          | .ok _ => none

/-- `text.trim() || null`. -/
def orNull (text : Chars) : McpService.Field String :=
  if jsTrim text = [] then .null else .set (String.ofList (jsTrim text))

/-- An object of a payload, as the API reads it. -/
def mapping (value : JsObject) : List (String × String) :=
  value.entries.map fun entry => (String.ofList entry.1, String.ofList entry.2)

/-- The payload that `handleSubmit` puts together in the edit mode. -/
def updatePayload (server : McpServerDetail) (form : McpServerForm)
    (parsedEnv parsedHeaders : JsObject) : McpServerUpdate where
  args := .set ((parseArgsText form.argsText).map String.ofList)
  desiredState := .set form.desiredState
  enabled := .set form.enabled
  name := .set (String.ofList (jsTrim form.name))
  env :=
    if shouldOmitRedactedField form.envText server.env then .unset else .set (mapping parsedEnv)
  headers :=
    if shouldOmitRedactedField form.headersText server.headers then .unset
    else .set (mapping parsedHeaders)
  command := if form.transport = .stdio then orNull form.command else .null
  url := if form.transport = .stdio then .null else orNull form.url

/-- `handleSubmit` in the edit mode: the payload for `onUpdate`, or the error that it shows. -/
def handleSubmit (server : McpServerDetail) (form : McpServerForm) :
    Except FieldError McpServerUpdate :=
  match validateForm urlProtocol form with
  | some error => .error error
  | none =>
      let parsedEnv := (parseKeyValueText "env" form.envText).toOption.getD []
      let parsedHeaders := (parseKeyValueText "headers" form.headersText).toOption.getD []
      if hasUnsafeRedactedPlaceholder form.envText parsedEnv server.env ||
          hasUnsafeRedactedPlaceholder form.headersText parsedHeaders server.headers then
        .error ("_global", "脱敏值 ******** 需要替换为新值，或保持该区域不变。")
      else .ok (updatePayload server form parsedEnv parsedHeaders)

end Submit

section Objects

variable {object : JsObject} {key value : Chars}

theorem mem_entries {entry : Chars × Chars} : entry ∈ object.entries ↔ entry ∈ object := by
  simp only [JsObject.entries, List.mem_append, List.mem_map, List.mem_mergeSort,
    List.mem_filterMap, Option.map_eq_some_iff, List.mem_filter, Option.isNone_iff_eq_none]
  constructor
  · rintro (⟨_, ⟨_, hmem, _, _, rfl⟩, rfl⟩ | ⟨hmem, _⟩)
    · exact hmem
    · exact hmem
  · intro hmem
    cases hindex : JsObject.arrayIndex? entry.1 with
    | none => exact .inr ⟨hmem, rfl⟩
    | some index => exact .inl ⟨(index, entry), ⟨entry, hmem, index, hindex, rfl⟩, rfl⟩

theorem entries_eq_nil : object.entries = [] ↔ object = [] := by
  simp only [List.eq_nil_iff_forall_not_mem, mem_entries]

theorem mem_define_keys {key' : Chars} :
    key' ∈ (object.define key value).map Prod.fst ↔ key' = key ∨ key' ∈ object.map Prod.fst := by
  induction object with
  | nil => simp [JsObject.define]
  | cons entry object ih =>
      rw [JsObject.define]
      split
      next heq => simp [heq]
      · simp only [List.map_cons, List.mem_cons, ih]
        exact or_left_comm

theorem define_values {φ : Chars → Prop} (hobject : ∀ entry ∈ object, φ entry.2) (hvalue : φ value) :
    ∀ entry ∈ object.define key value, φ entry.2 := by
  induction object with
  | nil => simpa [JsObject.define] using hvalue
  | cons entry object ih =>
      obtain ⟨hentry, hrest⟩ := List.forall_mem_cons.mp hobject
      rw [JsObject.define]
      split
      · exact List.forall_mem_cons.mpr ⟨hvalue, hrest⟩
      · exact List.forall_mem_cons.mpr ⟨hentry, ih hrest⟩

/-- A masked map has the keys of the map, and nothing but masked values. -/
theorem redactMapping_spec (map : List (String × String)) :
    (∀ key, key ∈ (redactMapping map).map Prod.fst ↔ key ∈ map.map fun entry => entry.1.toList) ∧
      ∀ entry ∈ redactMapping map, entry.2 = redactedValue := by
  have hfold : ∀ (entries : List (Chars × Chars)) (object : JsObject),
      (∀ entry ∈ entries, entry.2 = redactedValue) → (∀ entry ∈ object, entry.2 = redactedValue) →
      (∀ key, key ∈ (entries.foldl (fun object entry => object.define entry.1 entry.2) object).map
        Prod.fst ↔ key ∈ object.map Prod.fst ∨ key ∈ entries.map Prod.fst) ∧
      ∀ entry ∈ entries.foldl (fun object entry => object.define entry.1 entry.2) object,
        entry.2 = redactedValue := by
    intro entries
    induction entries with
    | nil => exact fun object _ hobject => ⟨fun key => by simp, hobject⟩
    | cons entry entries ih =>
        intro object hentries hobject
        obtain ⟨hentry, hrest⟩ := List.forall_mem_cons.mp hentries
        obtain ⟨hkeys, hvalues⟩ := ih (object.define entry.1 entry.2) hrest
          (define_values (φ := (· = redactedValue)) hobject hentry)
        refine ⟨fun key => ?_, hvalues⟩
        rw [List.foldl_cons, hkeys, mem_define_keys, List.map_cons, List.mem_cons]
        tauto
  have hmasked : ∀ entry ∈ map.map fun entry => (entry.1.toList, redactedValue),
      entry.2 = redactedValue := by
    intro entry hentry
    obtain ⟨_, _, rfl⟩ := List.mem_map.mp hentry
    rfl
  obtain ⟨hkeys, hvalues⟩ := hfold _ [] hmasked (by simp)
  refine ⟨fun key => (hkeys key).trans ?_, hvalues⟩
  simp

theorem redactMapping_eq_nil {map : List (String × String)} : redactMapping map = [] ↔ map = [] := by
  rw [← List.map_eq_nil_iff (f := Prod.fst), List.eq_nil_iff_forall_not_mem]
  simp only [(redactMapping_spec map).1]
  rw [← List.eq_nil_iff_forall_not_mem, List.map_eq_nil_iff]

end Objects

section Texts

/-- The line is blank, or its first equals sign stands after a first character. -/
def Reads (line : Chars) : Prop :=
  jsTrim line = [] ∨ '=' ∈ jsTrim line ∧ (jsTrim line).head? ≠ some '='

/-- `key=********` is read as KEY=VALUE, line by line. -/
def KeyReads (key : Chars) : Prop :=
  ∀ line ∈ lines (entryText key redactedValue), Reads line

theorem not_mem_jsTrim {line : Chars} (h : '\n' ∉ line) : '\n' ∉ jsTrim line :=
  fun hmem => h ((trim_isInfix isJsSpace line).subset hmem)

theorem getLast_jsTrim (line : Chars) : (jsTrim line).getLast? ≠ some '\r' := by
  intro h
  have hblank := trim_last h
  revert hblank
  decide

/-- Only nonblank trimmed lines come back as they were. -/
theorem parseArgsText_argsToText {args : List Chars} :
    parseArgsText (argsToText args) = args ↔
      ∀ arg ∈ args, arg ≠ [] ∧ jsTrim arg = arg ∧ '\n' ∉ arg := by
  constructor
  · intro h arg harg
    rw [← h] at harg
    obtain ⟨hmem, hne⟩ := List.mem_filter.mp harg
    obtain ⟨line, hline, rfl⟩ := List.mem_map.mp hmem
    exact ⟨by simpa using hne, trim_trim isJsSpace line, not_mem_jsTrim (not_mem_lines _ line hline)⟩
  · intro h
    cases args with
    | nil => rfl
    | cons arg args =>
        have hlast : ∀ part ∈ arg :: args, part.getLast? ≠ some '\r' := by
          intro part hpart
          rw [← (h part hpart).2.1]
          exact getLast_jsTrim part
        have hlines : lines (argsToText (arg :: args)) = arg :: args := by
          rw [argsToText, lines_unlines (List.cons_ne_nil _ _) hlast]
          rw [List.flatMap_congr fun part hpart => lines_of_not_mem (h part hpart).2.2]
          exact List.flatMap_singleton' _
        have htrimmed : (arg :: args).map jsTrim = arg :: args :=
          (List.map_congr_left fun part hpart => (h part hpart).2.1).trans (List.map_id _)
        rw [parseArgsText, hlines, htrimmed]
        exact List.filter_eq_self.mpr fun part hpart => by simpa using (h part hpart).1

theorem jsTrim_ne_nil {line : Chars} {c : Char} (hmem : c ∈ line.head?) (hc : isJsSpace c = false) :
    jsTrim line ≠ [] := by
  cases line with
  | nil => cases hmem
  | cons d rest =>
      obtain rfl : d = c := by simpa using hmem
      intro hnil
      have hfront : (d :: rest).dropWhile isJsSpace = d :: rest :=
        List.dropWhile_cons_of_neg (by simp [hc])
      rw [jsTrim, trim, hfront, List.rdropWhile_eq_nil_iff] at hnil
      simpa [hc] using hnil d List.mem_cons_self

/-- A line that the loop reads, or stops at: a key behind which an equals sign stands is not
blank. -/
theorem parseLines_cons (label : String) (index : Nat) (rawLine : Chars) (rest : List Chars)
    (parsed : JsObject) :
    (Reads rawLine ∧ ∃ parsed', parseLines label index (rawLine :: rest) parsed =
      parseLines label (index + 1) rest parsed') ∨
    (¬ Reads rawLine ∧ parseLines label index (rawLine :: rest) parsed =
      .error (formatError label index)) := by
  simp only [parseLines, Reads]
  cases hline : jsTrim rawLine with
  | nil => exact .inl ⟨.inl rfl, parsed, rfl⟩
  | cons c tail =>
      have hc : isJsSpace c = false := trim_head (s := rawLine) (by rw [← jsTrim, hline]; rfl)
      rw [if_neg (List.cons_ne_nil c tail), List.findIdx?_cons]
      by_cases hequals : c = '='
      · subst hequals
        exact .inr ⟨by simp, rfl⟩
      · rw [if_neg (by simpa using hequals)]
        cases hfind : tail.findIdx? (· = '=') with
        | none =>
            have htail : '=' ∉ tail := fun hmem => by
              simpa using List.findIdx?_eq_none_iff.mp hfind '=' hmem
            exact .inr ⟨by simp [Ne.symm hequals, htail], rfl⟩
        | some separatorIndex =>
            have htail : '=' ∈ tail := by
              by_contra hmem
              have hnone : tail.findIdx? (· = '=') = none := by
                rw [List.findIdx?_eq_none_iff]
                rintro d hd
                simpa using fun heq : d = '=' => hmem (heq ▸ hd)
              simp [hfind] at hnone
            have hkey : jsTrim ((c :: tail).take (separatorIndex + 1)) ≠ [] :=
              jsTrim_ne_nil (by simp) hc
            refine .inl ⟨.inr ⟨List.mem_cons_of_mem c htail, by simpa using hequals⟩, ?_⟩
            exact ⟨_, if_neg hkey⟩

theorem parseLines_ok {label : String} {index : Nat} {ls : List Chars} {parsed : JsObject} :
    (∃ result, parseLines label index ls parsed = .ok result) ↔ ∀ line ∈ ls, Reads line := by
  induction ls generalizing index parsed with
  | nil => simp [parseLines]
  | cons rawLine rest ih =>
      rw [List.forall_mem_cons]
      rcases parseLines_cons label index rawLine rest parsed with
        ⟨hreads, parsed', heq⟩ | ⟨hnot, heq⟩
      · rw [heq, ih]
        exact (and_iff_right hreads).symm
      · rw [heq]
        exact iff_of_false (by simp) fun h => hnot h.1

theorem keyReads_keyValueMapToText (label : String) (map : List (String × String)) :
    (∃ parsed, parseKeyValueText label (keyValueMapToText (redactMapping map)) = .ok parsed) ↔
      ∀ entry ∈ map, KeyReads entry.1.toList := by
  obtain ⟨hkeys, hvalues⟩ := redactMapping_spec map
  have hentries : (∀ entry ∈ (redactMapping map).entries, KeyReads entry.1) ↔
      ∀ entry ∈ map, KeyReads entry.1.toList := by
    constructor
    · intro h entry hentry
      obtain ⟨masked, hmasked, heq⟩ := List.mem_map.mp
        ((hkeys entry.1.toList).mpr (List.mem_map_of_mem hentry))
      exact heq ▸ h masked (mem_entries.mpr hmasked)
    · intro h masked hmasked
      obtain ⟨entry, hentry, heq⟩ := List.mem_map.mp
        ((hkeys masked.1).mp (List.mem_map_of_mem (mem_entries.mp hmasked)))
      exact heq ▸ h entry hentry
  rw [parseKeyValueText, parseLines_ok, ← hentries]
  cases hcases : (redactMapping map).entries with
  | nil =>
      rw [keyValueMapToText, hcases]
      simp [unlines, lines, Reads, jsTrim, trim]
  | cons first rest =>
      have hne : (redactMapping map).entries.map (fun entry => entryText entry.1 entry.2) ≠ [] := by
        simp [hcases]
      have hlast : ∀ part ∈ (redactMapping map).entries.map fun entry => entryText entry.1 entry.2,
          part.getLast? ≠ some '\r' := by
        intro part hpart
        obtain ⟨entry, hentry, rfl⟩ := List.mem_map.mp hpart
        rw [entryText, hvalues entry (mem_entries.mp hentry)]
        have hend : ('=' :: redactedValue).getLast? = some '*' := by decide
        rw [List.getLast?_append, hend]
        simp
      rw [keyValueMapToText, lines_unlines hne hlast, ← hcases]
      simp only [List.mem_flatMap, List.mem_map]
      constructor
      · intro h entry hentry line hline
        refine h line ⟨_, ⟨entry, hentry, rfl⟩, ?_⟩
        rwa [hvalues entry (mem_entries.mp hentry)]
      · rintro h line ⟨_, ⟨entry, hentry, rfl⟩, hline⟩
        rw [hvalues entry (mem_entries.mp hentry)] at hline
        exact h entry hentry line hline

/-- A map is sent again only when it is empty. -/
theorem shouldOmit_redactMapping (map : List (String × String)) :
    shouldOmitRedactedField (keyValueMapToText (redactMapping map)) (redactMapping map) =
      decide (map ≠ []) := by
  rw [shouldOmitRedactedField, decide_eq_true rfl, Bool.and_true, hasRedactedValue,
    Bool.eq_iff_iff, List.any_eq_true, decide_eq_true_iff, ne_eq, ← redactMapping_eq_nil]
  constructor
  · rintro ⟨entry, hentry, _⟩ hnil
    rw [hnil] at hentry
    cases hentry
  · intro hne
    obtain ⟨entry, hentry⟩ := List.exists_mem_of_ne_nil _ hne
    exact ⟨entry, hentry, by simpa using (redactMapping_spec map).2 entry hentry⟩

theorem parse_empty (label : String) :
    parseKeyValueText label (keyValueMapToText (redactMapping [])) = .ok [] := by
  have hempty : (redactMapping []).entries = [] := entries_eq_nil.mpr rfl
  rw [keyValueMapToText, hempty]
  simp [unlines, parseKeyValueText, lines, parseLines, jsTrim, trim]

theorem hasUnsafe_redactMapping (label : String) (map : List (String × String)) :
    hasUnsafeRedactedPlaceholder (keyValueMapToText (redactMapping map))
      ((parseKeyValueText label (keyValueMapToText (redactMapping map))).toOption.getD [])
      (redactMapping map) = false := by
  rw [hasUnsafeRedactedPlaceholder, shouldOmit_redactMapping]
  by_cases hmap : map = []
  · rw [hmap, parse_empty]
    rfl
  · simp [hmap]

end Texts

section RoundTrip

variable {urlProtocol : Chars → Option Chars} {httpUrl : String → Option String} {row : McpServer}

/-- The PATCH of a form that was loaded and not edited. -/
def resubmission (row : McpServer) : McpServerUpdate where
  args := .set ((parseArgsText (argsToText (row.args.map String.toList))).map String.ofList)
  desiredState := .set row.desiredState
  enabled := .set row.enabled
  name := .set (String.ofList (jsTrim row.name.toList))
  env := if row.env = [] then .set [] else .unset
  headers := if row.headers = [] then .set [] else .unset
  command := if row.transport = .stdio then orNull ((row.command.map String.toList).getD []) else .null
  url := if row.transport = .stdio then .null else orNull ((row.url.map String.toList).getD [])

/-- What the form checks before it submits. -/
structure Submits (urlProtocol : Chars → Option Chars) (row : McpServer) : Prop where
  name : jsTrim row.name.toList ≠ []
  command : row.transport = .stdio → jsTrim ((row.command.map String.toList).getD []) ≠ []
  url : row.transport = .http → jsTrim ((row.url.map String.toList).getD []) ≠ [] ∧
    isValidHttpUrl urlProtocol (jsTrim ((row.url.map String.toList).getD [])) = true
  env : ∀ entry ∈ row.env, KeyReads entry.1.toList
  headers : ∀ entry ∈ row.headers, KeyReads entry.1.toList

theorem validateForm_none {form : McpServerForm} : validateForm urlProtocol form = none ↔
    jsTrim form.name ≠ [] ∧ (form.transport = .stdio → jsTrim form.command ≠ []) ∧
      (form.transport = .http → jsTrim form.url ≠ [] ∧
        isValidHttpUrl urlProtocol (jsTrim form.url) = true) ∧
      (∃ parsed, parseKeyValueText "env" form.envText = .ok parsed) ∧
      ∃ parsed, parseKeyValueText "headers" form.headersText = .ok parsed := by
  constructor
  · intro h
    simp only [validateForm] at h
    split at h
    · cases h
    next hname =>
      split at h
      · cases h
      next hcommand =>
        split at h
        · cases h
        next hurl =>
          split at h
          · cases h
          next hvalid =>
            split at h
            · cases h
            next parsedEnv henv =>
              split at h
              · cases h
              next parsedHeaders hheaders =>
                refine ⟨hname, fun ht hnil => ?_, fun ht => ⟨fun hnil => ?_, ?_⟩,
                  ⟨parsedEnv, henv⟩, parsedHeaders, hheaders⟩
                · exact hcommand ⟨ht, by simp [hnil]⟩
                · exact hurl ⟨ht, by simp [hnil]⟩
                · simpa [ht] using hvalid
  · rintro ⟨hname, hcommand, hurl, ⟨parsedEnv, henv⟩, parsedHeaders, hheaders⟩
    simp only [validateForm]
    rw [if_neg hname, if_neg, if_neg, if_neg, henv]
    · simp [hheaders]
    · rintro ⟨ht, hinvalid⟩
      rw [(hurl ht).2] at hinvalid
      cases hinvalid
    · rintro ⟨ht, hlength⟩
      exact (hurl ht).1 (List.length_eq_zero_iff.mp hlength)
    · rintro ⟨ht, hlength⟩
      exact hcommand ht (List.length_eq_zero_iff.mp hlength)

theorem validateForm_load :
    validateForm urlProtocol (load (serverDetail row)) = none ↔ Submits urlProtocol row := by
  rw [validateForm_none]
  constructor
  · rintro ⟨hname, hcommand, hurl, henv, hheaders⟩
    exact ⟨hname, hcommand, hurl, (keyReads_keyValueMapToText _ _).mp henv,
      (keyReads_keyValueMapToText _ _).mp hheaders⟩
  · intro h
    exact ⟨h.name, h.command, h.url, (keyReads_keyValueMapToText _ _).mpr h.env,
      (keyReads_keyValueMapToText _ _).mpr h.headers⟩

/-- A map of the view is sent again only when it is empty. -/
theorem mapping_load (label : String) (map : List (String × String)) :
    (if shouldOmitRedactedField (keyValueMapToText (redactMapping map)) (redactMapping map) then
        .unset
      else
        .set (mapping ((parseKeyValueText label
          (keyValueMapToText (redactMapping map))).toOption.getD [])) :
        McpService.Field (List (String × String))) = if map = [] then .set [] else .unset := by
  rw [shouldOmit_redactMapping]
  by_cases hempty : map = []
  · have hnil : mapping [] = [] := by
      rw [mapping, entries_eq_nil.mpr rfl]
      rfl
    rw [hempty, parse_empty]
    exact congrArg McpService.Field.set hnil
  · simp [hempty]

theorem handleSubmit_load {payload : McpServerUpdate} :
    handleSubmit urlProtocol (serverDetail row) (load (serverDetail row)) = .ok payload ↔
      Submits urlProtocol row ∧ payload = resubmission row := by
  have hpayload : updatePayload (serverDetail row) (load (serverDetail row))
      ((parseKeyValueText "env" (keyValueMapToText (redactMapping row.env))).toOption.getD [])
      ((parseKeyValueText "headers"
        (keyValueMapToText (redactMapping row.headers))).toOption.getD []) = resubmission row := by
    simp only [updatePayload, resubmission, McpServerUpdate.mk.injEq]
    exact ⟨rfl, rfl, rfl, mapping_load "env" row.env, rfl, mapping_load "headers" row.headers, rfl,
      rfl⟩
  have hplaceholder : (hasUnsafeRedactedPlaceholder (load (serverDetail row)).envText
      ((parseKeyValueText "env" (load (serverDetail row)).envText).toOption.getD [])
      (serverDetail row).env || hasUnsafeRedactedPlaceholder (load (serverDetail row)).headersText
      ((parseKeyValueText "headers" (load (serverDetail row)).headersText).toOption.getD [])
      (serverDetail row).headers) = false :=
    Bool.or_eq_false_iff.mpr ⟨hasUnsafe_redactMapping "env" row.env,
      hasUnsafe_redactMapping "headers" row.headers⟩
  rw [← validateForm_load, handleSubmit]
  cases validateForm urlProtocol (load (serverDetail row)) with
  | some error => simp
  | none =>
      simp only [hplaceholder, Bool.false_eq_true, if_false, true_and, Except.ok.injEq]
      exact ⟨fun h => h.symm.trans hpayload, fun h => hpayload.trans h.symm⟩

/-- The configuration of the row without the field of the other transport. -/
def withoutOther (row : McpServer) : McpServerCreate :=
  { configuration row with
    command := if row.transport = .stdio then row.command else none
    url := if row.transport = .stdio then none else row.url }

/-- The texts of the form carry the row, and the form's checks let it pass. -/
structure Carried (urlProtocol : Chars → Option Chars) (row : McpServer) : Prop where
  name : row.name ≠ "" ∧ jsTrim row.name.toList = row.name.toList
  args : ∀ arg ∈ row.args, arg ≠ "" ∧ jsTrim arg.toList = arg.toList ∧ '\n' ∉ arg.toList
  env : ∀ entry ∈ row.env, KeyReads entry.1.toList
  headers : ∀ entry ∈ row.headers, KeyReads entry.1.toList
  command : row.transport = .stdio →
    ∀ command ∈ row.command, jsTrim command.toList = command.toList
  url : row.transport = .http → ∀ url ∈ row.url,
    jsTrim url.toList = url.toList ∧ isValidHttpUrl urlProtocol url.toList = true

/-- The configuration that the API validates for the resubmission. -/
def resubmitted (row : McpServer) : McpServerCreate :=
  { configuration row with
    name := String.ofList (jsTrim row.name.toList)
    args := (parseArgsText (argsToText (row.args.map String.toList))).map String.ofList
    command :=
      if row.transport = .stdio then
        (orNull ((row.command.map String.toList).getD [])).mergeNullable none
      else none
    url :=
      if row.transport = .stdio then none
      else (orNull ((row.url.map String.toList).getD [])).mergeNullable none }

theorem validatedMerge_resubmission :
    validatedMerge httpUrl row (resubmission row) =
      validateTransportFields httpUrl (resubmitted row) := by
  have hmap (map : List (String × String)) :
      (if map = [] then .set [] else .unset : McpService.Field (List (String × String))).merge map =
        some map := by
    by_cases hempty : map = []
    · rw [if_pos hempty, hempty]
      rfl
    · rw [if_neg hempty]
      rfl
  have hnull (text : Chars) (stored : Option String) :
      (orNull text).mergeNullable stored = (orNull text).mergeNullable none := by
    unfold orNull
    split <;> rfl
  have hset {α : Type} (value stored : α) : (McpService.Field.set value).merge stored = some value := rfl
  have hnone (stored : Option String) : McpService.Field.null.mergeNullable stored = none := rfl
  by_cases hstdio : row.transport = .stdio
  · simp [validatedMerge, resubmission, resubmitted, configuration, hmap, hset, hnone, hstdio,
      hnull _ row.command]
  · simp [validatedMerge, resubmission, resubmitted, configuration, hmap, hset, hnone, hstdio,
      hnull _ row.url]

theorem normal_withoutOther (hrow : Normal httpUrl row) :
    validateTransportFields httpUrl (withoutOther row) = some (withoutOther row) := by
  unfold McpConfigurations.Normal validateTransportFields at hrow
  unfold validateTransportFields
  cases htransport : row.transport with
  | other name => simp [configuration, htransport] at hrow
  | stdio =>
      cases hcommand : row.command with
      | none => simp [configuration, htransport, hcommand] at hrow
      | some command => simpa [withoutOther, configuration, htransport, hcommand] using hrow
  | http =>
      cases hurl : row.url with
      | none => simp [configuration, htransport, hurl] at hrow
      | some url => simpa [withoutOther, configuration, htransport, hurl] using hrow

theorem orNull_self {text : String} (hne : text ≠ "") (h : jsTrim text.toList = text.toList) :
    (orNull text.toList).mergeNullable none = some text := by
  have htext : text.toList ≠ [] := by simpa using hne
  rw [orNull, h, if_neg htext, String.ofList_toList]
  rfl

/-- The validated row has the field of its transport. -/
theorem normal_cases (hrow : Normal httpUrl row) :
    (row.transport = .stdio ∧ ∃ command, row.command = some command ∧ command ≠ "" ∧
      strip command = command) ∨
    row.transport = .http ∧ ∃ url, row.url = some url ∧ url ≠ "" ∧ httpUrl url = some url := by
  have hfields := validateTransportFields_fields hrow
  unfold McpConfigurations.Normal validateTransportFields at hrow
  cases htransport : row.transport with
  | other name => simp [configuration, htransport] at hrow
  | stdio =>
      cases hcommand : row.command with
      | none => simp [configuration, htransport, hcommand] at hrow
      | some command =>
          have hstrip := congrArg McpServerCreate.command hfields
          simp only [configuration, htransport, hcommand, if_true, Option.map_some,
            Option.some.injEq] at hstrip
          refine .inl ⟨rfl, command, rfl, ?_, hstrip.symm⟩
          rintro rfl
          simp [configuration, htransport, hcommand] at hrow
  | http =>
      cases hurl : row.url with
      | none => simp [configuration, htransport, hurl] at hrow
      | some url =>
          have hhttp := congrArg McpServerCreate.url hfields
          simp only [configuration, htransport, hurl, if_true, Option.bind_some] at hhttp
          refine .inr ⟨rfl, url, rfl, ?_, hhttp.symm⟩
          rintro rfl
          simp [configuration, htransport, hurl] at hrow

theorem args_carried : (parseArgsText (argsToText (row.args.map String.toList))).map String.ofList =
    row.args ↔ ∀ arg ∈ row.args, arg ≠ "" ∧ jsTrim arg.toList = arg.toList ∧ '\n' ∉ arg.toList := by
  have hlists : (parseArgsText (argsToText (row.args.map String.toList))).map String.ofList =
      row.args ↔ parseArgsText (argsToText (row.args.map String.toList)) =
        row.args.map String.toList := by
    constructor
    · intro h
      conv_rhs => rw [← h]
      simp
    · intro h
      rw [h]
      simp
  rw [hlists, parseArgsText_argsToText, List.forall_mem_map]
  simp

theorem resubmitted_carried (hrow : Normal httpUrl row) (h : Carried urlProtocol row) :
    resubmitted row = withoutOther row := by
  have hname : String.ofList (jsTrim row.name.toList) = row.name := by
    rw [h.name.2, String.ofList_toList]
  have hargs := args_carried.mpr h.args
  rcases normal_cases hrow with ⟨htransport, command, hcommand, hne, _⟩ | ⟨htransport, url, hurl, hne, _⟩
  · have hsame := orNull_self hne (h.command htransport command hcommand)
    simp [resubmitted, withoutOther, configuration, hname, hargs, htransport, hcommand, hsame]
  · have hsame := orNull_self hne (h.url htransport url hurl).1
    simp [resubmitted, withoutOther, configuration, hname, hargs, htransport, hurl, hsame]

theorem submits_carried (hrow : Normal httpUrl row) (h : Carried urlProtocol row) :
    Submits urlProtocol row := by
  have hkept {text : String} (hne : text ≠ "") (htext : jsTrim text.toList = text.toList) :
      jsTrim text.toList ≠ [] := by
    rw [htext]
    simpa using hne
  refine ⟨hkept h.name.1 h.name.2, fun htransport => ?_, fun htransport => ?_, h.env, h.headers⟩
  · rcases normal_cases hrow with ⟨_, command, hcommand, hne, _⟩ | ⟨hhttp, _⟩
    · rw [hcommand]
      exact hkept hne (h.command htransport command hcommand)
    · simp [htransport] at hhttp
  · rcases normal_cases hrow with ⟨hstdio, _⟩ | ⟨_, url, hurl, hne, _⟩
    · simp [htransport] at hstdio
    · obtain ⟨htext, hvalid⟩ := h.url htransport url hurl
      rw [hurl]
      exact ⟨hkept hne htext, htext.symm ▸ hvalid⟩

/-- The form, loaded and submitted, leads to a PATCH that the API accepts and that leaves the
configuration like that. -/
def LeadsTo (urlProtocol : Chars → Option Chars) (httpUrl : String → Option String)
    (row : McpServer) (after : McpServerCreate) : Prop :=
  ∃ payload values,
    handleSubmit urlProtocol (serverDetail row) (load (serverDetail row)) = .ok payload ∧
      validatedUpdateValues httpUrl row payload = some values ∧
      configuration (values.apply row) = after

theorem leadsTo_iff (hrow : Normal httpUrl row) {after : McpServerCreate} :
    LeadsTo urlProtocol httpUrl row after ↔ Submits urlProtocol row ∧
      validateTransportFields httpUrl (resubmitted row) = some after := by
  rw [← validatedMerge_resubmission]
  constructor
  · rintro ⟨payload, values, hsubmit, hvalues, rfl⟩
    obtain ⟨hsubmits, rfl⟩ := handleSubmit_load.mp hsubmit
    obtain ⟨validated, hvalidated, _⟩ := Option.map_eq_some_iff.mp hvalues
    rw [configuration_apply hrow hvalidated hvalues]
    exact ⟨hsubmits, hvalidated⟩
  · rintro ⟨hsubmits, hvalidated⟩
    obtain ⟨values, hvalues⟩ :
        ∃ values, validatedUpdateValues httpUrl row (resubmission row) = some values := by
      rw [validatedUpdateValues, hvalidated]
      exact ⟨_, rfl⟩
    exact ⟨resubmission row, values, handleSubmit_load.mpr ⟨hsubmits, rfl⟩, hvalues,
      configuration_apply hrow hvalidated hvalues⟩

theorem jsTrim_of_strip {text : String}
    (h : strip (String.ofList (jsTrim text.toList)) = text) : jsTrim text.toList = text.toList := by
  have hchars : trim isSpace (jsTrim text.toList) = text.toList := by
    have hlist := congrArg String.toList h
    rwa [strip, String.toList_ofList, String.toList_ofList] at hlist
  have hinside : text.toList <:+: jsTrim text.toList := by
    conv_lhs => rw [← hchars]
    exact trim_isInfix isSpace _
  have htrim := trim_isInfix isJsSpace text.toList
  exact htrim.eq_of_length (Nat.le_antisymm htrim.length_le hinside.length_le)

theorem mergeNullable_orNull (text : Chars) :
    (orNull text).mergeNullable none =
      if jsTrim text = [] then none else some (String.ofList (jsTrim text)) := by
  unfold orNull
  split <;> rfl

theorem leadsTo_carried (hrow : Normal httpUrl row) (h : Carried urlProtocol row) :
    LeadsTo urlProtocol httpUrl row (withoutOther row) :=
  (leadsTo_iff hrow).mpr
    ⟨submits_carried hrow h, resubmitted_carried hrow h ▸ normal_withoutOther hrow⟩

/-- Exactly the rows that the form's texts carry come back, but for the field of the other
transport. The normal forms of the URL type have no white space around them. -/
theorem leadsTo_withoutOther_iff (hrow : Normal httpUrl row)
    (htrimmed : ∀ url normalized, httpUrl url = some normalized →
      jsTrim normalized.toList = normalized.toList) :
    LeadsTo urlProtocol httpUrl row (withoutOther row) ↔ Carried urlProtocol row := by
  rw [leadsTo_iff hrow]
  constructor
  · rintro ⟨hsubmits, hvalidated⟩
    have hfields := validateTransportFields_fields hvalidated
    have hname : row.name = String.ofList (jsTrim row.name.toList) :=
      congrArg McpServerCreate.name hfields
    have hargs : row.args = (parseArgsText (argsToText (row.args.map String.toList))).map
        String.ofList := congrArg McpServerCreate.args hfields
    have htext : jsTrim row.name.toList = row.name.toList := by
      conv_rhs => rw [hname, String.toList_ofList]
    refine ⟨⟨?_, htext⟩, args_carried.mp hargs.symm, hsubmits.env, hsubmits.headers, ?_, ?_⟩
    · intro hempty
      exact hsubmits.name (by rw [htext, hempty]; rfl)
    · intro htransport command hcommand
      have hstored : row.command = some command := hcommand
      have hne := hsubmits.command htransport
      have hsame := congrArg McpServerCreate.command hfields
      simp only [hstored, Option.map_some, Option.getD_some] at hne
      simp only [withoutOther, resubmitted, configuration, htransport, hstored, if_true,
        Option.map_some, Option.getD_some, mergeNullable_orNull, if_neg hne,
        Option.some.injEq] at hsame
      exact jsTrim_of_strip hsame.symm
    · intro htransport url hurl
      have hstored : row.url = some url := hurl
      rcases normal_cases hrow with ⟨hstdio, _⟩ | ⟨_, url', hurl', _, hnormal⟩
      · simp [htransport] at hstdio
      · obtain rfl := Option.some.inj (hstored.symm.trans hurl')
        have htext := htrimmed _ _ hnormal
        have hvalid := (hsubmits.url htransport).2
        simp only [hstored, Option.map_some, Option.getD_some, htext] at hvalid
        exact ⟨htext, hvalid⟩
  · intro h
    exact (leadsTo_iff hrow).mp (leadsTo_carried hrow h)

/-- A row that the form's texts carry comes back but for the field of the other transport, which the
form clears. -/
theorem resubmit_keeps (hrow : Normal httpUrl row) (h : Carried urlProtocol row) :
    LeadsTo urlProtocol httpUrl row (withoutOther row) ∧
      (LeadsTo urlProtocol httpUrl row (configuration row) ↔
        (row.transport = .stdio → row.url = none) ∧ (row.transport = .http → row.command = none)) := by
  have hleads : LeadsTo urlProtocol httpUrl row (withoutOther row) := leadsTo_carried hrow h
  have hother : withoutOther row = configuration row ↔
      (row.transport = .stdio → row.url = none) ∧ (row.transport = .http → row.command = none) := by
    rcases normal_cases hrow with ⟨htransport, _⟩ | ⟨htransport, _⟩
    · simp [withoutOther, configuration, htransport, eq_comm]
    · simp [withoutOther, configuration, htransport, eq_comm]
  refine ⟨hleads, ?_⟩
  rw [← hother]
  constructor
  · intro hsame
    have hwithout := ((leadsTo_iff hrow).mp hleads).2
    exact Option.some.inj (hwithout.symm.trans ((leadsTo_iff hrow).mp hsame).2)
  · intro heq
    exact heq ▸ hleads

/-- A server with a masked key and two arguments. -/
def docsServer : McpServer where
  id := 0
  name := "docs"
  transport := .stdio
  command := some "uvx"
  args := ["mcp-docs", "--root=/srv"]
  env := [("API_KEY", "hush")]
  url := none
  headers := []
  enabled := true
  desiredState := .stopped
  runtimeStatus := .stopped
  lastError := none

theorem docsServer_carried : Carried (fun _ => none) docsServer where
  name := by decide
  args := by decide
  env := by
    unfold KeyReads Reads
    decide
  headers _ hentry := nomatch hentry
  command _ command hcommand := by
    obtain rfl := Option.some.inj hcommand
    decide
  url htransport := nomatch htransport

/-- A stored server that comes back whole. -/
theorem resubmit_keeps_docs :
    LeadsTo (fun _ => none) localhostUrl docsServer (configuration docsServer) :=
  (resubmit_keeps (by rfl) docsServer_carried).2.mpr ⟨fun _ => rfl, fun h => nomatch h⟩

/-- A stored URL that the transport does not use is cleared, and an argument loses its outer
blanks. -/
theorem resubmit_changes :
    (Normal localhostUrl { docsServer with url := some "http://localhost/" } ∧
      ¬ LeadsTo (fun _ => none) localhostUrl { docsServer with url := some "http://localhost/" }
        (configuration { docsServer with url := some "http://localhost/" })) ∧
    Normal localhostUrl { docsServer with args := [" notes"] } ∧
      ¬ LeadsTo (fun _ => none) localhostUrl { docsServer with args := [" notes"] }
        (configuration { docsServer with args := [" notes"] }) := by
  refine ⟨⟨by rfl, fun h => ?_⟩, by rfl, fun h => ?_⟩
  · have hafter := ((leadsTo_iff (by rfl)).mp h).2
    have hurl := congrArg McpServerCreate.url (validateTransportFields_fields hafter)
    cases hurl
  · have hafter := ((leadsTo_iff (by rfl)).mp h).2
    have hargs := congrArg McpServerCreate.args (validateTransportFields_fields hafter)
    revert hargs
    decide

end RoundTrip

end ChangeQuality.McpForms
