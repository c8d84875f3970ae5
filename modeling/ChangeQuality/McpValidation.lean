import ChangeQuality.McpService

/-!
The response to a PATCH that the merged validation rejects. Pydantic attaches to each error the value
that the failing validator was given, and a model validator is given the whole mapping.
-/

namespace ChangeQuality.McpValidation

open ChangeQuality.Values
open ChangeQuality.McpServers
open ChangeQuality.McpService

/-- The texts and links that Pydantic has for its own types of errors. -/
structure Library where
  msg : (type field : String) → String
  url : (type : String) → String

/-- An entry of `exc.errors(include_context=False)`. -/
structure ErrorDetails where
  type : String
  loc : List String
  msg : String
  input : Json
  url : String

def ErrorDetails.toJson (error : ErrorDetails) : Json :=
  .obj [("type", .str error.type), ("loc", .arr (error.loc.map .str)), ("msg", .str error.msg),
    ("input", error.input), ("url", .str error.url)]

/-- The mapping `merged` of `_validated_update_values`; `none` is Python's `None`. -/
structure Merged where
  name : Option String
  transport : McpTransport
  command : Option String
  args : Option (List String)
  env : Option (List (String × String))
  url : Option String
  headers : Option (List (String × String))
  enabled : Option Bool
  desiredState : Option McpDesiredState

def merged (server : McpServer) (payload : McpServerUpdate) : Merged where
  name := payload.name.merge server.name
  transport := server.transport
  command := payload.command.mergeNullable server.command
  args := payload.args.merge server.args
  env := payload.env.merge server.env
  url := payload.url.mergeNullable server.url
  headers := payload.headers.merge server.headers
  enabled := payload.enabled.merge server.enabled
  desiredState := payload.desiredState.merge server.desiredState

def transportText : McpTransport → String
  | .stdio => "stdio"
  | .http => "http"
  | .other name => name

def desiredStateText : McpDesiredState → String
  | .running => "running"
  | .stopped => "stopped"

/-- A value that may be `None`. -/
def nullable {α : Type} (toJson : α → Json) (value : Option α) : Json :=
  value.elim .null toJson

def mappingJson (entries : List (String × String)) : Json :=
  .obj (entries.map fun (key, value) => (key, .str value))

def Merged.toJson (values : Merged) : Json :=
  .obj [("name", nullable .str values.name),
    ("transport", .str (transportText values.transport)),
    ("command", nullable .str values.command),
    ("args", nullable (fun args => .arr (args.map .str)) values.args),
    ("env", nullable mappingJson values.env),
    ("url", nullable .str values.url),
    ("headers", nullable mappingJson values.headers),
    ("enabled", nullable .bool values.enabled),
    ("desired_state", nullable (fun state => .str (desiredStateText state)) values.desiredState)]

section Validation

variable (lib : Library)

/-- The error of a field that was given `input`. -/
def fieldError (type field : String) (input : Json) : ErrorDetails where
  type
  loc := [field]
  msg := lib.msg type field
  input
  url := lib.url type

/-- The validator of a field that is not nullable. -/
def required {α : Type} (type field : String) (value : Option α) : List ErrorDetails :=
  if value.isNone then [fieldError lib type field .null] else []

/-- The errors of the fields of `McpServerCreate`, in the order of the fields. -/
def fieldErrors (values : Merged) : List ErrorDetails :=
  required lib "string_type" "name" values.name ++
  (match values.transport with
    | .other name => [fieldError lib "enum" "transport" (.str name)]
    | _ => []) ++
  required lib "list_type" "args" values.args ++
  required lib "dict_type" "env" values.env ++
  required lib "dict_type" "headers" values.headers ++
  required lib "bool_type" "enabled" values.enabled ++
  required lib "enum" "desired_state" values.desiredState

/-- What `validate_transport_fields` raises; `httpUrl` is the URL type's parser followed by `str`. -/
def transportError (httpUrl : String → Option String) (values : Merged) : Option String :=
  match values.transport with
  | .stdio =>
      match values.command with
      | none => some "stdio MCP servers require command"
      | some command =>
          if command = "" ∨ strip command = "" then some "stdio MCP servers require command"
          else none
  | .http =>
      match values.url with
      | none => some "http MCP servers require url"
      | some url =>
          if url = "" ∨ strip url = "" then some "http MCP servers require url"
          else if (httpUrl url).isNone then some "http MCP servers require valid url"
          else none
  | .other _ => none

/-- The errors of `McpServerCreate(**merged)`: the model validator runs once every field is valid, and
its error carries the whole mapping. -/
def errors (httpUrl : String → Option String) (values : Merged) : List ErrorDetails :=
  match fieldErrors lib values with
  | [] =>
      match transportError httpUrl values with
      | some text =>
          [{ type := "value_error"
             loc := []
             msg := "Value error, " ++ text
             input := values.toJson
             url := lib.url "value_error" }]
      | none => []
  | found => found

/-- The body of the 422 response to a PATCH; `none` where the merged values are valid. -/
def rejection (httpUrl : String → Option String) (server : McpServer) (payload : McpServerUpdate) :
    Option Json :=
  match errors lib httpUrl (merged server payload) with
  | [] => none
  | found => some (.obj [("detail", .arr (found.map ErrorDetails.toJson))])

end Validation

/-- Two rows that differ in the values of `env` and `headers` only. -/
structure SameButSecrets (server server' : McpServer) : Prop where
  rest : server' = { server with env := server'.env, headers := server'.headers }
  envKeys : server'.env.map Prod.fst = server.env.map Prod.fst
  headerKeys : server'.headers.map Prod.fst = server.headers.map Prod.fst

def isNull {α : Type} : McpService.Field α → Bool
  | .null => true
  | _ => false

def isUnset {α : Type} : McpService.Field α → Bool
  | .unset => true
  | _ => false

/-- The response to a PATCH is the same whatever the stored values of `env` and `headers` are. -/
def SecretsHidden (lib : Library) (httpUrl : String → Option String) (server : McpServer)
    (payload : McpServerUpdate) : Prop :=
  ∀ server', SameButSecrets server server' →
    rejection lib httpUrl server' payload = rejection lib httpUrl server payload

/-- A validator of a single field fails: the payload sets a field to null that is not nullable, or the
stored transport is not a known one. -/
def FieldRejected (server : McpServer) (payload : McpServerUpdate) : Prop :=
  isNull payload.name ∨ (∃ name, server.transport = .other name) ∨ isNull payload.args ∨
    isNull payload.env ∨ isNull payload.headers ∨ isNull payload.enabled ∨
    isNull payload.desiredState

/-- No stored value of `env` or `headers` is left in the merged mapping. -/
def Overwrites (server : McpServer) (payload : McpServerUpdate) : Prop :=
  (server.env = [] ∨ isUnset payload.env = false) ∧
    (server.headers = [] ∨ isUnset payload.headers = false)

section Rejection

variable {lib : Library} {httpUrl : String → Option String} {server server' : McpServer}
  {payload : McpServerUpdate}

theorem merge_isNone {α : Type} (field : McpService.Field α) (stored : α) :
    (field.merge stored).isNone = isNull field := by
  cases field <;> rfl

theorem required_eq_nil {α : Type} {type field : String} {value : Option α} :
    required lib type field value = [] ↔ value.isNone = false := by
  unfold required
  split <;> simp_all [Option.isSome_iff_ne_none]

theorem fieldErrors_eq_nil (lib : Library) :
    fieldErrors lib (merged server payload) = [] ↔ ¬FieldRejected server payload := by
  have htransport : (match server.transport with
      | .other name => [fieldError lib "enum" "transport" (.str name)]
      | _ => []) = [] ↔ ¬∃ name, server.transport = .other name := by
    cases server.transport <;> simp
  unfold fieldErrors FieldRejected
  simp only [List.append_eq_nil_iff, required_eq_nil, merged, merge_isNone, htransport, not_or,
    Bool.not_eq_true, and_assoc]

/-- The merged values of two such rows differ in `env` and `headers` only. -/
theorem merged_same (h : SameButSecrets server server') :
    merged server' payload =
      { merged server payload with
        env := payload.env.merge server'.env
        headers := payload.headers.merge server'.headers } := by
  rw [h.rest]
  rfl

theorem fieldErrors_same (h : SameButSecrets server server') :
    fieldErrors lib (merged server' payload) =
      fieldErrors lib (merged server payload) := by
  rw [merged_same h]
  simp only [fieldErrors, merged, required, merge_isNone]

theorem errors_eq_nil {values : Merged} :
    errors lib httpUrl values = [] ↔
      fieldErrors lib values = [] ∧
        transportError httpUrl values = none := by
  unfold errors
  split
  · split <;> simp_all
  · simp_all

theorem rejection_eq_none_iff :
    rejection lib httpUrl server payload = none ↔
      errors lib httpUrl (merged server payload) = [] := by
  unfold rejection
  split <;> simp_all

theorem validateTransportFields_isSome {values : McpServerCreate} {m : Merged}
    (htransport : m.transport = values.transport) (hcommand : m.command = values.command)
    (hurl : m.url = values.url) :
    (validateTransportFields httpUrl values).isSome ↔
      (¬∃ name, values.transport = .other name) ∧
        transportError httpUrl m = none := by
  unfold validateTransportFields transportError
  rw [htransport, hcommand, hurl]
  cases values.transport with
  | stdio => cases values.command <;> grind
  | http =>
      cases values.url with
      | none => simp
      | some url =>
          by_cases hblank : url = "" ∨ strip url = "" <;>
            simp [hblank, Option.isSome_iff_ne_none]
  | other name => simp

theorem merge_eq_some {α : Type} {field : McpService.Field α} (h : isNull field = false)
    (stored : α) :
    ∃ value, field.merge stored = some value := by
  cases field with
  | unset => exact ⟨stored, rfl⟩
  | null => simp [isNull] at h
  | set value => exact ⟨value, rfl⟩

theorem isNull_of_merge {α : Type} {field : McpService.Field α} {stored value : α}
    (h : field.merge stored = some value) : isNull field = false := by
  rw [← merge_isNone field stored, h]
  rfl

/-- A PATCH is rejected exactly where its merged values do not validate. -/
theorem rejection_eq_none :
    rejection lib httpUrl server payload = none ↔
      (validatedMerge httpUrl server payload).isSome := by
  rw [rejection_eq_none_iff, errors_eq_nil, fieldErrors_eq_nil lib]
  constructor
  · rintro ⟨hfields, htransport⟩
    simp only [FieldRejected, not_or, Bool.not_eq_true] at hfields
    obtain ⟨hname, hknown, hargs, henv, hheaders, henabled, hdesired⟩ := hfields
    obtain ⟨name, hname⟩ := merge_eq_some hname server.name
    obtain ⟨args, hargs⟩ := merge_eq_some hargs server.args
    obtain ⟨env, henv⟩ := merge_eq_some henv server.env
    obtain ⟨headers, hheaders⟩ := merge_eq_some hheaders server.headers
    obtain ⟨enabled, henabled⟩ := merge_eq_some henabled server.enabled
    obtain ⟨desired, hdesired⟩ := merge_eq_some hdesired server.desiredState
    simp only [validatedMerge, hname, hargs, henv, hheaders, henabled, hdesired]
    exact (validateTransportFields_isSome rfl rfl rfl).mpr ⟨hknown, htransport⟩
  · intro hvalid
    obtain ⟨_, hvalid⟩ := Option.isSome_iff_exists.mp hvalid
    simp only [validatedMerge, Option.bind_eq_bind, Option.bind_eq_some_iff] at hvalid
    obtain ⟨name, hname, args, hargs, env, henv, headers, hheaders, enabled, henabled, desired,
      hdesired, hvalid⟩ := hvalid
    obtain ⟨hknown, htransport⟩ := (validateTransportFields_isSome
      (m := merged server payload) rfl rfl rfl).mp (Option.isSome_of_eq_some hvalid)
    refine ⟨?_, htransport⟩
    simp only [FieldRejected, not_or, Bool.not_eq_true]
    exact ⟨isNull_of_merge hname, hknown, isNull_of_merge hargs, isNull_of_merge henv,
      isNull_of_merge hheaders, isNull_of_merge henabled, isNull_of_merge hdesired⟩

/-- The body of a rejection by the model validator. -/
theorem rejection_of_fields (hfields : ¬FieldRejected server payload)
    (hrejected : rejection lib httpUrl server payload ≠ none) :
    ∃ text, transportError httpUrl (merged server payload) = some text ∧
      rejection lib httpUrl server payload =
        some (.obj [("detail", .arr [.obj [("type", .str "value_error"), ("loc", .arr []),
          ("msg", .str ("Value error, " ++ text)),
          ("input", (merged server payload).toJson),
          ("url", .str (lib.url "value_error"))]])]) := by
  have hnil := (fieldErrors_eq_nil lib).mpr hfields
  cases htext : transportError httpUrl (merged server payload) with
  | none => exact absurd (rejection_eq_none_iff.mpr (errors_eq_nil.mpr ⟨hnil, htext⟩)) hrejected
  | some text =>
      refine ⟨text, rfl, ?_⟩
      unfold rejection errors
      rw [hnil, htext]
      rfl

theorem mappingJson_injective : Function.Injective mappingJson := by
  intro entries entries' h
  refine List.map_injective_iff.mpr ?_ (Json.obj.inj h)
  rintro ⟨key, value⟩ ⟨key', value'⟩ hentry
  obtain ⟨rfl, hvalue⟩ := Prod.mk.inj hentry
  rw [Json.str.inj hvalue]

theorem merged_eq_of_toJson {values values' : Merged} (h : values.toJson = values'.toJson) :
    nullable mappingJson values.env = nullable mappingJson values'.env ∧
      nullable mappingJson values.headers = nullable mappingJson values'.headers := by
  simp only [Merged.toJson, Json.obj.injEq, List.cons.injEq, Prod.mk.injEq] at h
  exact ⟨h.2.2.2.2.1.2, h.2.2.2.2.2.2.1.2⟩

/-- The entries with other values. -/
def altered (entries : List (String × String)) : List (String × String) :=
  entries.map fun (key, value) => (key, value ++ "*")

theorem altered_keys (entries : List (String × String)) :
    (altered entries).map Prod.fst = entries.map Prod.fst := by
  simp [altered, Function.comp_def]

theorem altered_ne {entries : List (String × String)} (h : entries ≠ []) :
    altered entries ≠ entries := by
  cases entries with
  | nil => exact absurd rfl h
  | cons entry rest =>
      intro heq
      have hvalue := congrArg (fun entries => (entries.head?.map fun entry => entry.2.length)) heq
      simp [altered] at hvalue

theorem merge_altered {field : McpService.Field (List (String × String))}
    {entries : List (String × String)}
    (hunset : isUnset field = true) (hentries : entries ≠ []) :
    nullable mappingJson (field.merge (altered entries)) ≠
      nullable mappingJson (field.merge entries) := by
  cases field with
  | unset => exact fun h => altered_ne hentries (mappingJson_injective h)
  | null => simp [isUnset] at hunset
  | set value => simp [isUnset] at hunset

theorem merge_overwritten {field : McpService.Field (List (String × String))}
    {entries entries' : List (String × String)} (h : entries = [] ∨ isUnset field = false)
    (hkeys : entries'.map Prod.fst = entries.map Prod.fst) :
    field.merge entries' = field.merge entries := by
  rcases h with rfl | hset
  · rw [List.map_eq_nil_iff.mp hkeys]
  · cases field with
    | unset => simp [isUnset] at hset
    | null => rfl
    | set value => rfl

/-- The bodies of two rejections by the model validator differ where the merged secrets do. -/
theorem toJson_of_rejection_eq (h : SameButSecrets server server')
    (hfields : ¬FieldRejected server payload) (hrejected : rejection lib httpUrl server payload ≠ none)
    (hsame : rejection lib httpUrl server' payload = rejection lib httpUrl server payload) :
    (merged server' payload).toJson = (merged server payload).toJson := by
  have hfields' : ¬FieldRejected server' payload := by
    rw [← fieldErrors_eq_nil lib, fieldErrors_same h, fieldErrors_eq_nil lib]
    exact hfields
  obtain ⟨text, -, hbody⟩ := rejection_of_fields hfields hrejected
  obtain ⟨text', -, hbody'⟩ := rejection_of_fields hfields' (hsame ▸ hrejected)
  rw [hbody, hbody'] at hsame
  simp only [Option.some.injEq, Json.obj.injEq, List.cons.injEq, Prod.mk.injEq, Json.arr.injEq]
    at hsame
  exact hsame.1.2.1.2.2.2.1.2

/-- The response to a rejected PATCH tells nothing about the stored secrets exactly where a field was
rejected by itself or the payload replaces all of them. -/
theorem secrets_hidden_iff (hrejected : rejection lib httpUrl server payload ≠ none) :
    SecretsHidden lib httpUrl server payload ↔
      FieldRejected server payload ∨ Overwrites server payload := by
  constructor
  · intro hsame
    by_contra hnot
    rw [not_or] at hnot
    obtain ⟨hfields, hkept⟩ := hnot
    have htoJson := fun server' h => merged_eq_of_toJson
      (toJson_of_rejection_eq h hfields hrejected (hsame server' h))
    apply hkept
    constructor
    · by_contra henv
      simp only [not_or, Bool.not_eq_false] at henv
      have h := htoJson { server with env := altered server.env }
        ⟨rfl, altered_keys server.env, rfl⟩
      exact merge_altered henv.2 henv.1 h.1
    · by_contra hheaders
      simp only [not_or, Bool.not_eq_false] at hheaders
      have h := htoJson { server with headers := altered server.headers }
        ⟨rfl, rfl, altered_keys server.headers⟩
      exact merge_altered hheaders.2 hheaders.1 h.2
  · rintro (hfields | hoverwrites) server' h
    · have hfound : fieldErrors lib (merged server payload) ≠ [] :=
        fun hnil => (fieldErrors_eq_nil lib).mp hnil hfields
      have herrors : errors lib httpUrl (merged server' payload) =
          errors lib httpUrl (merged server payload) := by
        unfold errors
        rw [fieldErrors_same h]
        split
        · rename_i hnil
          exact absurd hnil hfound
        · rfl
      unfold rejection
      rw [herrors]
    · have hmerged : merged server' payload = merged server payload := by
        rw [merged_same h, merge_overwritten hoverwrites.1 h.envKeys,
          merge_overwritten hoverwrites.2 h.headerKeys]
        rfl
      unfold rejection
      rw [hmerged]

end Rejection

def pydantic : Library where
  msg type field :=
    if type = "enum" ∧ field = "desired_state" then "Input should be 'running' or 'stopped'"
    else if type = "enum" then "Input should be 'stdio' or 'http'"
    else if type = "string_type" then "Input should be a valid string"
    else if type = "list_type" then "Input should be a valid list"
    else if type = "dict_type" then "Input should be a valid dictionary"
    else "Input should be a valid boolean"
  url type := "https://errors.pydantic.dev/2.13/v/" ++ type

/-- A stored server with a secret. -/
def storedServer : McpServer where
  id := 0
  name := "time"
  transport := .stdio
  command := some "uvx"
  args := []
  env := [("API_KEY", "hunter2")]
  url := none
  headers := []
  enabled := false
  desiredState := .stopped
  runtimeStatus := .stopped
  lastError := none

/-- A PATCH that sets the name to null is rejected by the field. -/
theorem secrets_hidden_nullName : SecretsHidden pydantic some storedServer { name := .null } := by
  refine (secrets_hidden_iff ?_).mpr (.inl (.inl rfl))
  simp [rejection, errors, fieldErrors, required, merged, McpService.Field.merge, storedServer]

/-- A PATCH with a blank command is rejected by the model validator, and the response shows the
environment of the stored server. -/
theorem not_forall_secrets_hidden :
    ¬∀ (lib : Library) (httpUrl : String → Option String) (server : McpServer)
      (payload : McpServerUpdate), rejection lib httpUrl server payload ≠ none →
        SecretsHidden lib httpUrl server payload := by
  intro hall
  have hfields : ¬FieldRejected storedServer { command := .set " " } := by
    simp [FieldRejected, isNull, storedServer]
  have hrejected : rejection pydantic some storedServer { command := .set " " } ≠ none := by
    rw [Ne, rejection_eq_none_iff, errors_eq_nil, not_and]
    intro _
    decide
  have hother : SameButSecrets storedServer { storedServer with env := [("API_KEY", "swordfish")] } :=
    ⟨rfl, rfl, rfl⟩
  have hsame := toJson_of_rejection_eq hother hfields hrejected
    (hall pydantic some storedServer _ hrejected _ hother)
  have henv := mappingJson_injective (merged_eq_of_toJson hsame).1
  exact absurd henv (by decide)

end ChangeQuality.McpValidation
