import ChangeQuality.McpService
import ChangeQuality.Runs

/-!
The table of LLM providers: what the create and update schemas accept, what the columns store, and
whether a stored row can be shown again. A JSONB column stores Python's `None` as the JSON null, which
its `NOT NULL` admits.
-/

namespace ChangeQuality.LlmProviders

open ChangeQuality.Values
open ChangeQuality.Runs

abbrev ProviderId := Nat

def supportedLlmProviderTypes : List String :=
  ["openai", "anthropic", "azure_openai", "azure_ai", "google_vertexai", "google_genai",
    "anthropic_bedrock", "bedrock", "bedrock_converse", "cohere", "fireworks", "together",
    "mistralai", "huggingface", "groq", "ollama", "google_anthropic_vertex", "deepseek", "ibm",
    "nvidia", "xai", "openrouter", "perplexity", "upstage", "baseten", "litellm"]

abbrev LlmProviderType := { text : String // text ∈ supportedLlmProviderTypes }

/-- A row of `llm_providers`; `deleted` says that `deleted_at` is set. -/
structure LlmProvider where
  id : ProviderId
  displayName : String
  description : Option String
  providerType : String
  baseUrl : Option String
  apiKey : Option String
  defaultHeaders : Json
  defaultQuery : Json
  models : Json
  enabled : Bool
  deleted : Bool

/-- `_normalize_models`, with the names that are already in the result. -/
def normalizeModelsFrom (seen : List String) : List String → List String
  | [] => []
  | item :: rest =>
      let model := strip item
      if model = "" ∨ model ∈ seen then normalizeModelsFrom seen rest
      else model :: normalizeModelsFrom (model :: seen) rest

def normalizeModels (value : List String) : List String :=
  normalizeModelsFrom [] value

structure LlmProviderCreate where
  displayName : String
  description : Option String := none
  providerType : LlmProviderType
  baseUrl : Option String := none
  apiKey : Option String := none
  defaultHeaders : List (String × String) := []
  defaultQuery : List (String × String) := []
  models : List String := []
  enabled : Bool := true

structure LlmProviderUpdate where
  displayName : McpService.Field String := .unset
  description : McpService.Field String := .unset
  providerType : McpService.Field LlmProviderType := .unset
  baseUrl : McpService.Field String := .unset
  apiKey : McpService.Field String := .unset
  defaultHeaders : McpService.Field (List (String × String)) := .unset
  defaultQuery : McpService.Field (List (String × String)) := .unset
  models : McpService.Field (List String) := .unset
  enabled : McpService.Field Bool := .unset

def mappingJson (entries : List (String × String)) : Json :=
  .obj (entries.map fun (key, value) => (key, .str value))

def namesJson (names : List String) : Json :=
  .arr (names.map .str)

/-- `LlmProvider(**payload.model_dump(mode="json"))`. -/
def LlmProviderCreate.toRow (payload : LlmProviderCreate) (id : ProviderId) : LlmProvider where
  id
  displayName := payload.displayName
  description := payload.description
  providerType := payload.providerType
  baseUrl := payload.baseUrl
  apiKey := payload.apiKey
  defaultHeaders := mappingJson payload.defaultHeaders
  defaultQuery := mappingJson payload.defaultQuery
  models := namesJson (normalizeModels payload.models)
  enabled := payload.enabled
  deleted := false

/-- The value that an update writes to `provider_type`, which is not nullable. -/
def writeProviderType (field : McpService.Field LlmProviderType) (stored : String) :
    Option String :=
  match field with
  | .unset => some stored
  | .null => none
  | .set providerType => some providerType.val

/-- The value that `setattr` writes to a mapping column: `_normalize_update_values` turns null into an
empty mapping. -/
def writeMapping (field : McpService.Field (List (String × String))) (stored : Json) : Json :=
  match field with
  | .unset => stored
  | .null => .obj []
  | .set entries => mappingJson entries

/-- The value that `setattr` writes to `models`. -/
def writeModels (field : McpService.Field (List String)) (stored : Json) : Json :=
  match field with
  | .unset => stored
  | .null => .null
  | .set names => namesJson (normalizeModels names)

/-- The row after the flush of an update; `none` where a column that is `NOT NULL` is given `None`. -/
def LlmProviderUpdate.write (payload : LlmProviderUpdate) (row : LlmProvider) :
    Option LlmProvider := do
  let displayName ← payload.displayName.merge row.displayName
  let providerType ← writeProviderType payload.providerType row.providerType
  let enabled ← payload.enabled.merge row.enabled
  some {
    row with
    displayName
    description := payload.description.mergeNullable row.description
    providerType
    baseUrl := payload.baseUrl.mergeNullable row.baseUrl
    apiKey := payload.apiKey.mergeNullable row.apiKey
    defaultHeaders := writeMapping payload.defaultHeaders row.defaultHeaders
    defaultQuery := writeMapping payload.defaultQuery row.defaultQuery
    models := writeModels payload.models row.models
    enabled }

structure Db where
  providers : List LlmProvider
  nextId : ProviderId

/-- `get_by_id`. -/
def Db.getById (db : Db) (id : ProviderId) : Option LlmProvider :=
  (db.providers.find? fun row => row.id = id).filter fun row => !row.deleted

/-- The flush of one row. -/
def Db.store (db : Db) (row : LlmProvider) : Db :=
  { db with providers := db.providers.map fun other => if other.id = row.id then row else other }

inductive Request where
  | create (payload : LlmProviderCreate)
  | update (id : ProviderId) (payload : LlmProviderUpdate)
  | delete (id : ProviderId)

/-- What an accepted request commits; `none` where it is refused. -/
def handle : Request → Db → Option Db
  | .create payload, db =>
      some { providers := db.providers ++ [payload.toRow db.nextId], nextId := db.nextId + 1 }
  | .update id payload, db => do
      let row ← db.getById id
      let written ← payload.write row
      some (db.store written)
  | .delete id, db => do
      let row ← db.getById id
      some (db.store { row with deleted := true })

structure LlmProviderSummary where
  id : ProviderId
  displayName : String
  description : Option String
  providerType : String
  baseUrl : Option String
  defaultHeaders : List (String × String)
  defaultQuery : List (String × String)
  models : List String
  enabled : Bool
  apiKeyConfigured : Bool

/-- The validator of `dict[str, str]`. -/
def validateMapping : Json → Option (List (String × String))
  | .obj entries => entries.mapM fun (key, value) => value.asStr?.map fun text => (key, text)
  | _ => none

/-- The validator of `list[str]`. -/
def validateNames : Json → Option (List String)
  | .arr items => items.mapM Json.asStr?
  | _ => none

/-- `LlmProviderSummary.model_validate(provider)`. -/
def validateSummary (row : LlmProvider) : Option LlmProviderSummary := do
  let defaultHeaders ← validateMapping row.defaultHeaders
  let defaultQuery ← validateMapping row.defaultQuery
  let models ← validateNames row.models
  some {
    id := row.id
    displayName := row.displayName
    description := row.description
    providerType := row.providerType
    baseUrl := row.baseUrl
    defaultHeaders
    defaultQuery
    models
    enabled := row.enabled
    apiKeyConfigured := row.apiKey.any (· ≠ "") }

/-- `GET /llm-providers`; `none` where a row does not validate. -/
def listLlmProviders (db : Db) : Option (List LlmProviderSummary) :=
  (db.providers.filter fun row => !row.deleted).mapM validateSummary

/-- Every row that is not deleted can be shown. -/
def Presentable (db : Db) : Prop :=
  ∀ row ∈ db.providers, row.deleted = false → (validateSummary row).isSome

/-- No PATCH sets `models` to null. -/
def KeepsModels : Request → Db → Prop
  | .update _ payload, _ => payload.models ≠ .null
  | _, _ => True

section Rows

variable {db db' : Db} {row : LlmProvider}

theorem mapM_isSome {α β : Type} {f : α → Option β} {items : List α} :
    (items.mapM f).isSome ↔ ∀ item ∈ items, (f item).isSome := by
  induction items with
  | nil => simp
  | cons item items ih =>
      simp only [List.mapM_cons, List.forall_mem_cons, ← ih]
      cases f item <;> cases items.mapM f <;> simp

theorem validateMapping_mappingJson (entries : List (String × String)) :
    (validateMapping (mappingJson entries)).isSome := by
  simp only [validateMapping, mappingJson, mapM_isSome]
  intro item hitem
  obtain ⟨entry, -, rfl⟩ := List.mem_map.mp hitem
  rfl

theorem validateNames_namesJson (names : List String) :
    (validateNames (namesJson names)).isSome := by
  simp only [validateNames, namesJson, mapM_isSome]
  intro item hitem
  obtain ⟨name, -, rfl⟩ := List.mem_map.mp hitem
  rfl

theorem validateSummary_isSome :
    (validateSummary row).isSome ↔ (validateMapping row.defaultHeaders).isSome ∧
      (validateMapping row.defaultQuery).isSome ∧ (validateNames row.models).isSome := by
  unfold validateSummary
  cases validateMapping row.defaultHeaders <;> cases validateMapping row.defaultQuery <;>
    cases validateNames row.models <;> simp

theorem presentable_toRow (payload : LlmProviderCreate) (id : ProviderId) :
    (validateSummary (payload.toRow id)).isSome :=
  validateSummary_isSome.mpr ⟨validateMapping_mappingJson _, validateMapping_mappingJson _,
    validateNames_namesJson _⟩

theorem writeMapping_valid (field : McpService.Field (List (String × String))) {stored : Json}
    (h : (validateMapping stored).isSome) : (validateMapping (writeMapping field stored)).isSome := by
  cases field with
  | unset => exact h
  | null => rfl
  | set entries => exact validateMapping_mappingJson entries

theorem writeModels_valid (field : McpService.Field (List String)) {stored : Json}
    (h : (validateNames stored).isSome) :
    (validateNames (writeModels field stored)).isSome ↔ field ≠ .null := by
  cases field with
  | unset => simpa [writeModels] using h
  | null => simp [writeModels, validateNames]
  | set names => simpa [writeModels] using validateNames_namesJson (normalizeModels names)

/-- What an accepted PATCH leaves of a row that could be shown. -/
theorem presentable_write {payload : LlmProviderUpdate} {written : LlmProvider}
    (h : payload.write row = some written) (hrow : (validateSummary row).isSome) :
    written.id = row.id ∧ written.deleted = row.deleted ∧
      ((validateSummary written).isSome ↔ payload.models ≠ .null) := by
  simp only [LlmProviderUpdate.write, Option.bind_eq_bind, Option.bind_eq_some_iff,
    Option.some.injEq] at h
  obtain ⟨displayName, -, providerType, -, enabled, -, rfl⟩ := h
  obtain ⟨hheaders, hquery, hmodels⟩ := validateSummary_isSome.mp hrow
  refine ⟨rfl, rfl, ?_⟩
  rw [validateSummary_isSome, ← writeModels_valid payload.models hmodels]
  constructor
  · exact fun h => h.2.2
  · exact fun h => ⟨writeMapping_valid _ hheaders, writeMapping_valid _ hquery, h⟩

theorem getById_eq_some {id : ProviderId} (h : db.getById id = some row) :
    row ∈ db.providers ∧ row.deleted = false := by
  obtain ⟨hfind, hdeleted⟩ := Option.filter_eq_some_iff.mp h
  exact ⟨List.mem_of_find?_eq_some hfind, by simpa using hdeleted⟩

theorem presentable_store (h : Presentable db)
    (hrow : row.deleted = false → (validateSummary row).isSome) : Presentable (db.store row) := by
  intro other hother
  obtain ⟨old, hold, rfl⟩ := List.mem_map.mp hother
  split
  · exact hrow
  · exact h old hold

theorem mem_store {old : LlmProvider} (hold : old ∈ db.providers) (hid : row.id = old.id) :
    row ∈ (db.store row).providers :=
  List.mem_map.mpr ⟨old, hold, if_pos hid.symm⟩

end Rows

/-- An accepted request keeps the rows presentable exactly where it is not a PATCH of that kind. -/
theorem presentable_handle {request : Request} {db db' : Db} (h : Presentable db)
    (hhandle : handle request db = some db') : Presentable db' ↔ KeepsModels request db := by
  cases request with
  | create payload =>
      obtain rfl := Option.some.inj hhandle
      refine iff_of_true ?_ trivial
      intro row hrow hdeleted
      rcases List.mem_append.mp hrow with hrow | hrow
      · exact h row hrow hdeleted
      · obtain rfl := List.mem_singleton.mp hrow
        exact presentable_toRow payload db.nextId
  | update id payload =>
      simp only [handle, Option.bind_eq_bind, Option.bind_eq_some_iff, Option.some.injEq] at hhandle
      obtain ⟨row, hget, written, hwrite, rfl⟩ := hhandle
      obtain ⟨hmem, hdeleted⟩ := getById_eq_some hget
      obtain ⟨hid, hsame, hiff⟩ := presentable_write hwrite (h row hmem hdeleted)
      constructor
      · intro hall
        exact hiff.mp (hall written (mem_store hmem hid) (hsame.trans hdeleted))
      · intro hkeeps
        exact presentable_store h fun _ => hiff.mpr hkeeps
  | delete id =>
      simp only [handle, Option.bind_eq_bind, Option.bind_eq_some_iff, Option.some.injEq] at hhandle
      obtain ⟨row, hget, rfl⟩ := hhandle
      exact iff_of_true (presentable_store h (by simp)) trivial

/-- In every state that a sequence of accepted requests leads through the providers can be shown,
exactly where none of them is a PATCH that sets `models` to null. -/
theorem presentable_throughout_iff {requests : List Request} {db db' : Db} (h : Presentable db)
    (hrun : run handle requests db = some db') :
    Throughout handle Presentable requests db ↔ Along handle KeepsModels requests db :=
  throughout_iff_along (I := fun _ => True) (fun _ _ _ _ _ => trivial)
    (fun _ _ _ _ hdb hstep => presentable_handle hdb hstep) trivial h hrun

def emptyDb : Db where
  providers := []
  nextId := 0

def openai : LlmProviderCreate where
  displayName := "OpenAI"
  providerType := ⟨"openai", by decide⟩
  models := ["gpt-4.1 ", "gpt-4.1"]

/-- A provider is created, and its mappings are set to null. -/
theorem presentable_nullHeaders :
    Throughout handle Presentable
      [.create openai, .update 0 { defaultHeaders := .null, defaultQuery := .null }] emptyDb := by
  refine (presentable_throughout_iff ?_ (rfl : run handle _ emptyDb = some _)).mpr ?_
  · simp [Presentable, emptyDb]
  · simp [Along, KeepsModels]

/-- A PATCH that sets `models` to null is accepted, and no list of the providers succeeds any more. -/
theorem not_forall_presentable :
    ¬∀ (requests : List Request) (db' : Db), run handle requests emptyDb = some db' →
      Presentable db' := by
  intro hall
  have hpresentable := hall [.create openai, .update 0 { models := .null }] _ rfl
  have hrow := hpresentable { openai.toRow 0 with models := .null } (.head _) rfl
  exact absurd hrow (by decide)

end ChangeQuality.LlmProviders
