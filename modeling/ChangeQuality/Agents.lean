import ChangeQuality.SequencedLog
import ChangeQuality.SopTables

/-!
The tables of the agents and of their published versions, the draft that an agent carries as JSON, and
the part of the tables that the lock of an agent's row protects.
-/

namespace ChangeQuality.Agents

open ChangeQuality.Values
open ChangeQuality.ReadCommitted
open ChangeQuality.SequencedLog

abbrev AgentId := Nat
abbrev VersionId := Nat

/-- A point in time, as `datetime.now` tells it. -/
abbrev Timestamp := Nat

section Drafts

/-- The conversions of the validation library: of a value to the text of a UUID, and of a value to the
dump of the `LlmModelParameters` that it denotes. -/
structure Conversions where
  uuid : Json → Option String
  modelParameters : Json → Option Json

/-- `modelParameters` is kept as `dump_llm_model_parameters` dumps it. -/
structure AgentDraftConfig where
  systemPrompt : String
  model : String
  providerId : Option String
  modelParameters : Json
  toolAllowlist : List String
  mcpServerIds : List String

/-- The value of a key that is there. -/
def field? (draft : Json) (key : String) : Option Json :=
  match draft with
  | .obj entries => entries.lookup key
  | _ => none

/-- A `str` with `min_length=1`. -/
def requiredText (value : Option Json) : Option String :=
  (value.bind Json.asStr?).filter (· ≠ "")

/-- A `list[str]` that defaults to the empty list. -/
def textList : Option Json → Option (List String)
  | none => some []
  | some (.arr items) => items.mapM Json.asStr?
  | some _ => none

/-- A `UUID | None` that defaults to `None`. -/
def optionalUuid (conversions : Conversions) : Option Json → Option (Option String)
  | none | some .null => some none
  | some value => (conversions.uuid value).map some

/-- `AgentDraftConfig.model_validate`; `none` is a `ValidationError`. -/
def modelValidate (conversions : Conversions) (draft : Json) : Option AgentDraftConfig := do
  let _ ← draft.asObj?
  let systemPrompt ← requiredText (field? draft "system_prompt")
  let model ← requiredText (field? draft "model")
  let providerId ← optionalUuid conversions (field? draft "provider_id")
  let modelParameters ←
    match (field? draft "model_config").or (field? draft "model_parameters") with
    | some value => conversions.modelParameters value
    | none => some (.obj [])
  let toolAllowlist ← textList (field? draft "tool_allowlist")
  let mcpServerIds ← textList (field? draft "mcp_server_ids")
  if providerId.isSome ∧ ':' ∈ model.toList then none
  else some { systemPrompt, model, providerId, modelParameters, toolAllowlist, mcpServerIds }

/-- A draft as the repository takes it: a validated one or a mapping. -/
inductive DraftInput where
  | config (draft : AgentDraftConfig)
  | mapping (draft : Json)

/-- `validate_draft_config`; `none` is an `AgentDraftInvalidError`. -/
def validateDraftConfig (conversions : Conversions) : DraftInput → Option AgentDraftConfig
  | .config draft => some draft
  | .mapping draft => modelValidate conversions draft

def textsJson (texts : List String) : Json :=
  .arr (texts.map .str)

/-- `model_dump(mode="json", by_alias=True)`. -/
def AgentDraftConfig.modelDump (draft : AgentDraftConfig) : Json :=
  .obj [("system_prompt", .str draft.systemPrompt), ("model", .str draft.model),
    ("provider_id", (draft.providerId.map .str).getD .null),
    ("model_config", draft.modelParameters), ("tool_allowlist", textsJson draft.toolAllowlist),
    ("mcp_server_ids", textsJson draft.mcpServerIds)]

def dumpDraftConfig (conversions : Conversions) (draft : DraftInput) : Option Json :=
  (validateDraftConfig conversions draft).map AgentDraftConfig.modelDump

mutual

/-- Python's `==` on JSON values, in which the order of an object's entries does not matter. -/
def same : Json → Json → Bool
  | .null, .null => true
  | .bool a, .bool b => a == b
  | .num a, .num b => a == b
  | .str a, .str b => a == b
  | .arr xs, .arr ys => sameItems xs ys
  | .obj xs, .obj ys => xs.length == ys.length && sameEntries xs ys
  | _, _ => false

def sameItems : List Json → List Json → Bool
  | [], [] => true
  | x :: xs, y :: ys => same x y && sameItems xs ys
  | _, _ => false

def sameEntries : List (String × Json) → List (String × Json) → Bool
  | [], _ => true
  | (k, x) :: xs, ys =>
      (match ys.lookup k with
      | some y => same x y
      | none => false) && sameEntries xs ys

end

end Drafts

/-- A row of `agents`. -/
structure Agent where
  id : AgentId
  displayName : String
  description : Option String
  enabled : Bool
  draftConfig : Option Json
  latestVersionId : Option VersionId
  createdBy : Option String
  updatedBy : Option String
  deletedAt : Option Timestamp

/-- What `publish_agent` copies from the draft. -/
structure VersionContent where
  systemPrompt : String
  model : String
  providerId : Option String
  modelConfig : Json
  toolAllowlist : List String
  mcpServerIds : List String

def AgentDraftConfig.content (draft : AgentDraftConfig) : VersionContent where
  systemPrompt := draft.systemPrompt
  model := draft.model
  providerId := draft.providerId
  modelConfig := draft.modelParameters
  toolAllowlist := draft.toolAllowlist
  mcpServerIds := draft.mcpServerIds

/-- A row of `agent_versions`. -/
structure AgentVersion extends VersionContent where
  id : VersionId
  agentId : AgentId
  versionNumber : Nat
  publishedBy : Option String

/-- What `create_agent` is called with, its draft dumped. -/
structure NewAgent where
  displayName : String
  description : Option String
  draftConfig : Json
  createdBy : Option String

/-- `Agent(...)` as `create_agent` builds it. -/
def NewAgent.toRow (values : NewAgent) (id : AgentId) : Agent :=
  { id
    displayName := values.displayName
    description := values.description
    enabled := true
    draftConfig := some values.draftConfig
    latestVersionId := none
    createdBy := values.createdBy
    updatedBy := values.createdBy
    deletedAt := none }

/-- What `publish_agent` builds the version from. -/
structure NewVersion where
  content : VersionContent
  agentId : AgentId
  versionNumber : Nat
  publishedBy : Option String

def NewVersion.toRow (values : NewVersion) (id : VersionId) : AgentVersion :=
  { values.content with
    id
    agentId := values.agentId
    versionNumber := values.versionNumber
    publishedBy := values.publishedBy }

structure Db where
  agents : List Agent
  versions : List AgentVersion

namespace Db

def agent (db : Db) (id : AgentId) : Option Agent :=
  db.agents.find? fun row => row.id = id

def versionsOf (db : Db) (id : AgentId) : List AgentVersion :=
  db.versions.filter fun version => version.agentId = id

/-- `coalesce(max(version_number), 0)` over the versions of an agent. -/
def maxVersionNumber (db : Db) (id : AgentId) : Nat :=
  latest AgentVersion.versionNumber (db.versionsOf id)

end Db

/-- The columns that an `UPDATE` of an agent sets; no code sets the last four to `None`. -/
structure AgentPatch where
  displayName : Option String := none
  description : Option (Option String) := none
  enabled : Option Bool := none
  draftConfig : Option Json := none
  latestVersionId : Option VersionId := none
  updatedBy : Option String := none
  deletedAt : Option Timestamp := none

def AgentPatch.apply (patch : AgentPatch) (row : Agent) : Agent :=
  { row with
    displayName := patch.displayName.getD row.displayName
    description := patch.description.getD row.description
    enabled := patch.enabled.getD row.enabled
    draftConfig := patch.draftConfig.or row.draftConfig
    latestVersionId := patch.latestVersionId.or row.latestVersionId
    updatedBy := patch.updatedBy.or row.updatedBy
    deletedAt := patch.deletedAt.or row.deletedAt }

/-- The columns of a patch that differ from the loaded row, which are those that a flush sends. -/
def AgentPatch.net (patch : AgentPatch) (row : Agent) : AgentPatch :=
  { displayName := patch.displayName.filter (· ≠ row.displayName)
    description := patch.description.filter (· ≠ row.description)
    enabled := patch.enabled.filter (· ≠ row.enabled)
    draftConfig := patch.draftConfig.filter fun draft => !row.draftConfig.any (same draft)
    latestVersionId := patch.latestVersionId.filter (some · ≠ row.latestVersionId)
    updatedBy := patch.updatedBy.filter (some · ≠ row.updatedBy)
    deletedAt := patch.deletedAt.filter (some · ≠ row.deletedAt) }

/-- A flush sends no `UPDATE` for a patch without columns. -/
def AgentPatch.isEmpty (patch : AgentPatch) : Bool :=
  patch.displayName.isNone && patch.description.isNone && patch.enabled.isNone &&
    patch.draftConfig.isNone && patch.latestVersionId.isNone && patch.updatedBy.isNone &&
    patch.deletedAt.isNone

inductive Write where
  | insertAgent (row : Agent)
  | updateAgent (id : AgentId) (patch : AgentPatch)
  | insertVersion (row : AgentVersion)

/-- What a write does to the tables. The code locks the row of the agent before it inserts a version,
whose foreign key asks for a lock on that row. -/
def schema : Schema Db Write AgentId where
  apply
    | .insertAgent row, db => { db with agents := db.agents ++ [row] }
    | .updateAgent id patch, db =>
        { db with agents := db.agents.map fun row => if row.id = id then patch.apply row else row }
    | .insertVersion row, db => { db with versions := db.versions ++ [row] }
  rowsOf
    | .insertAgent row => [row.id]
    | .updateAgent id _ => [id]
    | .insertVersion row => [row.agentId]

section Effects

variable {db : Db} {id id' : AgentId}

theorem Db.agent_id {row : Agent} (h : db.agent id = some row) : row.id = id := by
  simpa using List.find?_some h

theorem agent_insertAgent (row : Agent) :
    (schema.apply (.insertAgent row) db).agent id =
      (db.agent id).or (if row.id = id then some row else none) := by
  by_cases h : row.id = id <;> simp [schema, Db.agent, List.find?_append, h]

theorem agent_updateAgent (patch : AgentPatch) :
    (schema.apply (.updateAgent id' patch) db).agent id =
      if id = id' then (db.agent id).map patch.apply else db.agent id := by
  have hmap : (schema.apply (.updateAgent id' patch) db).agent id =
      (db.agent id).map fun row => if row.id = id' then patch.apply row else row :=
    SopTables.find?_map_update Agent.id (f := patch.apply) (fun _ => rfl) db.agents id' id
  rw [hmap]
  cases hrow : db.agent id with
  | none => simp
  | some row =>
      simp only [Option.map_some, Db.agent_id hrow]
      split <;> rfl

theorem versionsOf_insertVersion (row : AgentVersion) :
    (schema.apply (.insertVersion row) db).versionsOf id =
      db.versionsOf id ++ if row.agentId = id then [row] else [] := by
  by_cases h : row.agentId = id <;> simp [schema, Db.versionsOf, h]

end Effects

/-- What the row lock of an agent protects: the row and the versions of the agent. -/
def agentAspect (id : AgentId) : Aspect schema id (Option Agent × List AgentVersion) where
  read db := (db.agent id, db.versionsOf id)
  frame wr db hrow := by
    cases wr with
    | insertAgent row =>
        have hne : row.id ≠ id := fun h => hrow (by simp [schema, h])
        rw [agent_insertAgent]
        simp only [hne, if_false, Option.or_none]
        rfl
    | updateAgent id' patch =>
        have hne : id ≠ id' := fun h => hrow (by simp [schema, h])
        rw [agent_updateAgent, if_neg hne]
        rfl
    | insertVersion row =>
        have hne : row.agentId ≠ id := fun h => hrow (by simp [schema, h])
        rw [versionsOf_insertVersion, if_neg hne, List.append_nil]
        rfl
  congr wr db db' h := by
    obtain ⟨hagent, hversions⟩ := Prod.mk.inj h
    cases wr with
    | insertAgent row => exact Prod.ext (by simp only [agent_insertAgent, hagent]) hversions
    | updateAgent id' patch => exact Prod.ext (by simp only [agent_updateAgent, hagent]) hversions
    | insertVersion row =>
        exact Prod.ext hagent (by simp only [versionsOf_insertVersion, hversions])

end ChangeQuality.Agents
