import ChangeQuality.AgentPublishing

/-!
The drafts of the agents, from the requests that carry them to the responses that show them. A draft
that was validated once is validated again from its dump, to the same values.
-/

namespace ChangeQuality.AgentDrafts

open ChangeQuality.Values
open ChangeQuality.Agents
open ChangeQuality.AgentRepository
open ChangeQuality.AgentVersions
open ChangeQuality.ReadCommitted
open ChangeQuality.SequencedLog
open ChangeQuality.Coroutine
open ChangeQuality.Interference
open ChangeQuality.Histories

section Responses

variable (conversions : Conversions)

structure AgentVersionSummary where
  id : VersionId
  versionNumber : Nat
  model : String
  providerId : Option String

structure AgentSummary where
  id : AgentId
  displayName : String
  description : Option String
  enabled : Bool
  hasDraft : Bool
  latestVersion : Option AgentVersionSummary

structure AgentDetail extends AgentSummary where
  draft : Option AgentDraftConfig

structure AgentVersionDetail extends VersionContent where
  id : VersionId
  agentId : AgentId
  versionNumber : Nat
  publishedBy : Option String

/-- How a request fails that reads: with status 404, or with a `ValidationError` that no handler takes. -/
inductive Failure where
  | notFound
  | validationError

def validated {α : Type} : Option α → Except Failure α
  | some a => .ok a
  | none => .error .validationError

def draftConfigOrNone (agent : Agent) : Except Failure (Option AgentDraftConfig) :=
  match agent.draftConfig with
  | none => .ok none
  | some draftConfig => some <$> validated (modelValidate conversions draftConfig)

def versionToSummary (version : AgentVersion) : AgentVersionSummary where
  id := version.id
  versionNumber := version.versionNumber
  model := version.model
  providerId := version.providerId

def agentToSummary (agent : Agent) (latestVersion : Option AgentVersion) :
    Except Failure AgentSummary := do
  let draft ← draftConfigOrNone conversions agent
  pure {
    id := agent.id
    displayName := agent.displayName
    description := agent.description
    enabled := agent.enabled
    hasDraft := draft.isSome
    latestVersion := latestVersion.map versionToSummary }

def agentToDetail (agent : Agent) (latestVersion : Option AgentVersion) :
    Except Failure AgentDetail := do
  let summary ← agentToSummary conversions agent latestVersion
  let draft ← draftConfigOrNone conversions agent
  pure { summary with draft }

/-- `AgentVersionDetail.model_validate`, which validates the stored parameters of the model. -/
def versionToDetail (version : AgentVersion) : Except Failure AgentVersionDetail := do
  let modelConfig ← validated (conversions.modelParameters version.modelConfig)
  pure {
    version.toVersionContent with
    modelConfig
    id := version.id
    agentId := version.agentId
    versionNumber := version.versionNumber
    publishedBy := version.publishedBy }

/-- `get_agent`: a `SELECT` of the agent, and a later one of its latest version. -/
def getAgent (rows later : Db) (id : AgentId) : Option (Agent × Option AgentVersion) :=
  ((rows.agent id).filter fun row => row.deletedAt.isNone).map fun row =>
    (row, row.latestVersionId.bind fun versionId =>
      later.versions.find? fun version => version.id = versionId)

/-- `GET /api/agents/{agent_id}`. -/
def getAgentDetail (rows later : Db) (id : AgentId) : Except Failure AgentDetail :=
  match getAgent rows later id with
  | some (agent, latestVersion) => agentToDetail conversions agent latestVersion
  | none => .error .notFound

/-- `GET /api/agents/{agent_id}/versions/{version_number}`. -/
def getAgentVersion (rows later : Db) (id : AgentId) (versionNumber : Nat) :
    Except Failure AgentVersionDetail :=
  match getAgent rows later id with
  | some _ =>
      match (later.versionsOf id).find? fun version => version.versionNumber = versionNumber with
      | some version => versionToDetail conversions version
      | none => .error .notFound
  | none => .error .notFound

end Responses

section RoundTrip

variable {conversions : Conversions}

/-- What the library has converted it takes as it is. -/
structure Idempotent (conversions : Conversions) : Prop where
  uuid : ∀ value text, conversions.uuid value = some text → conversions.uuid (.str text) = some text
  modelParameters : ∀ value dumped, conversions.modelParameters value = some dumped →
    conversions.modelParameters dumped = some dumped
  default : conversions.modelParameters (.obj []) = some (.obj [])

/-- The draft is the outcome of a validation. -/
def Parsed (conversions : Conversions) (config : AgentDraftConfig) : Prop :=
  ∃ draft, modelValidate conversions draft = some config

/-- What the validator has checked of a draft, field by field. -/
structure Valid (conversions : Conversions) (config : AgentDraftConfig) : Prop where
  systemPrompt : config.systemPrompt ≠ ""
  model : config.model ≠ ""
  providerId : ∀ text, config.providerId = some text → conversions.uuid (.str text) = some text
  modelParameters : conversions.modelParameters config.modelParameters = some config.modelParameters
  pair : ¬ (config.providerId.isSome ∧ ':' ∈ config.model.toList)

theorem requiredText_eq_some {value : Option Json} {text : String}
    (h : requiredText value = some text) : text ≠ "" := by
  simpa using (Option.filter_eq_some_iff.mp h).2

theorem requiredText_str {text : String} (h : text ≠ "") :
    requiredText (some (.str text)) = some text := by
  simp [requiredText, Json.asStr?, h]

theorem textList_textsJson (texts : List String) : textList (some (textsJson texts)) = some texts := by
  have hitems : (texts.map Json.str).mapM Json.asStr? = some texts := by
    induction texts with
    | nil => rfl
    | cons text texts ih => simp [List.mapM_cons, ih, Json.asStr?]
  exact hitems

theorem optionalUuid_dump {providerId : Option String}
    (h : ∀ text, providerId = some text → conversions.uuid (.str text) = some text) :
    optionalUuid conversions (some ((providerId.map .str).getD .null)) = some providerId := by
  cases providerId with
  | none => rfl
  | some text =>
      change (conversions.uuid (.str text)).map some = _
      rw [h text rfl]
      rfl

theorem optionalUuid_valid (hconversions : Idempotent conversions) {value : Option Json}
    {providerId : Option String} (h : optionalUuid conversions value = some providerId) {text : String}
    (hprovider : providerId = some text) : conversions.uuid (.str text) = some text := by
  subst hprovider
  have hconverted : ∀ v, (conversions.uuid v).map some = some (some text) →
      conversions.uuid (.str text) = some text := by
    intro v hv
    obtain ⟨text', htext, heq⟩ := Option.map_eq_some_iff.mp hv
    obtain rfl := Option.some.inj heq
    exact hconversions.uuid v text' htext
  match value, h with
  | some (.bool b), h => exact hconverted _ h
  | some (.num n), h => exact hconverted _ h
  | some (.str s), h => exact hconverted _ h
  | some (.arr items), h => exact hconverted _ h
  | some (.obj entries), h => exact hconverted _ h

/-- A validated draft has passed the checks of the validator. -/
theorem Parsed.valid (hconversions : Idempotent conversions) {config : AgentDraftConfig}
    (h : Parsed conversions config) : Valid conversions config := by
  obtain ⟨draft, h⟩ := h
  simp only [modelValidate, Option.bind_eq_bind, Option.bind_eq_some_iff] at h
  obtain ⟨-, -, systemPrompt, hprompt, model, hmodel, providerId, hprovider, hrest⟩ := h
  -- the parameters of the model are the converted ones or the default
  have hparameters : ∃ parameters, conversions.modelParameters parameters = some parameters ∧
      ((textList (field? draft "tool_allowlist")).bind fun toolAllowlist =>
        (textList (field? draft "mcp_server_ids")).bind fun mcpServerIds =>
          if providerId.isSome = true ∧ ':' ∈ model.toList then none
          else some (AgentDraftConfig.mk systemPrompt model providerId parameters toolAllowlist
            mcpServerIds)) = some config := by
    split at hrest
    · obtain ⟨parameters, hconverted, hrest⟩ := Option.bind_eq_some_iff.mp hrest
      exact ⟨parameters, hconversions.modelParameters _ _ hconverted, hrest⟩
    · exact ⟨_, hconversions.default, hrest⟩
  obtain ⟨parameters, hparameters, hrest⟩ := hparameters
  obtain ⟨toolAllowlist, -, hrest⟩ := Option.bind_eq_some_iff.mp hrest
  obtain ⟨mcpServerIds, -, hrest⟩ := Option.bind_eq_some_iff.mp hrest
  split at hrest
  · cases hrest
  · rename_i hpair
    obtain rfl := Option.some.inj hrest
    exact ⟨requiredText_eq_some hprompt, requiredText_eq_some hmodel,
      fun text => optionalUuid_valid hconversions hprovider, hparameters, hpair⟩

/-- The dump of a valid draft is validated to the draft. -/
theorem Valid.modelValidate_modelDump {config : AgentDraftConfig} (h : Valid conversions config) :
    modelValidate conversions config.modelDump = some config := by
  have hprompt : field? config.modelDump "system_prompt" = some (.str config.systemPrompt) := rfl
  have hmodel : field? config.modelDump "model" = some (.str config.model) := rfl
  have hprovider : field? config.modelDump "provider_id" =
      some ((config.providerId.map .str).getD .null) := rfl
  have hparameters : (field? config.modelDump "model_config").or
      (field? config.modelDump "model_parameters") = some config.modelParameters := rfl
  have htools : field? config.modelDump "tool_allowlist" = some (textsJson config.toolAllowlist) := rfl
  have hservers : field? config.modelDump "mcp_server_ids" =
      some (textsJson config.mcpServerIds) := rfl
  have hobject : config.modelDump.asObj?.isSome := rfl
  obtain ⟨entries, hentries⟩ := Option.isSome_iff_exists.mp hobject
  simp only [modelValidate, hentries, hprompt, hmodel, hprovider, hparameters, htools, hservers,
    requiredText_str h.systemPrompt, requiredText_str h.model, optionalUuid_dump h.providerId,
    h.modelParameters, textList_textsJson, Option.bind_eq_bind, Option.bind_some, if_neg h.pair]

end RoundTrip

section Tables

variable (calls : ServiceCall → Prop)

/-- The drafts that the calls carry for an agent: those of its updates, and, as a creation does not
know the agent that it makes, those of the creations. -/
inductive Drafted (id : AgentId) (config : AgentDraftConfig) : Prop
  | created {request : AgentCreate} :
      calls (.create request) → request.draft = config → Drafted id config
  | updated {request : AgentDraftUpdate} :
      calls (.updateDraft id request) → given request.draft = some config → Drafted id config

def DraftedRow (row : Agent) : Prop :=
  ∃ config, Drafted calls row.id config ∧ row.draftConfig = some config.modelDump

def DraftedVersion (version : AgentVersion) : Prop :=
  ∃ config, Drafted calls version.agentId config ∧ version.toVersionContent = config.content

/-- A change of the draft of an agent is to one that was carried for it. -/
def DraftedPatch (id : AgentId) (patch : AgentPatch) : Prop :=
  ∀ draftConfig, patch.draftConfig = some draftConfig →
    ∃ config, Drafted calls id config ∧ draftConfig = config.modelDump

structure DraftedTables (db : Db) : Prop where
  agents : ∀ row ∈ db.agents, DraftedRow calls row
  versions : ∀ version ∈ db.versions, DraftedVersion calls version

def DraftedWrite : Write → Prop
  | .insertAgent row => DraftedRow calls row
  | .updateAgent id patch => DraftedPatch calls id patch
  | .insertVersion row => DraftedVersion calls row

def DraftedOp : Op → Prop
  | .insertAgent values => ∃ config, (∀ id, Drafted calls id config) ∧
      values.draftConfig = config.modelDump
  | .updateAgent agent patch => DraftedPatch calls agent.id patch
  | .insertVersion values => ∃ config, Drafted calls values.agentId config ∧
      values.content = config.content
  | _ => True

variable {calls} {t : TaskId} {w w' : World} {op : Op}

theorem DraftedPatch.apply {row : Agent} {patch : AgentPatch} (hpatch : DraftedPatch calls row.id patch)
    (h : DraftedRow calls row) : DraftedRow calls (patch.apply row) := by
  obtain ⟨config, hconfig, hdraft⟩ := h
  cases hset : patch.draftConfig with
  | none => exact ⟨config, hconfig, by simp [AgentPatch.apply, hset, hdraft]⟩
  | some draftConfig =>
      obtain ⟨config', hconfig', rfl⟩ := hpatch draftConfig hset
      exact ⟨config', hconfig', by simp [AgentPatch.apply, hset]⟩

theorem DraftedTables.apply {wr : Write} {db : Db} (hwr : DraftedWrite calls wr)
    (h : DraftedTables calls db) : DraftedTables calls (schema.apply wr db) := by
  cases wr with
  | insertAgent row =>
      refine ⟨fun other hother => ?_, h.versions⟩
      rcases List.mem_append.mp hother with hother | hother
      · exact h.agents other hother
      · exact List.mem_singleton.mp hother ▸ hwr
  | updateAgent id patch =>
      refine ⟨fun other hother => ?_, h.versions⟩
      obtain ⟨row, hrow, rfl⟩ := List.mem_map.mp hother
      split
      · rename_i hid
        subst hid
        exact DraftedPatch.apply hwr (h.agents row hrow)
      · exact h.agents row hrow
  | insertVersion row =>
      refine ⟨h.agents, fun other hother => ?_⟩
      rcases List.mem_append.mp hother with hother | hother
      · exact h.versions other hother
      · exact List.mem_singleton.mp hother ▸ hwr

/-- The committed rows have carried drafts, and so have those that the transactions have written. -/
structure DraftedWorld (calls : ServiceCall → Prop) (w : World) : Prop where
  committed : DraftedTables calls w.store.committed
  pending : ∀ t, ∀ wr ∈ w.store.pending t, DraftedWrite calls wr

theorem DraftedWorld.view (h : DraftedWorld calls w) (t : TaskId) : DraftedTables calls (w.view t) :=
  applyAll_keeps (φ := DraftedTables calls) (fun wr hwr _ hdb => hdb.apply (h.pending t wr hwr))
    h.committed

/-- The write of an operation, if it makes one. -/
theorem Outcome.pending (h : Outcome t w op w') (hop : DraftedOp calls op) :
    ∀ wr ∈ w'.store.pending t, wr ∈ w.store.pending t ∨ DraftedWrite calls wr := by
  have hwritten : ∀ {store : Store Db Write AgentId TaskId} {new : Write},
      w.store.write schema t new = some store → DraftedWrite calls new →
      ∀ wr ∈ store.pending t, wr ∈ w.store.pending t ∨ DraftedWrite calls wr := by
    intro store new hstore hnew wr hwr
    obtain ⟨mid, hlocks, rfl⟩ := Store.write_eq_some hstore
    rw [Store.record_pending, hlocks.pending, List.mem_append, List.mem_singleton] at hwr
    rcases hwr with hwr | rfl
    · exact .inl hwr
    · exact .inr hnew
  cases h with
  | stay => exact fun wr hwr => .inl hwr
  | rollback =>
      intro wr hwr
      simp [World.rollback, World.withStore, Store.rollback] at hwr
  | lock hlock =>
      intro wr hwr
      exact .inl ((Store.lock_eq_some hlock).pending ▸ hwr)
  | insertAgent hstore =>
      obtain ⟨config, hconfig, hdraft⟩ := hop
      exact hwritten hstore ⟨config, hconfig _, congrArg some hdraft⟩
  | insertVersion _ hstore => exact hwritten hstore hop
  | updateAgent _ hstore =>
      refine hwritten hstore fun draftConfig hset => hop draftConfig ?_
      exact (Option.filter_eq_some_iff.mp hset).1
  | commit =>
      intro wr hwr
      simp [World.withStore, Store.commit] at hwr

theorem DraftedWorld.step (h : DraftedWorld calls w) (hop : DraftedOp calls op)
    (hout : Outcome t w op w') : DraftedWorld calls w' := by
  constructor
  · rcases hout.committed with hsame | ⟨-, hview⟩
    · exact hsame ▸ h.committed
    · exact hview ▸ h.view t
  · intro t' wr hwr
    by_cases ht : t' = t
    · subst ht
      rcases Outcome.pending hout hop wr hwr with hwr | hwr
      · exact h.pending t' wr hwr
      · exact hwr
    · exact h.pending t' wr (hout.change.pending_ne ht ▸ hwr)

end Tables

/-- The exception is none of those that the code raises itself. -/
def foreign : Exn → Bool
  | .other _ _ => true
  | _ => false

/-- The failures that the environment chooses are not those of the code. -/
def environmental (_ : TaskId) (_ : Op) (choice : Choice) (_ : World) : Prop :=
  match choice with
  | .succeed => True
  | .lost error => foreign error = true
  | .fail error _ => foreign error = true

instance (t : TaskId) (op : Op) (choice : Choice) (w : World) :
    Decidable (environmental t op choice w) :=
  match choice with
  | .succeed => isTrue trivial
  | .lost error => inferInstanceAs (Decidable (foreign error = true))
  | .fail error _ => inferInstanceAs (Decidable (foreign error = true))

/-- Tasks that write carried drafts keep the tables drafted. -/
def draftProtocol (calls : ServiceCall → Prop) : Protocol exec environmental where
  inv := DraftedWorld calls
  rely _ _ _ := True
  pre _ op _ := DraftedOp calls op
  rely_refl _ _ := trivial
  rely_trans _ _ := trivial
  sound hinv hpre _ hexec := ⟨hinv.step hpre (exec_outcome hexec), fun _ _ => trivial⟩

section Programs

variable {conversions : Conversions} {calls : ServiceCall → Prop} {t : TaskId} {α : Type}

/-- The exception is not about a draft. -/
def Accepted (e : Exn) : Prop :=
  ∀ id, e ≠ .draftInvalid id

/-- The program ends with a value of which `Q` holds, or with an exception that is not about a draft. -/
abbrev Accepts (calls : ServiceCall → Prop) (t : TaskId) (p : Program α) (Q : α → Prop) : Prop :=
  Triple (draftProtocol calls) t (fun _ => True) p (fun a _ => Q a) fun e _ => Accepted e

theorem accepts_await {op : Op} {Q : Reply op → Prop} (hop : DraftedOp calls op)
    (hQ : ∀ w reply w', DraftedWorld calls w → succeed t w op = some (reply, w') → Q reply) :
    Accepts calls t (await op) Q := by
  refine Triple.perform (Stable.const _) (fun _ => Stable.const _) (fun _ => Stable.const _)
    (fun _ _ _ => hop) ?_
  intro w choice r w' hinv _ _ hallowed hexec
  cases r with
  | ok reply => exact hQ w reply w' hinv (exec_ok hexec)
  | error e =>
      have hforeign : foreign e = true := by
        cases choice with
        | succeed =>
            obtain ⟨_, -, heq⟩ := Option.map_eq_some_iff.mp hexec
            cases (Prod.mk.inj heq).1
        | lost error =>
            simp only [exec] at hexec
            split at hexec
            · cases hexec
            · obtain ⟨_, -, heq⟩ := Option.map_eq_some_iff.mp hexec
              cases (Prod.mk.inj heq).1
              exact hallowed
        | fail error poisons =>
            simp only [exec] at hexec
            split at hexec
            · cases hexec
            · cases (Prod.mk.inj (Option.some.inj hexec)).1
              exact hallowed
      rintro id rfl
      cases hforeign

theorem accepts_any {op : Op} (hop : DraftedOp calls op) : Accepts calls t (await op) fun _ => True :=
  accepts_await hop fun _ _ _ _ _ => trivial

theorem accepts_pure {a : α} {Q : α → Prop} (h : Q a) : Accepts calls t (.done a) Q :=
  Triple.done (Stable.const _) fun _ _ _ => h

theorem accepts_bind {β : Type} {p : Program α} {f : α → Program β} {Q : α → Prop} {R : β → Prop}
    (hp : Accepts calls t p Q) (hf : ∀ a, Q a → Accepts calls t (f a) R) :
    Accepts calls t (p.bind f) R := by
  refine Triple.bind hp fun a => ?_
  exact Triple.weaken (Triple.given (A := fun _ => True) (hf a)) (fun _ _ h => ⟨h, trivial⟩)
    (fun _ _ _ h => h) fun _ _ _ h => h

theorem accepts_requireAgent (id : AgentId) (includeDeleted lock : Bool) :
    Accepts calls t (requireAgent id includeDeleted lock) fun row =>
      row.id = id ∧ DraftedRow calls row := by
  refine accepts_bind (Q := fun found => ∀ row, found = some row →
    row.id = id ∧ DraftedRow calls row) (accepts_await trivial ?_) fun found hfound => ?_
  · rintro w reply w' hw hsucceed row rfl
    have hrow : (w.view t).agent id = some row := by
      simp only [succeed] at hsucceed
      split at hsucceed
      · cases hsucceed
      · rename_i found hfilter
        obtain ⟨hfound, -⟩ := Option.filter_eq_some_iff.mp hfilter
        split at hsucceed
        · obtain ⟨_, -, heq⟩ := Option.map_eq_some_iff.mp hsucceed
          exact (Prod.mk.inj heq).1 ▸ hfound
        · exact (Prod.mk.inj (Option.some.inj hsucceed)).1 ▸ hfound
    exact ⟨Db.agent_id hrow, (hw.view t).agents row (List.mem_of_find?_eq_some hrow)⟩
  · cases found with
    | some row => exact accepts_pure (hfound row rfl)
    | none => exact Triple.raise (Stable.const _) fun _ _ _ id h => by cases h

/-- The drafts that a call carries have been validated. -/
def ParsedCall (conversions : Conversions) : ServiceCall → Prop
  | .create request => Parsed conversions request.draft
  | .updateDraft _ request => ∀ config, given request.draft = some config → Parsed conversions config
  | _ => True

theorem Drafted.parsed (hcalls : ∀ call, calls call → ParsedCall conversions call) {id : AgentId}
    {config : AgentDraftConfig} (h : Drafted calls id config) : Parsed conversions config := by
  cases h with
  | created hcall hdraft => exact hdraft ▸ hcalls _ hcall
  | updated hcall hdraft => exact hcalls _ hcall config hdraft

theorem accepts_updateAgent {agent : Agent} {patch : AgentPatch} {includeDeleted : Bool}
    (h : DraftedPatch calls agent.id patch) (id : AgentId) :
    Accepts calls t (do await (.updateAgent agent patch); requireAgent id includeDeleted false)
      fun _ => True :=
  accepts_bind (accepts_any h) fun _ _ => Triple.weaken (accepts_requireAgent _ _ _)
    (fun _ _ h => h) (fun _ _ _ _ => trivial) fun _ _ _ h => h

theorem accepts_createAgent {request : AgentCreate} (h : calls (.create request)) :
    Accepts calls t (createAgent conversions request.displayName request.description
      (.config request.draft) none) fun _ => True :=
  accepts_any ⟨request.draft, fun _ => .created h rfl, rfl⟩

theorem accepts_updateDraft {id : AgentId} {request : AgentDraftUpdate}
    (h : calls (.updateDraft id request)) :
    Accepts calls t (updateDraft conversions id (draftUpdateKwargs request)) fun _ => True := by
  refine accepts_bind (accepts_requireAgent id false false) fun agent hagent => ?_
  obtain ⟨rfl, -⟩ := hagent
  cases hdraft : given request.draft with
  | none =>
      simp only [draftUpdateKwargs, hdraft, Option.map_none]
      exact accepts_updateAgent (fun draftConfig hset => by cases hset) _
  | some config =>
      simp only [draftUpdateKwargs, hdraft, Option.map_some]
      refine accepts_updateAgent (fun draftConfig hset => ?_) _
      exact ⟨config, .updated h hdraft, (Option.some.inj hset).symm⟩

theorem accepts_softDelete (id : AgentId) (now : Timestamp) :
    Accepts calls t (softDelete id now none) fun _ => True :=
  accepts_bind (accepts_requireAgent id false false) fun _ _ =>
    accepts_updateAgent (fun draftConfig hset => by cases hset) id

/-- The draft that a publish finds is validated, whoever wrote it. -/
theorem accepts_publishAgent (hconversions : Idempotent conversions)
    (hcalls : ∀ call, calls call → ParsedCall conversions call) (id : AgentId) :
    Accepts calls t (publishAgent conversions id none) fun _ => True := by
  refine accepts_bind (accepts_requireAgent id false true) fun agent hagent => ?_
  obtain ⟨rfl, config, hconfig, hdraft⟩ := hagent
  have hvalid : (agent.draftConfig.bind fun draft =>
      validateDraftConfig conversions (.mapping draft)) = some config := by
    rw [hdraft]
    exact ((hconfig.parsed hcalls).valid hconversions).modelValidate_modelDump
  rw [hvalid]
  refine accepts_bind (Q := fun draft => draft = config) (accepts_pure rfl) fun draft hsame => ?_
  subst hsame
  refine accepts_bind (accepts_any trivial) fun latest _ => ?_
  refine accepts_bind (accepts_any ⟨draft, hconfig, rfl⟩) fun version _ => ?_
  refine accepts_bind (accepts_any fun draftConfig hset => by cases hset) fun _ _ => ?_
  exact accepts_any trivial

theorem accepts_request (hconversions : Idempotent conversions)
    (hcalls : ∀ call, calls call → ParsedCall conversions call) {call : ServiceCall}
    (hcall : calls call) : Accepts calls t (request conversions call) fun _ => True := by
  have hclose : Accepts calls t (await .close) fun _ => True := accepts_any trivial
  have hrun : Accepts calls t (call.run conversions) fun _ => True := by
    cases call with
    | create request => exact accepts_bind (accepts_createAgent hcall) fun _ _ => accepts_any trivial
    | updateDraft id request =>
        exact accepts_bind (accepts_updateDraft hcall) fun _ _ => accepts_any trivial
    | publish id =>
        exact accepts_bind (accepts_publishAgent hconversions hcalls id) fun _ _ => accepts_any trivial
    | delete id now =>
        exact accepts_bind (accepts_softDelete id now) fun _ _ => accepts_any trivial
  refine Triple.ensuring (fun _ => Stable.const _) (fun _ => Stable.const _) hrun
    (fun _ => hclose) fun e => ?_
  exact Triple.weaken (Triple.given (A := fun _ => True) fun he => Triple.weaken hclose
    (fun _ _ h => h) (fun _ _ _ _ => he) fun _ _ _ h => h) (fun _ _ h => ⟨h, trivial⟩)
    (fun _ _ _ h => h) fun _ _ _ h => h

end Programs

section Runs

abbrev Configuration := Coroutine.Config Reply Exn TaskId World

/-- The programs of a run: the requests that make these calls. -/
def Calling (conversions : Conversions) (calls : ServiceCall → Prop) (p : Program Unit) : Prop :=
  ∃ call, calls call ∧ p = request conversions call

variable {conversions : Conversions} {calls : ServiceCall → Prop} {w : World}
  {c c₁ c₂ : Configuration}

theorem drafted_steps (hconversions : Idempotent conversions)
    (hcalls : ∀ call, calls call → ParsedCall conversions call) (hinitial : Initial w)
    (hdrafts : ∀ row ∈ w.store.committed.agents, DraftedRow calls row)
    (h : Steps exec (Calling conversions calls) environmental (.idle w) c) :
    Invariant (draftProtocol calls) (fun _ _ => True)
      (fun _ => outcome (fun _ _ => True) fun e _ => Accepted e) c := by
  have hdrafted : DraftedWorld calls w := by
    refine ⟨⟨hdrafts, fun version hversion => ?_⟩, fun t wr hwr => ?_⟩
    · simp [hinitial.versions] at hversion
    · simp [hinitial.pending t] at hwr
  refine (Invariant.idle hdrafted fun _ => trivial).steps (fun _ => Stable.const _) ?_ h
  rintro t p ⟨call, hcall, rfl⟩ w hinv -
  exact accepts_request hconversions hcalls hcall w hinv trivial

/-- Every run of the requests is one of the recording system. -/
theorem recorded_steps (h : Steps exec (Calling conversions calls) environmental c₁ c₂) :
    ∃ log : List (TaskId × Event), Steps (recording exec entries) (Request conversions) unrestricted
      ⟨(c₁.shared, []), c₁.task⟩ ⟨(c₂.shared, log), c₂.task⟩ := by
  obtain ⟨log, hrecorded⟩ : ∃ log : List (TaskId × Event), Steps (recording exec entries)
      (Calling conversions calls) (fun t op choice s => environmental t op choice s.1)
      ⟨(c₁.shared, []), c₁.task⟩ ⟨(c₂.shared, log), c₂.task⟩ := Histories.Steps.recorded h []
  refine ⟨log, Steps.weaken (fun p hp => ?_) (fun _ _ _ _ _ => trivial) hrecorded⟩
  obtain ⟨call, -, rfl⟩ := hp
  exact ⟨call, rfl⟩

theorem version_unique {s : System} (h : AgentInv conversions s) {version other : AgentVersion}
    (hversion : version ∈ s.1.store.committed.versions)
    (hother : other ∈ s.1.store.committed.versions) (hid : other.id = version.id) :
    other = version := by
  obtain ⟨t, _, hevents, -⟩ := h.published version hversion
  obtain ⟨t', _, hevents', -⟩ := h.published other hother
  exact h.unique t' t other version (by simp [hevents']) (by simp [hevents]) hid

theorem find?_eq_some_of_unique {β : Type} {l : List β} {p : β → Bool} {b : β} (hmem : b ∈ l)
    (hb : p b = true) (hunique : ∀ b' ∈ l, p b' = true → b' = b) : l.find? p = some b := by
  cases hfound : l.find? p with
  | none => exact absurd hb (List.find?_eq_none.mp hfound b hmem)
  | some b' =>
      rw [hunique b' (List.mem_of_find?_eq_some hfound) (List.find?_some hfound)]

/-- What the second `SELECT` finds of the latest version is the last version at the first. -/
theorem latest_found {db db' : Db} {id : AgentId} {row : Agent} (hrow : db.agent id = some row)
    (hconsistent : Consistent (db.agent id) (db.versionsOf id)) (hgrown : db.versions <+: db'.versions)
    (hunique : ∀ version ∈ db'.versions, ∀ other ∈ db'.versions, other.id = version.id →
      other = version) :
    (row.latestVersionId.bind fun versionId =>
      db'.versions.find? fun version => version.id = versionId) = (db.versionsOf id).getLast? := by
  have hlatest : row.latestVersionId = (db.versionsOf id).getLast?.map AgentVersion.id := by
    simpa [hrow] using hconsistent.latest
  cases hlast : (db.versionsOf id).getLast? with
  | none => simp [hlatest, hlast]
  | some version =>
      have hmem : version ∈ db'.versions :=
        hgrown.subset (List.mem_filter.mp (List.mem_of_getLast? hlast)).1
      rw [hlatest, hlast]
      refine find?_eq_some_of_unique hmem (by simp) fun other hother hid => ?_
      exact hunique version hmem other hother (by simpa using hid)

theorem Drafted.detail (hconversions : Idempotent conversions)
    (hcalls : ∀ call, calls call → ParsedCall conversions call) {row : Agent}
    {latestVersion : Option AgentVersion} {config : AgentDraftConfig}
    (h : Drafted calls row.id config) (hrow : row.draftConfig = some config.modelDump) :
    ∃ detail, agentToDetail conversions row latestVersion = .ok detail ∧
      detail.draft = some config ∧ detail.latestVersion = latestVersion.map versionToSummary := by
  have hdraft : draftConfigOrNone conversions row = .ok (some config) := by
    simp only [draftConfigOrNone, hrow,
      ((h.parsed hcalls).valid hconversions).modelValidate_modelDump]
    rfl
  exact ⟨_, by simp only [agentToDetail, agentToSummary, hdraft]; rfl, rfl, rfl⟩

theorem Drafted.versionDetail (hconversions : Idempotent conversions)
    (hcalls : ∀ call, calls call → ParsedCall conversions call) {version : AgentVersion}
    {config : AgentDraftConfig} (h : Drafted calls version.agentId config)
    (hversion : version.toVersionContent = config.content) :
    ∃ detail, versionToDetail conversions version = .ok detail ∧ detail.id = version.id ∧
      detail.toVersionContent = config.content := by
  have hconfig : version.modelConfig = config.modelParameters :=
    congrArg VersionContent.modelConfig hversion
  have hparameters : conversions.modelParameters version.modelConfig = some version.modelConfig := by
    rw [hconfig]
    exact ((h.parsed hcalls).valid hconversions).modelParameters
  refine ⟨_, by simp only [versionToDetail, hparameters]; rfl, rfl, ?_⟩
  rw [← hversion]

/-- **Drafts.** In every interleaving of requests whose drafts were validated, whatever the database
fails at: the detail of an agent shows a draft that a request carried for it, and the version that was
its last; each of its versions is shown with the content of such a draft; and no request fails because
the draft that it found in the tables is invalid. -/
theorem details_of_steps (hconversions : Idempotent conversions)
    (hcalls : ∀ call, calls call → ParsedCall conversions call) (hinitial : Initial w)
    (hdrafts : ∀ row ∈ w.store.committed.agents, DraftedRow calls row)
    (h₁ : Steps exec (Calling conversions calls) environmental (.idle w) c₁)
    (h₂ : Steps exec (Calling conversions calls) environmental c₁ c₂) :
    (∀ id row, Live c₁.shared.store.committed id row →
      (∃ config detail, Drafted calls id config ∧
        getAgentDetail conversions c₁.shared.store.committed c₂.shared.store.committed id =
          .ok detail ∧ detail.draft = some config ∧
        detail.latestVersion =
          (c₁.shared.store.committed.versionsOf id).getLast?.map versionToSummary) ∧
      ∀ version ∈ c₂.shared.store.committed.versionsOf id, ∃ config detail,
        Drafted calls id config ∧
        getAgentVersion conversions c₁.shared.store.committed c₂.shared.store.committed id
          version.versionNumber = .ok detail ∧ detail.id = version.id ∧
        detail.toVersionContent = config.content) ∧
    ∀ t error, c₁.task t = some (.raise error) → ∀ id, error ≠ .draftInvalid id := by
  have hdrafted₁ := drafted_steps hconversions hcalls hinitial hdrafts h₁
  have hdrafted₂ := drafted_steps hconversions hcalls hinitial hdrafts (h₁.trans h₂)
  obtain ⟨_, hrecorded₁⟩ := recorded_steps h₁
  obtain ⟨_, hrecorded₂⟩ := recorded_steps (h₁.trans h₂)
  obtain ⟨_, hlater⟩ := recorded_steps h₂
  have hinv₁ := (AgentPublishing.invariant_steps hinitial hrecorded₁).shared
  have hinv₂ := (AgentPublishing.invariant_steps hinitial hrecorded₂).shared
  have hgrown := AgentPublishing.grows_steps hlater
  refine ⟨fun id row hlive => ⟨?_, fun version hversion => ?_⟩, fun t error htask =>
    hdrafted₁.ended (r := .error error) htask⟩
  all_goals
    obtain ⟨hrow, hdeleted⟩ := hlive
    have hid : row.id = id := Db.agent_id hrow
    have hfound : (c₁.shared.store.committed.agent id).filter (fun row => row.deletedAt.isNone) =
        some row := by
      simp [hrow, hdeleted]
  · obtain ⟨config, hconfig, hdraft⟩ :=
      hdrafted₁.shared.committed.agents row (List.mem_of_find?_eq_some hrow)
    obtain ⟨detail, hdetail, hshown, hlatest⟩ := hconfig.detail hconversions hcalls hdraft
    refine ⟨config, detail, hid ▸ hconfig, ?_, hshown, hlatest⟩
    simp only [getAgentDetail, getAgent, hfound, Option.map_some]
    rw [latest_found hrow (hinv₁.consistent id) hgrown.versions
      fun version hversion other hother => version_unique hinv₂ hversion hother]
    exact hdetail
  · obtain ⟨hmem, hagent⟩ := List.mem_filter.mp hversion
    have hagent : version.agentId = id := by simpa using hagent
    obtain ⟨config, hconfig, hcontent⟩ := hdrafted₂.shared.committed.versions version hmem
    obtain ⟨detail, hdetail, hshown, hsame⟩ := hconfig.versionDetail hconversions hcalls hcontent
    refine ⟨config, detail, hagent ▸ hconfig, ?_, hshown, hsame⟩
    have hnumber : (c₂.shared.store.committed.versionsOf id).find?
        (fun other => other.versionNumber = version.versionNumber) = some version := by
      refine find?_eq_some_of_unique hversion (by simp) fun other hother heq => ?_
      have hnumbered := (hinv₂.consistent id).numbered
      obtain ⟨-, hat⟩ := hnumbered.mem_iff.mp hversion
      obtain ⟨-, hat'⟩ := hnumbered.mem_iff.mp hother
      rw [of_decide_eq_true heq, hat] at hat'
      exact (Option.some.inj hat').symm
    simp only [getAgentVersion, getAgent, hfound, Option.map_some, hnumber]
    exact hdetail

end Runs

def plainDraft : AgentDraftConfig where
  systemPrompt := "Review."
  model := "small"
  providerId := none
  modelParameters := .obj []
  toolAllowlist := ["search"]
  mcpServerIds := []

def creation : ServiceCall :=
  .create { displayName := "Reviewer", description := none, draft := plainDraft }

def emptyWorld : World where
  store :=
    { committed := { agents := [], versions := [] }
      pending := fun _ => []
      owner := fun _ => none }
  nextAgent := 0
  nextVersion := 0

/-- A creation and then a publish, whose answer is lost. -/
def creationSchedule : List (Move Reply Exn TaskId Choice) :=
  .spawn 0 (request AgentPublishing.lenient creation) :: List.replicate 3 (.resume 0 .succeed) ++
    .spawn 1 (request AgentPublishing.lenient (.publish 0)) ::
      List.replicate 5 (.resume 1 .succeed) ++
      [.resume 1 (.lost (.other "OperationalError" "")), .resume 1 .succeed]

theorem lenient_idempotent : Idempotent AgentPublishing.lenient where
  uuid value text h := rfl
  modelParameters value dumped h := by
    cases value with
    | obj entries =>
        obtain rfl := Option.some.inj h
        rfl
    | _ => cases h
  default := rfl

theorem details_creation : ∃ (c : Configuration) (detail : AgentDetail),
    follow exec environmental (.idle emptyWorld) creationSchedule = some c ∧
      (c.shared.store.committed.versionsOf 0).length = 1 ∧
      getAgentDetail AgentPublishing.lenient c.shared.store.committed c.shared.store.committed 0 =
        .ok detail ∧ detail.draft.isSome := by
  have hrun : ∃ (c : Configuration) (row : Agent),
      follow exec environmental (.idle emptyWorld) creationSchedule = some c ∧
        (c.shared.store.committed.versionsOf 0).length = 1 ∧
        Live c.shared.store.committed 0 row := ⟨_, _, rfl, rfl, rfl, rfl⟩
  obtain ⟨c, row, hc, hversions, hlive⟩ := hrun
  have hspawn : ∀ p ∈ started creationSchedule, Calling AgentPublishing.lenient
      (fun call => call = creation ∨ call = .publish 0) p := by
    intro p hp
    have hp : p = request AgentPublishing.lenient creation ∨
        p = request AgentPublishing.lenient (.publish 0) := by
      simpa [creationSchedule, started] using hp
    rcases hp with rfl | rfl
    · exact ⟨_, .inl rfl, rfl⟩
    · exact ⟨_, .inr rfl, rfl⟩
  have hcalls : ∀ call, call = creation ∨ call = .publish 0 →
      ParsedCall AgentPublishing.lenient call := by
    rintro call (rfl | rfl)
    · exact ⟨plainDraft.modelDump, rfl⟩
    · trivial
  obtain ⟨hdetails, -⟩ := details_of_steps lenient_idempotent hcalls
    (w := emptyWorld) ⟨rfl, by simp [emptyWorld], by simp [emptyWorld], fun _ => rfl, fun _ => rfl⟩
    (by simp [emptyWorld]) (follow_steps hspawn hc) .refl
  obtain ⟨⟨config, detail, -, hdetail, hdraft, -⟩, -⟩ := hdetails 0 row hlive
  exact ⟨c, detail, hc, hversions, hdetail, by simp [hdraft]⟩

end ChangeQuality.AgentDrafts
