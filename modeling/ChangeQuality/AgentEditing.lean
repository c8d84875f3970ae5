import ChangeQuality.AgentDrafts
import ChangeQuality.McpForms
import ChangeQuality.Runs

/-!
The form of an agent, in every run of what is done to it while the list of the providers changes
behind it: what it submits, and what the server makes of that.
-/

namespace ChangeQuality.AgentEditing

open ChangeQuality.Runs
open ChangeQuality.Values
open ChangeQuality.Agents
open ChangeQuality.AgentRepository
open ChangeQuality.AgentDrafts
open ChangeQuality.McpForms (jsTrim)
open ChangeQuality.McpRedaction (Chars)

section Form

def codeAgentModelOptions : List Chars :=
  ["codeagent:deepseek-v4-pro".toList, "codeagent:codeagent-v4-pro".toList]

def defaultCodeAgentModel : Chars :=
  "codeagent:deepseek-v4-pro".toList

def defaultSystemPrompt : Chars :=
  "你是谨慎的变更质量评审助手。请基于事实审查输入内容，指出风险、缺口和可执行的整改建议。".toList

/-- What the form reads of a provider in the list. The server lists no blank names. -/
structure ListedProvider where
  id : Chars
  enabled : Bool
  models : List Chars
  id_ne_nil : id ≠ []
  models_ne_nil : ∀ model ∈ models, model ≠ []

inductive ModelSource where
  | codeagent
  | provider
  deriving DecidableEq

/-- The details of an agent; the server has validated the draft that it shows. -/
abbrev ShownAgent :=
  { agent : AgentDetail // ∀ draft, agent.draft = some draft → draft.model ≠ "" }

inductive Mode where
  | create
  | edit (agent : ShownAgent)

def Mode.isEdit : Mode → Bool
  | .create => false
  | .edit _ => true

structure Fields where
  displayName : Chars
  description : Chars
  systemPrompt : Chars
  modelSource : ModelSource
  codeAgentModel : Chars
  selectedProviderId : Chars
  selectedProviderModel : Chars
  enabled : Bool

/-- `AgentForm` with its properties. -/
structure AgentForm where
  mode : Mode
  providers : List ListedProvider
  providersLoading : Bool
  fields : Fields

def blank : Fields where
  displayName := []
  description := []
  systemPrompt := defaultSystemPrompt
  modelSource := .codeagent
  codeAgentModel := defaultCodeAgentModel
  selectedProviderId := []
  selectedProviderModel := []
  enabled := true

/-- The effect that fills the fields in the edit mode. -/
def load (agent : AgentDetail) : Fields :=
  let providerId := (agent.draft.bind (·.providerId)).filter (· ≠ "")
  let model := agent.draft.map (·.model.toList)
  { displayName := agent.displayName.toList
    description := (agent.description.getD "").toList
    systemPrompt := ((agent.draft.map (·.systemPrompt)).getD "").toList
    modelSource := if providerId.isSome then .provider else .codeagent
    codeAgentModel :=
      if providerId.isSome then defaultCodeAgentModel else model.getD defaultCodeAgentModel
    selectedProviderId := ((agent.draft.bind (·.providerId)).getD "").toList
    selectedProviderModel := if providerId.isSome then model.getD [] else []
    enabled := agent.enabled }

namespace AgentForm

def enabledProviders (form : AgentForm) : List ListedProvider :=
  form.providers.filter (·.enabled)

def selectedProvider (form : AgentForm) : Option ListedProvider :=
  form.enabledProviders.find? (·.id = form.fields.selectedProviderId)

def selectedProviderModels (form : AgentForm) : List Chars :=
  (form.selectedProvider.map (·.models)).getD []

def unavailableCodeAgentModel (form : AgentForm) : Bool :=
  form.mode.isEdit && form.fields.modelSource = .codeagent && form.fields.codeAgentModel ≠ [] &&
    !codeAgentModelOptions.contains form.fields.codeAgentModel

def unavailableDraftProvider (form : AgentForm) : Bool :=
  form.mode.isEdit && form.fields.modelSource = .provider && !form.providersLoading &&
    form.fields.selectedProviderId ≠ [] && form.selectedProvider.isNone

def unavailableProviderModel (form : AgentForm) : Bool :=
  form.mode.isEdit && form.fields.modelSource = .provider && form.selectedProvider.isSome &&
    form.fields.selectedProviderModel ≠ [] && form.selectedProviderModels ≠ [] &&
    !form.selectedProviderModels.contains form.fields.selectedProviderModel

def providerSaveBlocked (form : AgentForm) : Bool :=
  form.fields.modelSource = .provider && (form.providersLoading || form.unavailableDraftProvider ||
    form.selectedProvider.isNone || form.selectedProviderModels = [])

def saveBlocked (form : AgentForm) : Bool :=
  form.providerSaveBlocked || (form.unavailableCodeAgentModel || form.unavailableProviderModel)

/-- The effect that selects the first provider. -/
def selectFirstProvider (form : AgentForm) : AgentForm :=
  if form.fields.modelSource ≠ .provider ∨ form.fields.selectedProviderId ≠ [] then form
  else
    match form.enabledProviders with
    | [] => form
    | provider :: _ => { form with fields.selectedProviderId := provider.id }

/-- The effect that selects the first model of the selected provider. -/
def selectFirstModel (form : AgentForm) : AgentForm :=
  if form.fields.modelSource ≠ .provider ∨ form.fields.selectedProviderModel ≠ [] then form
  else
    match form.selectedProviderModels with
    | [] => form
    | model :: _ => { form with fields.selectedProviderModel := model }

/-- The effects of the renders that follow a change. -/
def render (form : AgentForm) : AgentForm :=
  form.selectFirstProvider.selectFirstModel

end AgentForm

/-- What happens to an open form: the user's entries, and new properties. -/
inductive Move where
  | fill (displayName description systemPrompt : Chars) (enabled : Bool)
  | selectSource (source : ModelSource)
  | selectCodeAgentModel (model : Chars)
  | selectProvider (id : Chars)
  | selectModel (model : Chars)
  | list (providers : List ListedProvider) (loading : Bool)
  | reload (agent : ShownAgent)

/-- A select only gives what is among its options. -/
def step : Move → AgentForm → Option AgentForm
  | .fill displayName description systemPrompt enabled, form =>
      some { form with fields := { form.fields with
        displayName, description, systemPrompt, enabled } }
  | .selectSource source, form =>
      some { form with fields.modelSource := source }.render
  | .selectCodeAgentModel model, form =>
      if codeAgentModelOptions.contains model then
        some { form with fields.codeAgentModel := model }
      else none
  | .selectProvider id, form =>
      match form.providersLoading, form.enabledProviders.find? (·.id = id) with
      | false, some provider =>
          some { form with fields := { form.fields with
            selectedProviderId := id
            selectedProviderModel := provider.models.head?.getD [] } }.render
      | _, _ => none
  | .selectModel model, form =>
      if form.selectedProviderModels.contains model then
        some { form with fields.selectedProviderModel := model }.render
      else none
  | .list providers loading, form =>
      some { form with providers, providersLoading := loading }.render
  | .reload agent, form =>
      match form.mode with
      | .edit _ => some { form with mode := .edit agent, fields := load agent }.render
      | .create => none

def openCreate (providers : List ListedProvider) (loading : Bool) : AgentForm :=
  { mode := .create, providers, providersLoading := loading, fields := blank : AgentForm }.render

def openEdit (agent : ShownAgent) (providers : List ListedProvider) (loading : Bool) : AgentForm :=
  { mode := .edit agent, providers, providersLoading := loading, fields := load agent :
    AgentForm }.render

end Form

section Submission

/-- What the form sends: a creation, or an update of the agent. -/
structure Payload where
  agent : Option AgentId
  displayName : Chars
  description : Option Chars
  enabled : Bool
  model : Chars
  providerId : Option Chars
  systemPrompt : Chars

inductive Submission where
  | error (text : String)
  | blocked
  | send (payload : Payload)

/-- `buildAgentDraftPayload` within what is sent. -/
def payloadOf (form : AgentForm) : Payload where
  agent := match form.mode with
    | .create => none
    | .edit agent => some agent.1.id
  displayName := jsTrim form.fields.displayName
  description :=
    if jsTrim form.fields.description = [] then none else some (jsTrim form.fields.description)
  enabled := form.fields.enabled
  model := jsTrim (match form.fields.modelSource with
    | .provider => form.fields.selectedProviderModel
    | .codeagent => form.fields.codeAgentModel)
  providerId := match form.fields.modelSource with
    | .provider => some (jsTrim form.fields.selectedProviderId)
    | .codeagent => none
  systemPrompt := jsTrim form.fields.systemPrompt

def handleSubmit (form : AgentForm) : Submission :=
  if jsTrim form.fields.displayName = [] then .error "Agent 名称必填。"
  else if jsTrim form.fields.systemPrompt = [] then .error "系统提示词必填。"
  else if form.saveBlocked then .blocked
  else .send (payloadOf form)

/-- The draft of a payload, as the server reads it. -/
def draftJson (payload : Payload) : Json :=
  .obj [("mcp_server_ids", .arr []), ("model", .str (String.ofList payload.model)),
    ("model_config", .obj []),
    ("provider_id", (payload.providerId.map fun id => .str (String.ofList id)).getD .null),
    ("system_prompt", .str (String.ofList payload.systemPrompt)), ("tool_allowlist", .arr [])]

/-- The call of the service for a validated payload. -/
def callOf (payload : Payload) (displayName : String) (draft : AgentDraftConfig) : ServiceCall :=
  let description := payload.description.map String.ofList
  match payload.agent with
  | none => .create { displayName, description, draft }
  | some id => .updateDraft id {
      displayName := .set displayName
      description := (description.map .set).getD .null
      enabled := .set payload.enabled
      draft := .set draft }

/-- The validation of the request; `none` is a status of 422. -/
def received (conversions : Conversions) (payload : Payload) : Option ServiceCall := do
  let draft ← modelValidate conversions (draftJson payload)
  let displayName ← requiredText (some (.str (String.ofList payload.displayName)))
  return callOf payload displayName draft

end Submission

section Invariant

/-- One of the lists has an enabled provider of that id with the model. -/
def Offered (lists : List (List ListedProvider)) (id model : Chars) : Prop :=
  ∃ providers ∈ lists, ∃ provider ∈ providers,
    provider.enabled = true ∧ provider.id = id ∧ model ∈ provider.models

/-- What an open form keeps, where it has been shown these lists. -/
structure Kept (lists : List (List ListedProvider)) (form : AgentForm) : Prop where
  shown : form.providers ∈ lists
  codeAgentModel : form.fields.codeAgentModel ≠ []
  optional : form.mode.isEdit = false → form.fields.codeAgentModel ∈ codeAgentModelOptions
  offered : form.mode.isEdit = false → form.fields.selectedProviderModel ≠ [] →
    Offered lists form.fields.selectedProviderId form.fields.selectedProviderModel

/-- The effects have nothing left to select. -/
def Rendered (form : AgentForm) : Prop :=
  form.fields.modelSource = .provider → form.selectedProviderModels ≠ [] →
    form.fields.selectedProviderModel ≠ []

variable {lists : List (List ListedProvider)} {form form' : AgentForm}

theorem selectedProvider_listed {provider : ListedProvider}
    (h : form.selectedProvider = some provider) :
    provider ∈ form.providers ∧ provider.enabled = true ∧
      provider.id = form.fields.selectedProviderId := by
  obtain ⟨hmem, henabled⟩ := List.mem_filter.mp (List.mem_of_find?_eq_some h)
  exact ⟨hmem, henabled, by simpa using List.find?_some h⟩

/-- A model of the selected provider is one that the list offers. -/
theorem offered_of_mem (hshown : form.providers ∈ lists) {model : Chars}
    (h : model ∈ form.selectedProviderModels) :
    Offered lists form.fields.selectedProviderId model ∧ model ≠ [] := by
  unfold AgentForm.selectedProviderModels at h
  cases hselected : form.selectedProvider with
  | none =>
      rw [hselected] at h
      exact absurd h List.not_mem_nil
  | some provider =>
      rw [hselected] at h
      obtain ⟨hmem, henabled, hid⟩ := selectedProvider_listed hselected
      exact ⟨⟨_, hshown, provider, hmem, henabled, hid, h⟩, provider.models_ne_nil model h⟩

theorem Kept.selectFirstProvider (h : Kept lists form) : Kept lists form.selectFirstProvider := by
  unfold AgentForm.selectFirstProvider
  split
  · exact h
  next hselect =>
    split
    · exact h
    · refine ⟨h.shown, h.codeAgentModel, h.optional, fun hmode hmodel => ?_⟩
      -- no provider was selected, so no model was either
      obtain ⟨providers, -, provider, -, -, hid, -⟩ := h.offered hmode hmodel
      have hnone : form.fields.selectedProviderId = [] := by
        by_contra hne
        exact hselect (.inr hne)
      exact absurd (hid.trans hnone) provider.id_ne_nil

theorem Kept.selectFirstModel (h : Kept lists form) : Kept lists form.selectFirstModel := by
  unfold AgentForm.selectFirstModel
  split
  · exact h
  · split
    · exact h
    next model models hmodels =>
      have hmem : model ∈ form.selectedProviderModels := hmodels ▸ List.mem_cons_self
      exact ⟨h.shown, h.codeAgentModel, h.optional, fun _ _ => (offered_of_mem h.shown hmem).1⟩

theorem rendered_selectFirstModel (hshown : form.providers ∈ lists) :
    Rendered form.selectFirstModel := by
  unfold AgentForm.selectFirstModel
  split
  next hselect =>
    intro hsource _ hmodel
    rcases hselect with hother | hchosen
    · exact hother hsource
    · exact hchosen hmodel
  · split
    next hmodels => exact fun _ hne => absurd hmodels hne
    next model models hmodels =>
      have hmem : model ∈ form.selectedProviderModels := hmodels ▸ List.mem_cons_self
      exact fun _ _ => (offered_of_mem hshown hmem).2

theorem Kept.render (h : Kept lists form) : Kept lists form.render ∧ Rendered form.render :=
  ⟨h.selectFirstProvider.selectFirstModel, rendered_selectFirstModel h.selectFirstProvider.shown⟩

theorem codeAgentModel_load (agent : ShownAgent) : (load agent.1).codeAgentModel ≠ [] := by
  have hdefault : defaultCodeAgentModel ≠ [] := by decide
  have hshown : (agent.1.draft.map (·.model.toList)).getD defaultCodeAgentModel ≠ [] := by
    cases hdraft : agent.1.draft with
    | none => exact hdefault
    | some draft =>
        intro hnil
        exact agent.2 draft hdraft (String.toList_injective (hnil.trans String.toList_empty.symm))
  unfold load
  dsimp only
  split
  · exact hdefault
  · exact hshown

/-- Filled from an agent, the form keeps nothing of what was selected before. -/
theorem kept_load {providers : List ListedProvider} (agent : ShownAgent) (loading : Bool)
    (h : providers ∈ lists) :
    Kept lists
      { mode := .edit agent, providers, providersLoading := loading, fields := load agent } := by
  have hedit : (Mode.edit agent).isEdit ≠ false := Bool.noConfusion
  exact ⟨h, codeAgentModel_load agent, fun hcreate => absurd hcreate hedit,
    fun hcreate => absurd hcreate hedit⟩

theorem ne_nil_of_mem_options {model : Chars} (h : model ∈ codeAgentModelOptions) : model ≠ [] := by
  have hnamed : ∀ model ∈ codeAgentModelOptions, model ≠ [] := by decide
  exact hnamed model h

/-- What one step keeps. -/
theorem kept_step {move : Move} (h : Kept lists form ∧ Rendered form)
    (hlist : ∀ providers loading, move = .list providers loading → providers ∈ lists)
    (hstep : step move form = some form') : Kept lists form' ∧ Rendered form' := by
  obtain ⟨hkept, hrendered⟩ := h
  cases move with
  | fill displayName description systemPrompt enabled =>
      obtain rfl := Option.some.inj hstep
      exact ⟨⟨hkept.shown, hkept.codeAgentModel, hkept.optional, hkept.offered⟩, hrendered⟩
  | selectSource source =>
      obtain rfl := Option.some.inj hstep
      exact Kept.render ⟨hkept.shown, hkept.codeAgentModel, hkept.optional, hkept.offered⟩
  | selectCodeAgentModel model =>
      rw [step, Option.ite_none_right_eq_some] at hstep
      obtain ⟨hcontains, heq⟩ := hstep
      have hmodel : model ∈ codeAgentModelOptions := by simpa using hcontains
      obtain rfl := Option.some.inj heq
      exact ⟨⟨hkept.shown, ne_nil_of_mem_options hmodel, fun _ => hmodel, hkept.offered⟩,
        hrendered⟩
  | selectProvider id =>
      simp only [step] at hstep
      split at hstep
      next provider hloading hfound =>
        obtain rfl := Option.some.inj hstep
        obtain ⟨hmem, henabled⟩ := List.mem_filter.mp (List.mem_of_find?_eq_some hfound)
        have hid : provider.id = id := by simpa using List.find?_some hfound
        refine Kept.render ⟨hkept.shown, hkept.codeAgentModel, hkept.optional, fun _ hmodel => ?_⟩
        cases hmodels : provider.models with
        | nil =>
            rw [hmodels] at hmodel
            exact absurd rfl hmodel
        | cons model models =>
            refine ⟨_, hkept.shown, provider, hmem, henabled, hid, ?_⟩
            rw [hmodels]
            exact List.mem_cons_self
      · cases hstep
  | selectModel model =>
      rw [step, Option.ite_none_right_eq_some] at hstep
      obtain ⟨hcontains, heq⟩ := hstep
      have hmodel : model ∈ form.selectedProviderModels := by simpa using hcontains
      obtain rfl := Option.some.inj heq
      exact Kept.render ⟨hkept.shown, hkept.codeAgentModel, hkept.optional,
        fun _ _ => (offered_of_mem hkept.shown hmodel).1⟩
  | list providers loading =>
      obtain rfl := Option.some.inj hstep
      exact Kept.render ⟨hlist providers loading rfl, hkept.codeAgentModel, hkept.optional,
        hkept.offered⟩
  | reload agent =>
      simp only [step] at hstep
      split at hstep
      next shown hmode =>
        obtain rfl := Option.some.inj hstep
        exact (kept_load agent form.providersLoading hkept.shown).render
      · cases hstep

theorem kept_openCreate {providers : List ListedProvider} (loading : Bool)
    (h : providers ∈ lists) :
    Kept lists (openCreate providers loading) ∧ Rendered (openCreate providers loading) := by
  have hdefault : defaultCodeAgentModel ≠ [] ∧ defaultCodeAgentModel ∈ codeAgentModelOptions := by
    decide
  exact Kept.render ⟨h, hdefault.1, fun _ => hdefault.2, fun _ hmodel => absurd rfl hmodel⟩

theorem kept_openEdit {providers : List ListedProvider} (agent : ShownAgent) (loading : Bool)
    (h : providers ∈ lists) :
    Kept lists (openEdit agent providers loading) ∧
      Rendered (openEdit agent providers loading) :=
  (kept_load agent loading h).render

/-- A form that has just been opened, with this list of providers. -/
inductive Opened (providers : List ListedProvider) : AgentForm → Prop
  | create (loading : Bool) : Opened providers (openCreate providers loading)
  | edit (agent : ShownAgent) (loading : Bool) : Opened providers (openEdit agent providers loading)

/-- The lists that a form is shown, from the one that it is opened with on. -/
def shownLists (providers : List ListedProvider) (moves : List Move) : List (List ListedProvider) :=
  providers :: moves.filterMap fun
    | .list providers _ => some providers
    | _ => none

theorem kept_run {providers : List ListedProvider} {moves : List Move}
    (hopened : Opened providers form) (h : run step moves form = some form') :
    Kept (shownLists providers moves) form' ∧ Rendered form' := by
  have hfirst : providers ∈ shownLists providers moves := List.mem_cons_self
  have hkept : Kept (shownLists providers moves) form ∧ Rendered form := by
    cases hopened with
    | create loading => exact kept_openCreate loading hfirst
    | edit agent loading => exact kept_openEdit agent loading hfirst
  have hlists : Along step (fun move _ => ∀ other loading, move = .list other loading →
      other ∈ shownLists providers moves) moves form := by
    refine along_of_forall (fun move hmove _ other loading heq => ?_) form
    refine List.mem_cons_of_mem _ (List.mem_filterMap.mpr ⟨move, hmove, ?_⟩)
    rw [heq]
  refine run_invariant_along
    (I := fun form => Kept (shownLists providers moves) form ∧ Rendered form) ?_ hkept hlists h
  exact fun move _ _ hkept hlist hstep => kept_step hkept hlist hstep

end Invariant

section Validation

variable {conversions : Conversions} {payload : Payload}

/-- The draft that the server makes of a payload which it accepts. -/
def storedDraft (payload : Payload) (providerId : Option String) : AgentDraftConfig where
  systemPrompt := String.ofList payload.systemPrompt
  model := String.ofList payload.model
  providerId := providerId
  modelParameters := .obj []
  toolAllowlist := []
  mcpServerIds := []

theorem requiredText_ofList {text : Chars} :
    requiredText (some (.str (String.ofList text))) =
      if text = [] then none else some (String.ofList text) := by
  split
  next h =>
    rw [h]
    rfl
  next h =>
    refine requiredText_str fun heq => h ?_
    exact String.ofList_injective (heq.trans String.ofList_nil.symm)

/-- The provider of a payload, as the server reads it. -/
def storedProvider (conversions : Conversions) (payload : Payload) : Option (Option String) :=
  match payload.providerId with
  | none => some none
  | some id => (conversions.uuid (.str (String.ofList id))).map some

theorem modelValidate_draftJson {config : AgentDraftConfig}
    (hdefault : conversions.modelParameters (.obj []) = some (.obj [])) :
    modelValidate conversions (draftJson payload) = some config ↔
      payload.systemPrompt ≠ [] ∧ payload.model ≠ [] ∧ ∃ providerId,
        storedProvider conversions payload = some providerId ∧
          ¬ (providerId.isSome ∧ ':' ∈ payload.model) ∧
            storedDraft payload providerId = config := by
  have hprompt : field? (draftJson payload) "system_prompt" =
      some (.str (String.ofList payload.systemPrompt)) := rfl
  have hmodel : field? (draftJson payload) "model" =
      some (.str (String.ofList payload.model)) := rfl
  have hprovider : optionalUuid conversions (field? (draftJson payload) "provider_id") =
      storedProvider conversions payload := by
    unfold draftJson storedProvider
    cases payload.providerId <;> rfl
  have hparameters : (field? (draftJson payload) "model_config").or
      (field? (draftJson payload) "model_parameters") = some (.obj []) := rfl
  have htools : textList (field? (draftJson payload) "tool_allowlist") = some [] := rfl
  have hservers : textList (field? (draftJson payload) "mcp_server_ids") = some [] := rfl
  have hobject : (draftJson payload).asObj?.isSome := rfl
  obtain ⟨entries, hentries⟩ := Option.isSome_iff_exists.mp hobject
  simp only [modelValidate, hentries, hprompt, hmodel, hprovider, hparameters, hdefault, htools,
    hservers, requiredText_ofList, Option.bind_eq_bind, Option.bind_some]
  by_cases hnoPrompt : payload.systemPrompt = []
  · simp [hnoPrompt]
  · by_cases hnoModel : payload.model = []
    · simp [hnoPrompt, hnoModel]
    · simp only [if_neg hnoPrompt, if_neg hnoModel, Option.bind_some]
      cases storedProvider conversions payload with
      | none => simp
      | some providerId =>
          simp [hnoPrompt, hnoModel, storedDraft]

/-- The draft that a call carries. -/
def draftOf : ServiceCall → Option AgentDraftConfig
  | .create request => some request.draft
  | .updateDraft _ request => given request.draft
  | _ => none

theorem draftOf_callOf (displayName : String) (draft : AgentDraftConfig) :
    draftOf (callOf payload displayName draft) = some draft := by
  unfold callOf
  cases payload.agent <;> rfl

theorem parsedCall_callOf (displayName : String) {draft : AgentDraftConfig}
    (h : Parsed conversions draft) : ParsedCall conversions (callOf payload displayName draft) := by
  unfold callOf
  cases payload.agent with
  | none => exact h
  | some id =>
      intro config hconfig
      exact Option.some.inj hconfig ▸ h

theorem received_eq_some {call : ServiceCall} :
    received conversions payload = some call ↔ payload.displayName ≠ [] ∧ ∃ draft,
      modelValidate conversions (draftJson payload) = some draft ∧
        callOf payload (String.ofList payload.displayName) draft = call := by
  simp only [received, requiredText_ofList, Option.bind_eq_bind, Option.bind_eq_some_iff]
  by_cases hname : payload.displayName = []
  · simp [hname]
  · simp [hname]

/-- The server accepts a payload exactly if its texts are there and its provider is known by a UUID
and has a model without a colon. -/
theorem received_isSome (hdefault : conversions.modelParameters (.obj []) = some (.obj [])) :
    (received conversions payload).isSome = true ↔
      payload.displayName ≠ [] ∧ payload.systemPrompt ≠ [] ∧ payload.model ≠ [] ∧
        ∀ id, payload.providerId = some id →
          (conversions.uuid (.str (String.ofList id))).isSome = true ∧ ':' ∉ payload.model := by
  have hstored : (∃ providerId, storedProvider conversions payload = some providerId ∧
      ¬ (providerId.isSome = true ∧ ':' ∈ payload.model)) ↔
      ∀ id, payload.providerId = some id →
        (conversions.uuid (.str (String.ofList id))).isSome = true ∧ ':' ∉ payload.model := by
    unfold storedProvider
    cases payload.providerId with
    | none => simp
    | some id => cases hid : conversions.uuid (.str (String.ofList id)) <;> simp [hid]
  rw [← hstored, Option.isSome_iff_exists]
  simp only [received_eq_some, modelValidate_draftJson hdefault]
  constructor
  · rintro ⟨call, hname, draft, ⟨hprompt, hmodel, providerId, hid, hcolon, -⟩, -⟩
    exact ⟨hname, hprompt, hmodel, providerId, hid, hcolon⟩
  · rintro ⟨hname, hprompt, hmodel, providerId, hid, hcolon⟩
    exact ⟨_, hname, _, ⟨hprompt, hmodel, providerId, hid, hcolon, rfl⟩, rfl⟩

theorem draftOf_received (hdefault : conversions.modelParameters (.obj []) = some (.obj []))
    {call : ServiceCall} (h : received conversions payload = some call) :
    ParsedCall conversions call ∧
      ∃ providerId, draftOf call = some (storedDraft payload providerId) := by
  obtain ⟨-, draft, hdraft, rfl⟩ := received_eq_some.mp h
  obtain ⟨-, -, providerId, -, -, rfl⟩ := (modelValidate_draftJson hdefault).mp hdraft
  exact ⟨parsedCall_callOf _ ⟨_, hdraft⟩, providerId, draftOf_callOf _ _⟩

end Validation

section Correctness

/-- What a form may send that has been shown these lists. -/
structure Sent (lists : List (List ListedProvider)) (form : AgentForm) (payload : Payload) :
    Prop where
  displayName : payload.displayName ≠ []
  systemPrompt : payload.systemPrompt ≠ []
  codeAgent : payload.providerId = none → payload.model ∈ codeAgentModelOptions
  provider : ∀ id, payload.providerId = some id → ∃ provider ∈ form.providers, ∃ model,
    form.providersLoading = false ∧ provider.enabled = true ∧ id = jsTrim provider.id ∧
      payload.model = jsTrim model ∧ Offered lists provider.id model ∧
        (form.mode.isEdit = true → model ∈ provider.models)

variable {lists : List (List ListedProvider)} {form : AgentForm} {payload : Payload}

theorem handleSubmit_eq_send (h : handleSubmit form = .send payload) :
    jsTrim form.fields.displayName ≠ [] ∧ jsTrim form.fields.systemPrompt ≠ [] ∧
      form.saveBlocked = false ∧ payloadOf form = payload := by
  unfold handleSubmit at h
  split at h
  · cases h
  next hname =>
    split at h
    · cases h
    next hprompt =>
      split at h
      · cases h
      next hblocked =>
        exact ⟨hname, hprompt, Bool.eq_false_iff.mpr hblocked, by injection h⟩

/-- An unblocked form with a model of the code agent has one of the options. -/
theorem codeAgentModel_of_unblocked (h : Kept lists form)
    (hsource : form.fields.modelSource = .codeagent) (hblocked : form.saveBlocked = false) :
    form.fields.codeAgentModel ∈ codeAgentModelOptions := by
  cases hmode : form.mode.isEdit with
  | false => exact h.optional hmode
  | true =>
      have havailable : form.unavailableCodeAgentModel = false := by
        simp only [AgentForm.saveBlocked, Bool.or_eq_false_iff] at hblocked
        exact hblocked.2.1
      simpa [AgentForm.unavailableCodeAgentModel, hmode, hsource, h.codeAgentModel] using havailable

/-- An unblocked form with a provider has an enabled one of the list, and a model of it. -/
theorem provider_of_unblocked (h : Kept lists form) (hrendered : Rendered form)
    (hsource : form.fields.modelSource = .provider) (hblocked : form.saveBlocked = false) :
    ∃ provider, form.selectedProvider = some provider ∧ form.providersLoading = false ∧
      Offered lists form.fields.selectedProviderId form.fields.selectedProviderModel ∧
        (form.mode.isEdit = true → form.fields.selectedProviderModel ∈ provider.models) := by
  simp only [AgentForm.saveBlocked, AgentForm.providerSaveBlocked, Bool.or_eq_false_iff, hsource,
    decide_true, Bool.true_and, decide_eq_false_iff_not] at hblocked
  obtain ⟨⟨⟨⟨hloading, -⟩, hselected⟩, hmodels⟩, -, havailable⟩ := hblocked
  obtain ⟨provider, hprovider⟩ := Option.isSome_iff_exists.mp (by simpa using hselected)
  have hlisted : form.selectedProviderModels = provider.models := by
    rw [AgentForm.selectedProviderModels, hprovider]
    rfl
  have hmodel : form.fields.selectedProviderModel ≠ [] := hrendered hsource hmodels
  have hmem : form.mode.isEdit = true →
      form.fields.selectedProviderModel ∈ form.selectedProviderModels := by
    intro hmode
    simpa [AgentForm.unavailableProviderModel, hmode, hsource, hprovider, hmodel, hmodels]
      using havailable
  refine ⟨provider, hprovider, hloading, ?_, fun hmode => hlisted ▸ hmem hmode⟩
  cases hmode : form.mode.isEdit with
  | false => exact h.offered hmode hmodel
  | true => exact (offered_of_mem h.shown (hmem hmode)).1

theorem sent_of_kept (h : Kept lists form) (hrendered : Rendered form)
    (hsubmit : handleSubmit form = .send payload) : Sent lists form payload := by
  obtain ⟨hname, hprompt, hblocked, rfl⟩ := handleSubmit_eq_send hsubmit
  refine ⟨hname, hprompt, fun hid => ?_, fun id hid => ?_⟩
  · have htrimmed : ∀ model ∈ codeAgentModelOptions, jsTrim model = model := by decide
    cases hsource : form.fields.modelSource with
    | provider => simp [payloadOf, hsource] at hid
    | codeagent =>
        have hmodel := codeAgentModel_of_unblocked h hsource hblocked
        have hpayload : (payloadOf form).model = form.fields.codeAgentModel := by
          simp only [payloadOf, hsource]
          exact htrimmed _ hmodel
        exact hpayload ▸ hmodel
  · cases hsource : form.fields.modelSource with
    | codeagent => simp [payloadOf, hsource] at hid
    | provider =>
        obtain ⟨provider, hprovider, hloading, hoffered, hmodel⟩ :=
          provider_of_unblocked h hrendered hsource hblocked
        obtain ⟨hmem, henabled, hselected⟩ := selectedProvider_listed hprovider
        have htrim : jsTrim form.fields.selectedProviderId = id := by
          simpa [payloadOf, hsource] using hid
        refine ⟨provider, hmem, form.fields.selectedProviderModel, hloading, henabled,
          hselected ▸ htrim.symm, ?_, hselected ▸ hoffered, hmodel⟩
        simp only [payloadOf, hsource]

/-- Whatever is done to an open form, and however the list of the providers changes behind it: what
it submits names an agent and a prompt, a model of the code agent that is an option, or an enabled
provider of the present list with a model that one of the lists it was shown offers for that
provider; of an agent that is edited, the present list. The server refuses it only for its provider,
and what it stores has no parameters, no tools and no servers. -/
theorem submits_of_run {conversions : Conversions}
    (hdefault : conversions.modelParameters (.obj []) = some (.obj []))
    {providers : List ListedProvider} {moves : List Move} {form' : AgentForm}
    (hopened : Opened providers form) (hrun : run step moves form = some form')
    (hsubmit : handleSubmit form' = .send payload) :
    Sent (shownLists providers moves) form' payload ∧
      ((received conversions payload).isSome = true ↔ ∀ id, payload.providerId = some id →
        payload.model ≠ [] ∧ ':' ∉ payload.model ∧
          (conversions.uuid (.str (String.ofList id))).isSome = true) ∧
      ∀ call, received conversions payload = some call → ParsedCall conversions call ∧
        ∃ providerId, draftOf call = some (storedDraft payload providerId) := by
  obtain ⟨hkept, hrendered⟩ := kept_run hopened hrun
  have hsent := sent_of_kept hkept hrendered hsubmit
  refine ⟨hsent, ?_, fun call hcall => draftOf_received hdefault hcall⟩
  rw [received_isSome hdefault]
  constructor
  · rintro ⟨-, -, hmodel, hprovider⟩ id hid
    exact ⟨hmodel, (hprovider id hid).2, (hprovider id hid).1⟩
  · intro hprovider
    refine ⟨hsent.displayName, hsent.systemPrompt, ?_, fun id hid =>
      ⟨(hprovider id hid).2.2, (hprovider id hid).2.1⟩⟩
    cases hid : payload.providerId with
    | some id => exact (hprovider id hid).1
    | none => exact ne_nil_of_mem_options (hsent.codeAgent hid)

/-- A provider that is known by `relay` and has one model. -/
def relay (model : Char) : ListedProvider where
  id := "relay".toList
  enabled := true
  models := [[model]]
  id_ne_nil := by decide
  models_ne_nil := by simp

/-- A new agent with a model of the provider, which the list no longer has when it is submitted. -/
def staleMoves : List Move :=
  [.fill "Reviewer".toList [] "Review.".toList true, .selectSource .provider,
    .list [relay 'b'] false]

/-- The form of a new agent submits a model that is gone, and the server accepts it. -/
theorem submits_stale : ∃ form payload,
    run step staleMoves (openCreate [relay 'a'] false) = some form ∧
      handleSubmit form = .send payload ∧ payload.model = ['a'] ∧
        form.selectedProviderModels = [['b']] ∧
          (received AgentPublishing.lenient payload).isSome = true := by
  have hrun : ∃ form payload, run step staleMoves (openCreate [relay 'a'] false) = some form ∧
      handleSubmit form = .send payload ∧ payload.model = ['a'] ∧
        form.selectedProviderModels = [['b']] := ⟨_, _, rfl, rfl, rfl, rfl⟩
  obtain ⟨form, payload, hform, hsubmit, hmodel, hmodels⟩ := hrun
  have hdefault : AgentPublishing.lenient.modelParameters (.obj []) = some (.obj []) := rfl
  obtain ⟨-, haccepted, -⟩ := submits_of_run hdefault (.create false) hform hsubmit
  refine ⟨form, payload, hform, hsubmit, hmodel, hmodels, haccepted.mpr fun id hid => ?_⟩
  rw [hmodel]
  exact ⟨by decide, by decide, rfl⟩

end Correctness

end ChangeQuality.AgentEditing
