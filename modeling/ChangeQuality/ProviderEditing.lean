import ChangeQuality.LlmProviders
import ChangeQuality.LlmProviderForms

/-!
The forms of the LLM providers over the table that they edit. A form shows a provider with its secrets
masked, is filled in for as long as it takes, and submits what its texts come to; the row may have
become another meanwhile.
-/

namespace ChangeQuality.ProviderEditing

open ChangeQuality.Values
open ChangeQuality.Runs
open ChangeQuality.LlmProviders
open ChangeQuality.LlmProviderForms
open ChangeQuality.McpForms (JsObject redactedValue jsTrim orNull mapping)
open ChangeQuality.McpRedaction (Chars)

section View

def secretKeyParts : List Chars :=
  ["key".toList, "token".toList, "secret".toList, "authorization".toList, "password".toList,
    "credential".toList]

/-- `_is_secret_key`; `lower` is `str.lower`. -/
def isSecretKey (lower : Chars → Chars) (key : Chars) : Bool :=
  secretKeyParts.any fun part => (lower key).tails.any part.isPrefixOf

/-- `_mask_mapping`, as the browser reads it. -/
def maskMapping (lower : Chars → Chars) (value : List (String × String)) : JsObject :=
  .ofEntries (value.map fun entry =>
    (entry.1.toList, if isSecretKey lower entry.1.toList then redactedValue else entry.2.toList))

/-- What the form reads of the details of a provider. -/
structure LlmProviderDetail where
  id : ProviderId
  displayName : Chars
  description : Option Chars
  providerType : Chars
  baseUrl : Option Chars
  defaultHeaders : JsObject
  defaultQuery : JsObject
  models : List Chars
  enabled : Bool

/-- The serialized response. -/
def providerDetail (lower : Chars → Chars) (summary : LlmProviderSummary) : LlmProviderDetail where
  id := summary.id
  displayName := summary.displayName.toList
  description := summary.description.map String.toList
  providerType := summary.providerType.toList
  baseUrl := summary.baseUrl.map String.toList
  defaultHeaders := maskMapping lower summary.defaultHeaders
  defaultQuery := maskMapping lower summary.defaultQuery
  models := summary.models.map String.toList
  enabled := summary.enabled

end View

section Form

/-- The state of the fields. -/
structure Fields where
  displayName : Chars
  description : Chars
  providerType : Chars
  baseUrl : Chars
  apiKey : Chars
  clearApiKey : Bool
  headersText : Chars
  queryText : Chars
  modelsText : Chars
  enabled : Bool

/-- The effect that fills the fields in the edit mode. -/
def load (provider : LlmProviderDetail) : Fields where
  displayName := provider.displayName
  description := provider.description.getD []
  providerType := provider.providerType
  baseUrl := provider.baseUrl.getD []
  apiKey := []
  clearApiKey := false
  headersText := keyValueMapToText provider.defaultHeaders
  queryText := keyValueMapToText provider.defaultQuery
  modelsText := modelsToText provider.models
  enabled := provider.enabled

/-- The fields of the create mode. -/
def blank : Fields where
  displayName := []
  description := []
  providerType := "openai".toList
  baseUrl := []
  apiKey := []
  clearApiKey := false
  headersText := []
  queryText := []
  modelsText := []
  enabled := true

/-- `Object.values(value).includes(REDACTED_VALUE)`. -/
def includesRedacted (value : JsObject) : Bool :=
  value.any fun entry => entry.2 = redactedValue

def shouldOmitRedactedField (text : Chars) (currentValue : JsObject) : Bool :=
  includesRedacted currentValue && text = keyValueMapToText currentValue

def hasUnsafeRedactedPlaceholder (text : Chars) (parsedValue currentValue : JsObject) : Bool :=
  includesRedacted parsedValue && !shouldOmitRedactedField text currentValue

/-- `isSupportedProviderType`, with the proof that the API accepts the type. -/
def supportedProviderType? (value : Chars) : Option LlmProviderType :=
  if h : String.ofList value ∈ supportedLlmProviderTypes then some ⟨String.ofList value, h⟩ else none

/-- A nullable text of a create payload. -/
def textOrNull (text : Chars) : Option String :=
  if jsTrim text = [] then none else some (String.ofList (jsTrim text))

def createPayload (fields : Fields) (providerType : LlmProviderType) (headers query : JsObject) :
    LlmProviderCreate where
  displayName := String.ofList (jsTrim fields.displayName)
  description := textOrNull fields.description
  providerType
  baseUrl := textOrNull fields.baseUrl
  apiKey := textOrNull fields.apiKey
  defaultHeaders := mapping headers
  defaultQuery := mapping query
  models := (parseModelsText fields.modelsText).map String.ofList
  enabled := fields.enabled

def updatePayload (fields : Fields) (provider : LlmProviderDetail) (providerType : LlmProviderType)
    (headers query : JsObject) : LlmProviderUpdate where
  displayName := .set (String.ofList (jsTrim fields.displayName))
  description := orNull fields.description
  providerType := .set providerType
  baseUrl := orNull fields.baseUrl
  apiKey :=
    if jsTrim fields.apiKey ≠ [] then .set (String.ofList (jsTrim fields.apiKey))
    else if fields.clearApiKey then .null else .unset
  defaultHeaders :=
    if shouldOmitRedactedField fields.headersText provider.defaultHeaders then .unset
    else .set (mapping headers)
  defaultQuery :=
    if shouldOmitRedactedField fields.queryText provider.defaultQuery then .unset
    else .set (mapping query)
  models := .set ((parseModelsText fields.modelsText).map String.ofList)
  enabled := .set fields.enabled

inductive Mode where
  | create
  | edit (provider : LlmProviderDetail)

/-- `handleSubmit`: the request that it makes, or the error that it shows. -/
def handleSubmit (mode : Mode) (fields : Fields) : Except String Request :=
  let parsedHeaders := parseKeyValueText "Default Headers" fields.headersText
  let parsedQuery := parseKeyValueText "Default Query" fields.queryText
  match parsedHeaders.error, parsedQuery.error with
  | some error, _ => .error error
  | none, some error => .error error
  | none, none =>
      if jsTrim fields.displayName = [] then .error "Display Name 必填。"
      else
        match supportedProviderType? fields.providerType with
        | none => .error "Provider Type 不在当前 init_chat_model 支持列表中，请重新选择。"
        | some providerType =>
            match mode with
            | .create =>
                .ok (.create (createPayload fields providerType parsedHeaders.value parsedQuery.value))
            | .edit provider =>
                if hasUnsafeRedactedPlaceholder fields.headersText parsedHeaders.value
                      provider.defaultHeaders ||
                    hasUnsafeRedactedPlaceholder fields.queryText parsedQuery.value
                      provider.defaultQuery then
                  .error "脱敏值 ******** 需要替换为新值，或保持该区域不变。"
                else
                  .ok (.update provider.id
                    (updatePayload fields provider providerType parsedHeaders.value
                      parsedQuery.value))

end Form

section System

abbrev FormId := Nat

/-- An open form; `loadedFrom` is what the server said when its provider was fetched. -/
structure Form where
  mode : Mode
  loadedFrom : Option LlmProviderSummary
  fields : Fields

structure World where
  db : Db
  forms : FormId → Option Form
  /-- The requests on their way to the server. -/
  requests : List Request

inductive Move where
  | openCreate (form : FormId)
  /-- The provider of an edit form is fetched, for the first time or again. -/
  | openEdit (form : FormId) (id : ProviderId)
  | fill (form : FormId) (fields : Fields)
  | submit (form : FormId)
  | close (form : FormId)
  /-- The list page asks for a provider to be deleted. -/
  | delete (id : ProviderId)
  | serve (index : Nat)
  | lose (index : Nat)

def World.setForm (w : World) (id : FormId) (form : Option Form) : World :=
  { w with forms := Function.update w.forms id form }

def step (lower : Chars → Chars) : Move → World → Option World
  | .openCreate id, w => some (w.setForm id (some ⟨.create, none, blank⟩))
  | .openEdit id providerId, w => do
      let row ← w.db.getById providerId
      let summary ← validateSummary row
      let provider := providerDetail lower summary
      some (w.setForm id (some ⟨.edit provider, some summary, load provider⟩))
  | .fill id fields, w => do
      let form ← w.forms id
      some (w.setForm id (some { form with fields }))
  | .submit id, w => do
      let form ← w.forms id
      let request ← (handleSubmit form.mode form.fields).toOption
      some { w with requests := w.requests ++ [request] }
  | .close id, w => some (w.setForm id none)
  | .delete id, w => some { w with requests := w.requests ++ [.delete id] }
  | .serve index, w => do
      let request ← w.requests[index]?
      some { w with
        db := (handle request w.db).getD w.db
        requests := w.requests.eraseIdx index }
  | .lose index, w => some { w with requests := w.requests.eraseIdx index }

end System

section Properties

/-- A field of a PATCH that gives the mask to a key. -/
def CarriesMask : McpService.Field (List (String × String)) → Prop
  | .set entries => ∃ entry ∈ entries, entry.2 = String.ofList redactedValue
  | _ => False

/-- A PATCH that gives every column that needs one a value, and the mask to no key. -/
structure Proper (payload : LlmProviderUpdate) : Prop where
  displayName : ∃ text, payload.displayName = .set text
  providerType : ∃ type, payload.providerType = .set type
  models : ∃ names, payload.models = .set names
  enabled : ∃ value, payload.enabled = .set value
  headers : ¬ CarriesMask payload.defaultHeaders
  query : ¬ CarriesMask payload.defaultQuery

/-- What a form may have sent. -/
def Sent : Request → Prop
  | .update _ payload => Proper payload
  | _ => True

/-- A stored mapping without a mask. -/
def Unmasked (stored : Json) : Prop :=
  ∀ entries, validateMapping stored = some entries →
    ∀ entry ∈ entries, entry.2 ≠ String.ofList redactedValue

/-- No provider has a mask for a value. -/
def Genuine (db : Db) : Prop :=
  ∀ row ∈ db.providers, Unmasked row.defaultHeaders ∧ Unmasked row.defaultQuery

/-- No provider is created with a mask for a value. -/
def CreatesGenuine : Move → World → Prop
  | .serve index, w => ∀ payload, w.requests[index]? = some (.create payload) →
      (∀ entry ∈ payload.defaultHeaders, entry.2 ≠ String.ofList redactedValue) ∧
        ∀ entry ∈ payload.defaultQuery, entry.2 ≠ String.ofList redactedValue
  | _, _ => True

/-- A nullable text that the form shows and submits as it is. -/
def ShownText (value : Option String) : Prop :=
  ∀ text, value = some text → text ≠ "" ∧ jsTrim text.toList = text.toList

/-- A mapping whose lines are read as they were printed. -/
structure ShownMapping (lower : Chars → Chars) (value : List (String × String)) : Prop where
  nodup : (value.map Prod.fst).Nodup
  printable : Printable (maskMapping lower value)

/-- A provider that the form can show without loss. -/
structure Shown (lower : Chars → Chars) (summary : LlmProviderSummary) : Prop where
  displayName : summary.displayName ≠ "" ∧
    jsTrim summary.displayName.toList = summary.displayName.toList
  description : ShownText summary.description
  providerType : summary.providerType ∈ supportedLlmProviderTypes
  baseUrl : ShownText summary.baseUrl
  headers : ShownMapping lower summary.defaultHeaders
  query : ShownMapping lower summary.defaultQuery
  models_nodup : summary.models.Nodup
  models : ∀ model ∈ summary.models, model ≠ "" ∧ strip model = model ∧
    jsTrim model.toList = model.toList ∧ '\n' ∉ model.toList

/-- What a submitted mapping leaves: one that was shown with a mask is not touched, any other is
written as it was shown. -/
def Leaves (lower : Chars → Chars) (shown : List (String × String)) (stored written : Json) : Prop :=
  if includesRedacted (maskMapping lower shown) then written = stored
  else ∃ entries, written = mappingJson entries ∧ entries.Perm shown

/-- A row after the provider was submitted as it was shown. -/
structure Resubmitted (lower : Chars → Chars) (summary : LlmProviderSummary)
    (row written : LlmProvider) : Prop where
  id : written.id = row.id
  displayName : written.displayName = summary.displayName
  description : written.description = summary.description
  providerType : written.providerType = summary.providerType
  baseUrl : written.baseUrl = summary.baseUrl
  apiKey : written.apiKey = row.apiKey
  headers : Leaves lower summary.defaultHeaders row.defaultHeaders written.defaultHeaders
  query : Leaves lower summary.defaultQuery row.defaultQuery written.defaultQuery
  models : written.models = namesJson summary.models
  enabled : written.enabled = summary.enabled
  deleted : written.deleted = row.deleted

end Properties

variable {lower : Chars → Chars} {mode : Mode} {fields : Fields} {request : Request}
  {payload : LlmProviderUpdate} {row : LlmProvider} {summary : LlmProviderSummary}

section Submission

theorem supportedProviderType?_eq {value : Chars} {providerType : LlmProviderType}
    (h : supportedProviderType? value = some providerType) :
    providerType.val = String.ofList value := by
  unfold supportedProviderType? at h
  split at h
  · obtain rfl := Option.some.inj h
    rfl
  · cases h

/-- What a form submits is put together from texts that were parsed without an error. -/
theorem handleSubmit_ok (h : handleSubmit mode fields = .ok request) :
    ∃ headers query providerType,
      parseKeyValueText "Default Headers" fields.headersText = { error := none, value := headers } ∧
      parseKeyValueText "Default Query" fields.queryText = { error := none, value := query } ∧
      supportedProviderType? fields.providerType = some providerType ∧
      (mode = .create ∧ request = .create (createPayload fields providerType headers query) ∨
        ∃ provider, mode = .edit provider ∧
          hasUnsafeRedactedPlaceholder fields.headersText headers provider.defaultHeaders = false ∧
          hasUnsafeRedactedPlaceholder fields.queryText query provider.defaultQuery = false ∧
          request = .update provider.id
            (updatePayload fields provider providerType headers query)) := by
  unfold handleSubmit at h
  rcases hheaders : parseKeyValueText "Default Headers" fields.headersText with ⟨error, headers⟩
  rcases hquery : parseKeyValueText "Default Query" fields.queryText with ⟨error', query⟩
  simp only [hheaders, hquery] at h
  split at h
  · cases h
  · cases h
  · split at h
    · cases h
    · split at h
      · cases h
      · rename_i providerType htype
        refine ⟨headers, query, providerType, rfl, rfl, htype, ?_⟩
        split at h
        · exact .inl ⟨rfl, (Except.ok.inj h).symm⟩
        · rename_i provider
          split at h
          · cases h
          · rename_i hsafe
            rw [Bool.or_eq_true, not_or, Bool.not_eq_true, Bool.not_eq_true] at hsafe
            exact .inr ⟨provider, rfl, hsafe.1, hsafe.2, (Except.ok.inj h).symm⟩

/-- The check of the form stops every mask, wherever it was typed. -/
theorem not_carriesMask {text : Chars} {parsed current : JsObject}
    (hsafe : hasUnsafeRedactedPlaceholder text parsed current = false) :
    ¬ CarriesMask (if shouldOmitRedactedField text current then .unset
      else .set (mapping parsed)) := by
  unfold hasUnsafeRedactedPlaceholder at hsafe
  cases homit : shouldOmitRedactedField text current with
  | true => simp [CarriesMask]
  | false =>
      rw [homit, Bool.not_false, Bool.and_true] at hsafe
      rintro ⟨entry, hentry, hmask⟩
      obtain ⟨own, hown, rfl⟩ := List.mem_map.mp hentry
      have hincludes : includesRedacted parsed = true := by
        refine List.any_eq_true.mpr ⟨own, McpForms.mem_entries.mp hown, ?_⟩
        simpa using String.ofList_injective hmask
      rw [hincludes] at hsafe
      cases hsafe

theorem sent_handleSubmit (h : handleSubmit mode fields = .ok request) : Sent request := by
  obtain ⟨headers, query, providerType, -, -, -, ⟨-, rfl⟩ | ⟨provider, -, hheaders, hquery, rfl⟩⟩ :=
    handleSubmit_ok h
  · trivial
  · exact ⟨⟨_, rfl⟩, ⟨_, rfl⟩, ⟨_, rfl⟩, ⟨_, rfl⟩, not_carriesMask hheaders, not_carriesMask hquery⟩

theorem Proper.write_isSome (h : Proper payload) (row : LlmProvider) :
    (payload.write row).isSome = true := by
  obtain ⟨⟨text, htext⟩, ⟨type, htype⟩, -, ⟨value, hvalue⟩, -, -⟩ := h
  simp [LlmProviderUpdate.write, htext, htype, hvalue, McpService.Field.merge, writeProviderType]

end Submission

section Resubmission

theorem validateMapping_mappingJson_eq (entries : List (String × String)) :
    validateMapping (mappingJson entries) = some entries := by
  simp only [validateMapping, mappingJson]
  induction entries with
  | nil => rfl
  | cons entry rest ih =>
      rw [List.map_cons, List.mapM_cons, ih]
      rfl

/-- A field that is submitted as it is shown comes to the same text. -/
theorem orNull_shown {value : Option String} (h : ShownText value) (stored : Option String) :
    (orNull ((value.map String.toList).getD [])).mergeNullable stored = value := by
  cases value with
  | none => rfl
  | some text =>
      obtain ⟨hne, htrim⟩ := h text rfl
      have htext : text.toList ≠ [] := by simpa using hne
      simp only [Option.map_some, Option.getD_some, orNull, htrim, if_neg htext,
        String.ofList_toList]
      rfl

theorem maskMapping_nodup {value : List (String × String)} (h : (value.map Prod.fst).Nodup) :
    maskMapping lower value = value.map fun entry =>
      (entry.1.toList, if isSecretKey lower entry.1.toList then redactedValue
        else entry.2.toList) := by
  have hkeys : ((value.map fun entry => (entry.1.toList,
      if isSecretKey lower entry.1.toList then redactedValue else entry.2.toList)).map
        Prod.fst).Nodup := by
    rw [List.map_map]
    have hnodup := h.map (f := String.toList) fun _ _ => String.toList_inj.mp
    rwa [List.map_map] at hnodup
  simpa [maskMapping, JsObject.ofEntries] using @foldl_define _ [] hkeys

/-- Without a mask in it, what is shown is what is stored. -/
theorem maskMapping_genuine {value : List (String × String)} (h : (value.map Prod.fst).Nodup)
    (hnone : includesRedacted (maskMapping lower value) = false) :
    maskMapping lower value = value.map fun entry => (entry.1.toList, entry.2.toList) := by
  rw [maskMapping_nodup h] at hnone ⊢
  refine List.map_congr_left fun entry hentry => ?_
  have hplain := List.any_eq_false.mp hnone _ (List.mem_map_of_mem hentry)
  split
  · rename_i hsecret
    simp [hsecret] at hplain
  · rfl

/-- A mapping that is submitted as it is shown. -/
theorem leaves_shown {value : List (String × String)} (h : ShownMapping lower value)
    (label : String) : ∃ parsed,
      parseKeyValueText label (keyValueMapToText (maskMapping lower value)) =
        { error := none, value := parsed } ∧
      hasUnsafeRedactedPlaceholder (keyValueMapToText (maskMapping lower value)) parsed
        (maskMapping lower value) = false ∧
      ∀ stored, Leaves lower value stored (writeMapping
        (if shouldOmitRedactedField (keyValueMapToText (maskMapping lower value))
          (maskMapping lower value) then .unset else .set (mapping parsed)) stored) := by
  have hparsed : parseKeyValueText label (keyValueMapToText (maskMapping lower value)) =
      { error := none, value := (maskMapping lower value).entries } :=
    (parseLines_eq label label 0 _ [] _).mp (parse_printed h.printable)
  refine ⟨_, hparsed, ?_⟩
  unfold hasUnsafeRedactedPlaceholder shouldOmitRedactedField Leaves
  cases hredacted : includesRedacted (maskMapping lower value) with
  | true => simp [writeMapping]
  | false =>
      have hentries : includesRedacted (JsObject.entries (maskMapping lower value)) = false := by
        rw [includesRedacted, List.any_eq_false] at hredacted ⊢
        exact fun entry hentry => hredacted entry (McpForms.mem_entries.mp hentry)
      refine ⟨by simp [hentries], fun stored => ⟨_, rfl, ?_⟩⟩
      -- the lines come in the order of the browser, with the entries of the table
      have hshown := maskMapping_genuine h.nodup hredacted
      have hperm := (entries_perm (JsObject.entries (maskMapping lower value))).trans
        (entries_perm (maskMapping lower value))
      have hmapped := hperm.map fun entry => (String.ofList entry.1, String.ofList entry.2)
      rw [hshown, List.map_map] at hmapped
      simpa [mapping, Function.comp_def, String.ofList_toList, hshown] using hmapped

theorem normalizeModelsFrom_self {models seen : List String} (hnodup : models.Nodup)
    (h : ∀ model ∈ models, model ≠ "" ∧ strip model = model) (hnew : ∀ model ∈ models, model ∉ seen) :
    normalizeModelsFrom seen models = models := by
  induction models generalizing seen with
  | nil => rfl
  | cons model rest ih =>
      obtain ⟨hfirst, hrest⟩ := List.forall_mem_cons.mp h
      obtain ⟨hfresh, hlater⟩ := List.nodup_cons.mp hnodup
      obtain ⟨hunseen, hothers⟩ := List.forall_mem_cons.mp hnew
      have hskip : ¬ (strip model = "" ∨ strip model ∈ seen) := by
        rw [hfirst.2]
        exact not_or.mpr ⟨hfirst.1, hunseen⟩
      rw [normalizeModelsFrom, if_neg hskip, hfirst.2, ih hlater hrest fun other hother => ?_]
      rw [List.mem_cons, not_or]
      refine ⟨?_, hothers other hother⟩
      rintro rfl
      exact hfresh hother

theorem models_shown (h : Shown lower summary) :
    normalizeModels ((parseModelsText (modelsToText (summary.models.map String.toList))).map
      String.ofList) = summary.models := by
  rw [parseModelsText_modelsToText]
  · rw [List.map_map, Function.comp_def]
    simp only [String.ofList_toList, List.map_id_fun', id_eq]
    exact normalizeModelsFrom_self h.models_nodup
      (fun model hmodel => ⟨(h.models model hmodel).1, (h.models model hmodel).2.1⟩) (by simp)
  · exact h.models_nodup.map fun _ _ => String.toList_inj.mp
  · intro model hmodel
    obtain ⟨name, hname, rfl⟩ := List.mem_map.mp hmodel
    obtain ⟨hne, -, htrim, hline⟩ := h.models name hname
    exact ⟨by simpa using hne, htrim, hline⟩

/-- A provider that is submitted as it is shown leaves the hidden values of the row as they are,
whatever the row has become. -/
theorem resubmitted (h : Shown lower summary) :
    ∃ payload, handleSubmit (.edit (providerDetail lower summary))
        (load (providerDetail lower summary)) = .ok (.update summary.id payload) ∧
      ∀ row, ∃ written, payload.write row = some written ∧ Resubmitted lower summary row written := by
  obtain ⟨headers, hheaders, hheadersSafe, hheadersLeft⟩ := leaves_shown h.headers "Default Headers"
  obtain ⟨query, hquery, hquerySafe, hqueryLeft⟩ := leaves_shown h.query "Default Query"
  have hname : jsTrim summary.displayName.toList ≠ [] := by
    rw [h.displayName.2]
    simpa using h.displayName.1
  have htype : supportedProviderType? summary.providerType.toList =
      some ⟨summary.providerType, h.providerType⟩ := by
    simp [supportedProviderType?, String.ofList_toList, h.providerType]
  refine ⟨updatePayload (load (providerDetail lower summary)) (providerDetail lower summary)
    ⟨summary.providerType, h.providerType⟩ headers query, ?_, fun row => ?_⟩
  · simp only [handleSubmit, load, providerDetail] at *
    simp [hheaders, hquery, hname, htype, hheadersSafe, hquerySafe]
  · refine ⟨_, rfl, rfl, ?_, orNull_shown h.description row.description, rfl,
      orNull_shown h.baseUrl row.baseUrl, rfl, hheadersLeft row.defaultHeaders,
      hqueryLeft row.defaultQuery, congrArg namesJson (models_shown h), rfl, rfl⟩
    change String.ofList (jsTrim summary.displayName.toList) = summary.displayName
    rw [h.displayName.2, String.ofList_toList]

end Resubmission

section Runs

variable {db : Db} {mv : Move} {ms : List Move} {w w' : World}

def World.start (db : Db) : World where
  db := db
  forms := fun _ => none
  requests := []

/-- What holds of the world of the forms. -/
structure Kept (lower : Chars → Chars) (w : World) : Prop where
  presentable : Presentable w.db
  sent : ∀ request ∈ w.requests, Sent request
  loaded : ∀ id form summary, w.forms id = some form → form.loadedFrom = some summary →
    form.mode = .edit (providerDetail lower summary)

theorem Kept.setForm (h : Kept lower w) (id : FormId) {form : Option Form}
    (hform : ∀ opened summary, form = some opened → opened.loadedFrom = some summary →
      opened.mode = .edit (providerDetail lower summary)) : Kept lower (w.setForm id form) := by
  refine ⟨h.presentable, h.sent, fun other opened summary hother hloaded => ?_⟩
  simp only [World.setForm, Function.update_apply] at hother
  split at hother
  · exact hform opened summary hother hloaded
  · exact h.loaded other opened summary hother hloaded

theorem keepsModels_of_sent {request : Request} (h : Sent request) (db : Db) :
    KeepsModels request db := by
  cases request with
  | update id payload =>
      obtain ⟨names, hnames⟩ := Proper.models h
      simp [KeepsModels, hnames]
  | create | delete => trivial

theorem Kept.step (h : Kept lower w) (hstep : step lower mv w = some w') : Kept lower w' := by
  cases mv with
  | openCreate id =>
      obtain rfl := Option.some.inj hstep
      refine h.setForm id fun opened summary hopened hloaded => ?_
      rw [← Option.some.inj hopened] at hloaded
      cases hloaded
  | openEdit id providerId =>
      simp only [ProviderEditing.step, Option.bind_eq_bind, Option.bind_eq_some_iff,
        Option.some.injEq] at hstep
      obtain ⟨row, -, summary, -, rfl⟩ := hstep
      refine h.setForm id fun opened summary' hopened hloaded => ?_
      rw [← Option.some.inj hopened] at hloaded ⊢
      rw [Option.some.inj hloaded]
  | fill id fields =>
      simp only [ProviderEditing.step, Option.bind_eq_bind, Option.bind_eq_some_iff,
        Option.some.injEq] at hstep
      obtain ⟨form, hform, rfl⟩ := hstep
      refine h.setForm id fun opened summary hopened hloaded => ?_
      rw [← Option.some.inj hopened] at hloaded ⊢
      exact h.loaded id form summary hform hloaded
  | submit id =>
      simp only [ProviderEditing.step, Option.bind_eq_bind, Option.bind_eq_some_iff,
        Option.some.injEq] at hstep
      obtain ⟨form, -, request, hrequest, rfl⟩ := hstep
      refine ⟨h.presentable, fun other hother => ?_, h.loaded⟩
      rcases List.mem_append.mp hother with hold | hnew
      · exact h.sent other hold
      · rw [List.mem_singleton.mp hnew]
        cases hsubmit : handleSubmit form.mode form.fields with
        | error error => rw [hsubmit] at hrequest; cases hrequest
        | ok made =>
            rw [hsubmit] at hrequest
            obtain rfl := Option.some.inj hrequest
            exact sent_handleSubmit hsubmit
  | close id =>
      obtain rfl := Option.some.inj hstep
      exact h.setForm id (by simp)
  | delete id =>
      obtain rfl := Option.some.inj hstep
      refine ⟨h.presentable, fun request hrequest => ?_, h.loaded⟩
      rcases List.mem_append.mp hrequest with hold | hnew
      · exact h.sent request hold
      · rw [List.mem_singleton.mp hnew]
        trivial
  | serve index =>
      simp only [ProviderEditing.step, Option.bind_eq_bind, Option.bind_eq_some_iff,
        Option.some.injEq] at hstep
      obtain ⟨request, hget, rfl⟩ := hstep
      refine ⟨?_, fun other hother => h.sent other (List.mem_of_mem_eraseIdx hother), h.loaded⟩
      cases hhandle : handle request w.db with
      | none => exact h.presentable
      | some db =>
          have hsent := h.sent request (List.mem_of_getElem? hget)
          exact (presentable_handle h.presentable hhandle).mpr (keepsModels_of_sent hsent w.db)
  | lose index =>
      obtain rfl := Option.some.inj hstep
      exact ⟨h.presentable, fun other hother => h.sent other (List.mem_of_mem_eraseIdx hother),
        h.loaded⟩

theorem unmasked_mappingJson {entries : List (String × String)}
    (h : ∀ entry ∈ entries, entry.2 ≠ String.ofList redactedValue) :
    Unmasked (mappingJson entries) := by
  intro entries' hentries'
  rw [validateMapping_mappingJson_eq] at hentries'
  rwa [← Option.some.inj hentries']

theorem unmasked_writeMapping {field : McpService.Field (List (String × String))} {stored : Json}
    (hfield : ¬ CarriesMask field) (h : Unmasked stored) : Unmasked (writeMapping field stored) := by
  cases field with
  | unset => exact h
  | null =>
      have hempty : ∀ entry ∈ ([] : List (String × String)),
          entry.2 ≠ String.ofList redactedValue := by simp
      exact unmasked_mappingJson hempty
  | set entries =>
      refine unmasked_mappingJson fun entry hentry hmask => hfield ⟨entry, hentry, hmask⟩

theorem genuine_store (h : Genuine db) (hrow : Unmasked row.defaultHeaders ∧
    Unmasked row.defaultQuery) : Genuine (db.store row) := by
  intro other hother
  obtain ⟨old, hold, rfl⟩ := List.mem_map.mp hother
  split
  · exact hrow
  · exact h old hold

/-- An accepted request brings a mask into the table only by creating a provider with it. -/
theorem genuine_handle {request : Request} {db' : Db} (h : Genuine db) (hsent : Sent request)
    (hcreate : ∀ payload, request = .create payload →
      (∀ entry ∈ payload.defaultHeaders, entry.2 ≠ String.ofList redactedValue) ∧
        ∀ entry ∈ payload.defaultQuery, entry.2 ≠ String.ofList redactedValue)
    (hhandle : handle request db = some db') : Genuine db' := by
  cases request with
  | create payload =>
      obtain rfl := Option.some.inj hhandle
      obtain ⟨hheaders, hquery⟩ := hcreate payload rfl
      intro row hrow
      rcases List.mem_append.mp hrow with hold | hnew
      · exact h row hold
      · rw [List.mem_singleton.mp hnew]
        exact ⟨unmasked_mappingJson hheaders, unmasked_mappingJson hquery⟩
  | update id payload =>
      simp only [handle, Option.bind_eq_bind, Option.bind_eq_some_iff, Option.some.injEq] at hhandle
      obtain ⟨row, hget, written, hwrite, rfl⟩ := hhandle
      have hrow := h row (getById_eq_some hget).1
      simp only [LlmProviderUpdate.write, Option.bind_eq_bind, Option.bind_eq_some_iff,
        Option.some.injEq] at hwrite
      obtain ⟨displayName, -, providerType, -, enabled, -, rfl⟩ := hwrite
      exact genuine_store h ⟨unmasked_writeMapping hsent.headers hrow.1,
        unmasked_writeMapping hsent.query hrow.2⟩
  | delete id =>
      simp only [handle, Option.bind_eq_bind, Option.bind_eq_some_iff, Option.some.injEq] at hhandle
      obtain ⟨row, hget, rfl⟩ := hhandle
      have hrow := h row (getById_eq_some hget).1
      exact genuine_store h ⟨hrow.1, hrow.2⟩

theorem genuine_step (h : Genuine w.db) (hkept : Kept lower w) (hcreates : CreatesGenuine mv w)
    (hstep : step lower mv w = some w') : Genuine w'.db := by
  cases mv with
  | serve index =>
      simp only [ProviderEditing.step, Option.bind_eq_bind, Option.bind_eq_some_iff,
        Option.some.injEq] at hstep
      obtain ⟨request, hget, rfl⟩ := hstep
      cases hhandle : handle request w.db with
      | none => exact h
      | some db =>
          refine genuine_handle h (hkept.sent request (List.mem_of_getElem? hget)) ?_ hhandle
          rintro payload rfl
          exact hcreates payload hget
  | openCreate | close | delete | lose =>
      obtain rfl := Option.some.inj hstep
      exact h
  | fill =>
      simp only [ProviderEditing.step, Option.bind_eq_bind, Option.bind_eq_some_iff,
        Option.some.injEq] at hstep
      obtain ⟨form, -, rfl⟩ := hstep
      exact h
  | openEdit | submit =>
      simp only [ProviderEditing.step, Option.bind_eq_bind, Option.bind_eq_some_iff,
        Option.some.injEq] at hstep
      obtain ⟨-, -, -, -, rfl⟩ := hstep
      exact h

/-- `str.lower` on the letters of ASCII. -/
def asciiLower (text : Chars) : Chars :=
  text.map Char.toLower

def tenantProvider : LlmProvider :=
  { openai.toRow 0 with
    defaultHeaders := mappingJson [("X-Api-Key", "k1"), ("X-Tenant", "quality")] }

def tenantDb : Db where
  providers := [tenantProvider]
  nextId := 1

def tenantSummary : LlmProviderSummary where
  id := 0
  displayName := "OpenAI"
  description := none
  providerType := "openai"
  baseUrl := none
  defaultHeaders := [("X-Api-Key", "k1"), ("X-Tenant", "quality")]
  defaultQuery := []
  models := ["gpt-4.1"]
  enabled := true
  apiKeyConfigured := false

theorem shown_tenantSummary : Shown asciiLower tenantSummary where
  displayName := by decide
  description := by simp [ShownText, tenantSummary]
  providerType := by decide
  baseUrl := by simp [ShownText, tenantSummary]
  headers := by
    have hmask : maskMapping asciiLower tenantSummary.defaultHeaders =
        [("X-Api-Key".toList, redactedValue), ("X-Tenant".toList, "quality".toList)] := by decide
    refine ⟨by decide, ?_⟩
    rw [hmask]
    refine ⟨?_, by decide⟩
    simp only [List.forall_mem_cons]
    exact ⟨⟨by decide, by decide, by decide, by decide, by decide, by decide⟩,
      ⟨by decide, by decide, by decide, by decide, by decide, by decide⟩, by simp⟩
  query := by
    refine ⟨by decide, ?_⟩
    refine ⟨?_, by decide⟩
    simp [tenantSummary, maskMapping, JsObject.ofEntries]
  models_nodup := by decide
  models := by decide

/-- One form is open while a provider is created in another one, and the row is deleted. -/
def opensBoth : List Move :=
  [.openEdit 1 0, .openCreate 2, .fill 2 { blank with displayName := "Other".toList }, .submit 2,
    .serve 0, .delete 0, .serve 0]

end Runs

end ChangeQuality.ProviderEditing
